import PrefixParsing.Description
import PrefixParsing.Grammar.Catalogue
import PrefixParsing.Proofs.Applicatives
import PrefixParsing.Proofs.Atomicity
import PrefixParsing.Proofs.Bumps
import PrefixParsing.Proofs.Concatenation
import PrefixParsing.Proofs.CoordinateGrammar
import PrefixParsing.Proofs.DelimitedIntegers
import PrefixParsing.Proofs.Descriptions
import PrefixParsing.Proofs.Desugaring
import PrefixParsing.Proofs.Erasure
import PrefixParsing.Proofs.FractionRuns
import PrefixParsing.Proofs.Fractions
import PrefixParsing.Proofs.Integers
import PrefixParsing.Proofs.LeadingRuns
import PrefixParsing.Proofs.LiteralChains
import PrefixParsing.Proofs.Lookahead
import PrefixParsing.Proofs.Loops
import PrefixParsing.Proofs.OperatorChains
import PrefixParsing.Proofs.PiecesInPlace
import PrefixParsing.Proofs.QuotedTexts
import PrefixParsing.Proofs.Relocation
import PrefixParsing.Proofs.Reports
import PrefixParsing.Proofs.Rollback
import PrefixParsing.Proofs.Rounding
import PrefixParsing.Proofs.Sessions
import PrefixParsing.Proofs.Signs
import PrefixParsing.Proofs.Stepping
import PrefixParsing.Proofs.Stranded
import PrefixParsing.Proofs.Terms
