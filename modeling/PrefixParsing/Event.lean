/-!
# Events

What a parser reports besides its result. A numeral that is found and cannot be a number is
reported where it stands; a text that is not parsed as a whole is reported once, at the end, with
the reason. An event is kept as its cause with the data of the cause. Its level, its wording and
its named fields are derived from that, so they are fixed in one place.
-/

namespace PrefixParsing

/-- How detailed an event is. -/
inductive Level where
  | trace
  | debug
deriving DecidableEq

/-- The content of one field of an event. -/
inductive Field where
  | number (n : Nat)
  | text (s : String)
deriving DecidableEq

/-- Something worth reporting about a run. Sizes and positions are in bytes. -/
inductive Event where
  /-- A run of digits spells a number that is too large. -/
  | integerTooLarge (digits : String)
  /-- A run of digits and points is no numeral. -/
  | malformedFraction (run : String)
  /-- A parser did not match the start of the whole text. -/
  | noMatch (inputSize : Nat)
  /-- A parser matched, and text was left over. -/
  | trailingInput (consumed remaining : Nat)
deriving DecidableEq

namespace Event

/-- Events about a single numeral are more severe than those about a whole parse. -/
def level : Event → Level
  | integerTooLarge _ | malformedFraction _ => .debug
  | noMatch _ | trailingInput _ _ => .trace

/-- The wording of an event. -/
def message : Event → String
  | integerTooLarge _ => "digit run does not fit in i64"
  | malformedFraction _ => "numeric run is not a valid float"
  | noMatch _ => "parser did not match"
  | trailingInput _ _ => "rejecting match with unconsumed trailing input"

/-- The named data of an event, in the order in which they are reported. -/
def fields : Event → List (String × Field)
  | integerTooLarge digits =>
    [("digits", .text digits), ("error", .text "number too large to fit in target type")]
  | malformedFraction run => [("run", .text run), ("error", .text "invalid float literal")]
  | noMatch inputSize => [("input_len", .number inputSize)]
  | trailingInput consumed remaining =>
    [("consumed", .number consumed), ("remaining", .number remaining)]

/-- What is written of an event. -/
structure Reads (event : Event) (level : Level) (message : String)
    (fields : List (String × Field)) : Prop where
  level_eq : event.level = level
  message_eq : event.message = message
  fields_eq : event.fields = fields

/-- The events as they are written: those about a numeral with its text and with what is wrong with
it, and those about a whole parse with sizes. -/
theorem reads_as (event : Event) :
    match event with
    | integerTooLarge digits =>
      event.Reads .debug "digit run does not fit in i64"
        [("digits", .text digits), ("error", .text "number too large to fit in target type")]
    | malformedFraction run =>
      event.Reads .debug "numeric run is not a valid float"
        [("run", .text run), ("error", .text "invalid float literal")]
    | noMatch inputSize =>
      event.Reads .trace "parser did not match" [("input_len", .number inputSize)]
    | trailingInput consumed remaining =>
      event.Reads .trace "rejecting match with unconsumed trailing input"
        [("consumed", .number consumed), ("remaining", .number remaining)] := by
  cases event <;> exact ⟨rfl, rfl, rfl⟩

theorem Reads.unique {event event' : Event} {level level' : Level} {message : String}
    {fields : List (String × Field)} (h : event.Reads level message fields)
    (h' : event'.Reads level' message fields) : event = event' := by
  have hmessage := h.message_eq.trans h'.message_eq.symm
  have hfields := h.fields_eq.trans h'.fields_eq.symm
  cases event <;> cases event' <;> simp_all [Event.message, Event.fields]

end Event

end PrefixParsing
