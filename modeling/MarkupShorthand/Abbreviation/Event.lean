import MarkupShorthand.Abbreviation.Operator

/-!
# Events

What the reader of an abbreviation reports of its work, for a log.
-/

namespace MarkupShorthand

/-- How much detail an event is. -/
inductive Level where
  | debug
  | trace
deriving DecidableEq

/-- Something the reader did. -/
inductive Event where
  | parsing (abbreviation : String)
  | reserved (token : Token)
  | stackedClimb (levels : Nat)
  | applying (operator : Operator) (literal : String)
  | discarding (literal : String)
  | parsed (nodes : Nat)
deriving DecidableEq

/-- A detail of an event. -/
inductive EventField where
  | text (content : String)
  | number (n : Nat)
deriving DecidableEq

/-- A token as a log shows it: its kind, and a directive's characters. -/
def Token.describe : Token → String
  | directive content => "Directive(\"" ++ content ++ "\")"
  | token => token.kind

namespace Event

/-- Decisions are debugging output; what merely passes by is traced. -/
def level : Event → Level
  | parsing _ => .debug
  | reserved _ => .trace
  | stackedClimb _ => .trace
  | applying _ _ => .debug
  | discarding _ => .trace
  | parsed _ => .debug

/-- What happened. -/
def message : Event → String
  | parsing _ => "parsing abbreviation"
  | reserved _ => "reserved token"
  | stackedClimb _ => "stacked climb"
  | applying _ _ => "applying operator"
  | discarding _ => "discarding literal without operator"
  | parsed _ => "parsed abbreviation"

/-- The details, each with its name. -/
def fields : Event → List (String × EventField)
  | parsing abbreviation => [("abbreviation", .text abbreviation)]
  | reserved token => [("token", .text token.describe)]
  | stackedClimb levels => [("levels", .number levels)]
  | applying operator literal => [("operator", .text operator.symbol), ("literal", .text literal)]
  | discarding literal => [("literal", .text literal)]
  | parsed nodes => [("nodes", .number nodes)]

end Event

end MarkupShorthand
