/-!
# JSON values

The values that a JSON text denotes, as far as reading and writing trees needs them: a number keeps
the characters it is written with, and the fields of an object keep their order and repetitions.
-/

namespace MarkupShorthand

/-- A JSON value. -/
inductive Json where
  | null
  | bool (b : Bool)
  /-- A number as it is written. -/
  | number (literal : List Char)
  /-- A string; there is no text for one that escapes half of a surrogate pair alone. -/
  | string (text : Option String)
  | array (items : List Json)
  | object (fields : List (Option String × Json))

end MarkupShorthand
