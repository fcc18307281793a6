import MarkupShorthand.Json.Value

/-!
# Writing JSON

A JSON value over several lines: two spaces per level, one item or field per line, and nothing
between the brackets of an empty list. Only quotes, backslashes and control characters are escaped.
-/

namespace MarkupShorthand.Json

/-- The lower-case hexadecimal digit of a number below 16. -/
def hexDigit (n : Nat) : Char :=
  Nat.digitChar n

/-- A character as it stands between quotes. -/
def escape (c : Char) : List Char :=
  match c with
  | '\x22' => ['\\', '\x22']
  | '\\' => ['\\', '\\']
  | '\x08' => ['\\', 'b']
  | '\t' => ['\\', 't']
  | '\n' => ['\\', 'n']
  | '\x0c' => ['\\', 'f']
  | '\r' => ['\\', 'r']
  | c =>
    if c.toNat < 0x20 then
      ['\\', 'u', '0', '0', hexDigit (c.toNat / 16), hexDigit (c.toNat % 16)]
    else [c]

/-- A text between quotes. -/
def quote (text : String) : String :=
  "\"" ++ String.ofList (text.toList.flatMap escape) ++ "\""

/-- A line break and the indentation of a line at a depth. -/
def newline (depth : Nat) : String :=
  "\n" ++ "".pushn ' ' (2 * depth)

mutual

/-- Writes a value that starts at a depth, behind what is already written. A string without a text
has nothing that could be written and stands as an empty one. -/
def write (depth : Nat) (written : String) : Json → String
  | null => written ++ "null"
  | bool b => written ++ (if b then "true" else "false")
  | number literal => written ++ String.ofList literal
  | string text => written ++ quote (text.getD "")
  | array [] => written ++ "[]"
  | array (item :: rest) =>
    let started := item.write (depth + 1) (written ++ "[" ++ newline (depth + 1))
    writeItems (depth + 1) started rest ++ newline depth ++ "]"
  | object [] => written ++ "\x7b\x7d"
  | object ((name, value) :: rest) =>
    let started := value.write (depth + 1)
      (written ++ "\x7b" ++ newline (depth + 1) ++ quote (name.getD "") ++ ": ")
    writeFields (depth + 1) started rest ++ newline depth ++ "\x7d"

/-- Writes the items behind the first one, each on its own line. -/
def writeItems (depth : Nat) (written : String) : List Json → String
  | [] => written
  | item :: rest => writeItems depth (item.write depth (written ++ "," ++ newline depth)) rest

/-- Writes the fields behind the first one, each on its own line. -/
def writeFields (depth : Nat) (written : String) : List (Option String × Json) → String
  | [] => written
  | (name, value) :: rest =>
    writeFields depth
      (value.write depth (written ++ "," ++ newline depth ++ quote (name.getD "") ++ ": ")) rest

end

/-- A JSON value as text. -/
def pretty (value : Json) : String :=
  value.write 0 ""

end MarkupShorthand.Json
