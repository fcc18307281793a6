import MarkupShorthand.Settings.Value
import MarkupShorthand.Text.Decimal

/-!
# Key paths

How a place among nested settings is written: names with points between them, and positions in
lists in brackets, from the front or with a minus from the back (`render.jumps`, `list[0].name`).
Spaces belong to the names they stand in.
-/

namespace MarkupShorthand

open Text

/-- A place among nested settings. -/
inductive KeyPath where
  | name (key : String)
  | child (parent : KeyPath) (key : String)
  | item (parent : KeyPath) (position : Int)

namespace KeyPath

/-- Whether a character may stand in a name; a space may, even at its ends. -/
def isNameChar (c : Char) : Bool :=
  c.isAlphanum || c == ' ' || c == '_' || c == '-'

/-- A name at the start of a text, and what follows it. -/
def name? (chars : List Char) : Option (String × List Char) :=
  match chars.takeWhile isNameChar with
  | [] => none
  | found => some (String.ofList found, chars.dropWhile isNameChar)

/-- Whether a character is a blank around a position. -/
def isBlank (c : Char) : Bool :=
  c == ' ' || c == '\t'

/-- The digits of a position, as a number of at most `limit`, and what follows them. -/
def digits? (limit : Nat) (chars : List Char) : Option (Nat × List Char) :=
  match chars.takeWhile Char.isDigit with
  | [] => none
  | digits =>
    let n := ofDecimal digits
    if n ≤ limit then some (n, chars.dropWhile Char.isDigit) else none

/-- A position up to its closing bracket, and what follows it. -/
def position? (chars : List Char) : Option (Int × List Char) := do
  let trimmed := chars.dropWhile isBlank
  let (position, rest) ← match trimmed with
    | '-' :: rest => (digits? (Nat.pow 2 63) rest).map fun (n, after) => (-(n : Int), after)
    | _ => (digits? (Nat.pow 2 63 - 1) trimmed).map fun (n, after) => ((n : Int), after)
  match rest.dropWhile isBlank with
  | ']' :: after => return (position, after)
  | _ => none

/-- The path that a path and the rest of its text make. Every step reads a character or more. -/
def extend? : Nat → KeyPath → List Char → Option KeyPath
  | _, path, [] => some path
  | 0, _, _ => none
  | steps + 1, path, '.' :: rest => do
    let (key, after) ← name? rest
    extend? steps (.child path key) after
  | steps + 1, path, '[' :: rest => do
    let (position, after) ← position? rest
    extend? steps (.item path position) after
  | _, _, _ => none

/-- The path that a text is. -/
def ofText? (text : String) : Option KeyPath := do
  let (key, rest) ← name? text.toList
  extend? rest.length (.name key) rest

/-- A list with the item at a position changed. As many missing items as it takes come behind the
others or, for a position from the back, before them. -/
def alterItem (items : List Setting) (position : Int) (f : Setting → Setting) : List Setting :=
  let missing (n : Nat) : List Setting := List.replicate n .absent
  if 0 ≤ position then
    let index := position.toNat
    (items ++ missing (index + 1 - items.length)).modify index f
  else
    let back := position.natAbs
    (missing (back - items.length) ++ items).modify (items.length - back) f

/-- Changes the setting at a path. What is on the way is made a table or a list if it is none. -/
def update : KeyPath → (Setting → Setting) → Setting → Setting
  | name key, f, root => .table (Setting.alter root.entries (lower key) fun v => f (v.getD .absent))
  | child parent key, f, root =>
    parent.update
      (fun above => .table (Setting.alter above.entries (lower key) fun v => f (v.getD .absent))) root
  | item parent position, f, root =>
    parent.update (fun above => .list (alterItem above.items position f)) root

/-- Lays a value over the setting at a path. -/
def put (path : KeyPath) (value root : Setting) : Setting :=
  match path with
  | name key => root.put key value
  | child parent key => parent.update (·.put key value) root
  | item parent position =>
    parent.update (fun above => .list (alterItem above.items position fun _ => value)) root

end KeyPath

/-- Lays the entries of a file over settings: a key that can be read as a path is one. -/
def Setting.putFile (base : Setting) (entries : List (String × Setting)) : Setting :=
  entries.foldl
    (fun root (key, value) => ((KeyPath.ofText? key).getD (.name key)).put value root) base

end MarkupShorthand
