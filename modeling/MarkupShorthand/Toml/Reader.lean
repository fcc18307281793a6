import MarkupShorthand.Toml.Table
import MarkupShorthand.Toml.Text

/-!
# Reading TOML

The entries of a TOML document: lines with a key and a value, headers of tables and of repeated
tables, comments and empty lines. A document that breaks a rule has no meaning at all.
-/

namespace MarkupShorthand.Toml

/-- Lists and tables between braces are open inside one another fewer times than this. -/
def maxNesting : Nat := 80

/-- What follows an equals sign between blanks. -/
def equals? (chars : List Char) : Option (List Char) :=
  match chars with
  | '=' :: rest => some (skipBlanks rest)
  | _ => none

/-- A number or a date at the start of a text, and what follows it. -/
def numeral? (chars : List Char) : Option (Toml × List Char) :=
  match dateTime? chars with
  | some (d, after) => some (.dateTime d, after)
  | none =>
    match decimal? chars with
    | some (x, after) => some (.float x, after)
    | none =>
      match special? chars with
      | some (x, after) => some (.float x, after)
      | none => (integer? chars).map fun (n, after) => (.integer n, after)

mutual

/-- The value at the start of a text, and what follows it; `nesting` more lists and tables may be
opened. -/
def value? (nesting : Nat) : Nat → List Char → Option (Toml × List Char)
  | 0, _ => none
  | steps + 1, chars =>
    match chars with
    | '[' :: rest =>
      if nesting = 0 then none
      else (items? (nesting - 1) steps rest).map fun (items, after) => (.array items, after)
    | '\x7b' :: rest =>
      if nesting = 0 then none
      else
        match skipBlanks rest with
        | '\x7d' :: after => some (.table .braces [], after)
        | rest =>
          (pairs? (nesting - 1) [] steps rest).map fun (entries, after) =>
            (.table .braces entries, after)
    | 't' :: 'r' :: 'u' :: 'e' :: after => some (.boolean true, after)
    | 'f' :: 'a' :: 'l' :: 's' :: 'e' :: after => some (.boolean false, after)
    | c :: _ =>
      if c = '\x22' ∨ c = '\x27' then
        (string? (steps + 1) chars).map fun (text, after) => (.string text, after)
      else numeral? chars
    | [] => none

/-- The items of a list up to its closing bracket, and what follows it. A comma may follow the last
item, and lines may be broken between items. -/
def items? (nesting : Nat) : Nat → List Char → Option (List Toml × List Char)
  | 0, _ => none
  | steps + 1, chars =>
    match skipLines (steps + 1) chars with
    | ']' :: after => some ([], after)
    | rest => do
      let (item, rest) ← value? nesting steps rest
      match skipLines (steps + 1) rest with
      | ',' :: rest =>
        let (more, after) ← items? nesting steps rest
        return (item :: more, after)
      | ']' :: after => return ([item], after)
      | _ => none

/-- One or more pairs of key and value up to the closing brace, put behind the entries so far, and
what follows it. All of them stand on one line. -/
def pairs? (nesting : Nat) (entries : Entries) : Nat → List Char → Option (Entries × List Char)
  | 0, _ => none
  | steps + 1, chars => do
    let (path, rest) ← key? (steps + 1) (maxKeyParts - 1) chars
    let (value, rest) ← value? nesting steps (← equals? rest)
    let entries ← entries.insert? .braces path.dropLast (path.getLast?.getD "") value
    match skipBlanks rest with
    | ',' :: rest => pairs? nesting entries steps rest
    | '\x7d' :: after => return (entries, after)
    | _ => none

end

/-- A document in the making: its entries, and the header of the table that is open. -/
structure OpenDocument where
  entries : Entries := []
  header : List String := []

/-- The document with one more of its lines, which starts with neither blanks nor a line break nor a
comment, and the lines behind it. -/
def OpenDocument.line? (document : OpenDocument) (steps : Nat) (chars : List Char) :
    Option (OpenDocument × List Char) :=
  match chars with
  | '[' :: '[' :: rest => do
    let (path, rest) ← key? steps (maxKeyParts - 1) rest
    let entries ← document.entries.openNext? path.dropLast (path.getLast?.getD "")
    match rest with
    | ']' :: ']' :: rest => return (⟨entries, path⟩, ← endOfLine? rest)
    | _ => none
  | '[' :: rest => do
    let (path, rest) ← key? steps (maxKeyParts - 1) rest
    let entries ← document.entries.openTable? path.dropLast (path.getLast?.getD "")
    match rest with
    | ']' :: rest => return (⟨entries, path⟩, ← endOfLine? rest)
    | _ => none
  | _ => do
    let (path, rest) ← key? steps (maxKeyParts - 1) chars
    let (value, rest) ← value? (maxNesting - 1) steps (← equals? rest)
    let entries ←
      document.entries.insertBelow? document.header path.dropLast (path.getLast?.getD "") value
    return ({ document with entries := entries }, ← endOfLine? rest)

/-- The entries of a document whose remaining lines are given; `bound` steps are enough for each. -/
def OpenDocument.lines? (bound : Nat) (document : OpenDocument) :
    Nat → List Char → Option Entries
  | 0, _ => none
  | steps + 1, chars =>
    match skipLines bound chars with
    | [] => some document.entries
    | rest => do
      let (document, rest) ← document.line? bound rest
      document.lines? bound steps rest

/-- A text without the byte order mark in front of it. -/
def skipByteOrderMark : List Char → List Char
  | '\ufeff' :: rest => rest
  | chars => chars

/-- The entries of a document. A value takes two steps for every list or table that is open and one
for every item before it, so twice the length of the text is enough. -/
def document? (text : String) : Option Entries :=
  let chars := skipByteOrderMark text.toList
  let bound := 2 * chars.length + 2
  OpenDocument.lines? bound {} bound chars

end MarkupShorthand.Toml
