import MarkupShorthand.Json.Value

/-!
# Reading JSON

The value of a JSON text. The grammar is the strict one: no comments, no trailing commas, no control
characters in strings, numbers without leading zeros, blanks around every word.

* `stringUnits`, `joinUnits`: the characters and escapes of a string, and the text they make;
* `numberLiteral`: the longest number at the start of a text;
* `ofText?`: a whole text.
-/

namespace MarkupShorthand.Json

/-- Whether a character may stand between words. -/
def isBlank (c : Char) : Bool :=
  c == ' ' || c == '\n' || c == '\t' || c == '\r'

/-- A text without the blanks in front of it. -/
def skipBlanks (chars : List Char) : List Char :=
  chars.dropWhile isBlank

/-! ## Strings -/

/-- What a string is written with: a character, or the escaped half of a surrogate pair. -/
inductive StringUnit where
  | char (c : Char)
  | half (code : Nat)

/-- The value of a hexadecimal digit of either case. -/
def hexValue? (c : Char) : Option Nat :=
  if c.isDigit then some (c.toNat - '0'.toNat)
  else if 'a' ≤ c ∧ c ≤ 'f' then some (c.toNat - 'a'.toNat + 10)
  else if 'A' ≤ c ∧ c ≤ 'F' then some (c.toNat - 'A'.toNat + 10)
  else none

/-- The unit that an escape with four hexadecimal digits stands for. -/
def hexUnit? (a b c d : Char) : Option StringUnit := do
  let code := (((← hexValue? a) * 16 + (← hexValue? b)) * 16 + (← hexValue? c)) * 16 + (← hexValue? d)
  if 0xD800 ≤ code ∧ code < 0xE000 then return .half code else return .char (Char.ofNat code)

/-- The character that a backslash and a sign stand for. -/
def escaped? : Char → Option Char
  | '\x22' => some '\x22'
  | '\\' => some '\\'
  | '/' => some '/'
  | 'b' => some '\x08'
  | 'f' => some '\x0c'
  | 'n' => some '\n'
  | 'r' => some '\r'
  | 't' => some '\t'
  | _ => none

/-- The units of a string behind its opening quote, and what follows its closing quote. -/
def stringUnits : List Char → Option (List StringUnit × List Char)
  | [] => none
  | '\x22' :: rest => some ([], rest)
  | '\\' :: 'u' :: a :: b :: c :: d :: rest => do
    let unit ← hexUnit? a b c d
    let (units, after) ← stringUnits rest
    return (unit :: units, after)
  | '\\' :: sign :: rest => do
    let c ← escaped? sign
    let (units, after) ← stringUnits rest
    return (.char c :: units, after)
  | c :: rest =>
    if c = '\\' ∨ c.toNat < 0x20 then none
    else do
      let (units, after) ← stringUnits rest
      return (.char c :: units, after)

/-- The character of a surrogate pair. -/
def pair? (high low : Nat) : Option Char :=
  if 0xD800 ≤ high ∧ high < 0xDC00 ∧ 0xDC00 ≤ low ∧ low < 0xE000 then
    some (Char.ofNat (0x10000 + (high - 0xD800) * 0x400 + (low - 0xDC00)))
  else none

/-- The characters that units make: halves only count in pairs. -/
def joinUnits : List StringUnit → Option (List Char)
  | [] => some []
  | .char c :: rest => (joinUnits rest).map (c :: ·)
  | .half high :: .half low :: rest => do
    let c ← pair? high low
    let chars ← joinUnits rest
    return c :: chars
  | .half _ :: _ => none

/-- A string behind its opening quote, and what follows it. -/
def stringText (chars : List Char) : Option (Option String × List Char) := do
  let (units, after) ← stringUnits chars
  return ((joinUnits units).map String.ofList, after)

/-! ## Numbers -/

/-- The digits at the start of a text and what follows them; there must be one. -/
def digits1 (chars : List Char) : Option (List Char × List Char) :=
  match chars.takeWhile Char.isDigit with
  | [] => none
  | digits => some (digits, chars.dropWhile Char.isDigit)

/-- The digits before the point: a zero stands alone. -/
def wholePart : List Char → Option (List Char × List Char)
  | '0' :: rest => some (['0'], rest)
  | chars => digits1 chars

/-- A point and the digits behind it, if there is a point. -/
def fraction : List Char → Option (List Char × List Char)
  | '.' :: rest => do
    let (digits, after) ← digits1 rest
    return ('.' :: digits, after)
  | chars => some ([], chars)

/-- A sign, if there is one. -/
def exponentSign : List Char → List Char × List Char
  | '+' :: rest => (['+'], rest)
  | '-' :: rest => (['-'], rest)
  | chars => ([], chars)

/-- An exponent, if there is one. -/
def exponent : List Char → Option (List Char × List Char)
  | c :: rest =>
    if c = 'e' ∨ c = 'E' then do
      let (sign, behind) := exponentSign rest
      let (digits, after) ← digits1 behind
      return (c :: sign ++ digits, after)
    else some ([], c :: rest)
  | [] => some ([], [])

/-- A number without its sign. -/
def unsigned (chars : List Char) : Option (List Char × List Char) := do
  let (whole, rest) ← wholePart chars
  let (decimals, rest) ← fraction rest
  let (power, rest) ← exponent rest
  return (whole ++ decimals ++ power, rest)

/-- The number at the start of a text, and what follows it. -/
def numberLiteral : List Char → Option (List Char × List Char)
  | '-' :: rest => (unsigned rest).map fun (literal, after) => ('-' :: literal, after)
  | chars => unsigned chars

/-! ## Values -/

mutual

/-- The value at the start of a text, and what follows it. A text with `n` characters needs no more
than `2 * n` steps. -/
def value : Nat → List Char → Option (Json × List Char)
  | 0, _ => none
  | steps + 1, chars =>
    match skipBlanks chars with
    | '\x22' :: rest => (stringText rest).map fun (text, after) => (string text, after)
    | '[' :: rest =>
      match skipBlanks rest with
      | ']' :: after => some (array [], after)
      | rest => (items steps rest).map fun (items, after) => (array items, after)
    | '\x7b' :: rest =>
      match skipBlanks rest with
      | '\x7d' :: after => some (object [], after)
      | rest => (fields steps rest).map fun (fields, after) => (object fields, after)
    | 't' :: 'r' :: 'u' :: 'e' :: after => some (bool true, after)
    | 'f' :: 'a' :: 'l' :: 's' :: 'e' :: after => some (bool false, after)
    | 'n' :: 'u' :: 'l' :: 'l' :: after => some (null, after)
    | rest => (numberLiteral rest).map fun (literal, after) => (number literal, after)

/-- One or more items up to the closing bracket, and what follows it. -/
def items : Nat → List Char → Option (List Json × List Char)
  | 0, _ => none
  | steps + 1, chars => do
    let (item, rest) ← value steps chars
    match skipBlanks rest with
    | ',' :: rest =>
      let (more, after) ← items steps rest
      return (item :: more, after)
    | ']' :: after => return ([item], after)
    | _ => none

/-- One or more fields up to the closing brace, and what follows it. -/
def fields : Nat → List Char → Option (List (Option String × Json) × List Char)
  | 0, _ => none
  | steps + 1, chars =>
    match skipBlanks chars with
    | '\x22' :: rest => do
      let (name, rest) ← stringText rest
      match skipBlanks rest with
      | ':' :: rest =>
        let (value, rest) ← value steps rest
        match skipBlanks rest with
        | ',' :: rest =>
          let (more, after) ← fields steps rest
          return ((name, value) :: more, after)
        | '\x7d' :: after => return ([(name, value)], after)
        | _ => none
      | _ => none
    | _ => none

end

/-- The value of a text that holds one value and blanks. -/
def ofText? (text : String) : Option Json := do
  let chars := text.toList
  let (value, after) ← value (2 * chars.length + 1) chars
  if (skipBlanks after).isEmpty then return value else none

end MarkupShorthand.Json
