import MarkupShorthand.Number.Shortest

/-!
# TOML numbers

Whole numbers in four bases and decimals with a point or an exponent, both with single underscores
between digits.
-/

namespace MarkupShorthand.Toml

/-- A number that is not whole. -/
inductive Float where
  | nan
  | infinity (negative : Bool)
  | finite (negative : Bool) (magnitude : Binary64)
deriving DecidableEq

/-- A float as it is written. -/
def Float.text : Float → String
  | nan => "NaN"
  | infinity negative => if negative then "-inf" else "inf"
  | finite negative magnitude =>
    (if negative then "-" else "") ++ String.ofList magnitude.text

/-- Whether a float is zero; the sign does not matter. -/
def Float.isZero : Float → Bool
  | finite _ magnitude => magnitude.mantissa == 0
  | _ => false

/-- A sign, if there is one: whether it is a minus, and what follows it. -/
def sign : List Char → Bool × List Char
  | '-' :: rest => (true, rest)
  | '+' :: rest => (false, rest)
  | chars => (false, chars)

/-- The digits at the start of a text, with underscores between them left out, and what follows. -/
def moreDigits (isDigit : Char → Bool) : List Char → List Char × List Char
  | '_' :: c :: rest =>
    if isDigit c then
      let (digits, after) := moreDigits isDigit rest
      (c :: digits, after)
    else ([], '_' :: c :: rest)
  | c :: rest =>
    if isDigit c then
      let (digits, after) := moreDigits isDigit rest
      (c :: digits, after)
    else ([], c :: rest)
  | [] => ([], [])

/-- One or more digits, and what follows them. -/
def digits? (isDigit : Char → Bool) : List Char → Option (List Char × List Char)
  | c :: rest =>
    if isDigit c then
      let (digits, after) := moreDigits isDigit rest
      some (c :: digits, after)
    else none
  | [] => none

/-- The digits of a whole number: a zero stands alone. -/
def wholeDigits? : List Char → Option (List Char × List Char)
  | '0' :: rest => some (['0'], rest)
  | chars => digits? Char.isDigit chars

/-- Whether a character is a hexadecimal digit. -/
def isHexDigit (c : Char) : Bool :=
  c.isDigit || ('a' ≤ c && c ≤ 'f') || ('A' ≤ c && c ≤ 'F')

/-- The value of a hexadecimal digit. -/
def digitValue (c : Char) : Nat :=
  if c.isDigit then c.toNat - '0'.toNat
  else if 'a' ≤ c then c.toNat - 'a'.toNat + 10
  else c.toNat - 'A'.toNat + 10

/-- The number that digits stand for in a base. -/
def ofDigits (base : Nat) (digits : List Char) : Nat :=
  digits.foldl (fun value c => base * value + digitValue c) 0

/-- A whole number, if it fits into 64 bits with a sign. -/
def integer64? (negative : Bool) (magnitude : Nat) : Option Int :=
  if negative then if magnitude ≤ Nat.pow 2 63 then some (-magnitude) else none
  else if magnitude < Nat.pow 2 63 then some magnitude else none

/-- A whole number without a sign in a base named by the character behind its zero. -/
def based? (base : Nat) (isDigit : Char → Bool) (chars : List Char) :
    Option (Int × List Char) := do
  let (digits, after) ← digits? isDigit chars
  return (← integer64? false (ofDigits base digits), after)

/-- The whole number at the start of a text, and what follows it. -/
def integer? : List Char → Option (Int × List Char)
  | '0' :: 'x' :: rest => based? 16 isHexDigit rest
  | '0' :: 'o' :: rest => based? 8 (fun c => '0' ≤ c && c ≤ '7') rest
  | '0' :: 'b' :: rest => based? 2 (fun c => c == '0' || c == '1') rest
  | chars => do
    let (negative, rest) := sign chars
    let (digits, after) ← wholeDigits? rest
    return (← integer64? negative (ofDigits 10 digits), after)

/-- A point with digits, if there is a point. -/
def fraction? : List Char → Option (List Char × List Char)
  | '.' :: rest => digits? Char.isDigit rest
  | chars => some ([], chars)

/-- An exponent, if there is one. -/
def exponent? : List Char → Option (Int × List Char)
  | c :: rest =>
    if c = 'e' ∨ c = 'E' then do
      let (negative, behind) := sign rest
      let (digits, after) ← digits? Char.isDigit behind
      let magnitude : Int := ofDigits 10 digits
      return (if negative then -magnitude else magnitude, after)
    else some (0, c :: rest)
  | [] => some (0, [])

/-- Beyond this, a power of ten decides on its own whether a number is zero or infinite. -/
def maxPower : Int := 1000

/-- The double nearest to `digits * 10 ^ exponent`; there is none for one that is too large. Powers
that take a number far out of range are not computed. -/
def nearest? (digits : List Char) (exponent : Int) : Option Binary64 :=
  let n := ofDigits 10 digits
  let leading := exponent + digits.length
  if n = 0 ∨ leading < -maxPower then some ⟨0, -1074⟩
  else if leading - digits.length > maxPower then none
  else Binary64.nearest? (Decimal.toFraction ⟨n, exponent⟩)

/-- The number with a point or an exponent at the start of a text, and what follows it. One that is
too large is refused if it is positive. -/
def decimal? (chars : List Char) : Option (Float × List Char) := do
  let (negative, rest) := sign chars
  let (whole, rest) ← wholeDigits? rest
  let (decimals, behind) ← fraction? rest
  let (power, after) ← exponent? behind
  if after.length = rest.length then none
  else
    match nearest? (whole ++ decimals) (power - decimals.length) with
    | some magnitude => return (.finite negative magnitude, after)
    | none => if negative then return (.infinity true, after) else none

/-- Infinity or no number at the start of a text, and what follows it. -/
def special? (chars : List Char) : Option (Float × List Char) :=
  let (negative, rest) := sign chars
  match rest with
  | 'i' :: 'n' :: 'f' :: after => some (.infinity negative, after)
  | 'n' :: 'a' :: 'n' :: after => some (.nan, after)
  | _ => none

end MarkupShorthand.Toml
