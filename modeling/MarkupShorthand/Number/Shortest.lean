import MarkupShorthand.Number.Binary64
import MarkupShorthand.Text.Decimal

/-!
# Shortest decimals

The decimal with the fewest digits that reads back as a given double, and the nearest of those; the
greater one where two are equally near.
`Binary64.text` writes it without an exponent, and without a point if it is whole.
-/

namespace MarkupShorthand

/-- A decimal `digits * 10 ^ exponent`. -/
structure Decimal where
  digits : Nat
  exponent : Int
deriving DecidableEq

namespace Decimal

/-- The decimal as a fraction. -/
def toFraction (d : Decimal) : Fraction :=
  Fraction.scale ⟨d.digits, 1⟩ 10 d.exponent

/-- The decimal without an exponent. -/
def text (d : Decimal) : List Char :=
  if 0 ≤ d.exponent then Text.decimal d.digits ++ List.replicate d.exponent.toNat '0'
  else
    let places := (-d.exponent).toNat
    let padded := Text.padded (places + 1) d.digits
    let whole := padded.length - places
    padded.take whole ++ '.' :: padded.drop whole

end Decimal

namespace Binary64

/-- Of the two multiples of `10 ^ exponent` around a double, the nearest that reads back as it; of
two equally near, the greater one. -/
def onGrid? (x : Binary64) (exponent : Int) : Option Decimal :=
  let exact := x.toFraction.scale 10 (-exponent)
  let low : Decimal := ⟨exact.floor, exponent⟩
  let high : Decimal := ⟨exact.floor + 1, exponent⟩
  let near : Decimal := ⟨exact.roundUp, exponent⟩
  if x.isNearest near.toFraction then some near
  else if x.isNearest low.toFraction then some low
  else if x.isNearest high.toFraction then some high
  else none

/-- The first hit on the grids `10 ^ exponent`, `10 ^ (exponent - 1)`, and so on. -/
def search (x : Binary64) : Nat → Int → Option Decimal
  | 0, _ => none
  | grids + 1, exponent =>
    match x.onGrid? exponent with
    | some d => some d
    | none => x.search grids (exponent - 1)

/-- The shortest decimal that reads back as a double. A power of ten above the double starts the
search, and seventeen digits are always enough for its end. -/
def shortest (x : Binary64) : Decimal :=
  if x.mantissa = 0 then ⟨0, 0⟩
  else
    let start : Int := (x.mantissa.log2 + x.exponent) * 30103 / 100000 + 1
    (x.search 20 start).getD ⟨0, 0⟩

/-- A double as it is written. -/
def text (x : Binary64) : List Char :=
  x.shortest.text

end Binary64

end MarkupShorthand
