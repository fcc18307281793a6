/-!
# Double precision

The double nearest to a positive fraction, in exact arithmetic. A double is `mantissa * 2 ^ exponent`
with a mantissa below `2 ^ 53` and an exponent of at least `-1074`; of two doubles equally near the
one with the even mantissa is taken.
-/

namespace MarkupShorthand

/-- A double that is not negative. -/
structure Binary64 where
  mantissa : Nat
  exponent : Int
deriving DecidableEq

/-- A fraction that is not negative. -/
structure Fraction where
  numerator : Nat
  denominator : Nat
deriving DecidableEq

namespace Fraction

/-- The fraction times `base ^ power`. -/
def scale (f : Fraction) (base : Nat) (power : Int) : Fraction :=
  if 0 ≤ power then ⟨f.numerator * Nat.pow base power.toNat, f.denominator⟩
  else ⟨f.numerator, f.denominator * Nat.pow base (-power).toNat⟩

/-- The greatest whole number that is not above the fraction. -/
def floor (f : Fraction) : Nat :=
  f.numerator / f.denominator

/-- The whole number nearest to the fraction, the even one of two that are equally near. -/
def round (f : Fraction) : Nat :=
  let whole := f.floor
  let rest := 2 * (f.numerator % f.denominator)
  if rest < f.denominator ∨ (rest = f.denominator ∧ whole % 2 = 0) then whole else whole + 1

/-- The whole number nearest to the fraction, the greater one of two that are equally near. -/
def roundUp (f : Fraction) : Nat :=
  (2 * f.numerator + f.denominator) / (2 * f.denominator)

/-- Whether a fraction is at most another. -/
def le (f g : Fraction) : Bool :=
  f.numerator * g.denominator ≤ g.numerator * f.denominator

/-- Whether a fraction is below another. -/
def lt (f g : Fraction) : Bool :=
  f.numerator * g.denominator < g.numerator * f.denominator

/-- The power of two in the leading binary digit of a positive fraction. -/
def leadingBit (f : Fraction) : Int :=
  let guess : Int := (f.numerator.log2 : Int) - f.denominator.log2
  if (Fraction.scale ⟨1, 1⟩ 2 guess).le f then guess else guess - 1

end Fraction

namespace Binary64

/-- The double as a fraction. -/
def toFraction (x : Binary64) : Fraction :=
  Fraction.scale ⟨x.mantissa, 1⟩ 2 x.exponent

/-- The double nearest to a fraction; there is none for one that rounds beyond the largest. -/
def nearest? (f : Fraction) : Option Binary64 :=
  if f.numerator = 0 then some ⟨0, -1074⟩
  else
    let exponent := max (f.leadingBit - 52) (-1074)
    let mantissa := (f.scale 2 (-exponent)).round
    let rounded : Binary64 :=
      if mantissa = Nat.pow 2 53 then ⟨Nat.pow 2 52, exponent + 1⟩ else ⟨mantissa, exponent⟩
    if rounded.exponent > 971 then none else some rounded

/-- Whether every fraction between the halfway points around a double, both left out, is nearest to
it, and for an even mantissa those points too: whether `f` is such a fraction. -/
def isNearest (x : Binary64) (f : Fraction) : Bool :=
  let above : Fraction := Fraction.scale ⟨2 * x.mantissa + 1, 2⟩ 2 x.exponent
  let below : Fraction :=
    if x.mantissa = Nat.pow 2 52 ∧ x.exponent > -1074 then
      Fraction.scale ⟨4 * x.mantissa - 1, 4⟩ 2 x.exponent
    else Fraction.scale ⟨2 * x.mantissa - 1, 2⟩ 2 x.exponent
  if x.mantissa % 2 = 0 then below.le f && f.le above else below.lt f && f.lt above

end Binary64

end MarkupShorthand
