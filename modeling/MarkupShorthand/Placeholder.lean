import MarkupShorthand.Text.Decimal

/-!
# Placeholders

A run of `$` in an attribute's value stands for the number of the node that carries it.
`substitute` puts the number in place of the first run and leaves later runs as they are. It does so
for runs of every length; a program that has its numbers padded by a formatter whose widths end at
65535 stops at longer runs.
-/

namespace MarkupShorthand.Placeholder

open Text

/-- The characters of a value cut at its first run of `$`: what is before it, the run, and what is
behind it. A value without `$` is all before the run. -/
def split (value : List Char) : List Char × List Char × List Char :=
  let behind := value.dropWhile (· != '$')
  (value.takeWhile (· != '$'), behind.takeWhile (· == '$'), behind.dropWhile (· == '$'))

/-- The three parts of a split are the whole value. -/
theorem split_append (value : List Char) :
    (split value).1 ++ ((split value).2.1 ++ (split value).2.2) = value := by
  simp [split]

/-- A value with its first run of `$` replaced by `index`, which is padded with zeros to the length
of the run. -/
def substitute (value : String) (index : Nat) : String :=
  match split value.toList with
  | (_, [], _) => value
  | (before, run, after) => String.ofList (before ++ padded run.length index ++ after)

end MarkupShorthand.Placeholder
