/-!
# Tab stops

Places to type at are numbered from 1 in the order in which they are written.
-/

namespace MarkupShorthand

/-- Hands out the numbers of tab stops. -/
structure StopCounter where
  /-- The number of the next tab stop. -/
  next : Nat := 1
deriving DecidableEq

namespace StopCounter

/-- The next number, and the counter behind it. -/
def advance (counter : StopCounter) : Nat × StopCounter :=
  (counter.next, ⟨counter.next + 1⟩)

/-- The next `n` numbers. -/
def take (counter : StopCounter) : Nat → List Nat
  | 0 => []
  | n + 1 => counter.advance.1 :: counter.advance.2.take n

/-- The numbers follow one another. -/
theorem take_eq_range' (counter : StopCounter) (n : Nat) :
    counter.take n = List.range' counter.next n := by
  induction n generalizing counter with
  | zero => rfl
  | succ n ih => simp [take, advance, ih, List.range'_succ]

end StopCounter

/-- A piece of markup: plain text or a tab stop. -/
inductive Piece where
  | text (content : String)
  | stop (id : Nat)
deriving DecidableEq

/-- A piece as it is written. -/
def Piece.write : Piece → String
  | text content => content
  | stop id => s!"${id}"

end MarkupShorthand
