import MarkupShorthand.Abbreviation.Token

/-!
# Operators

What a token does to the tree. The positional operators `>`, `+` and `^` place a new node some
levels above the current one; a `^` that follows a positional operator still waiting for its literal
adds a level to it (`Pending.stackClimb`), so that `a>b>c^^d` puts `d` beside `a`.
-/

namespace MarkupShorthand

/-- What a token does. -/
inductive Operator where
  | child
  | sibling
  | climb
  | idAttribute
  | classAttribute
  | multiply
  /-- What brackets and directives do: nothing. -/
  | inert
deriving DecidableEq

namespace Operator

/-- The sign that an operator is written with. -/
def symbol : Operator → String
  | child => ">"
  | sibling => "+"
  | climb => "^"
  | idAttribute => "#"
  | classAttribute => "."
  | multiply => "*"
  | inert => "reserved"

/-- For a positional operator, how many levels above the current node the new node's container is. -/
def levels? : Operator → Option Nat
  | child => some 0
  | sibling => some 1
  | climb => some 2
  | _ => none

/-- Whether an operator places a new node. -/
def isPositional (operator : Operator) : Bool :=
  operator.levels?.isSome

end Operator

/-- The operator that a token stands for; text stands for none. -/
def Token.operator? : Token → Option Operator
  | .child => some .child
  | .sibling => some .sibling
  | .climb => some .climb
  | .id => some .idAttribute
  | .className => some .classAttribute
  | .multiply => some .multiply
  | .text _ => none
  | _ => some .inert

/-- An operator that waits for its literal. -/
structure Pending where
  operator : Operator
  /-- Where the operator stands in the abbreviation, in bytes. -/
  offset : Nat
  /-- How many `^` were stacked on the operator. -/
  climbs : Nat := 0
deriving DecidableEq

namespace Pending

/-- The levels above the current node at which the new node's container is. -/
def levels (pending : Pending) : Nat :=
  pending.operator.levels?.getD 0 + pending.climbs

/-- The operator with one more `^` stacked on it; only a positional operator takes one. -/
def stackClimb? (pending : Pending) : Option Pending :=
  if pending.operator.isPositional then some { pending with climbs := pending.climbs + 1 } else none

/-- A stacked `^` adds one level. -/
theorem levels_of_stackClimb? {pending stacked : Pending} (h : pending.stackClimb? = some stacked) :
    stacked.levels = pending.levels + 1 := by
  unfold stackClimb? at h
  split at h
  · cases h; simp [levels, Nat.add_assoc]
  · simp at h

end Pending

end MarkupShorthand
