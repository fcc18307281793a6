/-!
# Slots

The place of a node among the copies that a multiplication made of it.
-/

namespace MarkupShorthand

/-- A place in a group of copies. A node that was never multiplied is the only one of its group. -/
structure Slot where
  /-- Which of the copies this is, from 1. -/
  position : Nat := 1
  /-- How many copies there are. -/
  count : Nat := 1
deriving DecidableEq

end MarkupShorthand
