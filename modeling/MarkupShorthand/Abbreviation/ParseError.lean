import MarkupShorthand.Abbreviation.Operator

/-!
# Parse errors

What can be wrong with an abbreviation, where, and how it is said.
-/

namespace MarkupShorthand

/-- The deepest level a node may be placed at; top-level nodes are at level 0. -/
def maxDepth : Nat := 512

/-- The largest number of nodes a multiplication may lead to. -/
def maxNodes : Nat := 100000

/-- Why an abbreviation was refused. Offsets count bytes from the start of the abbreviation. -/
inductive ParseError where
  /-- An operator with nothing before it or no literal behind it. -/
  | danglingOperator (operator : Operator) (offset : Nat)
  /-- An abbreviation that names no node. -/
  | emptyAbbreviation
  /-- A `*` whose literal is no number from 1 to 4294967295. -/
  | invalidCount (count : String) (offset : Nat)
  /-- A control character that is not white space. -/
  | unknownToken (token : Char) (offset : Nat)
  /-- A `>` that would place a node below level `maxDepth`. -/
  | nestingTooDeep (offset : Nat)
  /-- A `*` that would lead to more than `maxNodes` nodes. -/
  | tooManyNodes (offset : Nat)
deriving DecidableEq

namespace ParseError

/-- Where the fault is; an empty abbreviation has no place for it. -/
def offset? : ParseError → Option Nat
  | danglingOperator _ offset => some offset
  | emptyAbbreviation => none
  | invalidCount _ offset => some offset
  | unknownToken _ offset => some offset
  | nestingTooDeep offset => some offset
  | tooManyNodes offset => some offset

/-- The sentence shown to the user. -/
def message : ParseError → String
  | danglingOperator operator offset =>
    s!"operator '{operator.symbol}' at offset {offset} has no operand"
  | emptyAbbreviation => "abbreviation is empty"
  | invalidCount count offset =>
    s!"invalid multiplication count '{count}' at offset {offset}: expected a positive integer"
  | unknownToken token offset => s!"unknown token '{token}' at offset {offset}"
  | nestingTooDeep offset => s!"nesting deeper than {maxDepth} levels at offset {offset}"
  | tooManyNodes offset => s!"multiplication at offset {offset} would exceed {maxNodes} nodes"

end ParseError

end MarkupShorthand
