import MarkupShorthand.Text.Decimal
import MarkupShorthand.Abbreviation.Event
import MarkupShorthand.Abbreviation.Lexeme
import MarkupShorthand.Arena.Broadcast

/-!
# Building a tree from tokens

The reader's state between two tokens and its steps. Text is collected into a literal; an operator
waits for the literal behind it (`Builder.pending`) and is carried out on the current node or group
(`Builder.cursor`) when that literal ends, which the next operator, a reserved token or the end of
the abbreviation brings about (`Builder.flush`).

* `Arena.resolve`: what an operator with its literal does to the tree;
* `Builder.step`, `Builder.finish`: one token, and the end;
* `Builder.announce`, `Builder.flushEvents`: the events of a token and of the end, also where they
  fail.
-/

namespace MarkupShorthand

open Text

/-- Text read since the last operator or reserved token. -/
structure Literal where
  text : String
  /-- The offset of the first text of the literal. -/
  offset : Nat
deriving DecidableEq

/-- The number that a `*` takes: decimal digits with a value from 1 to 4294967295. -/
def count? (text : String) : Option Nat :=
  let digits := text.toList
  if digits.all Char.isDigit then
    let n := ofDecimal digits
    if 1 ≤ n ∧ n ≤ 4294967295 then some n else none
  else none

namespace Arena

/-- Whether a new node in a container would be below level `maxDepth`. -/
def tooDeep (t : Arena) : Container → Bool
  | .root => false
  | .node id => t.depth id + 1 > maxDepth

/-- How many nodes there are once every node of an operand stands for `count` copies. -/
def countMultiplied (t : Arena) (operand : Operand) (count : Nat) : Nat :=
  t.count + operand.members.foldr (fun id total => t.subtreeSize id + total) 0 * (count - 1)

/-- Carries out an operator with its literal on the nodes of an operand. -/
def resolve (t : Arena) (pending : Pending) (operand : Operand) (literal : Literal) :
    Except ParseError (Arena × Operand) :=
  match pending.operator with
  | .child | .sibling | .climb =>
    let containers := t.containersAbove operand pending.levels
    if containers.any t.tooDeep then .error (.nestingTooDeep pending.offset)
    else .ok (t.appendToEach containers literal.text)
  | .idAttribute => .ok (t.addAttributeTo operand ⟨Attribute.idName, [literal.text]⟩)
  | .classAttribute => .ok (t.addAttributeTo operand ⟨Attribute.className, [literal.text]⟩)
  | .multiply =>
    match count? literal.text with
    | none => .error (.invalidCount literal.text literal.offset)
    | some count =>
      if t.countMultiplied operand count > maxNodes then .error (.tooManyNodes literal.offset)
      else .ok (t.multiplyEach operand count)
  | .inert => .ok (t, operand)

end Arena

/-- The state of the reader between two tokens. -/
structure Builder where
  arena : Arena := {}
  /-- What the next operator applies to; there is none before the first node. -/
  cursor : Option Operand := none
  pending : Option Pending := none
  literal : Option Literal := none
deriving DecidableEq

namespace Builder

/-- Text goes to the literal; the literal's offset is that of its first text. -/
def addText (b : Builder) (text : String) (offset : Nat) : Builder :=
  match b.literal with
  | none => { b with literal := some ⟨text, offset⟩ }
  | some literal => { b with literal := some { literal with text := literal.text ++ text } }

/-- Ends the literal: the waiting operator takes it; without one it names the first node, and after
that it is dropped. -/
def flush (b : Builder) : Except ParseError Builder :=
  match b.literal with
  | none => .ok b
  | some literal =>
    match b.pending, b.cursor with
    | some pending, some cursor =>
      (b.arena.resolve pending cursor literal).map fun (arena, cursor) =>
        { arena := arena, cursor := some cursor }
    | none, none =>
      let id := b.arena.count
      .ok { arena := b.arena.append .root literal.text, cursor := some (.node id) }
    | some pending, none => .error (.danglingOperator pending.operator pending.offset)
    | none, some _ => .ok { b with literal := none }

/-- The events of ending the literal. -/
def flushEvents (b : Builder) : List Event :=
  match b.literal, b.pending, b.cursor with
  | some literal, some pending, some _ => [.applying pending.operator literal.text]
  | some literal, none, some _ => [.discarding literal.text]
  | _, _, _ => []

/-- The waiting operator after one more `^`, if there is one, it has no literal yet, and the newcomer
is a `^` that it can take. -/
def stacked? (pending : Pending) (operator : Operator) : Option Pending :=
  if operator = .climb then pending.stackClimb? else none

/-- An operator arrives. One that waits without a literal either takes it as a further climb or
stays without an operand; otherwise the literal ends, and the newcomer waits if there is a node that
it can apply to. -/
def addOperator (b : Builder) (operator : Operator) (offset : Nat) : Except ParseError Builder :=
  match b.literal, b.pending with
  | none, some pending =>
    match stacked? pending operator with
    | some stacked => .ok { b with pending := some stacked }
    | none => .error (.danglingOperator pending.operator pending.offset)
  | _, _ =>
    match b.flush with
    | .error e => .error e
    | .ok b =>
      match b.cursor with
      | none => .error (.danglingOperator operator offset)
      | some _ => .ok { b with pending := some { operator := operator, offset := offset } }

/-- The state after one more token. -/
def step (b : Builder) (lexeme : Lexeme) : Except ParseError Builder :=
  match lexeme.token, lexeme.token.operator? with
  | .text text, _ => .ok (b.addText text lexeme.start)
  | _, some .inert => b.flush
  | _, some operator => b.addOperator operator lexeme.start
  | _, none => .ok b

/-- The events of reading one more token, whether or not it is accepted. -/
def announce (b : Builder) (lexeme : Lexeme) : List Event :=
  match lexeme.token.operator? with
  | none => []
  | some .inert => .reserved lexeme.token :: b.flushEvents
  | some operator =>
    match b.literal, b.pending with
    | none, some pending => (stacked? pending operator).toList.map (.stackedClimb ·.levels)
    | _, _ => b.flushEvents

/-- The tree at the end of the abbreviation. -/
def finish (b : Builder) : Except ParseError Arena :=
  match b.literal, b.pending with
  | none, some pending => .error (.danglingOperator pending.operator pending.offset)
  | _, _ =>
    match b.flush with
    | .error e => .error e
    | .ok b => if b.arena.isEmpty then .error .emptyAbbreviation else .ok b.arena

end Builder

end MarkupShorthand
