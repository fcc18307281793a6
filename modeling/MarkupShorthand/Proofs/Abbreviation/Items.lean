import MarkupShorthand.Abbreviation.Parse

/-!
# Items

An abbreviation as the sequence of what counts in it: operators, reserved tokens, and literals, each
joined from a run of texts. The builder reads lexemes and keeps the text of an unfinished literal;
read item by item (`Builder.read`) it never has one, which is how everything about whole
abbreviations is proved. `parse_eq_readItems` says that it makes no difference.
-/

namespace MarkupShorthand

/-- What a reader of an abbreviation distinguishes. -/
inductive Item where
  | literal (literal : Literal)
  /-- A bracket or a directive. -/
  | reserved
  | operator (operator : Operator) (offset : Nat)
deriving DecidableEq

/-- What a lexeme is on its own. -/
def Lexeme.item (lexeme : Lexeme) : Item :=
  match lexeme.token with
  | .child => .operator .child lexeme.start
  | .sibling => .operator .sibling lexeme.start
  | .climb => .operator .climb lexeme.start
  | .id => .operator .idAttribute lexeme.start
  | .className => .operator .classAttribute lexeme.start
  | .multiply => .operator .multiply lexeme.start
  | .text text => .literal ⟨text, lexeme.start⟩
  | _ => .reserved

/-- An item in front of others; a literal joins a literal that it meets. -/
def Item.joinTo : Item → List Item → List Item
  | .literal first, .literal second :: rest =>
    .literal { first with text := first.text ++ second.text } :: rest
  | item, rest => item :: rest

/-- The items of lexemes. -/
def items : List Lexeme → List Item
  | [] => []
  | lexeme :: rest => lexeme.item.joinTo (items rest)

/-- Whether an item is a literal. -/
def Item.isLiteral : Item → Bool
  | .literal _ => true
  | _ => false

theorem Item.joinTo_nil (item : Item) : item.joinTo [] = [item] := by
  cases item <;> rfl

/-- What is no literal joins nothing. -/
theorem Item.joinTo_of_left {item : Item} (h : item.isLiteral = false) (rest : List Item) :
    item.joinTo rest = item :: rest := by
  cases item
  case literal => simp [isLiteral] at h
  all_goals rfl

/-- Nothing joins what is no literal. -/
theorem Item.joinTo_of_right {item next : Item} (h : next.isLiteral = false) (rest : List Item) :
    item.joinTo (next :: rest) = item :: next :: rest := by
  cases item
  case literal =>
    cases next
    case literal => simp [isLiteral] at h
    all_goals rfl
  all_goals rfl

/-- Joining brings in nothing but literals. -/
theorem Item.mem_joinTo {first item : Item} {rest : List Item} (h : item ∈ first.joinTo rest) :
    item = first ∨ item ∈ rest ∨ item.isLiteral = true := by
  unfold joinTo at h
  split at h
  · rcases List.mem_cons.1 h with rfl | h
    · exact .inr (.inr rfl)
    · exact .inr (.inl (List.mem_cons_of_mem _ h))
  · exact (List.mem_cons.1 h).imp_right .inl

theorem Item.joinTo_joinTo (first second : Literal) (rest : List Item) :
    (Item.literal first).joinTo ((Item.literal second).joinTo rest) =
      (Item.literal { first with text := first.text ++ second.text }).joinTo rest := by
  cases rest with
  | nil => rfl
  | cons item rest => cases item <;> simp [joinTo, String.append_assoc]

/-- Brackets and directives do not count as operators. -/
theorem Lexeme.item_ne_inert (lexeme : Lexeme) (offset : Nat) :
    lexeme.item ≠ .operator .inert offset := by
  unfold Lexeme.item
  split <;> simp

theorem ne_inert_of_mem_items (lexemes : List Lexeme) :
    ∀ item ∈ items lexemes, ∀ offset, item ≠ .operator .inert offset := by
  induction lexemes with
  | nil => simp [items]
  | cons lexeme rest ih =>
    intro item hm offset
    rw [items] at hm
    rcases Item.mem_joinTo hm with rfl | hm | hm
    · exact lexeme.item_ne_inert offset
    · exact ih item hm offset
    · rintro rfl
      cases hm

section Bind

variable {ε α β : Type} {x : Except ε α} {f : α → Except ε β}

/-- A computation succeeds where both of its parts do. -/
theorem bind_eq_ok {r : β} : x >>= f = .ok r ↔ ∃ a, x = .ok a ∧ f a = .ok r := by
  cases x with
  | error e => exact ⟨nofun, nofun⟩
  | ok a => exact ⟨fun h => ⟨a, rfl, h⟩, fun ⟨_, h, hf⟩ => Except.ok.inj h ▸ hf⟩

/-- It fails where the first part does, or the second one behind it. -/
theorem bind_eq_error {e : ε} :
    x >>= f = .error e ↔ x = .error e ∨ ∃ a, x = .ok a ∧ f a = .error e := by
  cases x with
  | error e' =>
    refine ⟨fun h => .inl (congrArg Except.error (Except.error.inj h)), fun h => ?_⟩
    rcases h with h | ⟨_, h, -⟩
    · exact congrArg Except.error (Except.error.inj h)
    · cases h
  | ok a =>
    refine ⟨fun h => .inr ⟨a, rfl, h⟩, fun h => ?_⟩
    rcases h with h | ⟨_, h, hf⟩
    · cases h
    · exact Except.ok.inj h ▸ hf

end Bind

namespace Builder

/-- The builder after one more item, if it has no unfinished literal. -/
def read (b : Builder) : Item → Except ParseError Builder
  | .literal literal => { b with literal := some literal }.flush
  | .reserved => .ok b
  | .operator operator offset => b.addOperator operator offset

/-- The outcome of reading the remaining items and the end. -/
def readItems (b : Builder) : List Item → Except ParseError Arena
  | [] => b.finish
  | item :: rest =>
    match b.read item with
    | .error e => .error e
    | .ok b => b.readItems rest

theorem readItems_of_read {b b' : Builder} {item : Item} (h : b.read item = .ok b')
    (rest : List Item) : b.readItems (item :: rest) = b'.readItems rest := by
  rw [readItems, h]

/-- The items still to be read, the unfinished literal among them. -/
def ahead (b : Builder) (lexemes : List Lexeme) : List Item :=
  match b.literal with
  | none => items lexemes
  | some literal => (Item.literal literal).joinTo (items lexemes)

/-- The builder without its unfinished literal. -/
def settled (b : Builder) : Builder :=
  { b with literal := none }

variable {b b' : Builder} {literal : Literal}

theorem flush_of_none (h : b.literal = none) : b.flush = .ok b := by
  rw [flush, h]

/-- Ending a literal leaves nothing behind that waits. -/
theorem flush_ok (hl : b.literal = some literal) (h : b.flush = .ok b') :
    b'.literal = none ∧ b'.pending = none ∧ b'.cursor.isSome := by
  rw [flush, hl] at h
  cases hp : b.pending with
  | none =>
    cases hc : b.cursor with
    | none =>
      simp only [hp, hc, Except.ok.injEq] at h
      exact h ▸ ⟨rfl, rfl, rfl⟩
    | some operand =>
      simp only [hp, hc, Except.ok.injEq] at h
      exact h ▸ ⟨rfl, rfl, rfl⟩
  | some pending =>
    cases hc : b.cursor with
    | none => simp [hp, hc] at h
    | some operand =>
      simp only [hp, hc] at h
      cases hr : b.arena.resolve pending operand literal with
      | error e => simp [hr, Except.map] at h
      | ok resolved =>
        simp only [hr, Except.map, Except.ok.injEq] at h
        exact h ▸ ⟨rfl, rfl, rfl⟩

theorem literal_of_flush (h : b.flush = .ok b') : b'.literal = none := by
  cases hl : b.literal with
  | none =>
    rw [flush_of_none hl] at h
    exact Except.ok.inj h ▸ hl
  | some literal => exact (flush_ok hl h).1

theorem literal_of_addOperator {operator : Operator} {offset : Nat}
    (h : b.addOperator operator offset = .ok b') : b'.literal = none := by
  unfold addOperator at h
  split at h
  · rename_i hl _
    split at h
    · exact Except.ok.inj h ▸ hl
    · cases h
  · split at h
    · cases h
    · rename_i hf
      split at h
      · cases h
      · have hl := literal_of_flush hf
        rw [← Except.ok.inj h]
        exact hl

/-- Reading items leaves no unfinished literal. -/
theorem literal_of_read {item : Item} (hl : b.literal = none) (h : b.read item = .ok b') :
    b'.literal = none := by
  cases item with
  | literal literal =>
    rw [read] at h
    exact literal_of_flush h
  | reserved => exact Except.ok.inj h ▸ hl
  | operator operator offset => exact literal_of_addOperator h

theorem read_literal_settled (hl : b.literal = some literal) :
    b.settled.read (.literal literal) = b.flush := by
  rw [read, settled, ← hl]

theorem settled_of_none (hl : b.literal = none) : b.settled = b := by
  rw [settled, ← hl]

theorem ahead_of_none (hl : b.literal = none) (lexemes : List Lexeme) :
    b.ahead lexemes = items lexemes := by
  rw [ahead, hl]

/-- An operator that ends a literal is read after it. -/
theorem addOperator_of_some (hl : b.literal = some literal) (operator : Operator) (offset : Nat) :
    b.addOperator operator offset =
      match b.flush with
      | .error e => .error e
      | .ok b => b.addOperator operator offset := by
  cases hf : b.flush with
  | error e => simp only [addOperator, hl, hf]
  | ok b' =>
    obtain ⟨hl', hp', -⟩ := flush_ok hl hf
    simp only [addOperator, hl, hf, hl', hp', flush_of_none hl']

/-- The end of an abbreviation ends a literal. -/
theorem finish_of_some (hl : b.literal = some literal) :
    b.finish =
      match b.flush with
      | .error e => .error e
      | .ok b => b.finish := by
  cases hf : b.flush with
  | error e => simp only [finish, hl, hf]
  | ok b' =>
    obtain ⟨hl', hp', -⟩ := flush_ok hl hf
    simp only [finish, hl, hf, hl', hp', flush_of_none hl']

variable {lexeme : Lexeme}

theorem step_of_literal (h : lexeme.item = .literal literal) :
    b.step lexeme = .ok (b.addText literal.text literal.offset) := by
  cases ht : lexeme.token <;> simp [Lexeme.item, ht] at h
  simp [step, ht, ← h]

theorem step_of_reserved (h : lexeme.item = .reserved) : b.step lexeme = b.flush := by
  cases ht : lexeme.token <;> simp [Lexeme.item, ht] at h <;> simp [step, ht, Token.operator?]

theorem step_of_operator {operator : Operator} {offset : Nat}
    (h : lexeme.item = .operator operator offset) :
    b.step lexeme = b.addOperator operator offset := by
  cases ht : lexeme.token <;> simp [Lexeme.item, ht] at h <;>
    simp [step, ht, Token.operator?, ← h]

/-- Items that follow a text are ahead of the builder that has read it. -/
theorem ahead_addText (hl : lexeme.item = .literal literal) (lexemes : List Lexeme) :
    (b.addText literal.text literal.offset).ahead lexemes = b.ahead (lexeme :: lexemes) := by
  rw [ahead, ahead, items, hl]
  cases hb : b.literal with
  | none => simp [addText, hb]
  | some first => simp [addText, hb, Item.joinTo_joinTo]

theorem settled_addText (b : Builder) (text : String) (offset : Nat) :
    (b.addText text offset).settled = b.settled := by
  cases hb : b.literal <;> simp [addText, hb, settled]

/-- What is no text is read after the unfinished literal. -/
theorem step_eq_read (h : lexeme.item.isLiteral = false) :
    b.step lexeme =
      match b.literal with
      | none => b.read lexeme.item
      | some literal =>
        match b.settled.read (.literal literal) with
        | .error e => .error e
        | .ok b => b.read lexeme.item := by
  cases hi : lexeme.item with
  | literal literal => simp [hi, Item.isLiteral] at h
  | reserved =>
    rw [step_of_reserved hi]
    cases hl : b.literal with
    | none => exact flush_of_none hl
    | some literal =>
      simp only [read_literal_settled hl]
      cases b.flush <;> rfl
  | operator operator offset =>
    rw [step_of_operator hi]
    cases hl : b.literal with
    | none => rfl
    | some literal =>
      simp only [read_literal_settled hl]
      exact addOperator_of_some hl operator offset

/-- What is no text ends the literal and is read then. -/
theorem step_eq_flush (h : lexeme.item.isLiteral = false) :
    b.step lexeme = b.flush >>= fun b => b.read lexeme.item := by
  rw [step_eq_read h]
  cases hl : b.literal with
  | none => rw [flush_of_none hl]; rfl
  | some literal =>
    dsimp only
    rw [read_literal_settled hl]
    cases b.flush <;> rfl

/-- So does the end of an abbreviation. -/
theorem finish_eq_flush (b : Builder) : b.finish = b.flush >>= finish := by
  cases hl : b.literal with
  | none => rw [flush_of_none hl]; rfl
  | some literal =>
    rw [finish_of_some hl]
    cases b.flush <;> rfl

/-- Reading lexemes and reading their items come to the same. -/
theorem run_result (b : Builder) (events : Array Event) (lexemes : List Lexeme) :
    (b.run events lexemes).result = b.settled.readItems (b.ahead lexemes) := by
  induction lexemes generalizing b events with
  | nil =>
    rw [run]
    cases hl : b.literal with
    | none => rw [ahead_of_none hl, settled_of_none hl]; rfl
    | some literal =>
      simp only [finish_of_some hl, ahead, hl, items, Item.joinTo_nil, readItems,
        read_literal_settled hl]
  | cons lexeme lexemes ih =>
    rw [run]
    cases hi : lexeme.item.isLiteral with
    | true =>
      cases hl : lexeme.item with
      | literal literal => rw [step_of_literal hl, ih, settled_addText, ahead_addText hl]
      | _ => simp [hl, Item.isLiteral] at hi
    | false =>
      have next : ∀ (b' : Builder) (events : Array Event), b'.literal = none →
          (match b'.read lexeme.item with
            | .error e => (⟨events, .error e⟩ : Reading)
            | .ok b => b.run events lexemes).result =
          b'.readItems (lexeme.item :: items lexemes) := fun b' events hl => by
        rw [readItems]
        cases hr : b'.read lexeme.item with
        | error e => rfl
        | ok b'' =>
          have hn := literal_of_read hl hr
          simp only [ih, ahead_of_none hn, settled_of_none hn]
      rw [step_eq_read hi, ahead, items, Item.joinTo_of_left hi]
      cases hl : b.literal with
      | none =>
        rw [settled_of_none hl]
        exact next b _ hl
      | some literal =>
        simp only [Item.joinTo_of_right hi]
        rw [readItems]
        cases hr : b.settled.read (.literal literal) with
        | error e => rfl
        | ok b' => exact next b' _ (literal_of_read rfl hr)

/-! ## The states between two items -/

section States

variable (t : Arena) (operand : Operand) (pending : Pending) (waiting : Option Pending)

/-- A builder between two items that has a node for operators to apply to. -/
def going : Builder :=
  { arena := t, cursor := some operand, pending := waiting }

@[simp] theorem read_waiting_literal (literal : Literal) :
    (going t operand (some pending)).read (.literal literal) =
      (t.resolve pending operand literal).map fun resolved =>
        going resolved.1 resolved.2 none := rfl

@[simp] theorem read_waiting_operator (operator : Operator) (offset : Nat) :
    (going t operand (some pending)).read (.operator operator offset) =
      match stacked? pending operator with
      | some stacked => .ok (going t operand (some stacked))
      | none => .error (.danglingOperator pending.operator pending.offset) := rfl

/-- Only a `^` stacks, and only on an operator that places a node. -/
theorem stacked?_eq_some {pending stacked : Pending} {operator : Operator} :
    stacked? pending operator = some stacked ↔ operator = .climb ∧
      pending.operator.isPositional = true ∧
      stacked = { pending with climbs := pending.climbs + 1 } := by
  unfold stacked? Pending.stackClimb?
  split
  · rename_i ho
    split
    · rename_i hp
      simp [ho, hp, eq_comm]
    · rename_i hp
      simp [hp]
  · rename_i ho
    simp [ho]

theorem finish_idle :
    (going t operand none).finish = if t.isEmpty then .error .emptyAbbreviation else .ok t := rfl

end States

theorem read_of_resolve {t : Arena} {operand : Operand} {pending : Pending}
    {resolved : Arena × Operand}
    (h : t.resolve pending operand literal = .ok resolved) :
    (going t operand (some pending)).read (.literal literal) =
      .ok (going resolved.1 resolved.2 none) := by
  rw [read_waiting_literal, h]
  rfl

end Builder

/-- An abbreviation is read item by item. -/
theorem parse_eq_readItems (abbreviation : String) :
    parse abbreviation =
      match tokenize abbreviation with
      | .error e => .error e
      | .ok lexemes => ({} : Builder).readItems (items lexemes) := by
  rw [parse, parseLogged]
  cases tokenize abbreviation with
  | error e => rfl
  | ok lexemes => exact Builder.run_result _ _ _

end MarkupShorthand
