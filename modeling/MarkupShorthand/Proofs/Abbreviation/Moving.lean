import MarkupShorthand.Proofs.Abbreviation.Lexing
import MarkupShorthand.Proofs.Abbreviation.Items

/-!
# Moving offsets

Offsets are stored and reported, and nothing depends on them: what is read with its offsets moved is
read in the same way, and the error it is refused for is the same one with its offset moved
(`Builder.readItems_move`). So an edit of an abbreviation that leaves its items the same but for
their places leaves its tree the same (`parse_eq_of_items`). What an edit does to the offsets behind
it is a `Displaces`; an abbreviation that has an unknown character has the same one after the edit
(`Displaces.tokenize_eq_error`).
-/

namespace MarkupShorthand

open Text

variable (f : Nat → Nat)

/-- An error with its offset moved. -/
def ParseError.move : ParseError → ParseError
  | danglingOperator operator offset => .danglingOperator operator (f offset)
  | emptyAbbreviation => .emptyAbbreviation
  | invalidCount count offset => .invalidCount count (f offset)
  | unknownToken token offset => .unknownToken token (f offset)
  | nestingTooDeep offset => .nestingTooDeep (f offset)
  | tooManyNodes offset => .tooManyNodes (f offset)

theorem ParseError.move_id (e : ParseError) : e.move id = e := by
  cases e <;> rfl

/-- A literal with its offset moved. -/
def Literal.move (literal : Literal) : Literal :=
  { literal with offset := f literal.offset }

/-- An operator that waits, with its offset moved. -/
def Pending.move (pending : Pending) : Pending :=
  { pending with offset := f pending.offset }

/-- An item with its offset moved. -/
def Item.move : Item → Item
  | literal content => .literal (content.move f)
  | reserved => .reserved
  | operator kind offset => .operator kind (f offset)

/-! ## Reading -/

/-- What carrying out an operator leads to does not depend on offsets. -/
theorem Arena.resolve_move (t : Arena) (pending : Pending) (operand : Operand)
    (literal : Literal) :
    t.resolve (pending.move f) operand (literal.move f) =
      (t.resolve pending operand literal).mapError (·.move f) := by
  have hlevels : (pending.move f).levels = pending.levels := rfl
  have hoperator : (pending.move f).operator = pending.operator := rfl
  have htext : (literal.move f).text = literal.text := rfl
  rw [resolve, resolve, hlevels, hoperator, htext]
  cases pending.operator with
  | child | sibling | climb =>
    dsimp only
    split <;> rfl
  | idAttribute | classAttribute | inert => rfl
  | multiply =>
    dsimp only
    cases count? literal.text with
    | none => rfl
    | some count =>
      dsimp only
      split <;> rfl

namespace Builder

/-- A builder with the offset of its waiting operator moved. -/
def move (b : Builder) : Builder :=
  { b with pending := b.pending.map (·.move f) }

variable {b : Builder}

theorem stacked?_move (pending : Pending) (operator : Operator) :
    stacked? (pending.move f) operator = (stacked? pending operator).map (·.move f) := by
  have hoperator : (pending.move f).operator = pending.operator := rfl
  unfold stacked? Pending.stackClimb?
  rw [hoperator]
  split
  · split <;> rfl
  · rfl

/-- One item moved leads to the same state, but for offsets. -/
theorem read_move (hl : b.literal = none) (item : Item) :
    (b.move f).read (item.move f) = ((b.read item).map (·.move f)).mapError (·.move f) := by
  obtain ⟨t, cursor, pending, literal⟩ := b
  obtain rfl : literal = none := hl
  cases item with
  | reserved => rfl
  | literal literal =>
    cases pending with
    | none => cases cursor <;> rfl
    | some pending =>
      cases cursor with
      | none => rfl
      | some operand =>
        simp only [read, flush, move, Item.move, Option.map_some, t.resolve_move f]
        cases t.resolve pending operand literal <;> rfl
  | operator operator offset =>
    cases pending with
    | none => cases cursor <;> rfl
    | some pending =>
      simp only [read, addOperator, move, Item.move, Option.map_some, stacked?_move]
      cases stacked? pending operator <;> rfl

theorem finish_move (hl : b.literal = none) :
    (b.move f).finish = b.finish.mapError (·.move f) := by
  obtain ⟨t, cursor, pending, literal⟩ := b
  obtain rfl : literal = none := hl
  cases pending with
  | none =>
    simp only [finish, flush, move, Option.map_none]
    split <;> rfl
  | some pending => rfl

/-- Items with their offsets moved are read as they were. -/
theorem readItems_move (hl : b.literal = none) (rest : List Item) :
    (b.move f).readItems (rest.map (·.move f)) = (b.readItems rest).mapError (·.move f) := by
  induction rest generalizing b with
  | nil => exact finish_move f hl
  | cons item rest ih =>
    rw [List.map_cons, readItems, readItems, read_move f hl]
    cases hr : b.read item with
    | error e => rfl
    | ok b' => exact ih (literal_of_read hl hr)

/-- A reserved token between items is read as if it were not there. -/
theorem readItems_reserved (b : Builder) (before after : List Item) :
    b.readItems (before ++ .reserved :: after) = b.readItems (before ++ after) := by
  induction before generalizing b with
  | nil => rfl
  | cons item before ih =>
    rw [List.cons_append, List.cons_append, readItems, readItems]
    cases b.read item with
    | error e => rfl
    | ok b' => exact ih b'

end Builder

/-! ## Items -/

variable {f} {past rest lexemes lexemes' : List Lexeme} {s s' : String}

theorem items_eq_foldr (lexemes : List Lexeme) :
    items lexemes = (lexemes.map Lexeme.item).foldr Item.joinTo [] := by
  induction lexemes with
  | nil => rfl
  | cons lexeme rest ih => rw [items, ih, List.map_cons, List.foldr_cons]

theorem Item.joinTo_move (item : Item) (rest : List Item) :
    (item.move f).joinTo (rest.map (·.move f)) = (item.joinTo rest).map (·.move f) := by
  cases item with
  | literal literal =>
    cases rest with
    | nil => rfl
    | cons next rest => cases next <;> rfl
  | reserved => rfl
  | operator operator offset => rfl

/-- Lexemes that are moved have their items moved. -/
theorem items_move (h : lexemes'.map Lexeme.item = lexemes.map fun l => l.item.move f) :
    items lexemes' = (items lexemes).map (·.move f) := by
  rw [items_eq_foldr, h]
  clear h
  induction lexemes with
  | nil => rfl
  | cons lexeme lexemes ih => rw [List.map_cons, List.foldr_cons, ih, Item.joinTo_move, items]

/-- Only literals join, so that lexemes are taken apart anywhere but between two texts. -/
theorem items_append (h : ∀ first ∈ past.getLast?, ∀ second ∈ rest.head?,
    first.item.isLiteral = true → second.item.isLiteral = false) :
    items (past ++ rest) = items past ++ items rest := by
  have head : ∀ (lexeme : Lexeme) (more : List Lexeme),
      ∃ item later, items (lexeme :: more) = item :: later ∧
        (lexeme.item.isLiteral = false → item.isLiteral = false) := by
    intro lexeme more
    rw [items]
    unfold Item.joinTo
    split
    · rename_i hl _
      exact ⟨_, _, rfl, fun h => by rw [hl] at h; cases h⟩
    · exact ⟨_, _, rfl, id⟩
  induction past with
  | nil => rfl
  | cons lexeme past ih =>
    cases past with
    | nil =>
      cases rest with
      | nil => rw [List.append_nil, items, List.append_nil]
      | cons next rest =>
        obtain ⟨item, later, e, hi⟩ := head next rest
        rw [List.singleton_append, items, e, items, items, Item.joinTo_nil]
        cases hl : lexeme.item.isLiteral with
        | true => exact Item.joinTo_of_right (hi (h lexeme rfl next rfl hl)) later
        | false => exact Item.joinTo_of_left hl _
    | cons next past =>
      have ih := ih fun first hf second hs => h first (by rwa [List.getLast?_cons_cons]) second hs
      rw [List.cons_append, items, ih, items.eq_2 lexeme]
      obtain ⟨item, later, e, -⟩ := head next past
      rw [e]
      cases hl : lexeme.item with
      | literal literal => cases item <;> rfl
      | reserved | operator => rfl

/-- Where the items are read as the old ones with their offsets moved, so is the abbreviation. -/
theorem parse_eq_of_items (ht : tokenize s = .ok lexemes) (ht' : tokenize s' = .ok lexemes')
    (h : ({} : Builder).readItems (items lexemes') =
      ({} : Builder).readItems ((items lexemes).map (·.move f))) :
    parse s' = (parse s).mapError (·.move f) := by
  simp only [parse_eq_readItems, ht, ht', h]
  exact Builder.readItems_move f (b := {}) rfl (items lexemes)

/-! ## Edits -/

/-- Whether offsets are moved as they are where `new` bytes take the place of `old` ones. -/
structure Displaces (f : Nat → Nat) (place old new : Nat) : Prop where
  before : ∀ offset < place, f offset = offset
  behind : ∀ n, f (place + old + n) = place + new + n

variable {place old new offset offset' : Nat} {chars before after middle middle' : List Char}
  {e : ParseError}

/-- The lexemes behind an edit are the same ones further on. -/
theorem Cut.move (h : Cut offset chars lexemes) (hf : ∀ n, f (offset + n) = offset' + n) :
    ∃ moved, Cut offset' chars moved ∧
      moved.map Lexeme.item = lexemes.map fun l => l.item.move f := by
  induction h generalizing offset' with
  | nil => exact ⟨[], .nil _, rfl⟩
  | @space offset c rest lexemes hs _ ih =>
    have behind : ∀ n, f (offset + c.utf8Size + n) = offset' + c.utf8Size + n := fun n => by
      rw [Nat.add_assoc, hf, Nat.add_assoc]
    obtain ⟨moved, cut, hm⟩ := ih behind
    exact ⟨moved, .space hs cut, hm⟩
  | @token offset token rest lexemes longest _ ih =>
    have behind : ∀ n, f (offset + utf8Length token.written + n) =
        offset' + utf8Length token.written + n := fun n => by
      rw [Nat.add_assoc, hf, Nat.add_assoc]
    obtain ⟨moved, cut, hm⟩ := ih behind
    refine ⟨_, .token longest cut, ?_⟩
    have hstart : f offset = offset' := hf 0
    rw [List.map_cons, List.map_cons, hm]
    refine congrArg (· :: _) ?_
    unfold Lexeme.item
    cases token <;> simp only [Item.move, Literal.move, hstart]

theorem Lexeme.item_move {lexeme : Lexeme} (h : f lexeme.start = lexeme.start) :
    lexeme.item.move f = lexeme.item := by
  unfold item
  cases lexeme.token <;> simp only [Item.move, Literal.move, h]

/-- The lexemes before an edit stay where they are. -/
theorem Displaces.map_item_eq (hf : Displaces f place old new)
    (h : ∀ lexeme ∈ past, lexeme.start < place) :
    past.map Lexeme.item = past.map fun l => l.item.move f :=
  List.map_congr_left fun lexeme hm => (Lexeme.item_move (hf.before _ (h lexeme hm))).symm

/-! ## Unknown characters -/

/-- What characters in two parts have at some place is in the one part or in the other. -/
theorem append_eq_append_cons {α : Type} {first second front back : List α} {a : α}
    (h : first ++ second = front ++ a :: back) :
    (∃ x, first = front ++ a :: x) ∨ ∃ x, front = first ++ x ∧ second = x ++ a :: back := by
  rcases List.append_eq_append_iff.1 h with ⟨x, hx, e⟩ | ⟨x, rfl, e⟩
  · exact .inr ⟨x, hx, e⟩
  · cases x with
    | nil => exact .inr ⟨[], by simp, e.symm⟩
    | cons b x => exact .inl ⟨x, by rw [(List.cons.inj e).1]⟩

/-- An edit of known characters leaves the first unknown character the first. -/
theorem Displaces.tokenize_eq_error
    (hf : Displaces f (utf8Length before) (utf8Length middle) (utf8Length middle'))
    (hs : s.toList = before ++ (middle ++ after)) (hs' : s'.toList = before ++ (middle' ++ after))
    (known : ∀ c ∈ middle, ¬ IsUnknown c) (known' : ∀ c ∈ middle', ¬ IsUnknown c)
    (h : tokenize s = .error e) : tokenize s' = .error (e.move f) := by
  obtain ⟨front, c, back, hchars, hc, hfront, rfl⟩ := tokenize_eq_error_iff.1 h
  rw [hs] at hchars
  rw [tokenize_eq_error_iff, hs']
  rcases append_eq_append_cons hchars with ⟨x, rfl⟩ | ⟨x, rfl, hx⟩
  · refine ⟨front, c, x ++ (middle' ++ after), by simp, hc, hfront, ?_⟩
    rw [ParseError.move, hf.before]
    rw [utf8Length_append, utf8Length_cons]
    have := c.utf8Size_pos
    omega
  · rcases append_eq_append_cons hx with ⟨y, rfl⟩ | ⟨y, rfl, rfl⟩
    · exact absurd hc (known c (by simp))
    · refine ⟨before ++ (middle' ++ y), c, back, by simp, hc, ?_, ?_⟩
      · simp only [List.forall_mem_append] at hfront ⊢
        exact ⟨hfront.1, known', hfront.2.2⟩
      · simp only [ParseError.move, utf8Length_append, ← Nat.add_assoc, hf.behind]

theorem Displaces.parse_eq_of_error
    (hf : Displaces f (utf8Length before) (utf8Length middle) (utf8Length middle'))
    (hs : s.toList = before ++ (middle ++ after)) (hs' : s'.toList = before ++ (middle' ++ after))
    (known : ∀ c ∈ middle, ¬ IsUnknown c) (known' : ∀ c ∈ middle', ¬ IsUnknown c)
    (h : tokenize s = .error e) : parse s' = (parse s).mapError (·.move f) := by
  rw [parse_eq_readItems, parse_eq_readItems, h, hf.tokenize_eq_error hs hs' known known' h]
  rfl

end MarkupShorthand
