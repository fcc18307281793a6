import MarkupShorthand.Proofs.Abbreviation.Nesting
import MarkupShorthand.Proofs.Abbreviation.Spans
import MarkupShorthand.Proofs.Listing

/-!
# The budget of multiplications

A `*` is held to the limit on nodes before it is carried out, by a prediction from the sizes of the
subtrees that it copies. The prediction is exact, as what is copied are leaves
(`Resolution.count_multiplyEach`), and numbers that are not exact but stop at the largest there is
decide no differently (`Arena.predictedCount_eq`). An error for too many nodes is that of the one
operator that got the literal it points to (`Resolution.eq_of_offset`); and each `*` of an
abbreviation that is accepted got one (`exists_resolution_of_parse`). So the limit is kept by every
`*` and refuses none that would keep it (`Resolution.Budgeted`).
-/

namespace MarkupShorthand

open Text Arena

/-! ## Numbers that stop -/

/-- A sum, or the largest number in place of a larger one. -/
def saturatingAdd (largest a b : Nat) : Nat :=
  min (a + b) largest

/-- A product, or the largest number in place of a larger one. -/
def saturatingMul (largest a b : Nat) : Nat :=
  min (a * b) largest

namespace Arena

/-- How many nodes there are once every node of an operand stands for `copies`, in numbers that stop
at the largest. -/
def predictedCount (largest : Nat) (t : Arena) (operand : Operand) (copies : Nat) : Nat :=
  saturatingAdd largest t.count (saturatingMul largest (t.copiedCount operand) (copies - 1))

/-- Stopping twice is stopping once, at the end. -/
theorem predictedCount_eq (largest : Nat) (t : Arena) (operand : Operand) (copies : Nat) :
    t.predictedCount largest operand copies = min (t.countMultiplied operand copies) largest := by
  rw [predictedCount, saturatingAdd, saturatingMul, countMultiplied_eq_copied]
  omega

end Arena

/-! ## Literals and their operators -/

variable {abbreviation : String} {t : Arena} {operand : Operand} {pending : Pending}
  {literal : Literal} {past rest lexemes : List Lexeme}

/-- Lexemes start one behind the other. -/
theorem pairwise_start (h : tokenize abbreviation = .ok lexemes) :
    lexemes.Pairwise fun earlier later => earlier.start < later.start := by
  have partition := (tokenize_eq_ok_iff_cut.1 h).partition
  refine partition.ordered.imp_of_mem fun hearlier _ hle => ?_
  exact Nat.lt_of_lt_of_le (partition.nonempty _ hearlier) hle

/-- A lexeme is told by where it starts. -/
theorem append_cons_inj_of_start {before before' after after' : List Lexeme} {lexeme lexeme' : Lexeme}
    (h : tokenize abbreviation = .ok (before ++ lexeme :: after))
    (e : before ++ lexeme :: after = before' ++ lexeme' :: after')
    (hs : lexeme.start = lexeme'.start) :
    before = before' ∧ lexeme = lexeme' ∧ after = after' := by
  obtain ⟨-, behind, ahead⟩ := List.pairwise_append.1 (pairwise_start h)
  have not_before : lexeme' ∉ before := fun hm =>
    Nat.ne_of_lt (ahead lexeme' hm lexeme List.mem_cons_self) hs.symm
  have not_after : lexeme' ∉ after := fun hm =>
    Nat.ne_of_lt ((List.pairwise_cons.1 behind).1 lexeme' hm) hs
  exact (List.append_cons_inj_of_notMem not_before not_after).1 e

namespace Resolution

/-- The literal starts at a lexeme; before it is what the operator waited behind, and from there on
there is text up to the end. -/
theorem exists_first (r : Resolution abbreviation) : ∃ before first more,
    r.past = before ++ first :: more ∧ first.start = r.literal.offset ∧
      ∀ lexeme ∈ more, lexeme.content?.isSome = true := by
  obtain ⟨before, operator, between, first, more, hpast, -, -, areTexts, hliteral⟩ :=
    r.exists_lexemes
  rw [joined?] at hliteral
  refine ⟨before ++ operator :: between, first, more, ?_, ?_, ?_⟩
  · rw [hpast, List.append_assoc, List.cons_append]
  · rw [← Option.some.inj hliteral]
  · exact (List.forall_mem_cons.1 areTexts).2

theorem eq_of_lexemes {r r' : Resolution abbreviation} (hpast : r.past = r'.past)
    (hrest : r.rest = r'.rest) : r = r' := by
  obtain ⟨past, rest, ht, ends, arena, operand, pending, literal, hs⟩ := r
  obtain ⟨past', rest', ht', ends', arena', operand', pending', literal', hs'⟩ := r'
  obtain rfl : past = past' := hpast
  obtain rfl : rest = rest' := hrest
  have hb := Except.ok.inj (hs.symm.trans hs')
  simp only [Builder.mk.injEq, Option.some.injEq] at hb
  obtain ⟨rfl, rfl, rfl, rfl⟩ := hb
  rfl

/-- A literal is got by one operator. -/
theorem eq_of_offset {r r' : Resolution abbreviation} (h : r.literal.offset = r'.literal.offset) :
    r = r' := by
  obtain ⟨before, first, more, hpast, hstart, areTexts⟩ := r.exists_first
  obtain ⟨before', first', more', hpast', hstart', areTexts'⟩ := r'.exists_first
  have ht := r.tokenize_eq
  have e : r.past ++ r.rest = r'.past ++ r'.rest := Except.ok.inj (ht.symm.trans r'.tokenize_eq)
  rw [hpast, hpast'] at e
  rw [hpast] at ht
  simp only [List.append_assoc, List.cons_append] at e ht
  obtain ⟨rfl, rfl, hmore⟩ :=
    append_cons_inj_of_start ht e (hstart.trans (h.trans hstart'.symm))
  have ends : ∀ lexeme ∈ r.rest.head?, lexeme.content?.isSome = false := fun lexeme hm => by
    rw [r.ends lexeme hm]
    rfl
  have ends' : ∀ lexeme ∈ r'.rest.head?, lexeme.content?.isSome = false := fun lexeme hm => by
    rw [r'.ends lexeme hm]
    rfl
  obtain ⟨rfl, hrest⟩ := append_inj_of_head? areTexts areTexts' ends ends' hmore
  exact eq_of_lexemes (hpast.trans hpast'.symm) hrest

end Resolution

/-! ## Operators and their literals -/

/-- What is accepted was read without an error up to every lexeme, and with it. -/
theorem exists_steps_of_parse {lexeme : Lexeme} (h : parse abbreviation = .ok t)
    (ht : tokenize abbreviation = .ok (past ++ lexeme :: rest)) :
    ∃ b b', ({} : Builder).steps past = .ok b ∧ b.step lexeme = .ok b' := by
  rw [Builder.parse_eq_steps] at h
  obtain ⟨lexemes, ht', h⟩ := bind_eq_ok.1 h
  obtain rfl := Except.ok.inj (ht.symm.trans ht')
  obtain ⟨last, hs, -⟩ := bind_eq_ok.1 h
  rw [Builder.steps_append] at hs
  obtain ⟨b, hs, hrest⟩ := bind_eq_ok.1 hs
  rw [Builder.steps, List.foldlM_cons] at hrest
  obtain ⟨b', hb, -⟩ := bind_eq_ok.1 hrest
  exact ⟨b, b', hs, hb⟩

theorem steps_concat {b b' : Builder} {lexeme : Lexeme} (hs : ({} : Builder).steps past = .ok b)
    (h : b.step lexeme = .ok b') : ({} : Builder).steps (past ++ [lexeme]) = .ok b' := by
  rw [Builder.steps_append, hs]
  show b.steps [lexeme] = _
  rw [Builder.steps, List.foldlM_cons, h]
  rfl

/-- An operator gets the literal that has begun, when that ends. -/
theorem exists_resolution_of_literal (ht : tokenize abbreviation = .ok (past ++ rest))
    (hs : ({} : Builder).steps past = .ok ⟨t, some operand, some pending, some literal⟩) :
    ∃ r : Resolution abbreviation, r.pending = pending := by
  induction rest generalizing past literal with
  | nil => exact ⟨⟨past, [], ht, nofun, t, operand, pending, literal, hs⟩, rfl⟩
  | cons lexeme rest ih =>
    cases hi : lexeme.item with
    | literal text =>
      have ht' : tokenize abbreviation = .ok (past ++ [lexeme] ++ rest) := by simpa using ht
      exact ih ht' (steps_concat hs (Builder.step_of_literal hi))
    | reserved | operator =>
      have hn : lexeme.content? = none := Lexeme.content?_eq_none.2 (by rw [hi]; rfl)
      have ends : ∀ l ∈ (lexeme :: rest).head?, l.content? = none := fun l hm =>
        Option.some.inj hm ▸ hn
      exact ⟨⟨past, lexeme :: rest, ht, ends, t, operand, pending, literal, hs⟩, rfl⟩

/-- In an abbreviation that is accepted, an operator that waits gets a literal. -/
theorem exists_resolution_of_waiting {t' : Arena} (h : parse abbreviation = .ok t')
    (ht : tokenize abbreviation = .ok (past ++ rest))
    (hs : ({} : Builder).steps past = .ok (.going t operand (some pending))) :
    ∃ r : Resolution abbreviation,
      r.pending.operator = pending.operator ∧ r.pending.offset = pending.offset := by
  induction rest generalizing past pending with
  | nil =>
    rw [parse_eq_of_steps ht hs] at h
    cases h
  | cons lexeme rest ih =>
    have ht' : tokenize abbreviation = .ok (past ++ [lexeme] ++ rest) := by simpa using ht
    cases hi : lexeme.item with
    | literal text =>
      obtain ⟨r, rfl⟩ := exists_resolution_of_literal ht'
        (steps_concat hs (Builder.step_of_literal hi))
      exact ⟨r, rfl, rfl⟩
    | reserved => exact ih ht' (steps_concat hs (Builder.step_of_reserved hi))
    | operator operator offset =>
      obtain ⟨b, b', hb, hstep⟩ := exists_steps_of_parse h ht
      obtain rfl := Except.ok.inj (hs.symm.trans hb)
      have sound : (Builder.going t operand (some pending)).Sound := (hasRead_of_steps ht hs).sound
      have reads : Builder.Reads (.going t operand (some pending)) (.operator operator offset) b' :=
        sound.reads ((Builder.step_of_operator hi).symm.trans hstep)
      -- behind a waiting operator only a further climb is read
      cases reads with
      | stack =>
        obtain ⟨r, hr⟩ := ih ht' (steps_concat hs hstep)
        exact ⟨r, hr⟩

/-- Each operator of an abbreviation that is accepted gets a literal, but for a `^` that another
takes as a further climb. -/
theorem exists_resolution_of_parse {t' : Arena} {before after : List Lexeme} {lexeme : Lexeme}
    {operator : Operator} {offset : Nat} (h : parse abbreviation = .ok t')
    (ht : tokenize abbreviation = .ok (before ++ lexeme :: after))
    (hi : lexeme.item = .operator operator offset) (hne : operator ≠ .climb) :
    ∃ r : Resolution abbreviation, r.pending.operator = operator ∧ r.pending.offset = offset := by
  obtain ⟨b, b', hs, hstep⟩ := exists_steps_of_parse h ht
  have next := steps_concat hs hstep
  have hl : lexeme.item.isLiteral = false := by rw [hi]; rfl
  rw [Builder.step_eq_flush hl, hi] at hstep
  obtain ⟨s, hf, hr⟩ := bind_eq_ok.1 hstep
  have sound := ((hasRead_of_steps ht hs).flush hf).1
  have ht' : tokenize abbreviation = .ok (before ++ [lexeme] ++ after) := by simpa using ht
  cases sound.reads hr with
  | wait => exact exists_resolution_of_waiting h ht' next
  | stack => exact absurd rfl hne

/-! ## The budget -/

namespace Resolution

variable (r : Resolution abbreviation)

/-- How many nodes there are where the operator has multiplied what it applies to. -/
def multipliedCount (copies : Nat) : Nat :=
  r.arena.count + r.operand.members.length * (copies - 1)

theorem countMultiplied_eq (copies : Nat) :
    r.arena.countMultiplied r.operand copies = r.multipliedCount copies := by
  obtain ⟨depth, tips⟩ := r.exists_tips
  exact tips.countMultiplied_eq r.wellLinked copies

theorem count_multiplyEach (copies : Nat) :
    (r.arena.multiplyEach r.operand copies).1.count = r.multipliedCount copies := by
  obtain ⟨depth, tips⟩ := r.exists_tips
  exact (tips.members_multiplyEach r.wellLinked copies).1

theorem length_members_le : r.operand.members.length ≤ maxNodes := by
  obtain ⟨placed, bounds⟩ := r.keeps (I := fun b => ∃ placed, b.Bounded placed)
    (fun sound reads ⟨_, bounds⟩ => ⟨_, reads.bounded sound bounds⟩) ⟨0, Nat.zero_le _, nofun⟩
  exact bounds.members_le r.operand rfl

section Multiplication

variable {copies : Nat} (hm : r.pending.operator = .multiply)
  (hc : count? r.literal.text = some copies)
include hm hc

theorem outcome_eq_tooManyNodes : r.outcome = .error (.tooManyNodes r.literal.offset) ↔
    maxNodes < r.multipliedCount copies := by
  rw [← r.countMultiplied_eq]
  constructor
  · intro h
    generalize he : ParseError.tooManyNodes r.literal.offset = e at h
    cases fails_of_eq_error h with
    | size _ hc' hsize => exact Option.some.inj (hc'.symm.trans hc) ▸ hsize
    | place | count => cases he
  · exact fun hsize => (Fails.size hm hc hsize).eq_error

theorem outcome_eq_ok (hfits : r.multipliedCount copies ≤ maxNodes) :
    r.outcome = .ok (r.arena.multiplyEach r.operand copies) := by
  rw [← r.countMultiplied_eq] at hfits
  simp only [outcome, resolve, hm, hc]
  exact if_neg (Nat.not_lt.2 hfits)

/-- An abbreviation is refused for too many nodes at a count where the operator that gets the count
would make too many. -/
theorem parse_eq_tooManyNodes : parse abbreviation = .error (.tooManyNodes r.literal.offset) ↔
    maxNodes < r.multipliedCount copies := by
  rw [← r.outcome_eq_tooManyNodes hm hc]
  refine ⟨fun h => ?_, r.parse_eq_error⟩
  generalize he : ParseError.tooManyNodes r.literal.offset = e at h
  cases refused_of_parse h with
  | resolution r' hr =>
    have same : r.literal.offset = r'.literal.offset := by
      cases fails_of_eq_error hr with
      | size => exact ParseError.tooManyNodes.inj he
      | place | count => cases he
    rw [eq_of_offset same]
    exact hr
  | unknown ht =>
    obtain ⟨_, _, _, -, -, -, rfl⟩ := tokenize_eq_error_iff.1 ht
    cases he
  | waiting | arriving | empty => cases he

end Multiplication

/-- What is predicted of a `*` with its count, and what comes of it. -/
structure Budgeted (copies : Nat) : Prop where
  /-- The abbreviation is refused for the count if that would lead to too many nodes, -/
  refused : parse abbreviation = .error (.tooManyNodes r.literal.offset) ↔
    maxNodes < r.multipliedCount copies
  /-- and otherwise there are as many as were to be expected. -/
  resolved : r.multipliedCount copies ≤ maxNodes →
    ∃ resolved, r.outcome = .ok resolved ∧ resolved.1.count = r.multipliedCount copies
  count_multiplyEach : (r.arena.multiplyEach r.operand copies).1.count = r.multipliedCount copies
  copiedCount_eq : r.arena.copiedCount r.operand = r.operand.members.length
  /-- The prediction is this number, or the largest there is where this one is not there. -/
  predicted : ∀ largest, r.arena.predictedCount largest r.operand copies =
    min (r.multipliedCount copies) largest
  /-- That a number stops decides nothing. -/
  decided : ∀ largest, maxNodes < largest →
    (maxNodes < r.arena.predictedCount largest r.operand copies ↔
      maxNodes < r.multipliedCount copies)
  /-- Among numbers of 64 bits no product stops, -/
  product_lt : r.arena.copiedCount r.operand * (copies - 1) < 2 ^ 63
  /-- and no sum stops unless half of the numbers are nodes already: the prediction is exact. -/
  predicted_exact : r.arena.count ≤ 2 ^ 63 →
    r.arena.predictedCount (2 ^ 64 - 1) r.operand copies =
      (r.arena.multiplyEach r.operand copies).1.count

theorem budgeted {copies : Nat} (hm : r.pending.operator = .multiply)
    (hc : count? r.literal.text = some copies) : r.Budgeted copies := by
  have predicted : ∀ largest, r.arena.predictedCount largest r.operand copies =
      min (r.multipliedCount copies) largest := fun largest => by
    rw [predictedCount_eq, r.countMultiplied_eq]
  obtain ⟨depth, tips⟩ := r.exists_tips
  have copied := tips.copiedCount_eq r.wellLinked
  have product_lt : r.operand.members.length * (copies - 1) < 2 ^ 63 := by
    calc r.operand.members.length * (copies - 1)
      _ ≤ maxNodes * 4294967295 :=
        Nat.mul_le_mul r.length_members_le ((Nat.sub_le ..).trans (bounds_of_count? hc).2)
      _ < 2 ^ 63 := by decide
  constructor
  case refused => exact r.parse_eq_tooManyNodes hm hc
  case resolved =>
    exact fun hfits => ⟨_, r.outcome_eq_ok hm hc hfits, r.count_multiplyEach copies⟩
  case count_multiplyEach => exact r.count_multiplyEach copies
  case copiedCount_eq => exact copied
  case predicted => exact predicted
  case decided =>
    intro largest hlargest
    rw [predicted, Nat.lt_min]
    exact and_iff_left hlargest
  case product_lt => rw [copied]; exact product_lt
  case predicted_exact =>
    intro hcount
    rw [predicted, r.count_multiplyEach, multipliedCount]
    exact Nat.min_eq_left (Nat.le_pred_of_lt (Nat.add_lt_add_of_le_of_lt hcount product_lt))

end Resolution

/-- The budget of multiplications is exact. A `*` with a count is refused for it where it would lead
to more than `maxNodes` nodes, and otherwise leads to as many as predicted; numbers that stop at the
largest there is predict and decide the same. In an abbreviation that is accepted every `*` gets a
count and keeps the limit. -/
theorem multiplication_budget (abbreviation : String) :
    (∀ r : Resolution abbreviation, r.pending.operator = .multiply →
      ∀ copies, count? r.literal.text = some copies → r.Budgeted copies) ∧
    ∀ t, parse abbreviation = .ok t →
      (∀ before star after, tokenize abbreviation = .ok (before ++ star :: after) →
        star.token = .multiply → ∃ r : Resolution abbreviation,
          r.pending.operator = .multiply ∧ r.pending.offset = star.start) ∧
      ∀ r : Resolution abbreviation, r.pending.operator = .multiply →
        ∃ copies resolved, count? r.literal.text = some copies ∧ r.outcome = .ok resolved ∧
          resolved.1.count = r.multipliedCount copies ∧ resolved.1.count ≤ maxNodes := by
  refine ⟨fun r hm copies hc => r.budgeted hm hc, fun t h => ⟨?_, fun r hm => ?_⟩⟩
  · intro before star after ht hs
    have hi : star.item = .operator .multiply star.start := by
      rw [Lexeme.item, hs]
    exact exists_resolution_of_parse h ht hi (by decide)
  · have accepted : ∀ e, r.outcome ≠ .error e := fun e he => by
      rw [r.parse_eq_error he] at h
      cases h
    cases hc : count? r.literal.text with
    | none => exact absurd (Fails.count hm hc).eq_error (accepted _)
    | some copies =>
      have hfits : r.multipliedCount copies ≤ maxNodes := by
        refine Nat.le_of_not_lt fun hlt => accepted _ ((r.outcome_eq_tooManyNodes hm hc).2 hlt)
      have hcount := r.count_multiplyEach copies
      exact ⟨copies, _, rfl, r.outcome_eq_ok hm hc hfits, hcount, hcount ▸ hfits⟩

/-- Items in two lists: with one count there are four nodes more than there may be, and with another
the second `*` is carried out. -/
theorem multiplication_budget_of_items_in_lists :
    (∃ r : Resolution "ul*2>li*50001", r.pending.operator = .multiply ∧
      count? r.literal.text = some 50001 ∧ r.Budgeted 50001 ∧
      r.multipliedCount 50001 = maxNodes + 4 ∧
      parse "ul*2>li*50001" = .error (.tooManyNodes 8)) ∧
    ∃ t, parse "ul*2>li*3" = .ok t ∧ ∃ r : Resolution "ul*2>li*3",
      r.pending.operator = .multiply ∧ r.pending.offset = 7 ∧
        ∃ copies resolved, count? r.literal.text = some copies ∧ r.outcome = .ok resolved ∧
          resolved.1.count = r.multipliedCount copies ∧ resolved.1.count ≤ maxNodes := by
  constructor
  · let lists := (({} : Arena).append .root "ul").multiplyEach (.node 0) 2
    let items := lists.1.appendToEach (lists.2.members.map .node) "li"
    have ht : tokenize "ul*2>li*50001" = .ok ([⟨.text "ul", 0, 2⟩, ⟨.multiply, 2, 3⟩,
        ⟨.text "2", 3, 4⟩, ⟨.child, 4, 5⟩, ⟨.text "li", 5, 7⟩, ⟨.multiply, 7, 8⟩,
        ⟨.text "50001", 8, 13⟩] ++ []) := by
      decide +kernel
    let r : Resolution "ul*2>li*50001" := ⟨_, _, ht, nofun, items.1, items.2,
      { operator := .multiply, offset := 7 }, ⟨"50001", 8⟩, by decide +kernel⟩
    have hc : count? "50001" = some 50001 := by decide +kernel
    have four : items.1.count = 4 ∧ items.2.members.length = 2 := by decide +kernel
    have budgeted := (multiplication_budget "ul*2>li*50001").1 r rfl 50001 hc
    have size : r.multipliedCount 50001 = maxNodes + 4 := by
      show items.1.count + items.2.members.length * 50000 = _
      rw [four.1, four.2]
      rfl
    refine ⟨r, rfl, hc, budgeted, size, budgeted.refused.2 ?_⟩
    rw [size]
    exact Nat.lt_add_of_pos_right (Nat.succ_pos 3)
  · have ht : tokenize "ul*2>li*3" = .ok ([⟨.text "ul", 0, 2⟩, ⟨.multiply, 2, 3⟩,
        ⟨.text "2", 3, 4⟩, ⟨.child, 4, 5⟩, ⟨.text "li", 5, 7⟩] ++ ⟨.multiply, 7, 8⟩ ::
        [⟨.text "3", 8, 9⟩]) := by
      decide +kernel
    have hok : (parse "ul*2>li*3").isOk = true := by decide +kernel
    cases h : parse "ul*2>li*3" with
    | error e =>
      rw [h] at hok
      cases hok
    | ok t =>
      obtain ⟨stars, kept⟩ := (multiplication_budget "ul*2>li*3").2 t h
      obtain ⟨r, hm, ho⟩ := stars _ _ _ ht rfl
      exact ⟨t, rfl, r, hm, ho, kept r hm⟩

end MarkupShorthand
