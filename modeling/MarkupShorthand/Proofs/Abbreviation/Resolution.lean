import MarkupShorthand.Proofs.Abbreviation.Items
import MarkupShorthand.Proofs.Arena.Tips

/-!
# Carrying out an operator

What an operator does once it has its literal, case by case (`Arena.Resolves`), and how it fails
(`Arena.resolve_error`). Whatever is to be kept by all operators is shown of the four cases: they
keep the agreement of the links and lead from tips to tips (`Resolves.tips`), and what they hand
back is a node where one is left and a group otherwise (`Resolves.collapsed`). How many nodes there
are after a multiplication is known before it (`Tips.countMultiplied_eq`).
-/

namespace MarkupShorthand

/-- Whether an error is that of a limit on depth or size. -/
def ParseError.IsLimit : ParseError → Prop
  | nestingTooDeep _ => True
  | tooManyNodes _ => True
  | _ => False

theorem bounds_of_count? {text : String} {count : Nat} (h : count? text = some count) :
    1 ≤ count ∧ count ≤ 4294967295 := by
  simp only [count?] at h
  split at h
  · split at h
    · rename_i hrange
      exact Option.some.inj h ▸ hrange
    · cases h
  · cases h

theorem one_le_of_count? {text : String} {count : Nat} (h : count? text = some count) :
    1 ≤ count :=
  (bounds_of_count? h).1

namespace Operand

/-- Whether an operand is a node exactly where it has one member. -/
def Collapsed (operand : Operand) : Prop :=
  operand = collapse operand.members

theorem collapsed_node (id : NodeId) : (node id).Collapsed := rfl

theorem collapsed_collapse (ids : List NodeId) : (collapse ids).Collapsed := by
  rw [Collapsed, members_collapse]

theorem Collapsed.eq_node_iff {operand : Operand} (h : operand.Collapsed) :
    operand.members.length = 1 ↔ ∃ id, operand = node id := by
  constructor
  · intro hl
    obtain ⟨id, hid⟩ := List.length_eq_one_iff.1 hl
    rw [Collapsed, hid] at h
    exact ⟨id, h⟩
  · rintro ⟨id, rfl⟩
    rfl

/-- A group that has members has at least two. -/
theorem Collapsed.eq_group_iff {operand : Operand} (h : operand.Collapsed)
    (hne : operand.members ≠ []) :
    2 ≤ operand.members.length ↔ ∃ ids, operand = group ids := by
  have hpos := List.length_pos_iff.2 hne
  cases operand with
  | node id => exact iff_of_false (Nat.not_le.2 Nat.one_lt_two) nofun
  | group ids =>
    refine iff_of_true (Nat.lt_of_le_of_ne hpos fun e => ?_) ⟨ids, rfl⟩
    obtain ⟨id, hid⟩ := h.eq_node_iff.1 e.symm
    cases hid

end Operand

namespace Arena

variable {t t' : Arena} {pending : Pending} {operand operand' : Operand} {literal : Literal}
  {resolved : Arena × Operand} {depth : Nat}

/-! ## The cases -/

/-- What carrying out an operator leads to where it does not fail. -/
inductive Resolves (t : Arena) (pending : Pending) (operand : Operand) (literal : Literal) :
    Arena × Operand → Prop where
  /-- A new node in every container some levels up; none is too deep for it. -/
  | place : pending.operator.isPositional = true →
      (∀ c ∈ t.containersAbove operand pending.levels, t.tooDeep c = false) →
      Resolves t pending operand literal
        (t.appendToEach (t.containersAbove operand pending.levels) literal.text)
  | addAttribute (name : String) :
      pending.operator = .idAttribute ∨ pending.operator = .classAttribute →
      Resolves t pending operand literal (t.addAttributeTo operand ⟨name, [literal.text]⟩)
  /-- Copies of every node, within the limit on their number. -/
  | multiply {count : Nat} : pending.operator = .multiply → count? literal.text = some count →
      t.countMultiplied operand count ≤ maxNodes →
      Resolves t pending operand literal (t.multiplyEach operand count)
  | inert : pending.operator = .inert → Resolves t pending operand literal (t, operand)

theorem resolves_of_eq_ok (h : t.resolve pending operand literal = .ok resolved) :
    Resolves t pending operand literal resolved := by
  cases ho : pending.operator with
  | child | sibling | climb =>
    simp only [resolve, ho] at h
    split at h
    · cases h
    · rename_i hfits
      rw [← Except.ok.inj h]
      refine .place (by rw [ho]; rfl) fun c hc => ?_
      exact Bool.eq_false_iff.2 fun hdeep => hfits (List.any_eq_true.2 ⟨c, hc, hdeep⟩)
  | idAttribute =>
    simp only [resolve, ho] at h
    exact Except.ok.inj h ▸ .addAttribute _ (.inl ho)
  | classAttribute =>
    simp only [resolve, ho] at h
    exact Except.ok.inj h ▸ .addAttribute _ (.inr ho)
  | multiply =>
    simp only [resolve, ho] at h
    split at h
    · cases h
    · rename_i count hcount
      split at h
      · cases h
      · rename_i hfits
        exact Except.ok.inj h ▸ .multiply ho hcount (Nat.le_of_not_lt hfits)
  | inert =>
    simp only [resolve, ho] at h
    exact Except.ok.inj h ▸ .inert ho

/-- How carrying out an operator fails. -/
inductive Fails (t : Arena) (pending : Pending) (operand : Operand) (literal : Literal) :
    ParseError → Prop where
  | place : pending.operator.isPositional = true →
      (∃ c ∈ t.containersAbove operand pending.levels, t.tooDeep c = true) →
      Fails t pending operand literal (.nestingTooDeep pending.offset)
  | count : pending.operator = .multiply → count? literal.text = none →
      Fails t pending operand literal (.invalidCount literal.text literal.offset)
  | size {count : Nat} : pending.operator = .multiply → count? literal.text = some count →
      maxNodes < t.countMultiplied operand count →
      Fails t pending operand literal (.tooManyNodes literal.offset)

theorem fails_of_eq_error {e : ParseError} (h : t.resolve pending operand literal = .error e) :
    Fails t pending operand literal e := by
  cases ho : pending.operator with
  | child | sibling | climb =>
    simp only [resolve, ho] at h
    split at h
    · rename_i hdeep
      exact Except.error.inj h ▸ .place (by rw [ho]; rfl) (List.any_eq_true.1 hdeep)
    · cases h
  | idAttribute | classAttribute | inert =>
    simp only [resolve, ho] at h
    cases h
  | multiply =>
    simp only [resolve, ho] at h
    split at h
    · rename_i hcount
      exact Except.error.inj h ▸ .count ho hcount
    · rename_i count hcount
      split at h
      · rename_i hsize
        exact Except.error.inj h ▸ .size ho hcount hsize
      · cases h

theorem Fails.eq_error {e : ParseError} (h : Fails t pending operand literal e) :
    t.resolve pending operand literal = .error e := by
  cases h with
  | place hp hdeep =>
    cases ho : pending.operator with
    | child | sibling | climb =>
      simp only [resolve, ho]
      rw [if_pos (List.any_eq_true.2 hdeep)]
    | _ => rw [ho] at hp; cases hp
  | count ho hcount => simp only [resolve, ho, hcount]
  | size ho hcount hsize =>
    simp only [resolve, ho, hcount]
    rw [if_pos hsize]

/-- Carrying out an operator fails at a limit, or for lack of a count. -/
theorem resolve_error {e : ParseError} (h : t.resolve pending operand literal = .error e) :
    e.IsLimit ∨ (pending.operator = .multiply ∧ count? literal.text = none) ∧
      e = .invalidCount literal.text literal.offset := by
  cases fails_of_eq_error h with
  | place => exact .inl trivial
  | count ho hc => exact .inr ⟨⟨ho, hc⟩, rfl⟩
  | size => exact .inl trivial

theorem resolve_ok (h : t.resolve pending operand literal = .ok resolved) :
    ¬ (pending.operator = .multiply ∧ count? literal.text = none) := by
  rintro ⟨ho, hc⟩
  simp only [resolve, ho, hc] at h
  cases h

/-! ## What all operators keep -/

namespace Resolves

/-- From tips an operator leads to tips. -/
theorem tips (h : Resolves t pending operand literal resolved) (hw : t.WellLinked)
    (tips : Tips t depth operand.members) :
    resolved.1.WellLinked ∧ ∃ depth', Tips resolved.1 depth' resolved.2.members := by
  cases h with
  | place =>
    exact ⟨(tips.addsLeaves_appendToEach hw _ _).wellLinked, _, (tips.appendToEach hw _ _).1⟩
  | addAttribute name =>
    rw [addAttributeTo_eq, Operand.members_collapse]
    exact ⟨hw.retouch _, _, tips.retouch hw _ _ _⟩
  | multiply =>
    exact ⟨(tips.addsLeaves_multiplyEach hw _).wellLinked, _, (tips.multiplyEach hw _).1⟩
  | inert => exact ⟨hw, _, tips⟩

theorem collapsed (h : Resolves t pending operand literal resolved) (hc : operand.Collapsed) :
    resolved.2.Collapsed := by
  cases h with
  | inert => exact hc
  | _ => exact Operand.collapsed_collapse _

end Resolves

/-! ## Sizes -/

/-- How many nodes are copied for each further copy of an operand. -/
def copiedCount (t : Arena) (operand : Operand) : Nat :=
  (operand.members.map t.subtreeSize).sum

theorem countMultiplied_eq_copied (t : Arena) (operand : Operand) (count : Nat) :
    t.countMultiplied operand count = t.count + t.copiedCount operand * (count - 1) := by
  rw [countMultiplied, copiedCount, List.sum_eq_foldr, List.foldr_map]

namespace Tips

/-- The subtree of a leaf is the leaf. -/
theorem copiedCount_eq (h : Tips t depth operand.members) (hw : t.WellLinked) :
    t.copiedCount operand = operand.members.length := by
  have size : ∀ id ∈ operand.members, t.subtreeSize id = 1 := fun id hid => by
    rw [hw.subtreeSize_eq (h.lt_count id hid), hw.element_leaf (h.leaf id hid), Element.size_eq]
    rfl
  rw [copiedCount, List.map_congr_left size]
  simp

theorem countMultiplied_eq (h : Tips t depth operand.members) (hw : t.WellLinked) (count : Nat) :
    t.countMultiplied operand count = t.count + operand.members.length * (count - 1) := by
  rw [countMultiplied_eq_copied, h.copiedCount_eq hw]

/-- An arena with tips has a top-level node. -/
theorem isEmpty_eq_false {ids : List NodeId} (h : Tips t depth ids) (hw : t.WellLinked) :
    t.isEmpty = false := by
  obtain ⟨id, hid⟩ := List.exists_mem_of_ne_nil _ h.ne_nil
  obtain ⟨root, hroot, -⟩ := List.mem_flatMap.1 (hw.mem_flatMap_roots.2 (h.lt_count id hid))
  rw [isEmpty, Array.isEmpty_eq_false_iff]
  exact fun e => List.ne_nil_of_mem hroot (Array.toList_eq_nil_iff.2 e)

/-- The containers above tips are of one level: the root alone, or nodes. -/
theorem containersAbove_eq_root_or (h : Tips t depth operand.members) (hw : t.WellLinked)
    (levels : Nat) :
    t.containersAbove operand levels = [.root] ∨ .root ∉ t.containersAbove operand levels :=
  hw.containersAbove_eq_root_or h.depth_eq levels

end Tips

end Arena

end MarkupShorthand
