import MarkupShorthand.Proofs.Arena.Climb
import MarkupShorthand.Proofs.Arena.LeafGroups

/-!
# Tips

The nodes that operators apply to are distinct leaves of equal depth (`Tips`), whatever was
multiplied before. Each operation on such nodes leads to such nodes again: new ones
(`Tips.appendToEach`), the same (`Tips.retouch`), or the same and their further copies
(`Tips.multiplyEach`).
-/

namespace MarkupShorthand.Arena

/-- Distinct leaves at one depth, at least one. -/
structure Tips (t : Arena) (depth : Nat) (ids : List NodeId) : Prop where
  ne_nil : ids ≠ []
  nodup : ids.Nodup
  lt_count : ∀ id ∈ ids, id < t.count
  leaf : ∀ id ∈ ids, t.Leaf id
  depth_eq : ∀ id ∈ ids, t.depth id = depth

variable {t t' : Arena} {id x : NodeId} {ids : List NodeId} {operand : Operand} {depth : Nat}
  {c : Container} {a : Container → List Element}

theorem WellLinked.level_retouch (hw : t.WellLinked) (p : List Attribute → List Attribute)
    (q : Slot → Slot) (ids : List NodeId) (c : Container) :
    (t.retouch p q ids).level c = t.level c := by
  cases c with
  | root => rfl
  | node id => exact congrArg (· + 1) (hw.depth_retouch ids id)

/-- A new leaf is as deep as the container that gained it says. -/
theorem AddsLeaves.depth_new (h : AddsLeaves t t' a) (hw : t.WellLinked) (hx : x < t'.count)
    (hn : t.count ≤ x) : ∃ c, t.Has c ∧ a c ≠ [] ∧ t'.depth x = t.level c := by
  refine ⟨t'.containerOf x, h.has_containerOf x hx, List.ne_nil_of_mem (h.element_mem hw hx hn), ?_⟩
  rw [← h.wellLinked.level_containerOf]
  cases hc : t'.containerOf x with
  | root => rfl
  | node parent =>
    have hp : parent < t.count := has_node.1 (hc ▸ h.has_containerOf x hx)
    rw [level_node, level_node, h.depth_eq hw hp]

/-- An attribute retouches the members. -/
theorem addAttributeTo_eq (t : Arena) (operand : Operand) (a : Attribute) :
    t.addAttributeTo operand a =
      (t.retouch a.addTo (fun slot => slot) operand.members, .collapse operand.members) := rfl

namespace Tips

/-- Where all leaves were added at one level, the new ones and those that had that depth are tips.
-/
theorem of_added (added : AddsLeaves t t' a) (hw : t.WellLinked)
    (ha : ∀ c, a c ≠ [] → t.level c = depth) (hne : ids ≠ []) (hn : ids.Nodup)
    (hids : ∀ x ∈ ids, x < t'.count ∧ (t.count ≤ x ∨ x < t.count ∧ t.Leaf x ∧ t.depth x = depth)) :
    Tips t' depth ids where
  ne_nil := hne
  nodup := hn
  lt_count x hx := (hids x hx).1
  leaf x hx := by
    rcases (hids x hx).2 with hnew | ⟨hlt, hl, hd⟩
    · exact added.leaf_new hnew
    · refine (added.children_of_nil (c := .node x) hlt ?_).trans hl
      by_contra hc
      have := ha _ hc
      rw [level_node, hd] at this
      exact Nat.succ_ne_self _ this
  depth_eq x hx := by
    rcases (hids x hx).2 with hnew | ⟨hlt, -, hd⟩
    · obtain ⟨c, -, hc, e⟩ := added.depth_new hw (hids x hx).1 hnew
      exact e.trans (ha c hc)
    · exact (added.depth_eq hw hlt).trans hd

theorem root (hw : t.WellLinked) (name : String) :
    Tips (t.append .root name) 0 [t.count] where
  ne_nil := List.cons_ne_nil _ _
  nodup := List.nodup_singleton _
  lt_count := by simp
  leaf := by
    have added := AddsLeaves.attach hw has_root (n := { name := name }) rfl
    intro id hid
    exact added.leaf_new (Nat.le_of_eq (List.mem_singleton.1 hid).symm)
  depth_eq := by
    have hc : (t.append .root name).containerOf t.count = .root := by
      rw [append, containerOf_attach has_root, if_pos rfl]
    simpa using WellLinked.depth_root hc

theorem containersAbove_ne_nil (h : Tips t depth operand.members) (levels : Nat) :
    t.containersAbove operand levels ≠ [] := by
  obtain ⟨id, hid⟩ := List.exists_mem_of_ne_nil _ h.ne_nil
  exact List.ne_nil_of_mem (mem_containersAbove.2 ⟨id, hid, rfl⟩)

/-- Appending to the containers above puts one leaf into each. -/
theorem addsLeaves_appendToEach (h : Tips t depth operand.members) (hw : t.WellLinked)
    (levels : Nat) (name : String) :
    AddsLeaves t (t.appendToEach (t.containersAbove operand levels) name).1 fun c =>
      if c ∈ t.containersAbove operand levels then [⟨name, [], {}, []⟩] else [] := by
  have hn := nodup_containersAbove (t := t) h.nodup levels
  refine (hw.addsLeaves_append (fun c hc => hw.has_containersAbove h.lt_count hc) name).congr
    fun c _ => ?_
  rw [List.Nodup.count hn]
  split <;> rfl

/-- The new leaves are the next tips. -/
theorem appendToEach (h : Tips t depth operand.members) (hw : t.WellLinked) (levels : Nat)
    (name : String) :
    let appended := t.appendToEach (t.containersAbove operand levels) name
    Tips appended.1 (depth + 1 - levels) appended.2.members ∧
      ∀ x, x ∈ appended.2.members ↔ t.count ≤ x ∧ x < appended.1.count := by
  have added := h.addsLeaves_appendToEach hw levels name
  have hmem : ∀ x, x ∈ (t.appendToEach (t.containersAbove operand levels) name).2.members ↔
      t.count ≤ x ∧ x < (t.appendToEach (t.containersAbove operand levels) name).1.count := by
    intro x
    rw [Arena.appendToEach, Operand.members_collapse, count_foldl_append, List.mem_range'_1]
  refine ⟨.of_added added hw (fun c hc => ?_) ?_ ?_ fun x hx =>
    ⟨((hmem x).1 hx).2, .inl ((hmem x).1 hx).1⟩, hmem⟩
  · by_cases hm : c ∈ t.containersAbove operand levels
    · exact ((hw.mem_containersAbove_level h.depth_eq).1 hm).1
    · exact absurd (if_neg hm) hc
  · rw [Arena.appendToEach, Operand.members_collapse]
    exact fun e => h.containersAbove_ne_nil levels
      (List.length_eq_zero_iff.1 (List.range'_eq_nil_iff.1 e))
  · rw [Arena.appendToEach, Operand.members_collapse]
    exact List.nodup_range'

/-- Retouching keeps tips. -/
theorem retouch (h : Tips t depth ids) (hw : t.WellLinked)
    (p : List Attribute → List Attribute) (q : Slot → Slot) (targets : List NodeId) :
    Tips (t.retouch p q targets) depth ids where
  ne_nil := h.ne_nil
  nodup := h.nodup
  lt_count id hid := by rw [count_retouch]; exact h.lt_count id hid
  leaf id hid := (children_retouch t targets (.node id)).trans (h.leaf id hid)
  depth_eq id hid := by rw [hw.depth_retouch, h.depth_eq id hid]

/-- The members of a multiplied operand are the old ones and the new leaves. -/
theorem members_multiplyEach (h : Tips t depth operand.members) (hw : t.WellLinked) (count : Nat) :
    (t.multiplyEach operand count).1.count =
        t.count + operand.members.length * (count - 1) ∧
      (t.multiplyEach operand count).2.members.Perm (operand.members ++
        List.range' t.count (operand.members.length * (count - 1))) := by
  have hm := hw.multiplyAll_members h.nodup (fun id hid => ⟨h.lt_count id hid, h.leaf id hid⟩)
    count #[]
  rw [Arena.multiplyEach, Operand.members_collapse]
  exact hm

/-- The further copies go to the containers of the members. -/
theorem addsLeaves_multiplyEach (h : Tips t depth operand.members) (hw : t.WellLinked)
    (count : Nat) :
    AddsLeaves (t.markAll count operand.members) (t.multiplyEach operand count).1
      (t.furtherCopies count operand.members) := by
  rw [multiplyEach_eq]
  exact hw.addsLeaves_multiplyAll h.nodup (fun id hid => ⟨h.lt_count id hid, h.leaf id hid⟩) count

/-- Tips with their further copies are tips. -/
theorem multiplyEach (h : Tips t depth operand.members) (hw : t.WellLinked) (count : Nat) :
    let multiplied := t.multiplyEach operand count
    Tips multiplied.1 depth multiplied.2.members ∧ ∀ x, x ∈ multiplied.2.members ↔
      x ∈ operand.members ∨ t.count ≤ x ∧ x < multiplied.1.count := by
  obtain ⟨hcount, hperm⟩ := h.members_multiplyEach hw count
  have added := h.addsLeaves_multiplyEach hw count
  have marked : Tips (t.markAll count operand.members) depth operand.members := h.retouch hw _ _ _
  have hmem : ∀ x, x ∈ (t.multiplyEach operand count).2.members ↔
      x ∈ operand.members ∨ t.count ≤ x ∧ x < (t.multiplyEach operand count).1.count := by
    intro x
    rw [hperm.mem_iff, List.mem_append, List.mem_range'_1, hcount]
  refine ⟨.of_added added (hw.markAll count _) (fun c hc => ?_) ?_ ?_ fun x hx => ?_, hmem⟩
  · obtain ⟨y, hy, e⟩ : ∃ y ∈ operand.members, t.containerOf y = c := by
      by_contra hnone
      push Not at hnone
      exact hc (furtherCopies_eq_nil hnone)
    rw [← e, ← containerOf_markAll t count operand.members y,
      (hw.markAll count _).level_containerOf]
    exact marked.depth_eq y hy
  · intro e
    rw [e, List.nil_perm, List.append_eq_nil_iff] at hperm
    exact h.ne_nil hperm.1
  · refine hperm.nodup_iff.2 (List.Nodup.append h.nodup List.nodup_range' fun x hx hn => ?_)
    exact Nat.not_lt.2 (List.mem_range'_1.1 hn).1 (h.lt_count x hx)
  · rcases (hmem x).1 hx with hold | hnew
    · have hlt := marked.lt_count x hold
      exact ⟨Nat.lt_of_lt_of_le hlt added.count_le,
        .inr ⟨hlt, marked.leaf x hold, marked.depth_eq x hold⟩⟩
    · exact ⟨hnew.2, .inl (by rw [count_markAll]; exact hnew.1)⟩

end Tips

end MarkupShorthand.Arena
