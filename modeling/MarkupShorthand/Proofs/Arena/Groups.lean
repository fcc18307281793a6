import MarkupShorthand.Proofs.Arena.Rows
import MarkupShorthand.Proofs.Arena.Tips

/-!
# Groups in containers

What a container holds of the nodes that operators apply to. Where elements are placed it is one new
node, alone there (`Tips.filter_children_place`, `Tips.lone_place`); where nodes that are alone in
their containers are multiplied it is one group of copies (`Tips.slots_multiplyEach`).
-/

namespace MarkupShorthand.Arena

variable {t : Arena} {id : NodeId} {operand : Operand} {depth : Nat}

namespace Extends

variable {t' : Arena} {touched : List NodeId} {c : Container} {operand' : Operand}

/-- Where nodes stay where they are, so do the containers above them. -/
theorem mem_containersAbove (ext : t.Extends t' touched) (hw : t.WellLinked)
    (hlt : ∀ id ∈ operand.members, id < t.count) (he : operand'.members = operand.members)
    (levels : Nat) :
    c ∈ t'.containersAbove operand' levels ↔ c ∈ t.containersAbove operand levels := by
  rw [Arena.mem_containersAbove, Arena.mem_containersAbove, he]
  refine exists_congr fun id => and_congr_right fun hid => ?_
  rw [ext.above_iterate_eq hw (has_node.2 (hlt id hid))]

/-- If the containers of some nodes are those some levels above others, so are those further up. -/
theorem mem_containersAbove_succ (ext : t.Extends t' touched) (hw : t.WellLinked)
    (hlt : ∀ id ∈ operand.members, id < t.count) {levels : Nat}
    (hc : ∀ c, (∃ id ∈ operand'.members, t'.containerOf id = c) ↔
      c ∈ t.containersAbove operand levels) (n : Nat) :
    c ∈ t'.containersAbove operand' (n + 1) ↔ c ∈ t.containersAbove operand (n + levels) := by
  have hone : ∀ below, below ∈ t'.containersAbove operand' 1 ↔
      below ∈ t.containersAbove operand levels := fun below => by
    rw [← hc, Arena.mem_containersAbove]
    rfl
  rw [mem_containersAbove_add, mem_containersAbove_add]
  simp only [hone]
  refine exists_congr fun below => and_congr_right fun hm => ?_
  rw [ext.above_iterate_eq hw (hw.has_containersAbove hlt hm)]

end Extends

/-- Whether no two of some nodes are in one container. -/
def Lone (t : Arena) (ids : List NodeId) : Prop :=
  ∀ x ∈ ids, ∀ y ∈ ids, t.containerOf x = t.containerOf y → x = y

theorem filter_eq_singleton {ids : List NodeId} {p : NodeId → Prop} [DecidablePred p]
    (hn : ids.Nodup) (hid : id ∈ ids) (h : ∀ x ∈ ids, p x ↔ x = id) : ids.filter (p ·) = [id] := by
  rw [List.filter_congr fun x hx => decide_eq_decide.2 (h x hx), List.filter_eq,
    List.count_eq_one_of_mem hn hid]
  rfl

namespace Tips

/-- No node that operators apply to is above another. -/
theorem not_mem_containersAbove (tips : Tips t depth operand.members) (hw : t.WellLinked) (n : Nat)
    (hid : id ∈ operand.members) : .node id ∉ t.containersAbove operand (n + 1) := by
  intro hc
  obtain ⟨m, hm, hup⟩ := mem_containersAbove.1 hc
  exact hw.not_leaf_of_above (tips.lt_count m hm) hup (tips.leaf id hid)

section Place

variable (tips : Tips t depth operand.members) (hw : t.WellLinked) (levels : Nat) (name : String)

include tips hw

/-- Each of the containers holds one new node. -/
theorem filter_children_place {c : Container} (hc : c ∈ t.containersAbove operand levels) :
    let placed := t.appendToEach (t.containersAbove operand levels) name
    ∃ x, (placed.1.children c).toList.filter (· ∈ placed.2.members) = [x] ∧
      placed.1.element x = ⟨name, [], {}, []⟩ := by
  have added := tips.addsLeaves_appendToEach hw levels name
  have hmem := (tips.appendToEach hw levels name).2
  obtain ⟨new, hfilter, hnew⟩ := added.filter_children hw []
    (fun x => (hmem x).trans (by simp)) (hw.has_containersAbove tips.lt_count hc)
  rw [if_pos hc, List.map_eq_singleton_iff] at hnew
  obtain ⟨x, rfl, hx⟩ := hnew
  refine ⟨x, ?_, hx⟩
  rw [hfilter, List.filter_eq_nil_iff.2 (by simp)]
  rfl

/-- The containers of the new nodes are those where nodes were placed. -/
theorem containerOf_place (c : Container) :
    let placed := t.appendToEach (t.containersAbove operand levels) name
    (∃ id ∈ placed.2.members, placed.1.containerOf id = c) ↔
      c ∈ t.containersAbove operand levels := by
  have added := tips.addsLeaves_appendToEach hw levels name
  have hmem := (tips.appendToEach hw levels name).2
  constructor
  · rintro ⟨id, hid, rfl⟩
    obtain ⟨hge, hlt⟩ := (hmem id).1 hid
    by_contra hc
    exact List.ne_nil_of_mem (added.element_mem hw hlt hge) (if_neg hc)
  · intro hc
    obtain ⟨x, hx, -⟩ := tips.filter_children_place hw levels name hc
    obtain ⟨hchild, hlive⟩ := List.mem_filter.1 (hx ▸ List.mem_singleton_self x)
    exact ⟨x, of_decide_eq_true hlive, added.wellLinked.containerOf_eq hchild⟩

/-- New nodes have their name and nothing else. -/
theorem element_place {x : NodeId} :
    let placed := t.appendToEach (t.containersAbove operand levels) name
    x ∈ placed.2.members → placed.1.element x = ⟨name, [], {}, []⟩ := by
  intro placed hx
  have added := tips.addsLeaves_appendToEach hw levels name
  obtain ⟨hge, hlt⟩ := ((tips.appendToEach hw levels name).2 x).1 hx
  have hm := added.element_mem hw hlt hge
  split at hm
  · exact List.mem_singleton.1 hm
  · cases hm

theorem name_place {x : NodeId} :
    let placed := t.appendToEach (t.containersAbove operand levels) name
    x ∈ placed.2.members → (placed.1.node x).name = name := by
  intro placed hx
  have he := tips.element_place hw levels name hx
  rw [(tips.addsLeaves_appendToEach hw levels name).wellLinked.element_eq] at he
  exact congrArg Element.name he

theorem lone_place :
    let placed := t.appendToEach (t.containersAbove operand levels) name
    placed.1.Lone placed.2.members := by
  intro placed x hx y hy e
  have added := tips.addsLeaves_appendToEach hw levels name
  have next := (tips.appendToEach hw levels name).1
  obtain ⟨z, hz, -⟩ := tips.filter_children_place hw levels name
    ((tips.containerOf_place hw levels name _).1 ⟨y, hy, rfl⟩)
  have only : ∀ w ∈ placed.2.members, placed.1.containerOf w = placed.1.containerOf y → w = z :=
    fun w hm e => List.mem_singleton.1 (hz ▸ List.mem_filter.2
      ⟨added.wellLinked.mem_children.2 ⟨next.lt_count w hm, e⟩, decide_eq_true hm⟩)
  rw [only x hx e, only y hy rfl]

end Place

section Multiply

variable (tips : Tips t depth operand.members) (hw : t.WellLinked) (copies : Nat)

include tips hw

theorem extends_multiplyEach :
    t.Extends (t.multiplyEach operand copies).1 operand.members :=
  (extends_retouch _ _ operand.members).trans (tips.addsLeaves_multiplyEach hw copies).extends

/-- Copies are in the containers of what they are copies of. -/
theorem containerOf_multiplyEach (c : Container) :
    let multiplied := t.multiplyEach operand copies
    (∃ id ∈ multiplied.2.members, multiplied.1.containerOf id = c) ↔
      c ∈ t.containersAbove operand 1 := by
  intro multiplied
  have added := tips.addsLeaves_multiplyEach hw copies
  have ext := tips.extends_multiplyEach hw copies
  obtain ⟨-, hmem⟩ := tips.multiplyEach hw copies
  rw [mem_containersAbove]
  constructor
  · rintro ⟨id, hid, rfl⟩
    rcases (hmem id).1 hid with hold | ⟨hge, hlt⟩
    · exact ⟨id, hold, (ext.containerOf_eq id (tips.lt_count id hold)).symm⟩
    · by_contra hc
      push Not at hc
      have hm := added.element_mem (hw.markAll copies _) hlt (by rwa [count_markAll])
      exact List.ne_nil_of_mem hm (furtherCopies_eq_nil hc)
  · rintro ⟨id, hid, rfl⟩
    exact ⟨id, (hmem id).2 (.inl hid), ext.containerOf_eq id (tips.lt_count id hid)⟩

/-- Copies have the names of what they are copies of, and places in groups of as many. -/
theorem exists_of_mem_multiplyEach {x : NodeId} :
    let multiplied := t.multiplyEach operand copies
    x ∈ multiplied.2.members → ∃ m ∈ operand.members,
      (multiplied.1.node x).name = (t.node m).name ∧ (multiplied.1.node x).slot.count = copies := by
  intro multiplied hx
  have added := tips.addsLeaves_multiplyEach hw copies
  rcases ((tips.multiplyEach hw copies).2 x).1 hx with hold | ⟨hge, hlt⟩
  · have hlt := tips.lt_count x hold
    refine ⟨x, hold, ?_⟩
    rw [added.node_eq x (by rwa [count_markAll]), node_markAll tips.nodup hold hlt]
    exact ⟨rfl, rfl⟩
  · have hm := added.element_mem (hw.markAll copies _) hlt (by rwa [count_markAll])
    obtain ⟨m, hm, hcopy⟩ := List.mem_flatMap.1 hm
    obtain ⟨p, -, he⟩ := List.mem_map.1 hcopy
    rw [added.wellLinked.element_eq] at he
    exact ⟨m, (List.mem_filter.1 hm).1, (congrArg Element.name he).symm,
      (congrArg (·.slot.count) he).symm⟩

/-- A node that is alone in its container becomes the first of a group there. -/
theorem slots_multiplyEach (lone : t.Lone operand.members) (hpos : 1 ≤ copies) {m : NodeId}
    (hm : m ∈ operand.members) :
    let multiplied := t.multiplyEach operand copies
    ((multiplied.1.children (t.containerOf m)).toList.filter (· ∈ multiplied.2.members)).map
        (fun id => (multiplied.1.node id).slot) =
      (List.range' 1 copies).map (Slot.mk · copies) := by
  intro multiplied
  have added := tips.addsLeaves_multiplyEach hw copies
  have hlt := tips.lt_count m hm
  obtain ⟨new, hfilter, hnew⟩ := added.filter_children (hw.markAll copies _) operand.members
    (fun x => by rw [count_markAll]; exact (tips.multiplyEach hw copies).2 x)
    (has_mono (Nat.le_of_eq (count_markAll ..).symm) (hw.has_containerOf hlt))
  -- the only member in the container is the node itself
  have hone : ((t.markAll copies operand.members).children (t.containerOf m)).toList.filter
      (· ∈ operand.members) = [m] := by
    rw [children_markAll]
    refine filter_eq_singleton (hw.nodup_children _) (hw.mem_children.2 ⟨hlt, rfl⟩) fun y hy => ?_
    exact ⟨fun hy' => lone y hy' m hm (hw.containerOf_eq hy), fun e => e ▸ hm⟩
  have hcopied : operand.members.filter (t.containerOf · = t.containerOf m) = [m] :=
    filter_eq_singleton tips.nodup hm fun y hy => ⟨fun e => lone y hy m hm e, fun e => e ▸ rfl⟩
  have hslot : (multiplied.1.node m).slot = ⟨1, copies⟩ := by
    rw [added.node_eq m (by rwa [count_markAll]), node_markAll tips.nodup hm hlt]
  have hrange : List.range' 1 copies = 1 :: List.range' 2 (copies - 1) := by
    obtain ⟨further, rfl⟩ := Nat.exists_eq_add_of_le' hpos
    rw [List.range'_succ, Nat.add_sub_cancel]
  rw [hfilter, hone, List.singleton_append, List.map_cons, hslot, added.wellLinked.map_slot, hnew,
    furtherCopies, hcopied, List.flatMap_singleton, List.map_map, hrange, List.map_cons]
  rfl

end Multiply

end Tips

end MarkupShorthand.Arena
