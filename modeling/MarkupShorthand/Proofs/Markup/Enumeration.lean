import MarkupShorthand.Proofs.Arena.Groups
import MarkupShorthand.Proofs.Markup.Marks

/-!
# Enumeration

When numbering goes on across the copies of the nodes above, nodes of a row get the numbers 1, 2, 3,
… in the order of the document (`Arena.Enumerated`): if that is so for some containers, and each of
them holds one group of as many copies as every other does, then it is so for all these copies
(`Enumerated.children`). The nodes that an operator applies to are such a row, and so are the
containers at each level above them (`Arena.EnumeratedAbove`). Placing nodes keeps it so
(`Tips.enumeratedAbove_place`), and so does multiplying nodes that were not multiplied before
(`Tips.enumeratedAbove_multiply`).
-/

namespace MarkupShorthand.Arena

variable {t t' : Arena} {id : NodeId} {c : Container} {touched live : List NodeId} {level : Nat}
  {P Q : Container → Prop} {numbering : Numbering} {operand operand' : Operand} {depth copies : Nat}

/-! ## Numbers of an arena that grows -/

namespace Extends

/-- A node keeps its number if neither it nor a node above it is touched. -/
theorem index_eq (h : t.Extends t' touched) (hw : t.WellLinked) (hw' : t'.WellLinked)
    (hl : ∀ id ∈ touched, t.Leaf id) (hid : id < t.count) (hm : id ∉ touched) :
    t'.index numbering id = t.index numbering id := by
  induction id using hw.inductionDown with
  | top id hc =>
    rw [hw'.index_eq, hw.index_eq, h.slot_eq id hid hm, h.containerOf_eq id hid, hc]
    rfl
  | step id parent hc ih =>
    have hparent : t'.index numbering parent = t.index numbering parent :=
      ih (Nat.lt_trans (hw.lt_of_containerOf hc) hid) fun hp => hw.not_leaf hid hc (hl parent hp)
    rw [hw'.index_eq, hw.index_eq, h.slot_eq id hid hm, h.containerOf_eq id hid, hc]
    exact congrArg _ hparent

theorem indexAbove_eq (h : t.Extends t' touched) (hw : t.WellLinked) (hw' : t'.WellLinked)
    (hl : ∀ id ∈ touched, t.Leaf id) (hc : t.Has c) (hm : ∀ id ∈ touched, c ≠ .node id) :
    t'.indexAbove numbering c = t.indexAbove numbering c := by
  cases c with
  | root => rfl
  | node id => exact h.index_eq hw hw' hl hc fun hid => hm id hid rfl

end Extends

/-! ## Enumerated rows -/

/-- The containers of a level that satisfy `P` have the numbers 1, 2, 3, … in the order of the
document. -/
def Enumerated (t : Arena) (level : Nat) (P : Container → Prop) : Prop :=
  ∃ containers : List Container, containers.Sublist (t.row level) ∧ (∀ c, c ∈ containers ↔ P c) ∧
    containers.map (t.indexAbove .stacked) = List.range' 1 containers.length

/-- Runs of `copies` numbers, one behind the other. -/
theorem flatMap_range' (n copies : Nat) :
    (List.range' 1 n).flatMap (fun q => List.range' (copies * (q - 1) + 1) copies) =
      List.range' 1 (copies * n) := by
  induction n with
  | zero => rfl
  | succ n ih =>
    rw [List.range'_1_concat, List.flatMap_append, ih, List.flatMap_singleton,
      Nat.add_sub_cancel_left, Nat.mul_succ, ← List.range'_append_1, Nat.add_comm 1]

/-- The numbers of a group of copies below one node. -/
theorem map_index_slots (copies parentIndex : Nat) :
    ((List.range' 1 copies).map (Slot.mk · copies)).map (Numbering.stacked.index · parentIndex) =
      List.range' (copies * (parentIndex - 1) + 1) copies := by
  rw [List.map_map]
  exact List.map_add_range' (a := copies * (parentIndex - 1)) 1 copies 1

namespace Enumerated

theorem congr (h : t.Enumerated level P) (e : ∀ c, P c ↔ Q c) : t.Enumerated level Q :=
  (funext fun c => propext (e c) : P = Q) ▸ h

theorem root (t : Arena) : t.Enumerated 0 (· = .root) :=
  ⟨[.root], .refl _, fun _ => List.mem_singleton, rfl⟩

/-- Where an arena grows, containers that are not touched keep their order and their numbers. -/
theorem extend (h : t.Enumerated level P) (ext : t.Extends t' touched) (hw : t.WellLinked)
    (hw' : t'.WellLinked) (hl : ∀ id ∈ touched, t.Leaf id)
    (hP : ∀ c, P c → t.Has c ∧ ∀ id ∈ touched, c ≠ .node id) : t'.Enumerated level P := by
  obtain ⟨containers, hsub, hmem, hmap⟩ := h
  refine ⟨containers, hsub.trans (ext.row_sublist level), hmem, ?_⟩
  rw [← hmap]
  refine List.map_congr_left fun c hc => ?_
  obtain ⟨hhas, hm⟩ := hP c ((hmem c).1 hc)
  exact ext.indexAbove_eq hw hw' hl hhas hm

/-- Below enumerated containers that each hold one group of as many copies, the copies are
enumerated. -/
theorem children (copies : Nat) (h : t.Enumerated level P) (hw : t.WellLinked)
    (hlive : ∀ id ∈ live, id < t.count ∧ P (t.containerOf id))
    (hs : ∀ c, P c → ((t.children c).toList.filter (· ∈ live)).map (fun id => (t.node id).slot) =
      (List.range' 1 copies).map (Slot.mk · copies)) :
    t.Enumerated (level + 1) fun c => ∃ id ∈ live, .node id = c := by
  obtain ⟨containers, hsub, hmem, hmap⟩ := h
  let group := fun c => (t.children c).toList.filter (· ∈ live)
  -- copies below number `q` get the `copies` numbers that follow `copies * (q - 1)`
  have hgroup : ∀ c ∈ containers, ((group c).map Container.node).map (t.indexAbove .stacked) =
      List.range' (copies * (t.indexAbove .stacked c - 1) + 1) copies := by
    intro c hc
    rw [← map_index_slots, ← hs c ((hmem c).1 hc), List.map_map, List.map_map]
    refine List.map_congr_left fun id hid => ?_
    have hcont := hw.containerOf_eq (List.mem_of_mem_filter hid)
    exact (hw.index_eq id).trans (by rw [hcont]; rfl)
  refine ⟨containers.flatMap fun c => (group c).map .node, ?_, fun c => ?_, ?_⟩
  · rw [row_succ, beneath]
    exact (hsub.flatMap _).trans
      (List.Sublist.flatMap_right _ fun c _ => List.filter_sublist.map _)
  · simp only [List.mem_flatMap, List.mem_map, group, List.mem_filter, decide_eq_true_eq]
    constructor
    · rintro ⟨_, -, id, ⟨-, hid⟩, rfl⟩
      exact ⟨id, hid, rfl⟩
    · rintro ⟨id, hid, rfl⟩
      obtain ⟨hlt, hP⟩ := hlive id hid
      exact ⟨t.containerOf id, (hmem _).2 hP, id, ⟨hw.mem_children.2 ⟨hlt, rfl⟩, hid⟩, rfl⟩
  · have hrange : (containers.flatMap fun c => (group c).map Container.node).map
        (t.indexAbove .stacked) = List.range' 1 (copies * containers.length) := by
      rw [List.map_flatMap, List.flatMap_congr hgroup, ← flatMap_range', ← hmap, List.flatMap_map]
    have hlen := congrArg List.length hrange
    rw [List.length_map, List.length_range'] at hlen
    rw [hrange, hlen]

/-- Enumerated nodes have the numbers 1, 2, 3, … as the walk over the arena meets them. -/
theorem map_preorder {ids : List NodeId}
    (h : t.Enumerated (level + 1) fun c => ∃ id ∈ ids, .node id = c) (hw : t.WellLinked)
    (hn : ids.Nodup) :
    (t.preorder.toList.filter (· ∈ ids)).map (t.index .stacked) = List.range' 1 ids.length := by
  obtain ⟨containers, hsub, hmem, hmap⟩ := h
  obtain ⟨ordered, hordered, rfl⟩ :=
    List.sublist_map_iff.1 (hsub.trans (hw.row_succ_sublist_preorder level))
  have hpre : t.preorder.toList.Nodup := hw.preorder_perm.nodup_iff.2 List.nodup_range
  have hiff : ∀ x, x ∈ ordered ↔ x ∈ ids := fun x => by
    rw [← List.mem_map_of_injective fun _ _ => Container.node.inj, hmem]
    simp
  have hlen : ordered.length = ids.length :=
    ((List.perm_ext_iff_of_nodup (hordered.nodup hpre) hn).2 hiff).length_eq
  -- both are lists of the same nodes in the same order
  have hfilter : ordered = t.preorder.toList.filter (· ∈ ids) := by
    have hs := hordered.filter (· ∈ ids)
    rw [List.filter_eq_self.2 fun x hx => decide_eq_true ((hiff x).1 hx)] at hs
    refine hs.eq_of_length_le (List.Nodup.subperm (hpre.filter _) fun x hx => ?_).length_le
    exact (hiff x).2 (of_decide_eq_true (List.mem_filter.1 hx).2)
  rw [List.map_map, List.length_map] at hmap
  rw [← hfilter, ← hlen]
  exact hmap

end Enumerated

/-! ## Above the nodes that operators apply to -/

/-- Whatever the number of levels, the containers above an operand are enumerated. -/
def EnumeratedAbove (t : Arena) (depth : Nat) (operand : Operand) : Prop :=
  ∀ levels, t.Enumerated (depth + 1 - levels) (· ∈ t.containersAbove operand levels)

namespace EnumeratedAbove

/-- A top-level node is enumerated, and so is the root above it. -/
theorem first (name : String) : (({} : Arena).append .root name).EnumeratedAbove 0 (.node 0) := by
  have hw : (({} : Arena).append .root name).WellLinked := wellLinked_empty.attach has_root rfl
  have hroot : (({} : Arena).append .root name).containerOf 0 = .root := rfl
  intro levels
  cases levels with
  | zero =>
    refine ((Enumerated.root _).children 1 hw (fun id (hid : id ∈ [0]) => ?_)
      fun c hc => ?_).congr fun c => ?_
    · rw [List.mem_singleton.1 hid]
      exact ⟨by simp, hroot⟩
    · subst hc
      rfl
    · rw [mem_containersAbove]
      rfl
  | succ n =>
    rw [Nat.add_sub_add_right, Nat.zero_sub]
    refine (Enumerated.root _).congr fun c => ?_
    rw [mem_containersAbove]
    simp [Operand.members, hroot, eq_comm]

/-- If the containers of new nodes are those some levels above the old ones, and each holds one
group of as many copies, the new nodes and what is above them are enumerated. -/
theorem extend (levels copies : Nat) (h : t.EnumeratedAbove depth operand)
    (ext : t.Extends t' touched) (hw : t.WellLinked) (hw' : t'.WellLinked)
    (tips : Tips t depth operand.members)
    (hl : ∀ id ∈ touched, t.Leaf id)
    (hfar : ∀ n, ∀ id ∈ touched, .node id ∉ t.containersAbove operand (n + levels))
    (hlt : ∀ id ∈ operand'.members, id < t'.count)
    (hc : ∀ c, (∃ id ∈ operand'.members, t'.containerOf id = c) ↔
      c ∈ t.containersAbove operand levels)
    (hs : ∀ c ∈ t.containersAbove operand levels,
      ((t'.children c).toList.filter (· ∈ operand'.members)).map (fun id => (t'.node id).slot) =
        (List.range' 1 copies).map (Slot.mk · copies)) :
    t'.EnumeratedAbove (depth + 1 - levels) operand' := by
  -- the containers further above are the old ones
  have hup : ∀ n, t'.Enumerated (depth + 1 - (n + levels))
      (· ∈ t.containersAbove operand (n + levels)) := fun n =>
    (h (n + levels)).extend ext hw hw' hl fun c hm =>
      ⟨hw.has_containersAbove tips.lt_count hm, fun id hid e => hfar n id hid (e ▸ hm)⟩
  intro n
  cases n with
  | zero =>
    have hzero := hup 0
    rw [Nat.zero_add] at hzero
    have hlive : ∀ id ∈ operand'.members, id < t'.count ∧
        t'.containerOf id ∈ t.containersAbove operand levels :=
      fun id hid => ⟨hlt id hid, (hc _).1 ⟨id, hid, rfl⟩⟩
    refine (hzero.children copies hw' hlive hs).congr fun c => ?_
    rw [mem_containersAbove]
    rfl
  | succ n =>
    have hlevel : depth + 1 - levels + 1 - (n + 1) = depth + 1 - (n + levels) := by
      rw [Nat.add_sub_add_right, Nat.sub_sub, Nat.add_comm n]
    rw [hlevel]
    exact (hup n).congr fun c => (ext.mem_containersAbove_succ hw tips.lt_count hc n).symm

/-- Attributes change nothing. -/
theorem retouch (h : t.EnumeratedAbove depth operand) (hw : t.WellLinked)
    (tips : Tips t depth operand.members) (p : List Attribute → List Attribute)
    (ids : List NodeId) :
    (t.retouch p (fun slot => slot) ids).EnumeratedAbove depth (.collapse operand.members) := by
  intro levels
  have ext := extends_retouch_attributes (t := t) p ids
  exact ((h levels).extend ext hw (hw.retouch ids) nofun fun c hm =>
    ⟨hw.has_containersAbove tips.lt_count hm, nofun⟩).congr fun c =>
      (ext.mem_containersAbove hw tips.lt_count (Operand.members_collapse _) levels).symm

end EnumeratedAbove

/-! ## Operators -/

namespace Tips

variable (tips : Tips t depth operand.members) (hw : t.WellLinked)

include tips hw

/-- Placing nodes keeps the rows above them enumerated. -/
theorem enumeratedAbove_place (levels : Nat) (name : String) (h : t.EnumeratedAbove depth operand) :
    let placed := t.appendToEach (t.containersAbove operand levels) name
    placed.1.EnumeratedAbove (depth + 1 - levels) placed.2 := by
  intro placed
  have added := tips.addsLeaves_appendToEach hw levels name
  have next := (tips.appendToEach hw levels name).1
  refine .extend levels 1 h added.extends hw added.wellLinked tips nofun (fun _ => nofun)
    next.lt_count (tips.containerOf_place hw levels name) fun c hc => ?_
  obtain ⟨x, hx, he⟩ := tips.filter_children_place hw levels name hc
  rw [added.wellLinked.map_slot, hx, List.map_singleton, he]
  rfl

/-- Multiplying nodes that are alone in their containers keeps the rows above them enumerated. -/
theorem enumeratedAbove_multiply (copies : Nat) (h : t.EnumeratedAbove depth operand)
    (lone : t.Lone operand.members) (hpos : 1 ≤ copies) :
    let multiplied := t.multiplyEach operand copies
    multiplied.1.EnumeratedAbove depth multiplied.2 := by
  intro multiplied
  have added := tips.addsLeaves_multiplyEach hw copies
  refine .extend 1 copies h (tips.extends_multiplyEach hw copies) hw added.wellLinked tips
    tips.leaf (fun n id hid => tips.not_mem_containersAbove hw n hid)
    (tips.multiplyEach hw copies).1.lt_count (tips.containerOf_multiplyEach hw copies)
    fun c hc => ?_
  obtain ⟨m, hm, rfl⟩ := mem_containersAbove.1 hc
  exact tips.slots_multiplyEach hw copies lone hpos hm

end Tips

end MarkupShorthand.Arena
