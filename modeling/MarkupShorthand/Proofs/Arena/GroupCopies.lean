import Mathlib.Data.List.ProdSigma
import Mathlib.Data.Prod.Basic
import MarkupShorthand.Proofs.Arena.DeepCopy

/-!
# Copies of groups

What multiplying a group does where no member is below another (`Apart`). The copies are made
member by member and position by position (`copyOrder`), and while they are, the members still hold
what they held (`Multiplying.unchanged`): containers gain only copies, and no container of a member
is below one. So marking a member (`Multiplying.mark`) and copying it once more
(`Multiplying.clone`) are told by the arena that was there at the start, whatever was multiplied
before. All together is `Multiplied`, and it holds of whatever numbers the copies in their order
(`Apart.multiplied`). Hence another order of the members only exchanges numbers and moves the
copies of one member in front of those of another (`Reordered`).
-/

namespace MarkupShorthand

namespace Arena

/-- Whether some nodes are there once each, and none of them is below another. -/
structure Apart (t : Arena) (ids : List NodeId) : Prop where
  nodup : ids.Nodup
  lt_count : ∀ id ∈ ids, id < t.count
  not_above : ∀ id ∈ ids, ∀ id' ∈ ids, ∀ n, t.above^[n] (.node id) = .node id' → id = id'

/-- The copies that are made of the members of a group, in order: of each its further ones, told by
their positions. -/
def copyOrder (members : List NodeId) (count : Nat) : List (NodeId × Nat) :=
  members ×ˢ List.range' 2 (count - 1)

/-- The nodes that are copied for some copies, in order, each with the position of the copy. -/
def copiedNodes (t : Arena) (copies : List (NodeId × Nat)) : List (NodeId × Nat) :=
  copies.flatMap fun copy => (t.subtree copy.1).toList.map (·, copy.2)

variable {t s : Arena} {members members' marked : List NodeId} {made left : List (NodeId × Nat)}
  {count position : Nat} {id x : NodeId} {c : Container} {copyOf : NodeId × Nat → NodeId}

/-! ## Nodes apart from each other -/

/-- Of two nodes above a node, one is above the other. -/
theorem above_of_above {n m : Nat} {id' : NodeId} (hn : t.above^[n] (.node x) = .node id)
    (hm : t.above^[m] (.node x) = .node id') (hle : n ≤ m) :
    t.above^[m - n] (.node id) = .node id' := by
  rw [← hn, ← Function.iterate_add_apply, Nat.sub_add_cancel hle, hm]

namespace Apart

theorem perm (ha : t.Apart members) (hp : members.Perm members') : t.Apart members' where
  nodup := hp.nodup_iff.1 ha.nodup
  lt_count id hid := ha.lt_count id (hp.mem_iff.2 hid)
  not_above id hid id' hid' := ha.not_above id (hp.mem_iff.2 hid) id' (hp.mem_iff.2 hid')

variable (h : t.WellLinked) (ha : t.Apart members)
include h ha

/-- A node is below one member at most. -/
theorem eq_of_mem_below {id' : NodeId} (hid : id ∈ members) (hid' : id' ∈ members)
    (hx : x ∈ t.below id) (hx' : x ∈ t.below id') : id = id' := by
  obtain ⟨n, hn⟩ := h.mem_below.1 hx
  obtain ⟨m, hm⟩ := h.mem_below.1 hx'
  rcases Nat.le_total n m with hle | hle
  · exact ha.not_above id hid id' hid' _ (above_of_above hn hm hle)
  · exact (ha.not_above id' hid' id hid _ (above_of_above hm hn hle)).symm

/-- No member is in a node that is below a member. -/
theorem containerOf_ne (hid : id ∈ members) (hx : x ∈ t.below id) {id' : NodeId}
    (hid' : id' ∈ members) : t.containerOf id' ≠ .node x := by
  intro hc
  obtain ⟨n, hn⟩ := h.mem_below.1 hx
  have up : t.above^[n + 1] (.node id') = .node id := by
    rw [Function.iterate_succ_apply, above_node, hc, hn]
  obtain rfl := ha.not_above id' hid' id hid _ up
  exact Nat.not_lt.2 (h.le_of_mem_below hx) (h.lt_of_containerOf hc)

theorem toList_subtree (hid : id ∈ members) : (t.subtree id).toList = t.below id :=
  h.subtree_eq (ha.lt_count id hid)

theorem mem_copiedNodes {node : NodeId × Nat} :
    node ∈ t.copiedNodes (copyOrder members count) ↔
      ∃ id ∈ members, node.2 ∈ List.range' 2 (count - 1) ∧ node.1 ∈ t.below id := by
  rw [copiedNodes, List.mem_flatMap]
  constructor
  · rintro ⟨⟨id, position⟩, hcopy, hnode⟩
    obtain ⟨hid, hposition⟩ := List.mem_product.1 hcopy
    obtain ⟨x, hx, rfl⟩ := List.mem_map.1 hnode
    exact ⟨id, hid, hposition, ha.toList_subtree h hid ▸ hx⟩
  · rintro ⟨id, hid, hposition, hx⟩
    refine ⟨(id, node.2), List.mem_product.2 ⟨hid, hposition⟩, ?_⟩
    rw [ha.toList_subtree h hid]
    exact List.mem_map.2 ⟨node.1, hx, rfl⟩

/-- No node is copied twice to one position. -/
theorem nodup_copiedNodes : (t.copiedNodes (copyOrder members count)).Nodup := by
  have order : (copyOrder members count).Nodup := ha.nodup.product List.nodup_range'
  have member : ∀ copy ∈ copyOrder members count, copy.1 ∈ members := fun copy hcopy =>
    (List.mem_product.1 hcopy).1
  refine List.nodup_flatMap.2 ⟨fun copy hcopy => ?_, order.pairwise_of_forall_ne ?_⟩
  · rw [ha.toList_subtree h (member copy hcopy)]
    exact (h.nodup_below copy.1).map (Prod.mk_left_injective copy.2)
  · rintro ⟨id, position⟩ hcopy ⟨id', position'⟩ hcopy' hne node hnode hnode'
    have hid := member _ hcopy
    have hid' := member _ hcopy'
    obtain ⟨x, hx, rfl⟩ := List.mem_map.1 hnode
    obtain ⟨x', hx', e⟩ := List.mem_map.1 hnode'
    obtain ⟨rfl, rfl⟩ := Prod.mk.inj e
    rw [ha.toList_subtree h hid] at hx
    rw [ha.toList_subtree h hid'] at hx'
    exact hne (congrArg (·, position') (ha.eq_of_mem_below h hid hid' hx hx'))

/-- The copies can be numbered in their order, each member being the first of its group. -/
theorem exists_numbers (count : Nat) : ∃ copyOf : NodeId × Nat → NodeId,
    (∀ id < t.count, copyOf (id, 1) = id) ∧
    NumbersFrom copyOf t.count (t.copiedNodes (copyOrder members count)) := by
  have nodup : (t.copiedNodes (copyOrder members count)).Nodup := ha.nodup_copiedNodes h
  obtain ⟨number, numbered⟩ := NumbersFrom.exists_of_nodup nodup t.count
  refine ⟨fun node => if node.2 = 1 then node.1 else number node, fun id _ => if_pos rfl,
    numbered.congr fun node hnode => ?_⟩
  obtain ⟨-, -, hposition, -⟩ := (ha.mem_copiedNodes h).1 hnode
  exact if_neg (Nat.ne_of_gt (List.mem_range'_1.1 hposition).1)

end Apart

theorem copiedNodes_append (copies copies' : List (NodeId × Nat)) :
    t.copiedNodes (copies ++ copies') = t.copiedNodes copies ++ t.copiedNodes copies' :=
  List.flatMap_append

theorem copiedNodes_cons (copies : List (NodeId × Nat)) :
    t.copiedNodes ((id, position) :: copies) =
      (t.subtree id).toList.map (·, position) ++ t.copiedNodes copies :=
  List.flatMap_cons

/-! ## Multiplying member by member -/

/-- The members `marked` are the first of their groups, and the copies `made` are there. -/
structure Multiplying (t : Arena) (members : List NodeId) (count : Nat)
    (copyOf : NodeId × Nat → NodeId) (marked : List NodeId) (made : List (NodeId × Nat))
    (s : Arena) : Prop where
  wellLinked : s.WellLinked
  marked_members : marked ⊆ members
  made_marked : ∀ copy ∈ made, copy.1 ∈ marked
  count_eq : s.count = t.count + (t.copiedNodes made).length
  children_eq : ∀ c, t.Has c → (s.children c).toList =
    (t.children c).toList ++ (made.filter (t.containerOf ·.1 = c)).map copyOf
  node_old : ∀ id < t.count, s.node id =
    { t.node id with
      slot := if id ∈ marked then ⟨1, count⟩ else (t.node id).slot
      children := (s.node id).children }
  node_copy : ∀ copy ∈ made, ∀ id ∈ t.below copy.1, s.node (copyOf (id, copy.2)) =
    t.copiedNode copy.1 (t.containerOf copy.1) ⟨copy.2, count⟩ (fun id => copyOf (id, copy.2))
      (t.node id).children.toList id

namespace Multiplying

theorem start (h : t.WellLinked) : Multiplying t members count copyOf [] [] t where
  wellLinked := h
  marked_members := List.nil_subset _
  made_marked _ hm := absurd hm List.not_mem_nil
  count_eq := rfl
  children_eq _ _ := (List.append_nil _).symm
  node_old _ _ := rfl
  node_copy _ hm := absurd hm List.not_mem_nil

theorem count_le (state : Multiplying t members count copyOf marked made s) : t.count ≤ s.count :=
  state.count_eq ▸ Nat.le_add_right ..

section Step

variable (h : t.WellLinked) (ha : t.Apart members)
  (state : Multiplying t members count copyOf marked made s)
include h ha state

/-- Nothing was put into the nodes below a member. -/
theorem node_below (hid : id ∈ members) (hx : x ∈ t.below id) :
    s.node x = { t.node x with slot := if x ∈ marked then ⟨1, count⟩ else (t.node x).slot } := by
  have hlt := h.lt_of_mem_below (ha.lt_count id hid) hx
  have none : made.filter (t.containerOf ·.1 = .node x) = [] := by
    refine List.filter_eq_nil_iff.2 fun copy hcopy he => ?_
    have member := state.marked_members (state.made_marked copy hcopy)
    exact ha.containerOf_ne h hid hx member (of_decide_eq_true he)
  have hchildren : (s.node x).children = (t.node x).children := by
    have e := state.children_eq (.node x) hlt
    rw [none, List.map_nil, List.append_nil] at e
    exact Array.toList_inj.1 e
  rw [state.node_old x hlt, hchildren]

/-- Below a member no other is marked. -/
theorem not_marked (hid : id ∈ members) (hx : x ∈ t.below id) (hne : x ≠ id) : x ∉ marked :=
  fun hm => hne (ha.eq_of_mem_below h (state.marked_members hm) hid (h.mem_below_self x) hx)

/-- What is below a member is what was below it. -/
theorem unchanged (hid : id ∈ members) : s.below id = t.below id ∧
    s.element id = { t.element id with slot := (s.node id).slot } := by
  refine h.element_of_slots state.wellLinked (fun x hx => ?_) fun x hx hne => ?_
  · rw [state.node_below h ha hid hx]
  · rw [state.node_below h ha hid hx]
    exact if_neg (state.not_marked h ha hid hx hne)

/-- Copies have numbers that no node had at the start. -/
theorem number_lt (hn : NumbersFrom copyOf t.count (t.copiedNodes (made ++ left)))
    {copy : NodeId × Nat} (hcopy : copy ∈ made) (hx : x ∈ t.below copy.1) :
    t.count ≤ copyOf (x, copy.2) ∧ copyOf (x, copy.2) < s.count := by
  rw [copiedNodes_append, NumbersFrom.append] at hn
  rw [state.count_eq]
  have member := state.marked_members (state.made_marked copy hcopy)
  refine hn.1.mem_range (List.mem_flatMap.2 ⟨copy, hcopy, ?_⟩)
  rw [ha.toList_subtree h member]
  exact List.mem_map_of_mem hx

/-- A member becomes the first of its group. -/
theorem mark (hn : NumbersFrom copyOf t.count (t.copiedNodes (made ++ left)))
    (hid : id ∈ members) :
    Multiplying t members count copyOf (marked ++ [id]) made (s.markFirst id count) := by
  have hlt := ha.lt_count id hid
  constructor
  case wellLinked => exact state.wellLinked.modify id (fun _ => rfl) (fun _ => rfl)
  case marked_members =>
    exact List.append_subset.2 ⟨state.marked_members, by simpa using hid⟩
  case made_marked =>
    exact fun copy hcopy => List.mem_append_left _ (state.made_marked copy hcopy)
  case count_eq => exact (count_modify ..).trans state.count_eq
  case children_eq =>
    intro c hc
    have kept : (s.markFirst id count).children c = s.children c := by
      refine children_modify ?_ s id c
      exact fun _ => rfl
    exact kept ▸ state.children_eq c hc
  case node_old =>
    intro x hx
    have hs : x < s.count := Nat.lt_of_lt_of_le hx state.count_le
    rw [markFirst, node_modify]
    by_cases e : x = id
    · subst e
      rw [if_pos ⟨rfl, hs⟩, if_pos (List.mem_append_right _ (List.mem_singleton_self _)),
        state.node_old x hx]
    · rw [if_neg fun both => e both.1, state.node_old x hx]
      simp [e]
  case node_copy =>
    intro copy hcopy x hx
    have hne : copyOf (x, copy.2) ≠ id :=
      Nat.ne_of_gt (Nat.lt_of_lt_of_le hlt (state.number_lt h ha hn hcopy hx).1)
    rw [markFirst, node_modify, if_neg fun both => hne both.1]
    exact state.node_copy copy hcopy x hx

/-- A further copy of a member is one of what the member was at the start. -/
theorem deepCopied (hid : id ∈ marked)
    (hn : NumbersFrom copyOf t.count (t.copiedNodes (made ++ (id, position) :: left))) :
    copyOf (id, position) = s.count ∧
      DeepCopied s id (t.containerOf id) ⟨position, count⟩ (s.clone id (t.containerOf id) position)
        fun x => copyOf (x, position) := by
  have member := state.marked_members hid
  have hlt := ha.lt_count id member
  have same : s.containerOf id = t.containerOf id :=
    containerOf_congr (by rw [state.node_old id hlt])
  have numbered : NumbersFrom (fun x => copyOf (x, position)) s.count (s.below id) := by
    rw [copiedNodes_append, copiedNodes_cons, NumbersFrom.append, NumbersFrom.append,
      ← state.count_eq, ha.toList_subtree h member] at hn
    exact (state.unchanged h ha member).1 ▸ NumbersFrom.map.1 hn.2.1
  have slot : { (s.node id).slot with position := position } = (⟨position, count⟩ : Slot) := by
    rw [state.node_old id hlt, if_pos hid]
  have hs : id < s.count := Nat.lt_of_lt_of_le hlt state.count_le
  have copied := (state.wellLinked.deepCopied_clone hs (state.wellLinked.has_containerOf hs)
    (state.wellLinked.above_containerOf_ne id) numbered position).2
  rw [same, slot] at copied
  rw [state.wellLinked.below_eq, NumbersFrom.cons] at numbered
  exact ⟨numbered.1, copied⟩

/-- A member is copied once more. -/
theorem clone (hid : id ∈ marked)
    (hn : NumbersFrom copyOf t.count (t.copiedNodes (made ++ (id, position) :: left))) :
    copyOf (id, position) = s.count ∧
      Multiplying t members count copyOf marked (made ++ [(id, position)])
        (s.clone id (t.containerOf id) position) := by
  obtain ⟨number, copied⟩ := state.deepCopied h ha hid hn
  have member := state.marked_members hid
  have hcontainer := h.has_containerOf (ha.lt_count id member)
  have hs : id < s.count := Nat.lt_of_lt_of_le (ha.lt_count id member) state.count_le
  have hbelow := (state.unchanged h ha member).1
  refine ⟨number, ?_⟩
  constructor
  case wellLinked =>
    exact (state.wellLinked.growsTo_clone (has_mono state.count_le hcontainer) id position).1
  case marked_members => exact state.marked_members
  case made_marked =>
    intro copy hcopy
    rcases List.mem_append.1 hcopy with hcopy | hcopy
    · exact state.made_marked copy hcopy
    · rw [List.mem_singleton.1 hcopy]
      exact hid
  case count_eq =>
    have size : s.subtreeSize id = (t.subtree id).toList.length := by
      rw [state.wellLinked.subtreeSize_eq hs, ← state.wellLinked.length_below, hbelow,
        ha.toList_subtree h member]
    rw [copied.count_eq, state.count_eq, copiedNodes_append, copiedNodes_cons]
    simp [size, copiedNodes, Nat.add_assoc]
  case children_eq =>
    intro c hc
    rw [copied.children_eq c (has_mono state.count_le hc), List.filter_append, List.map_append,
      ← List.append_assoc, ← state.children_eq c hc]
    by_cases e : t.containerOf id = c
    · rw [if_pos e.symm, Array.toList_push, List.filter_cons_of_pos (by simpa using e)]
      simp [number]
    · rw [if_neg (Ne.symm e), List.filter_cons_of_neg (by simpa using e)]
      simp
  case node_old =>
    intro x hx
    rw [copied.node_old x (Nat.lt_of_lt_of_le hx state.count_le), state.node_old x hx]
  case node_copy =>
    intro copy hcopy x hx
    rcases List.mem_append.1 hcopy with hcopy | hcopy
    · obtain ⟨hge, hlt⟩ := state.number_lt h ha hn hcopy hx
      have hne : t.containerOf id ≠ .node (copyOf (x, copy.2)) := by
        intro e
        rw [e] at hcontainer
        exact Nat.not_lt.2 hge hcontainer
      rw [copied.node_eq hlt hne]
      exact state.node_copy copy hcopy x hx
    · obtain rfl := List.mem_singleton.1 hcopy
      have hmem : x ∈ s.subtree id := by
        rw [← Array.mem_toList_iff, state.wellLinked.subtree_eq hs, hbelow]
        exact hx
      rw [copied.node_copy x hmem, copiedNode, copiedNode, state.node_below h ha member hx]
      by_cases e : x = id
      · simp [e]
      · simp [e, state.not_marked h ha member hx e]

end Step

section Run

variable (h : t.WellLinked) (ha : t.Apart members)
include h ha

/-- A member is copied to some positions, one after the other. -/
theorem clones {positions : List Nat} (group : Array NodeId)
    (state : Multiplying t members count copyOf marked made s) (hid : id ∈ marked)
    (hn : NumbersFrom copyOf t.count
      (t.copiedNodes (made ++ (positions.map (id, ·) ++ left)))) :
    let copied := positions.foldl (fun (copied : Arena × Array NodeId) position =>
      (copied.1.clone id (t.containerOf id) position, copied.2.push copied.1.count)) (s, group)
    Multiplying t members count copyOf marked (made ++ positions.map (id, ·)) copied.1 ∧
      copied.2.toList = group.toList ++ positions.map fun position => copyOf (id, position) := by
  induction positions generalizing s made group with
  | nil => simpa using state
  | cons position positions ih =>
    rw [List.map_cons, List.cons_append] at hn
    obtain ⟨number, next⟩ := state.clone h ha hid hn
    -- the copy just made counts among those before it
    rw [List.append_cons] at hn
    obtain ⟨last, copies⟩ := ih (group.push s.count) next hn
    rw [Array.toList_push] at copies
    rw [List.map_cons, List.map_cons, List.append_cons made, List.append_cons group.toList, number]
    exact ⟨last, copies⟩

/-- A member is multiplied. -/
theorem multiply (state : Multiplying t members count copyOf marked made s) (hid : id ∈ members)
    (hn : NumbersFrom copyOf t.count
      (t.copiedNodes (made ++ ((List.range' 2 (count - 1)).map (id, ·) ++ left)))) :
    Multiplying t members count copyOf (marked ++ [id])
        (made ++ (List.range' 2 (count - 1)).map (id, ·)) (s.multiply id count).1 ∧
      (s.multiply id count).2 =
        id :: (List.range' 2 (count - 1)).map fun position => copyOf (id, position) := by
  have same : s.containerOf id = t.containerOf id :=
    containerOf_congr (by rw [state.node_old id (ha.lt_count id hid)])
  have marked := state.mark h ha hn hid
  have copied := marked.clones h ha #[id] (List.mem_append_right _ (List.mem_singleton_self id)) hn
  rw [← same] at copied
  exact copied

/-- Members are multiplied one after the other. -/
theorem multiplyAll {rest : List NodeId} (groups : Array NodeId)
    (state : Multiplying t members count copyOf marked made s) (hrest : rest ⊆ members)
    (hn : NumbersFrom copyOf t.count (t.copiedNodes (made ++ copyOrder rest count))) :
    let multiplied := rest.foldl (fun (multiplied : Arena × Array NodeId) id =>
      ((multiplied.1.multiply id count).1, multiplied.2 ++ (multiplied.1.multiply id count).2))
      (s, groups)
    Multiplying t members count copyOf (marked ++ rest) (made ++ copyOrder rest count)
        multiplied.1 ∧
      multiplied.2.toList = groups.toList ++ rest.flatMap fun id =>
        id :: (List.range' 2 (count - 1)).map fun position => copyOf (id, position) := by
  induction rest generalizing s marked made groups with
  | nil => simpa [copyOrder] using state
  | cons id rest ih =>
    obtain ⟨hid, hrest⟩ := List.cons_subset.1 hrest
    rw [copyOrder, List.product_cons] at hn
    obtain ⟨next, group⟩ := state.multiply h ha hid hn
    rw [← List.append_assoc] at hn
    obtain ⟨last, copies⟩ := ih (groups ++ (s.multiply id count).2) next hrest hn
    rw [copyOrder, List.product_cons, ← List.append_assoc, List.append_cons]
    refine ⟨last, copies.trans ?_⟩
    rw [Array.toList_appendList, group, List.append_assoc, List.flatMap_cons]

end Run

end Multiplying

/-! ## Multiplied groups -/

theorem length_copiedNodes (t : Arena) (members : List NodeId) (count : Nat) :
    (t.copiedNodes (copyOrder members count)).length =
      (count - 1) * (members.map t.subtreeSize).sum := by
  induction members with
  | nil => rfl
  | cons id rest ih =>
    rw [copyOrder, List.product_cons, copiedNodes_append, List.length_append, ← copyOrder, ih,
      List.map_cons, List.sum_cons, Nat.mul_add]
    simp [copiedNodes, List.length_flatMap, Function.comp_def, subtreeSize]

/-- The copies in a container are those of the members that it holds. -/
theorem filter_copyOrder (t : Arena) (members : List NodeId) (count : Nat) (c : Container) :
    ((copyOrder members count).filter (t.containerOf ·.1 = c)).map copyOf =
      (members.filter (t.containerOf · = c)).flatMap fun id =>
        (List.range' 2 (count - 1)).map fun position => copyOf (id, position) := by
  induction members with
  | nil => rfl
  | cons id rest ih =>
    rw [copyOrder, List.product_cons, List.filter_append, List.map_append, ← copyOrder, ih,
      List.filter_cons]
    by_cases e : t.containerOf id = c
    · simp [e, List.filter_map, Function.comp_def]
    · simp [e, List.filter_map, Function.comp_def]

/-- The members of a group were multiplied, each with the nodes below it. -/
structure Multiplied (t : Arena) (members : List NodeId) (count : Nat) (grown : Arena × Operand)
    (copyOf : NodeId × Nat → NodeId) : Prop where
  /-- The first of a group is the member itself. -/
  first : ∀ id < t.count, copyOf (id, 1) = id
  /-- The further copies have the next numbers: member by member, position by position, and in each
  copy in the order of the walk. -/
  numbered : NumbersFrom copyOf t.count (t.copiedNodes (copyOrder members count))
  count_eq : grown.1.count = t.count + (count - 1) * (members.map t.subtreeSize).sum
  /-- What is left to work with is each member, followed by its further copies. -/
  operand_eq : grown.2 = .collapse (members.flatMap fun id =>
    (List.range' 1 count).map fun position => copyOf (id, position))
  element_eq : ∀ id ∈ members, ∀ position, 1 ≤ position → position ≤ count →
    grown.1.element (copyOf (id, position)) = { t.element id with slot := ⟨position, count⟩ }
  /-- A container lists, behind what it held, the further copies of the members it holds. -/
  children_eq : ∀ c, t.Has c → (grown.1.children c).toList =
    (t.children c).toList ++ (members.filter (t.containerOf · = c)).flatMap fun id =>
      (List.range' 2 (count - 1)).map fun position => copyOf (id, position)
  /-- Nothing else of an old node is changed, but for the slots of the members. -/
  node_old : ∀ id < t.count, grown.1.node id =
    { t.node id with
      slot := if id ∈ members then ⟨1, count⟩ else (t.node id).slot
      children := (grown.1.node id).children }
  node_copy : ∀ id ∈ members, ∀ position ∈ List.range' 2 (count - 1), ∀ x ∈ t.subtree id,
    grown.1.node (copyOf (x, position)) =
      t.copiedNode id (t.containerOf id) ⟨position, count⟩ (fun x => copyOf (x, position))
        (t.node x).children.toList x

/-- However the copies are numbered, if they have the next numbers in their order, multiplying
gives them these. -/
theorem Apart.multiplied (h : t.WellLinked) {operand : Operand} (ha : t.Apart operand.members)
    (hcount : 1 ≤ count) (first : ∀ id < t.count, copyOf (id, 1) = id)
    (hn : NumbersFrom copyOf t.count (t.copiedNodes (copyOrder operand.members count))) :
    Multiplied t operand.members count (t.multiplyEach operand count) copyOf := by
  obtain ⟨state, groups⟩ := (Multiplying.start h).multiplyAll h ha #[] (List.Subset.refl _) hn
  have state : Multiplying t operand.members count copyOf operand.members
    (copyOrder operand.members count) (t.multiplyEach operand count).1 := state
  have groups : (t.multiplyEach operand count).2 = .collapse (operand.members.flatMap fun id =>
      id :: (List.range' 2 (count - 1)).map fun position => copyOf (id, position)) :=
    congrArg Operand.collapse groups
  have node_copy : ∀ id ∈ operand.members, ∀ position ∈ List.range' 2 (count - 1),
      ∀ x ∈ t.below id, (t.multiplyEach operand count).1.node (copyOf (x, position)) =
        t.copiedNode id (t.containerOf id) ⟨position, count⟩ (fun x => copyOf (x, position))
          (t.node x).children.toList x := fun id hid position hposition =>
    state.node_copy (id, position) (List.mem_product.2 ⟨hid, hposition⟩)
  constructor
  case first => exact first
  case numbered => exact hn
  case count_eq => rw [state.count_eq, length_copiedNodes]
  case operand_eq =>
    rw [groups]
    refine congrArg _ (List.flatMap_congr fun id hid => ?_)
    obtain ⟨count, rfl⟩ := Nat.exists_eq_add_of_le' hcount
    rw [List.range'_succ, List.map_cons, first id (ha.lt_count id hid)]
    rfl
  case element_eq =>
    intro id hid position hone hle
    rcases Nat.eq_or_lt_of_le hone with rfl | htwo
    · rw [first id (ha.lt_count id hid), (state.unchanged h ha hid).2,
        state.node_old id (ha.lt_count id hid), if_pos hid]
    · have hposition : position ∈ List.range' 2 (count - 1) :=
        List.mem_range'_1.2 ⟨htwo, by omega⟩
      have copied := h.element_copied state.wellLinked (node_copy id hid position hposition)
      exact copied
  case children_eq =>
    intro c hc
    rw [state.children_eq c hc, filter_copyOrder]
  case node_old => exact state.node_old
  case node_copy =>
    intro id hid position hposition x hx
    rw [← Array.mem_toList_iff, ha.toList_subtree h hid] at hx
    exact node_copy id hid position hposition x hx

/-! ## Other orders -/

/-- Two arenas that multiplying the nodes of `t` led to differ by new numbers that are exchanged, and
by the order in which the new nodes stand in the containers of `t`. -/
structure Reordered (t grown grown' : Arena) (exchange : NodeId → NodeId) : Prop where
  old : ∀ id < t.count, exchange id = id
  perm : ((List.range grown.count).map exchange).Perm (List.range grown'.count)
  node_eq : ∀ id < grown.count, grown'.node (exchange id) =
    { grown.node id with
      parent := (grown.node id).parent.map exchange
      children := (grown'.node (exchange id)).children }
  children_new : ∀ id < grown.count, t.count ≤ id →
    (grown'.node (exchange id)).children = (grown.node id).children.map exchange
  children_perm : ∀ c, t.Has c →
    (grown'.children c).toList.Perm ((grown.children c).toList.map exchange)

section Exchange

variable {grown grown' : Arena × Operand} {exchange : NodeId → NodeId}
  (h : t.WellLinked) (old : ∀ id < t.count, exchange id = id)
include h old

theorem WellLinked.map_children_of_fixed (c : Container) :
    (t.children c).toList.map exchange = (t.children c).toList :=
  (List.map_congr_left fun id hid => old id (h.lt_count hid)).trans (List.map_id _)

theorem WellLinked.map_parent_of_fixed (hid : id < t.count) :
    (t.node id).parent.map exchange = (t.node id).parent := by
  cases e : (t.node id).parent with
  | none => rfl
  | some parent =>
    have hparent := h.lt_of_containerOf (containerOf_eq_node.2 e)
    rw [Option.map_some, old parent (Nat.lt_trans hparent hid)]

omit h in
/-- What is told of the copies is told of them under the exchanged numbers. -/
theorem copiedNode_exchange (hc : t.Has c) (slot : Slot) (copyOf : NodeId → NodeId)
    (children : List NodeId) :
    t.copiedNode id c slot (fun x => exchange (copyOf x)) children x =
      { t.copiedNode id c slot copyOf children x with
        parent := (t.copiedNode id c slot copyOf children x).parent.map exchange
        children := (t.copiedNode id c slot copyOf children x).children.map exchange } := by
  have container : c.node?.map exchange = c.node? := by
    cases c with
    | root => rfl
    | node id => rw [Container.node?, Option.map_some, old id hc]
  by_cases e : x = id
  · simp [copiedNode, e, container]
  · simp [copiedNode, e, Function.comp_def]

theorem Multiplied.reordered (ha : t.Apart members) (hp : members.Perm members')
    (first : Multiplied t members count grown copyOf)
    (second : Multiplied t members' count grown' fun node => exchange (copyOf node))
    (perm : ((List.range grown.1.count).map exchange).Perm (List.range grown.1.count)) :
    Reordered t grown.1 grown'.1 exchange := by
  have same : grown'.1.count = grown.1.count := by
    rw [second.count_eq, first.count_eq, (hp.map t.subtreeSize).sum_nat]
  have new : ∀ id < grown.1.count, t.count ≤ id → grown'.1.node (exchange id) =
      { grown.1.node id with
        parent := (grown.1.node id).parent.map exchange
        children := (grown.1.node id).children.map exchange } := by
    intro id hlt hge
    -- a new number is that of a copied node, and the copy is told alike in both arenas
    have numbered := first.numbered
    rw [NumbersFrom, length_copiedNodes] at numbered
    have hid := List.mem_range'_1.2 ⟨hge, first.count_eq ▸ hlt⟩
    rw [← numbered] at hid
    obtain ⟨⟨x, position⟩, hnode, rfl⟩ := List.mem_map.1 hid
    obtain ⟨id, hid, hposition, hx⟩ := (ha.mem_copiedNodes h).1 hnode
    rw [← ha.toList_subtree h hid, Array.mem_toList_iff] at hx
    rw [first.node_copy id hid position hposition x hx,
      second.node_copy id (hp.mem_iff.1 hid) position hposition x hx,
      copiedNode_exchange old (h.has_containerOf (ha.lt_count id hid))]
  constructor
  case old => exact old
  case perm => exact same ▸ perm
  case node_eq =>
    intro id hlt
    rcases Nat.lt_or_ge id t.count with hid | hid
    · rw [old id hid, second.node_old id hid, first.node_old id hid,
        h.map_parent_of_fixed old hid]
      simp [hp.mem_iff]
    · rw [new id hlt hid]
  case children_new =>
    intro id hlt hge
    rw [new id hlt hge]
  case children_perm =>
    intro c hc
    rw [first.children_eq c hc, second.children_eq c hc, List.map_append,
      h.map_children_of_fixed old, List.map_flatMap]
    have blocks := (hp.filter (t.containerOf · = c)).flatMap_right fun id =>
      (List.range' 2 (count - 1)).map fun position => exchange (copyOf (id, position))
    simpa only [List.map_map, Function.comp_def] using blocks.symm.append_left _

end Exchange

/-- Multiplying nodes that are not below each other adds to each its further copies, which are the
subtree of the node with numbers of its own, at the end of the node's container; and each node of
the group has its position in it. Taking the nodes in another order exchanges the numbers of the new
nodes and is the same otherwise. -/
theorem multiplyEach_copies_members (h : t.WellLinked) {operand : Operand}
    (ha : t.Apart operand.members) (hcount : 1 ≤ count) :
    ∃ copyOf, Multiplied t operand.members count (t.multiplyEach operand count) copyOf ∧
      ∀ operand' : Operand, operand.members.Perm operand'.members →
        ∃ exchange,
          Multiplied t operand'.members count (t.multiplyEach operand' count)
            (fun node => exchange (copyOf node)) ∧
          Reordered t (t.multiplyEach operand count).1 (t.multiplyEach operand' count).1
            exchange := by
  obtain ⟨copyOf, first, numbered⟩ := ha.exists_numbers h count
  have multiplied := ha.multiplied h hcount first numbered
  refine ⟨copyOf, multiplied, fun operand' hp => ?_⟩
  have order : (t.copiedNodes (copyOrder operand.members count)).Perm
      (t.copiedNodes (copyOrder operand'.members count)) :=
    (hp.product_right (List.range' 2 (count - 1))).flatMap_right _
  have ha' := ha.perm hp
  obtain ⟨number, renumbered⟩ := NumbersFrom.exists_of_nodup (ha'.nodup_copiedNodes h) t.count
  obtain ⟨exchange, old, exchanged, perm⟩ := numbered.exists_exchange renumbered order
  have first' : ∀ id < t.count, exchange (copyOf (id, 1)) = id := fun id hid => by
    rw [first id hid, old id hid]
  have numbered' : NumbersFrom (fun node => exchange (copyOf node)) t.count
      (t.copiedNodes (copyOrder operand'.members count)) :=
    renumbered.congr fun node hnode => exchanged node (order.mem_iff.2 hnode)
  have multiplied' := ha'.multiplied h hcount first' numbered'
  refine ⟨exchange, multiplied', multiplied.reordered h old ha hp multiplied' ?_⟩
  rwa [multiplied.count_eq, ← length_copiedNodes]

/-- An item with a link in it, a paragraph beside it and a list are doubled, in this order and in
another. -/
theorem multiplyEach_copies_item_paragraph_list :
    let t := ((((({} : Arena).append .root "ul").append (.node 0) "li").append (.node 1) "a").append
      (.node 0) "p").append .root "ol"
    let operand := Operand.group [1, 3, 4]
    let operand' := Operand.group [4, 3, 1]
    t.WellLinked ∧ t.Apart operand.members ∧
      ∃ copyOf, Multiplied t operand.members 2 (t.multiplyEach operand 2) copyOf ∧
        [(1, 2), (2, 2), (3, 2), (4, 2)].map copyOf = [5, 6, 7, 8] ∧
        ∃ exchange,
          Multiplied t operand'.members 2 (t.multiplyEach operand' 2)
            (fun node => exchange (copyOf node)) ∧
          Reordered t (t.multiplyEach operand 2).1 (t.multiplyEach operand' 2).1 exchange := by
  intro t operand operand'
  have ul := wellLinked_empty.attach has_root (n := { name := "ul" }) rfl
  have li := ul.attach (c := .node 0) (n := { name := "li" }) (by decide) rfl
  have a := li.attach (c := .node 1) (n := { name := "a" }) (by decide) rfl
  have p := a.attach (c := .node 0) (n := { name := "p" }) (by decide) rfl
  have hw : t.WellLinked := p.attach has_root (n := { name := "ol" }) rfl
  have below : ∀ id ∈ operand.members, ∀ id' ∈ operand.members, id ∈ t.below id' → id = id' := by
    decide
  have apart : t.Apart operand.members := by
    constructor
    case nodup => decide
    case lt_count => decide
    case not_above =>
      exact fun id hid id' hid' n hn => below id hid id' hid' (hw.mem_below.2 ⟨n, hn⟩)
  obtain ⟨copyOf, multiplied, orders⟩ := multiplyEach_copies_members hw apart (Nat.le_succ 1)
  have order : operand.members.Perm operand'.members := by decide
  exact ⟨hw, apart, copyOf, multiplied, multiplied.numbered, orders operand' order⟩

end Arena

end MarkupShorthand
