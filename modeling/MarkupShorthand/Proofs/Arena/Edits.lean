import MarkupShorthand.Arena.Broadcast
import MarkupShorthand.Expectation
import MarkupShorthand.Proofs.Arena.Traversal

/-!
# Edits

Every operation on arenas keeps the agreement of the links, and so every arena that operations lead
to from the empty one has it (`Reachable.wellLinked`). A copy is made of nodes that are attached one
by one to containers that exist (`WellLinked.copyPending`), and the operations on groups are folds
of operations on nodes, so that what has to be shown of each is that it keeps the agreement and
takes no node away (`GrowsTo`). `Reachable.coherent` says what that means for the walk over an
arena.
-/

namespace MarkupShorthand.Arena

variable {t t' : Arena} {id : NodeId} {c : Container}

/-- The links of `t'` agree, and it has the nodes of `t` and possibly more. -/
def GrowsTo (t t' : Arena) : Prop :=
  t'.WellLinked ∧ t.count ≤ t'.count

theorem GrowsTo.trans {t'' : Arena} (h : t.GrowsTo t') (h' : t'.GrowsTo t'') : t.GrowsTo t'' :=
  ⟨h'.1, Nat.le_trans h.2 h'.2⟩

theorem GrowsTo.has (h : t.GrowsTo t') (hc : t.Has c) : t'.Has c := has_mono h.2 hc

theorem GrowsTo.lt (h : t.GrowsTo t') (hid : id < t.count) : id < t'.count :=
  Nat.lt_of_lt_of_le hid h.2

/-- A fold of steps that keep the agreement keeps it. -/
theorem GrowsTo.foldl {α : Type} {step : Arena → α → Arena} {items : List α} (h : t.WellLinked)
    (hs : ∀ s, t.GrowsTo s → ∀ item ∈ items, s.GrowsTo (step s item)) :
    t.GrowsTo (items.foldl step t) :=
  List.foldlRecOn items step ⟨h, Nat.le_refl _⟩ fun s hg item hi => hg.trans (hs s hg item hi)

/-! ## Copies -/

theorem copyPending_nil (t : Arena) (steps : Nat) : t.copyPending steps [] = t := by
  cases steps <;> rfl

namespace WellLinked

theorem growsTo_attach (h : t.WellLinked) (hc : t.Has c) {n : Node} (hn : n.children = #[]) :
    t.GrowsTo (t.attach c n) :=
  ⟨h.attach hc hn, by simp⟩

theorem growsTo_append (h : t.WellLinked) (hc : t.Has c) (name : String) :
    t.GrowsTo (t.append c name) :=
  h.growsTo_attach hc rfl

theorem growsTo_modify {f : Node → Node} (h : t.WellLinked) (id : NodeId)
    (hc : ∀ n, (f n).children = n.children) (hp : ∀ n, (f n).parent = n.parent) :
    t.GrowsTo (t.modify id f) :=
  ⟨h.modify id hc hp, by simp⟩

theorem growsTo_addAttribute (h : t.WellLinked) (id : NodeId) (a : Attribute) :
    t.GrowsTo (t.addAttribute id a) :=
  h.growsTo_modify id (fun _ => rfl) (fun _ => rfl)

/-- Each pending node is copied into an existing one, and the copy is where its children go. -/
theorem copyPending (h : t.WellLinked) (steps : Nat) {pending : List (NodeId × NodeId)}
    (hp : ∀ copy ∈ pending, copy.2 < t.count) : t.GrowsTo (t.copyPending steps pending) := by
  induction steps generalizing t pending with
  | zero => exact ⟨h, Nat.le_refl _⟩
  | succ steps ih =>
    cases pending with
    | nil => exact ⟨h, Nat.le_refl _⟩
    | cons first pending =>
      obtain ⟨source, parent⟩ := first
      rw [Arena.copyPending]
      have hg := h.growsTo_attach (c := .node parent) (hp _ List.mem_cons_self)
        (n := (t.node source).detached (t.node source).slot) rfl
      refine hg.trans (ih hg.1 fun copy hm => ?_)
      rw [count_attach]
      rcases List.mem_append.1 hm with hm | hm
      · obtain ⟨_, -, rfl⟩ := List.mem_map.1 hm
        exact Nat.lt_succ_self _
      · exact Nat.lt_succ_of_lt (hp _ (List.mem_cons_of_mem _ hm))

theorem growsTo_clone (h : t.WellLinked) (hc : t.Has c) (template : NodeId) (position : Nat) :
    t.GrowsTo (t.clone template c position) := by
  rw [clone]
  have hg := h.growsTo_attach hc (n := (t.node template).detached
    { (t.node template).slot with position := position }) rfl
  refine hg.trans (hg.1.copyPending _ fun copy hm => ?_)
  obtain ⟨_, -, rfl⟩ := List.mem_map.1 hm
  rw [count_attach]
  exact Nat.lt_succ_self _

end WellLinked

/-! ## Multiplying -/

/-- The arena with a node as the first of a group of `count`, before the others are there. -/
def markFirst (t : Arena) (id : NodeId) (count : Nat) : Arena :=
  t.modify id fun node => { node with slot := ⟨1, count⟩ }

theorem multiply_eq (t : Arena) (id : NodeId) (count : Nat) :
    (t.multiply id count).1 = (List.range' 2 (count - 1)).foldl
      (fun t' position => t'.clone id (t.containerOf id) position) (t.markFirst id count) := by
  simp only [multiply, markFirst]
  generalize t.modify id _ = first
  generalize (#[id] : Array NodeId) = group
  generalize List.range' 2 (count - 1) = positions
  induction positions generalizing first group with
  | nil => rfl
  | cons position positions ih => exact ih _ _

theorem multiplyEach_eq (t : Arena) (operand : Operand) (count : Nat) :
    (t.multiplyEach operand count).1 =
      operand.members.foldl (fun t id => (t.multiply id count).1) t := by
  simp only [multiplyEach]
  generalize (#[] : Array NodeId) = groups
  induction operand.members generalizing t groups with
  | nil => rfl
  | cons id members ih => exact ih _ _

theorem WellLinked.growsTo_multiply (h : t.WellLinked) (hid : id < t.count) (count : Nat) :
    t.GrowsTo (t.multiply id count).1 := by
  have hf : t.GrowsTo (t.markFirst id count) :=
    h.growsTo_modify id (fun _ => rfl) (fun _ => rfl)
  rw [multiply_eq]
  refine hf.trans (.foldl hf.1 fun s hg position _ => hg.1.growsTo_clone ?_ id position)
  exact (hf.trans hg).has (h.has_containerOf hid)

/-! ## Arenas that edits lead to -/

/-- An operation on an arena. -/
inductive Edit where
  | append (container : Container) (name : String)
  | appendToEach (containers : List Container) (name : String)
  | addAttribute (id : NodeId) (a : Attribute)
  | addAttributeTo (operand : Operand) (a : Attribute)
  | multiply (id : NodeId) (count : Nat)
  | multiplyEach (operand : Operand) (count : Nat)
  | clone (template : NodeId) (container : Container) (position : Nat)

namespace Edit

/-- The arena after an operation. -/
def apply (t : Arena) : Edit → Arena
  | append container name => t.append container name
  | appendToEach containers name => (t.appendToEach containers name).1
  | addAttribute id a => t.addAttribute id a
  | addAttributeTo operand a => (t.addAttributeTo operand a).1
  | multiply id count => (t.multiply id count).1
  | multiplyEach operand count => (t.multiplyEach operand count).1
  | clone template container position => t.clone template container position

/-- Whether the nodes that an operation names exist. A copy must not go below its template. -/
def Applies (t : Arena) : Edit → Prop
  | append container _ => t.Has container
  | appendToEach containers _ => ∀ container ∈ containers, t.Has container
  | addAttribute id _ => id < t.count
  | addAttributeTo operand _ => ∀ id ∈ operand.members, id < t.count
  | multiply id _ => id < t.count
  | multiplyEach operand _ => ∀ id ∈ operand.members, id < t.count
  | clone template container _ =>
    template < t.count ∧ t.Has container ∧ ∀ n, t.above^[n] container ≠ .node template

/-- An operation keeps the agreement of the links. -/
theorem growsTo (h : t.WellLinked) {edit : Edit} (ha : edit.Applies t) :
    t.GrowsTo (edit.apply t) := by
  cases edit with
  | append container name => exact h.growsTo_append ha name
  | appendToEach containers name =>
    exact .foldl h fun s hg container hc => hg.1.growsTo_append (hg.has (ha container hc)) name
  | addAttribute id a => exact h.growsTo_addAttribute id a
  | addAttributeTo operand a => exact .foldl h fun s hg id _ => hg.1.growsTo_addAttribute id a
  | multiply id count => exact h.growsTo_multiply ha count
  | multiplyEach operand count =>
    simp only [apply, multiplyEach_eq]
    exact .foldl h fun s hg id hid => hg.1.growsTo_multiply (hg.lt (ha id hid)) count
  | clone template container position => exact h.growsTo_clone ha.2.1 template position

end Edit

/-- The arenas that operations lead to from the empty one. -/
inductive Reachable : Arena → Prop where
  | empty : Reachable {}
  | edit {t : Arena} (edit : Edit) : Reachable t → edit.Applies t → Reachable (edit.apply t)

theorem Reachable.wellLinked (h : Reachable t) : t.WellLinked := by
  induction h with
  | empty => exact wellLinked_empty
  | edit _ _ ha ih => exact (Edit.growsTo ih ha).1

namespace WellLinked

/-- A node is listed once, in its container. -/
theorem count_children (h : t.WellLinked) (hid : id < t.count) (c : Container) :
    (t.children c).toList.count id = if c = t.containerOf id then 1 else 0 := by
  split
  · rename_i hc
    exact List.count_eq_one_of_mem (h.nodup_children c) (h.mem_children.2 ⟨hid, hc.symm⟩)
  · rename_i hc
    exact List.count_eq_zero_of_not_mem fun hm => hc (h.containerOf_eq hm).symm

theorem parent_lt (h : t.WellLinked) {parent : NodeId} (hp : (t.node id).parent = some parent) :
    parent < t.count ∧ parent < id := by
  have hc := containerOf_eq_node.2 hp
  refine ⟨?_, h.lt_of_containerOf hc⟩
  rcases Nat.lt_or_ge id t.count with hid | hid
  · exact Nat.lt_trans (h.lt_of_containerOf hc) hid
  · simp [containerOf_of_le hid] at hc

/-- Every node is listed once where its parent link says it is. -/
theorem links_met (h : t.WellLinked) : (TreeExpectation.links.inspect t).mismatch = none := by
  have hn : t.preorder.find? (t.listings · != 1) = none := by
    refine Array.find?_eq_none.2 fun id hm => ?_
    have hid : id < t.count :=
      List.mem_range.1 (h.preorder_perm.mem_iff.1 (Array.mem_toList_iff.2 hm))
    simp [listings, ← Array.count_toList, h.count_children hid]
  rw [TreeExpectation.inspect, hn]

end WellLinked

/-- Links agree, and the walk over the arena finds the nodes of the forest in their order. -/
structure Coherent (t : Arena) : Prop where
  /-- Numbers in lists are numbers of nodes. -/
  listed_lt : ∀ c, ∀ id ∈ (t.children c).toList, id < t.count
  /-- So are parents, which have smaller numbers than their children. -/
  parent_lt : ∀ id parent, (t.node id).parent = some parent → parent < t.count ∧ parent < id
  /-- A node is listed once in its container, and nowhere else. -/
  listed_once : ∀ id < t.count, ∀ c,
    (t.children c).toList.count id = if c = t.containerOf id then 1 else 0
  links_met : (TreeExpectation.links.inspect t).mismatch = none
  /-- The walk finds each node once. -/
  walk_all : t.preorder.toList.Perm (List.range t.count)
  ancestors_first : ∀ id < t.count, ∀ n ancestor, t.above^[n + 1] (.node id) = .node ancestor →
    [ancestor, id].Sublist t.preorder.toList
  siblings_in_order : ∀ c, (t.children c).toList.Sublist t.preorder.toList
  element_eq : ∀ id, t.element id = ⟨(t.node id).name, (t.node id).attributes, (t.node id).slot,
    (t.node id).children.toList.map t.element⟩
  /-- The walk has the order of the forest, and depths are levels of the forest. -/
  walk_forest : t.preorder.toList.map (fun id => (t.depth id, t.element id)) =
    Element.walks 0 t.forest
  subtreeSize_eq : ∀ id < t.count, t.subtreeSize id = (t.element id).size
  sum_subtreeSize : (t.roots.toList.map t.subtreeSize).sum = t.count

/-- Whatever operations are applied to the empty arena, in whatever order, links agree and the walk
finds the nodes of the forest. -/
theorem Reachable.coherent (h : Reachable t) : t.Coherent := by
  have hw := h.wellLinked
  constructor
  case listed_lt => exact fun c id hm => hw.lt_count hm
  case parent_lt => exact fun id parent hp => hw.parent_lt hp
  case listed_once => exact fun id hid c => hw.count_children hid c
  case links_met => exact hw.links_met
  case walk_all => exact hw.preorder_perm
  case ancestors_first => exact fun id hid n ancestor hn => hw.ancestor_before hid hn
  case siblings_in_order => exact hw.children_sublist_preorder
  case element_eq => exact hw.element_eq
  case walk_forest => exact hw.map_preorder
  case subtreeSize_eq => exact fun id hid => hw.subtreeSize_eq hid
  case sum_subtreeSize => exact hw.sum_subtreeSize

/-- Two nested nodes multiplied together, the inner one twice, and a copy put beside them. -/
theorem coherent_of_nested_copies :
    let edits : List Edit := [.append .root "ul", .append (.node 0) "li",
      .multiplyEach (.group [0, 1, 1]) 2, .clone 1 .root 5]
    let t := edits.foldl Edit.apply {}
    Reachable t ∧ t.count = 7 ∧ t.Coherent := by
  have hul := Reachable.empty.edit (.append .root "ul") trivial
  have hli := hul.edit (.append (.node 0) "li") (show 0 < _ by decide)
  have hgroup := hli.edit (.multiplyEach (.group [0, 1, 1]) 2)
    (show ∀ id ∈ [0, 1, 1], id < _ by decide)
  have hcopy := hgroup.edit (.clone 1 .root 5) ⟨by decide, trivial, by simp⟩
  exact ⟨hcopy, by decide, hcopy.coherent⟩

end MarkupShorthand.Arena
