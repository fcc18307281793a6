import Mathlib.Algebra.GroupWithZero.Nat
import Mathlib.Data.List.Nodup
import Mathlib.Data.List.Perm.Subperm
import MarkupShorthand.Arena.Forest
import MarkupShorthand.Arena.Walk
import MarkupShorthand.Proofs.Arena.Ancestors

/-!
# Traversals

Reading an arena from the top down. Whatever is computed of a node from what is computed of its
children is a `fold`; in an arena whose links agree it is the plain recursion over the children
(`WellLinked.fold_eq`), so that a bound on the levels is never felt. The element of a node is one
(`WellLinked.element_eq`), and so is the list of the nodes below it (`below`), which is what the
walk with a list of pending nodes visits (`visit_toList`):

* `WellLinked.mem_below`: below a node are the nodes it is an ancestor of, and it;
* `WellLinked.preorder_perm`: the walk over the top-level nodes finds each node once;
* `WellLinked.map_preorder`: it finds them in the order of the forest.
-/

namespace MarkupShorthand

namespace Element

mutual

/-- An element and those below it in the order of a document, each with its level. -/
def walk (level : Nat) : Element → List (Nat × Element)
  | ⟨name, attributes, slot, children⟩ =>
    (level, ⟨name, attributes, slot, children⟩) :: walks (level + 1) children

/-- The elements of a forest in the order of a document, each with its level. -/
def walks (level : Nat) : List Element → List (Nat × Element)
  | [] => []
  | e :: rest => walk level e ++ walks level rest

end

theorem walk_eq (level : Nat) (e : Element) :
    e.walk level = (level, e) :: walks (level + 1) e.children := by
  cases e; rw [walk]

theorem walks_eq_flatMap (level : Nat) (elements : List Element) :
    walks level elements = elements.flatMap (walk level) := by
  induction elements with
  | nil => rw [walks]; rfl
  | cons e rest ih => rw [walks, ih, List.flatMap_cons]

theorem sizes_eq_sum (elements : List Element) : sizes elements = (elements.map size).sum := by
  induction elements with
  | nil => rw [sizes]; rfl
  | cons e rest ih => rw [sizes, ih]; rfl

end Element

namespace Arena

variable {t : Arena} {id x : NodeId} {c : Container} {β : Type}

/-! ## Folds -/

/-- What `f` makes of a node and of its results for the children, at most `levels` levels down. -/
def foldWithin (t : Arena) (f : NodeId → List β → β) : Nat → NodeId → β
  | 0, id => f id []
  | levels + 1, id => f id ((t.node id).children.toList.map (t.foldWithin f levels))

/-- What `f` makes of a node and of its results for the children. -/
def fold (t : Arena) (f : NodeId → List β → β) (id : NodeId) : β :=
  t.foldWithin f t.count id

/-- From as many levels on as there are larger numbers, more levels change nothing. -/
theorem WellLinked.foldWithin_stable (h : t.WellLinked) (f : NodeId → List β → β) (id : NodeId) :
    ∀ n m, t.count ≤ id + n + 1 → t.count ≤ id + m + 1 →
      t.foldWithin f n id = t.foldWithin f m id := by
  have leaf : ∀ id, t.count ≤ id + 0 + 1 → (t.node id).children.toList = [] := by
    refine fun id hid => List.eq_nil_iff_forall_not_mem.2 fun child hm => ?_
    have hlt := h.lt_count (c := .node id) hm
    exact Nat.not_lt.2 hid (Nat.lt_of_le_of_lt (h.lt_child hm) hlt)
  have next : ∀ {a b k : Nat}, a < b → t.count ≤ a + (k + 1) + 1 → t.count ≤ b + k + 1 := by omega
  induction id using h.inductionUp with
  | step id ih =>
    intro n m hn hm
    cases n with
    | zero =>
      cases m with
      | zero => rfl
      | succ m => simp [foldWithin, leaf id hn]
    | succ n =>
      cases m with
      | zero => simp [foldWithin, leaf id hm]
      | succ m =>
        simp only [foldWithin]
        exact congrArg (f id) (List.map_congr_left fun child hc =>
          ih child hc n m (next (h.lt_child hc) hn) (next (h.lt_child hc) hm))

/-- A fold is the recursion over the children. -/
theorem WellLinked.fold_eq (h : t.WellLinked) (f : NodeId → List β → β) (id : NodeId) :
    t.fold f id = f id ((t.node id).children.toList.map (t.fold f)) := by
  have e : t.fold f id = t.foldWithin f (t.count + 1) id :=
    h.foldWithin_stable f id _ _ (by omega) (by omega)
  rw [e]
  rfl

theorem element_eq_fold (t : Arena) (id : NodeId) :
    t.element id = t.fold (fun id below =>
      ⟨(t.node id).name, (t.node id).attributes, (t.node id).slot, below⟩) id := by
  unfold element fold
  generalize t.count = n
  induction n generalizing id with
  | zero => rfl
  | succ n ih => simp only [elementWithin, foldWithin, funext ih]

/-- The element of a node holds the elements of its children. -/
theorem WellLinked.element_eq (h : t.WellLinked) (id : NodeId) :
    t.element id = ⟨(t.node id).name, (t.node id).attributes, (t.node id).slot,
      (t.node id).children.toList.map t.element⟩ := by
  rw [element_eq_fold, h.fold_eq, funext (element_eq_fold t)]

theorem WellLinked.children_element (h : t.WellLinked) (id : NodeId) :
    (t.element id).children = (t.node id).children.toList.map t.element := by
  rw [h.element_eq]

/-! ## The nodes below a node -/

/-- A node and the nodes below it, in the order of a document. -/
def below (t : Arena) (id : NodeId) : List NodeId :=
  t.fold (fun id below => id :: below.flatten) id

theorem WellLinked.below_eq (h : t.WellLinked) (id : NodeId) :
    t.below id = id :: (t.node id).children.toList.flatMap t.below := by
  unfold below
  rw [h.fold_eq, List.flatMap]

theorem WellLinked.mem_below (h : t.WellLinked) :
    x ∈ t.below id ↔ ∃ n, t.above^[n] (.node x) = .node id := by
  constructor
  · induction id using h.inductionUp with
    | step id ih =>
      intro hx
      rw [h.below_eq, List.mem_cons, List.mem_flatMap] at hx
      rcases hx with rfl | ⟨child, hc, hx⟩
      · exact ⟨0, rfl⟩
      · obtain ⟨n, hn⟩ := ih child hc hx
        refine ⟨n + 1, ?_⟩
        rw [Function.iterate_succ_apply', hn]
        exact h.containerOf_eq (c := .node id) hc
  · rintro ⟨n, hn⟩
    induction n generalizing id with
    | zero =>
      rw [h.below_eq, Container.node.inj hn]
      exact List.mem_cons_self
    | succ n ih =>
      rw [Function.iterate_succ_apply'] at hn
      cases e : t.above^[n] (.node x) with
      | root => simp [e] at hn
      | node y =>
        rw [e, above_node] at hn
        have hy : y < t.count := by
          rcases Nat.lt_or_ge y t.count with hy | hy
          · exact hy
          · simp [containerOf_of_le hy] at hn
        have hchild := h.mem_children (c := .node id).2 ⟨hy, hn⟩
        rw [h.below_eq]
        exact List.mem_cons_of_mem _ (List.mem_flatMap.2 ⟨y, hchild, ih e⟩)

theorem WellLinked.le_of_mem_below (h : t.WellLinked) (hx : x ∈ t.below id) : id ≤ x :=
  let ⟨_, hn⟩ := h.mem_below.1 hx
  h.le_of_above hn

/-- A node is below one node of a container at most. -/
theorem WellLinked.eq_of_mem_below (h : t.WellLinked) {id' : NodeId}
    (e : t.containerOf id = t.containerOf id') (hx : x ∈ t.below id) (hx' : x ∈ t.below id') :
    id = id' := by
  obtain ⟨n, hn⟩ := h.mem_below.1 hx
  obtain ⟨m, hm⟩ := h.mem_below.1 hx'
  have hd := h.depth_eq_add hn
  rw [h.depth_eq_add hm, h.depth_congr e] at hd
  rw [Nat.add_left_cancel hd, hn] at hm
  exact Container.node.inj hm

theorem WellLinked.lt_of_mem_below (h : t.WellLinked) (hid : id < t.count) (hx : x ∈ t.below id) :
    x < t.count := by
  rcases Nat.lt_or_ge x t.count with hlt | hge
  · exact hlt
  · obtain ⟨n, hn⟩ := h.mem_below.1 hx
    cases n with
    | zero => exact Container.node.inj hn ▸ hid
    | succ n => simp [containerOf_of_le hge] at hn

/-- Different nodes of a container have no node below both. -/
theorem WellLinked.disjoint_below (h : t.WellLinked) (c : Container) :
    (t.children c).toList.Pairwise fun id id' => List.Disjoint (t.below id) (t.below id') := by
  refine (h.nodup_children c).pairwise_of_forall_ne fun y hy z hz hne a ha hb => hne ?_
  exact h.eq_of_mem_below ((h.containerOf_eq hy).trans (h.containerOf_eq hz).symm) ha hb

theorem WellLinked.nodup_below (h : t.WellLinked) (id : NodeId) : (t.below id).Nodup := by
  induction id using h.inductionUp with
  | step id ih =>
    rw [h.below_eq, List.nodup_cons]
    refine ⟨fun hm => ?_, List.nodup_flatMap.2 ⟨ih, h.disjoint_below (.node id)⟩⟩
    obtain ⟨child, hc, hm⟩ := List.mem_flatMap.1 hm
    exact Nat.not_le.2 (h.lt_child hc) (h.le_of_mem_below hm)

/-- Every existing node is below a top-level node. -/
theorem WellLinked.mem_flatMap_roots (h : t.WellLinked) :
    x ∈ t.roots.toList.flatMap t.below ↔ x < t.count := by
  constructor
  · intro hx
    obtain ⟨id, hid, hx⟩ := List.mem_flatMap.1 hx
    exact h.lt_of_mem_below (h.lt_count (c := .root) hid) hx
  · induction x using h.inductionDown with
    | top x hc =>
      intro hx
      have hroot := h.mem_children (c := .root).2 ⟨hx, hc⟩
      exact List.mem_flatMap.2 ⟨x, hroot, h.mem_below.2 ⟨0, rfl⟩⟩
    | step x parent hc ih =>
      intro hx
      obtain ⟨id, hid, hp⟩ := List.mem_flatMap.1 (ih (Nat.lt_trans (h.lt_of_containerOf hc) hx))
      obtain ⟨n, hn⟩ := h.mem_below.1 hp
      refine List.mem_flatMap.2 ⟨id, hid, h.mem_below.2 ⟨n + 1, ?_⟩⟩
      rw [Function.iterate_succ_apply, above_node, hc, hn]

/-- The nodes below the top-level nodes are all nodes, each once. -/
theorem WellLinked.flatMap_roots_perm (h : t.WellLinked) :
    (t.roots.toList.flatMap t.below).Perm (List.range t.count) := by
  have hn : (t.roots.toList.flatMap t.below).Nodup :=
    List.nodup_flatMap.2 ⟨fun id _ => h.nodup_below id, h.disjoint_below .root⟩
  refine (List.perm_ext_iff_of_nodup hn List.nodup_range).2 fun x => ?_
  rw [h.mem_flatMap_roots, List.mem_range]

/-! ## The walk -/

/-- The walk visits what is below its pending nodes, in order, as far as its steps go. -/
theorem WellLinked.visit_toList (h : t.WellLinked) (steps : Nat) (pending : List NodeId)
    (visited : Array NodeId) :
    (t.visit steps pending visited).toList =
      visited.toList ++ (pending.flatMap t.below).take steps := by
  induction steps generalizing pending visited with
  | zero => simp [visit]
  | succ steps ih =>
    cases pending with
    | nil => simp [visit]
    | cons id pending =>
      rw [visit, ih, List.flatMap_append, List.flatMap_cons, h.below_eq, Array.toList_push,
        List.cons_append, List.take_succ_cons, List.append_assoc, List.singleton_append]

/-- As many steps as there are nodes are enough for the walk over the whole arena. -/
theorem WellLinked.preorder_eq (h : t.WellLinked) :
    t.preorder.toList = t.roots.toList.flatMap t.below := by
  rw [preorder, h.visit_toList]
  refine List.take_of_length_le (Nat.le_of_eq ?_)
  rw [h.flatMap_roots_perm.length_eq, List.length_range]

theorem WellLinked.preorder_perm (h : t.WellLinked) :
    t.preorder.toList.Perm (List.range t.count) :=
  h.preorder_eq ▸ h.flatMap_roots_perm

theorem WellLinked.length_below_le (h : t.WellLinked) (hid : id < t.count) :
    (t.below id).length ≤ t.count := by
  have hs : t.below id ⊆ List.range t.count := fun x hx =>
    List.mem_range.2 (h.lt_of_mem_below hid hx)
  simpa using ((h.nodup_below id).subperm hs).length_le

theorem WellLinked.subtree_eq (h : t.WellLinked) (hid : id < t.count) :
    (t.subtree id).toList = t.below id := by
  rw [subtree, h.visit_toList, List.flatMap_singleton]
  exact List.take_of_length_le (h.length_below_le hid)

/-! ## Order and sizes -/

theorem WellLinked.below_sublist_preorder (h : t.WellLinked) (hid : id < t.count) :
    (t.below id).Sublist t.preorder.toList := by
  rw [h.preorder_eq]
  induction id using h.inductionDown with
  | top id hc =>
    have hroot := h.mem_children (c := .root).2 ⟨hid, hc⟩
    exact List.sublist_flatten_of_mem (List.mem_map_of_mem hroot)
  | step id parent hc ih =>
    refine List.Sublist.trans ?_ (ih (Nat.lt_trans (h.lt_of_containerOf hc) hid))
    have hchild := h.mem_children (c := .node parent).2 ⟨hid, hc⟩
    rw [h.below_eq parent]
    exact .cons _ (List.sublist_flatten_of_mem (List.mem_map_of_mem hchild))

/-- The walk reaches an ancestor before the nodes below it. -/
theorem WellLinked.ancestor_before (h : t.WellLinked) (hx : x < t.count) {n : Nat}
    (hn : t.above^[n + 1] (.node x) = .node id) : [id, x].Sublist t.preorder.toList := by
  have hid : id < t.count := Nat.lt_of_le_of_lt (h.le_of_above hn) hx
  refine List.Sublist.trans ?_ (h.below_sublist_preorder hid)
  have hm : x ∈ t.below id := h.mem_below.2 ⟨n + 1, hn⟩
  have hne : x ≠ id := by
    rintro rfl
    have := h.depth_eq_add hn
    omega
  rw [h.below_eq] at hm ⊢
  have hlater := (List.mem_cons.1 hm).resolve_left hne
  exact (List.singleton_sublist.2 hlater).cons_cons id

theorem WellLinked.sublist_flatMap_below (h : t.WellLinked) (ids : List NodeId) :
    ids.Sublist (ids.flatMap t.below) := by
  induction ids with
  | nil => exact .slnil
  | cons id ids ih =>
    rw [List.flatMap_cons, h.below_eq, List.cons_append]
    exact (ih.trans (List.sublist_append_right ..)).cons_cons id

theorem WellLinked.children_sublist_below (h : t.WellLinked) (id : NodeId) :
    (t.node id).children.toList.Sublist (t.below id) := by
  rw [h.below_eq]
  exact .cons _ (h.sublist_flatMap_below _)

/-- The walk reaches siblings in the order in which they are listed. -/
theorem WellLinked.children_sublist_preorder (h : t.WellLinked) (c : Container) :
    (t.children c).toList.Sublist t.preorder.toList := by
  cases c with
  | root => exact h.preorder_eq ▸ h.sublist_flatMap_below _
  | node id =>
    rcases Nat.lt_or_ge id t.count with hid | hid
    · exact (h.children_sublist_below id).trans (h.below_sublist_preorder hid)
    · simp [children, node_of_le hid]

theorem WellLinked.below_sublist_below (h : t.WellLinked) (hx : x ∈ t.below id) :
    (t.below x).Sublist (t.below id) := by
  induction id using h.inductionUp with
  | step id ih =>
    rw [h.below_eq id] at hx ⊢
    rcases List.mem_cons.1 hx with rfl | hx
    · rw [h.below_eq]
    · obtain ⟨child, hc, hx⟩ := List.mem_flatMap.1 hx
      exact .cons _ ((ih child hc hx).trans (List.sublist_flatten_of_mem (List.mem_map_of_mem hc)))

theorem WellLinked.mem_below_self (h : t.WellLinked) (id : NodeId) : id ∈ t.below id := by
  rw [h.below_eq]
  exact List.mem_cons_self

theorem WellLinked.mem_below_child (h : t.WellLinked) {child : NodeId}
    (hc : child ∈ (t.node id).children.toList) (hid : id ∈ t.below x) : child ∈ t.below x :=
  (h.below_sublist_below hid).subset ((h.children_sublist_below id).subset hc)

/-- Of the nodes below a node, those that name one of them as their container are its children. -/
theorem WellLinked.filter_below (h : t.WellLinked) (hx : x ∈ t.below id) :
    (t.below id).filter (t.containerOf · = .node x) = (t.node x).children.toList := by
  have hs : (t.node x).children.toList.Sublist ((t.below id).filter (t.containerOf · = .node x)) := by
    have all : ∀ y ∈ (t.node x).children.toList, decide (t.containerOf y = .node x) = true :=
      fun y hy => decide_eq_true (h.containerOf_eq (c := .node x) hy)
    rw [← List.filter_eq_self.2 all]
    exact ((h.children_sublist_below x).trans (h.below_sublist_below hx)).filter _
  refine (hs.eq_of_length_le (((h.nodup_below id).filter _).subperm fun y hy => ?_).length_le).symm
  have hc : t.containerOf y = .node x := of_decide_eq_true (List.mem_filter.1 hy).2
  refine h.mem_children (c := .node x).2 ⟨Nat.lt_of_not_le fun hle => ?_, hc⟩
  rw [containerOf_of_le hle] at hc
  cases hc

theorem WellLinked.map_below (h : t.WellLinked) (id : NodeId) :
    (t.below id).map (fun x => (t.depth x, t.element x)) = (t.element id).walk (t.depth id) := by
  induction id using h.inductionUp with
  | step id ih =>
    rw [h.below_eq, Element.walk_eq, h.children_element, Element.walks_eq_flatMap, List.map_cons,
      List.map_flatMap, List.flatMap_map]
    refine congrArg (_ :: ·) (List.flatMap_congr fun child hc => ?_)
    rw [ih child hc, h.depth_node (h.containerOf_eq (c := .node id) hc)]

/-- The walk visits the elements of the forest in the order of a document, and a node's depth is its
level there. -/
theorem WellLinked.map_preorder (h : t.WellLinked) :
    t.preorder.toList.map (fun x => (t.depth x, t.element x)) = Element.walks 0 t.forest := by
  rw [h.preorder_eq, Element.walks_eq_flatMap, forest, List.map_flatMap, List.flatMap_map]
  refine List.flatMap_congr fun id hid => ?_
  rw [h.map_below, depth_root (h.containerOf_eq (c := .root) hid)]

theorem WellLinked.length_below (h : t.WellLinked) (id : NodeId) :
    (t.below id).length = (t.element id).size := by
  induction id using h.inductionUp with
  | step id ih =>
    rw [h.below_eq, Element.size_eq, h.children_element, Element.sizes_eq_sum, List.length_cons,
      List.length_flatMap, List.map_map]
    exact congrArg (·.sum + 1) (List.map_congr_left ih)

theorem WellLinked.subtreeSize_eq (h : t.WellLinked) (hid : id < t.count) :
    t.subtreeSize id = (t.element id).size := by
  rw [subtreeSize, ← Array.length_toList, h.subtree_eq hid, h.length_below]

/-- Where nodes have the data of others and hold the same nodes under other numbers, what is below
them is the same but for the numbers, and for the slot of the first. -/
theorem WellLinked.element_renumbered (h : t.WellLinked) {t' : Arena} (h' : t'.WellLinked)
    {f : NodeId → NodeId}
    (hn : ∀ y ∈ t.below id, (t'.node (f y)).name = (t.node y).name ∧
      (t'.node (f y)).attributes = (t.node y).attributes ∧
      (t'.node (f y)).children.toList = (t.node y).children.toList.map f)
    (hs : ∀ y ∈ t.below id, y ≠ id → (t'.node (f y)).slot = (t.node y).slot) :
    t'.below (f id) = (t.below id).map f ∧
      t'.element (f id) = { t.element id with slot := (t'.node (f id)).slot } := by
  induction id using h.inductionUp with
  | step id ih =>
    obtain ⟨hname, hattributes, hchildren⟩ := hn id (h.mem_below_self id)
    have hchild : ∀ child ∈ (t.node id).children.toList,
        t'.below (f child) = (t.below child).map f ∧ t'.element (f child) = t.element child := by
      intro child hc
      have hmem := h.mem_below_child hc (h.mem_below_self id)
      have hlt := h.lt_child hc
      have hsub := (h.below_sublist_below hmem).subset
      obtain ⟨hb, he⟩ := ih child hc (fun y hy => hn y (hsub hy)) fun y hy _ =>
        hs y (hsub hy) (Nat.ne_of_gt (Nat.lt_of_lt_of_le hlt (h.le_of_mem_below hy)))
      refine ⟨hb, he.trans ?_⟩
      rw [hs child hmem (Nat.ne_of_gt hlt), h.element_eq]
    rw [h'.below_eq, h.below_eq, h'.element_eq, h.element_eq, hname, hattributes, hchildren,
      List.map_map, List.flatMap_map, List.map_cons, List.map_flatMap]
    refine ⟨congrArg _ (List.flatMap_congr fun child hc => (hchild child hc).1), ?_⟩
    exact congrArg _ (List.map_congr_left fun child hc => (hchild child hc).2)

/-- What is below a node stays the same where only slots are changed, and the element is the same but
for the node's own slot if the others stay. -/
theorem WellLinked.element_of_slots (h : t.WellLinked) {t' : Arena} (h' : t'.WellLinked)
    (hn : ∀ y ∈ t.below id, t'.node y = { t.node y with slot := (t'.node y).slot })
    (hs : ∀ y ∈ t.below id, y ≠ id → (t'.node y).slot = (t.node y).slot) :
    t'.below id = t.below id ∧
      t'.element id = { t.element id with slot := (t'.node id).slot } := by
  have renumbered := h.element_renumbered h' (f := fun y => y)
    (fun y hy => by rw [hn y hy]; simp) hs
  rwa [List.map_id'] at renumbered

/-- Every node is in the subtree of one top-level node. -/
theorem WellLinked.sum_subtreeSize (h : t.WellLinked) :
    (t.roots.toList.map t.subtreeSize).sum = t.count := by
  rw [← List.length_range (n := t.count), ← h.flatMap_roots_perm.length_eq, List.length_flatMap]
  refine congrArg List.sum (List.map_congr_left fun id hid => ?_)
  rw [h.subtreeSize_eq (h.lt_count (c := .root) hid), h.length_below]

end Arena

end MarkupShorthand
