import MarkupShorthand.Arena.Basic

/-!
# Links that agree

The two views that an arena keeps of its shape, lists of children and links to parents, say the
same (`WellLinked`): a container lists each node that names it as its container once, and nothing
else. A node's number is larger than its parent's, which is what makes the way up and the walk down
end. `Arena.attach` is the only step that adds links, and it keeps the agreement
(`WellLinked.attach`); a change of a node that keeps its links keeps it as well
(`WellLinked.modify`).
-/

namespace MarkupShorthand

/-- The node that a container is; the root is none. -/
def Container.node? : Container → Option NodeId
  | .root => none
  | .node id => some id

namespace Arena

/-- Whether a container exists: the root does, and a node does if its number was given. -/
def Has (t : Arena) : Container → Prop
  | .root => True
  | .node id => id < t.count

instance (t : Arena) : DecidablePred t.Has
  | .root => inferInstanceAs (Decidable True)
  | .node id => inferInstanceAs (Decidable (id < t.count))

/-- Lists of children and links to parents agree, and lead down to larger numbers. -/
structure WellLinked (t : Arena) : Prop where
  /-- A container lists the existing nodes that name it. -/
  mem_children {c : Container} {id : NodeId} :
    id ∈ (t.children c).toList ↔ id < t.count ∧ t.containerOf id = c
  /-- It lists none of them twice. -/
  nodup_children (c : Container) : (t.children c).toList.Nodup
  lt_of_containerOf {id parent : NodeId} : t.containerOf id = .node parent → parent < id

/-! ## Reading nodes -/

variable {t : Arena} {id : NodeId} {c c' : Container} {n : Node}

theorem node_eq (t : Arena) (id : NodeId) : t.node id = t.nodes[id]?.getD {} := by
  simp [node]

theorem node_of_le (h : t.count ≤ id) : t.node id = {} := by
  rw [node_eq, Array.getElem?_eq_none h, Option.getD_none]

theorem containerOf_eq_node {parent : NodeId} :
    t.containerOf id = .node parent ↔ (t.node id).parent = some parent := by
  unfold containerOf
  cases (t.node id).parent <;> simp

theorem containerOf_eq_root : t.containerOf id = .root ↔ (t.node id).parent = none := by
  unfold containerOf
  cases (t.node id).parent <;> simp

theorem containerOf_congr {t' : Arena} {id' : NodeId}
    (h : (t'.node id').parent = (t.node id).parent) : t'.containerOf id' = t.containerOf id := by
  unfold containerOf
  rw [h]

theorem containerOf_of_le (h : t.count ≤ id) : t.containerOf id = .root := by
  rw [containerOf_eq_root, node_of_le h]

theorem has_iff : t.Has c ↔ ∀ id, c = .node id → id < t.count := by
  cases c <;> simp [Has]

@[simp] theorem has_root : t.Has .root := trivial

@[simp] theorem has_node : t.Has (.node id) ↔ id < t.count := Iff.rfl

theorem has_mono {t' : Arena} (h : t.count ≤ t'.count) (hc : t.Has c) : t'.Has c :=
  has_iff.2 fun id e => Nat.lt_of_lt_of_le (has_iff.1 hc id e) h

/-! ## Changing a node -/

theorem node_modify (t : Arena) (target : NodeId) (f : Node → Node) (id : NodeId) :
    (t.modify target f).node id =
      if id = target ∧ id < t.count then f (t.node id) else t.node id := by
  simp only [node_eq, modify, Array.getElem?_modify]
  by_cases h : id < t.nodes.size
  · by_cases e : target = id
    · simp [e, h, count]
    · simp [e, Ne.symm e]
  · rw [Array.getElem?_eq_none (Nat.le_of_not_lt h)]
    simp [h, count]

/-- A change of a node's data keeps what every container lists. -/
theorem children_modify {f : Node → Node} (hf : ∀ n, (f n).children = n.children)
    (t : Arena) (target : NodeId) (c : Container) :
    (t.modify target f).children c = t.children c := by
  cases c with
  | root => rfl
  | node id =>
    simp only [children, node_modify]
    split
    · exact hf _
    · rfl

theorem containerOf_modify {f : Node → Node} (hf : ∀ n, (f n).parent = n.parent)
    (t : Arena) (target id : NodeId) :
    (t.modify target f).containerOf id = t.containerOf id := by
  refine containerOf_congr ?_
  rw [node_modify]
  split
  · exact hf _
  · rfl

/-! ## Attaching a node -/

theorem node_attach (hc : t.Has c) (n : Node) (id : NodeId) :
    (t.attach c n).node id =
      if id = t.count then { n with parent := c.node? }
      else if c = .node id then { t.node id with children := (t.node id).children.push t.count }
      else t.node id := by
  cases c with
  | root =>
    simp only [node_eq, attach, Array.getElem?_push, count, Container.node?, reduceCtorEq,
      if_false]
    split <;> simp_all
  | node parent =>
    have hp : parent < t.nodes.size := hc
    simp only [node_eq, attach, Array.getElem?_modify, Array.getElem?_push, count,
      Container.node?, Container.node.injEq]
    by_cases e : parent = id
    · subst e
      simp [hp, Nat.ne_of_lt hp]
    · by_cases h : id = t.nodes.size
      · subst h
        simp [e]
      · simp [e, h]

theorem children_attach (hc : t.Has c) (hn : n.children = #[]) (c' : Container) :
    (t.attach c n).children c' =
      if c' = c then (t.children c').push t.count else t.children c' := by
  cases c' with
  | root => cases c <;> simp [children, attach]
  | node id =>
    simp only [children, node_attach hc]
    by_cases h : id = t.count
    · have hne : ¬ Container.node id = c := by
        rintro rfl
        exact Nat.lt_irrefl _ (h ▸ has_node.1 hc)
      rw [if_pos h, if_neg hne, node_of_le (Nat.le_of_eq h.symm)]
      exact hn
    · simp only [h, if_false, eq_comm (a := Container.node id)]
      split <;> rfl

theorem containerOf_attach (hc : t.Has c) (n : Node) (id : NodeId) :
    (t.attach c n).containerOf id = if id = t.count then c else t.containerOf id := by
  by_cases h : id = t.count
  · cases c <;> simp [containerOf, node_attach hc, h, Container.node?]
  · rw [if_neg h]
    refine containerOf_congr ?_
    rw [node_attach hc, if_neg h]
    split <;> rfl

/-! ## Agreement is kept -/

theorem wellLinked_empty : WellLinked {} where
  mem_children {c id} := by cases c <;> simp [children, node, count]
  nodup_children c := by cases c <;> simp [children, node]
  lt_of_containerOf h := by simp [containerOf, node] at h

namespace WellLinked

theorem congr {t' : Arena} (h : t.WellLinked) (hn : t'.count = t.count)
    (hl : ∀ c, t'.children c = t.children c) (hp : ∀ id, t'.containerOf id = t.containerOf id) :
    t'.WellLinked where
  mem_children {c id} := by rw [hl, hn, hp]; exact h.mem_children
  nodup_children c := by rw [hl]; exact h.nodup_children c
  lt_of_containerOf e := h.lt_of_containerOf (hp _ ▸ e)

theorem has_containerOf (h : t.WellLinked) (hid : id < t.count) : t.Has (t.containerOf id) :=
  has_iff.2 fun _ e => Nat.lt_trans (h.lt_of_containerOf e) hid

theorem lt_count (h : t.WellLinked) (hm : id ∈ (t.children c).toList) : id < t.count :=
  (h.mem_children.1 hm).1

theorem containerOf_eq (h : t.WellLinked) (hm : id ∈ (t.children c).toList) :
    t.containerOf id = c :=
  (h.mem_children.1 hm).2

/-- A child has a larger number than the node it is listed in. -/
theorem lt_child (h : t.WellLinked) {child : NodeId}
    (hm : child ∈ (t.node id).children.toList) : id < child :=
  h.lt_of_containerOf (h.containerOf_eq (c := .node id) hm)

theorem modify {f : Node → Node} (h : t.WellLinked) (target : NodeId)
    (hc : ∀ n, (f n).children = n.children) (hp : ∀ n, (f n).parent = n.parent) :
    (t.modify target f).WellLinked :=
  h.congr (count_modify ..) (children_modify hc t target) (containerOf_modify hp t target)

/-- A new node joins the one container that it names, with the largest number so far. -/
theorem attach (h : t.WellLinked) (hc : t.Has c) (hn : n.children = #[]) :
    (t.attach c n).WellLinked where
  mem_children {c' id} := by
    rw [children_attach hc hn, count_attach, containerOf_attach hc]
    by_cases e : id = t.count
    · subst e
      split
      · rename_i hcc
        simp [hcc]
      · rename_i hcc
        simp only [h.mem_children, Nat.lt_irrefl, false_and, false_iff, not_and, if_true]
        exact fun _ => Ne.symm hcc
    · have : id < t.count + 1 ↔ id < t.count := Nat.lt_succ_iff_lt_or_eq.trans (or_iff_left e)
      split <;> simp [h.mem_children, e, this]
  nodup_children c' := by
    rw [children_attach hc hn]
    split
    · rw [Array.toList_push, List.nodup_append]
      refine ⟨h.nodup_children c', by simp, fun a ha b hb => ?_⟩
      rw [List.mem_singleton.1 hb]
      exact Nat.ne_of_lt (h.lt_count ha)
    · exact h.nodup_children c'
  lt_of_containerOf {id parent} e := by
    rw [containerOf_attach hc] at e
    split at e
    · rename_i hid
      rw [hid]
      exact has_iff.1 hc _ e
    · exact h.lt_of_containerOf e

end WellLinked

end Arena

end MarkupShorthand
