import Mathlib.Logic.Function.Iterate
import MarkupShorthand.Proofs.Arena.Links

/-!
# Ancestors

The way up from a node and the way down to it. `Arena.above`, taken some number of times, leads
through a node's ancestors to the root; the depth says how many there are
(`WellLinked.depth_eq_add`, `WellLinked.above_depth_succ`). `Arena.path` lists them from the top
level down (`WellLinked.path_eq`). Facts about nodes go by induction up from the leaves
(`WellLinked.inductionUp`) or down from the top level (`WellLinked.inductionDown`).
-/

namespace MarkupShorthand.Arena

variable {t : Arena} {id a x : NodeId} {c : Container}

@[simp] theorem above_root (t : Arena) : t.above .root = .root := rfl

@[simp] theorem above_node (t : Arena) (id : NodeId) : t.above (.node id) = t.containerOf id := rfl

@[simp] theorem above_iterate_root (t : Arena) (n : Nat) : t.above^[n] .root = .root :=
  Function.iterate_fixed (above_root t) n

/-- The nodes on the way down to a node, and the node. The way up ends because links lead to smaller
numbers; at one that does not, the way down starts. -/
def path (t : Arena) (id : NodeId) : List NodeId :=
  match (t.node id).parent with
  | none => [id]
  | some parent => if parent < id then t.path parent ++ [id] else [id]

/-- The nodes on the way down to what a container holds. -/
def pathTo (t : Arena) : Container → List NodeId
  | .root => []
  | .node id => t.path id

namespace WellLinked

/-- A node is reached through its container. -/
theorem path_eq (h : t.WellLinked) (id : NodeId) :
    t.path id = t.pathTo (t.containerOf id) ++ [id] := by
  rw [path]
  cases hp : (t.node id).parent with
  | none => rw [containerOf_eq_root.2 hp]; rfl
  | some parent =>
    have hc := containerOf_eq_node.2 hp
    rw [hc]
    exact if_pos (h.lt_of_containerOf hc)

theorem depth_root (h : t.containerOf id = .root) : t.depth id = 0 := by
  rw [depth, containerOf_eq_root.1 h]

theorem depth_node (h : t.WellLinked) {parent : NodeId} (hp : t.containerOf id = .node parent) :
    t.depth id = t.depth parent + 1 := by
  rw [depth, containerOf_eq_node.1 hp]
  exact if_pos (h.lt_of_containerOf hp)

/-- As many nodes are above a node as its depth says. -/
theorem length_pathTo (h : t.WellLinked) (id : NodeId) :
    (t.pathTo (t.containerOf id)).length = t.depth id := by
  induction id using Nat.strongRecOn with
  | _ id ih =>
    cases hc : t.containerOf id with
    | root => exact (depth_root hc).symm
    | node parent =>
      rw [pathTo, h.path_eq, List.length_append, ih parent (h.lt_of_containerOf hc),
        h.depth_node hc, List.length_singleton]

/-- Nodes in one container are equally deep. -/
theorem depth_congr (h : t.WellLinked) {id' : NodeId} (e : t.containerOf id = t.containerOf id') :
    t.depth id = t.depth id' := by
  cases hc : t.containerOf id' with
  | root => rw [depth_root hc, depth_root (e.trans hc)]
  | node parent => rw [h.depth_node hc, h.depth_node (e.trans hc)]

/-- The depth of a node depends on the containers of the node and of smaller numbers only. -/
theorem depth_of_containerOf {t' : Arena} (h : t.WellLinked) (h' : t'.WellLinked)
    (e : ∀ x ≤ id, t'.containerOf x = t.containerOf x) : t'.depth id = t.depth id := by
  induction id using Nat.strongRecOn with
  | _ id ih =>
    have hid := e id (Nat.le_refl _)
    cases hc : t.containerOf id with
    | root => rw [depth_root hc, depth_root (hid.trans hc)]
    | node parent =>
      have hlt := h.lt_of_containerOf hc
      rw [h.depth_node hc, h'.depth_node (hid.trans hc),
        ih parent hlt fun x hx => e x (Nat.le_of_lt (Nat.lt_of_le_of_lt hx hlt))]

/-- What holds of a node if it holds of its children holds of every node. -/
theorem inductionUp (h : t.WellLinked) {P : NodeId → Prop}
    (step : ∀ id, (∀ child ∈ (t.node id).children.toList, P child) → P id) (id : NodeId) :
    P id := by
  induction hk : t.count - id using Nat.strongRecOn generalizing id with
  | _ k ih =>
    subst hk
    refine step id fun child hm => ih (t.count - child) ?_ child rfl
    have hlt := h.lt_child hm
    exact Nat.sub_lt_sub_left (Nat.lt_trans hlt (h.lt_count (c := .node id) hm)) hlt

/-- What holds of a node if it holds of its parent holds of every node. -/
theorem inductionDown (h : t.WellLinked) {P : NodeId → Prop}
    (top : ∀ id, t.containerOf id = .root → P id)
    (step : ∀ id parent, t.containerOf id = .node parent → P parent → P id) (id : NodeId) :
    P id := by
  induction id using Nat.strongRecOn with
  | _ id ih =>
    cases hc : t.containerOf id with
    | root => exact top id hc
    | node parent => exact step id parent hc (ih parent (h.lt_of_containerOf hc))

/-- An ancestor is as much less deep as it is levels above. -/
theorem depth_eq_add (h : t.WellLinked) {n : Nat} (e : t.above^[n] (.node id) = .node a) :
    t.depth id = t.depth a + n := by
  induction n generalizing id with
  | zero => rw [Container.node.inj e, Nat.add_zero]
  | succ n ih =>
    rw [Function.iterate_succ_apply, above_node] at e
    cases hc : t.containerOf id with
    | root => simp [hc] at e
    | node parent =>
      rw [hc] at e
      rw [h.depth_node hc, ih e, Nat.add_assoc]

/-- No number on the way up is larger than the first. -/
theorem le_of_above (h : t.WellLinked) {n : Nat} (e : t.above^[n] (.node id) = .node a) :
    a ≤ id := by
  induction n generalizing id with
  | zero => exact Nat.le_of_eq (Container.node.inj e).symm
  | succ n ih =>
    rw [Function.iterate_succ_apply, above_node] at e
    cases hc : t.containerOf id with
    | root => simp [hc] at e
    | node parent =>
      rw [hc] at e
      exact Nat.le_trans (ih e) (Nat.le_of_lt (h.lt_of_containerOf hc))

/-- The root is one level above the last ancestor. -/
theorem above_depth_succ (h : t.WellLinked) (id : NodeId) :
    t.above^[t.depth id + 1] (.node id) = .root := by
  induction id using h.inductionDown with
  | top id hc => simpa [depth_root hc] using hc
  | step id parent hc ih => rw [h.depth_node hc, Function.iterate_succ_apply, above_node, hc, ih]

/-- The way up from an existing container stays among existing containers. -/
theorem has_above (h : t.WellLinked) (hc : t.Has c) (n : Nat) : t.Has (t.above^[n] c) := by
  induction n with
  | zero => exact hc
  | succ n ih =>
    rw [Function.iterate_succ_apply']
    cases e : t.above^[n] c with
    | root => trivial
    | node id => exact h.has_containerOf (has_node.1 (e ▸ ih))

end WellLinked

end MarkupShorthand.Arena
