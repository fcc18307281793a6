import Mathlib.Data.List.Flatten
import MarkupShorthand.Proofs.Arena.Leaves

/-!
# Rows

The containers of one level in the order of the document (`Arena.row`): each row is what the
containers of the one above hold. The walk over an arena meets the nodes of a row in the row's order
(`WellLinked.row_succ_sublist_preorder`), and where an arena grows and its nodes stay where they are
(`Arena.Extends`), its rows only get more containers (`Extends.row_sublist`).
-/

namespace MarkupShorthand.Arena

variable {t t' t'' : Arena} {id : NodeId} {c : Container} {touched : List NodeId}

/-- What some containers hold, in order. -/
def beneath (t : Arena) (containers : List Container) : List Container :=
  containers.flatMap fun c => (t.children c).toList.map .node

/-- The containers of a level in the order of the document: the root, then the top-level nodes, then
their children. -/
def row (t : Arena) (level : Nat) : List Container :=
  t.beneath^[level] [.root]

theorem row_succ (t : Arena) (level : Nat) : t.row (level + 1) = t.beneath (t.row level) :=
  Function.iterate_succ_apply' _ _ _

/-- Containers side by side hold their own. -/
theorem beneath_iterate_map (t : Arena) (n : Nat) (ids : List NodeId) :
    t.beneath^[n] (ids.map .node) = ids.flatMap fun id => t.beneath^[n] [.node id] := by
  have hflat : ∀ n (containers : List Container),
      t.beneath^[n] containers = containers.flatMap fun c => t.beneath^[n] [c] := by
    intro n
    induction n with
    | zero => simp
    | succ n ih =>
      intro containers
      simp only [Function.iterate_succ_apply]
      rw [ih, beneath, List.flatMap_assoc]
      refine List.flatMap_congr fun c _ => ?_
      rw [ih (t.beneath [c]), beneath, List.flatMap_singleton]
  rw [hflat, List.flatMap_map]

theorem WellLinked.beneath_sublist_below (h : t.WellLinked) (n : Nat) (id : NodeId) :
    (t.beneath^[n] [.node id]).Sublist ((t.below id).map .node) := by
  induction id using h.inductionUp generalizing n with
  | step id ih =>
    rw [h.below_eq, List.map_cons]
    cases n with
    | zero => exact (List.nil_sublist _).cons_cons _
    | succ n =>
      rw [Function.iterate_succ_apply, beneath, List.flatMap_singleton, children,
        beneath_iterate_map, List.map_flatMap]
      exact .cons _ (List.Sublist.flatMap_right _ fun child hc => ih child hc n)

/-- The walk meets the nodes of a row in its order. -/
theorem WellLinked.row_succ_sublist_preorder (h : t.WellLinked) (level : Nat) :
    (t.row (level + 1)).Sublist (t.preorder.toList.map .node) := by
  rw [h.preorder_eq, row, Function.iterate_succ_apply, beneath, List.flatMap_singleton, children,
    beneath_iterate_map, List.map_flatMap]
  exact List.Sublist.flatMap_right _ fun id _ => h.beneath_sublist_below level id

/-! ## Growing -/

/-- `t'` has the nodes of `t` where they were, and possibly more. Only nodes that are touched may
have got another slot. -/
structure Extends (t t' : Arena) (touched : List NodeId) : Prop where
  count_le : t.count ≤ t'.count
  containerOf_eq : ∀ id < t.count, t'.containerOf id = t.containerOf id
  name_eq : ∀ id < t.count, (t'.node id).name = (t.node id).name
  slot_eq : ∀ id < t.count, id ∉ touched → (t'.node id).slot = (t.node id).slot
  children_sublist : ∀ c, (t.children c).toList.Sublist (t'.children c).toList

namespace Extends

theorem trans (h : t.Extends t' touched) (h' : t'.Extends t'' []) : t.Extends t'' touched where
  count_le := Nat.le_trans h.count_le h'.count_le
  containerOf_eq id hid :=
    (h'.containerOf_eq id (Nat.lt_of_lt_of_le hid h.count_le)).trans (h.containerOf_eq id hid)
  name_eq id hid :=
    (h'.name_eq id (Nat.lt_of_lt_of_le hid h.count_le)).trans (h.name_eq id hid)
  slot_eq id hid hm :=
    (h'.slot_eq id (Nat.lt_of_lt_of_le hid h.count_le) List.not_mem_nil).trans (h.slot_eq id hid hm)
  children_sublist c := (h.children_sublist c).trans (h'.children_sublist c)

/-- A row only gets more containers. -/
theorem row_sublist (h : t.Extends t' touched) (level : Nat) :
    (t.row level).Sublist (t'.row level) := by
  induction level with
  | zero => exact .refl _
  | succ level ih =>
    rw [row_succ, row_succ, beneath, beneath]
    exact (ih.flatMap _).trans
      (List.Sublist.flatMap_right _ fun c _ => (h.children_sublist c).map _)

/-- The way up from an existing container is the same. -/
theorem above_iterate_eq (h : t.Extends t' touched) (hw : t.WellLinked) (hc : t.Has c) (n : Nat) :
    t'.above^[n] c = t.above^[n] c := by
  induction n with
  | zero => rfl
  | succ n ih =>
    rw [Function.iterate_succ_apply', Function.iterate_succ_apply', ih]
    have hn := hw.has_above hc n
    cases e : t.above^[n] c with
    | root => rfl
    | node id => exact h.containerOf_eq id (has_node.1 (e ▸ hn))

end Extends

theorem AddsLeaves.extends {a : Container → List Element} (h : AddsLeaves t t' a) :
    t.Extends t' [] where
  count_le := h.count_le
  containerOf_eq _ hid := h.containerOf_eq hid
  name_eq id hid := by rw [h.node_eq id hid]
  slot_eq id hid _ := by rw [h.node_eq id hid]
  children_sublist c := by
    by_cases hc : t.Has c
    · obtain ⟨new, he, -⟩ := h.children_eq c hc
      exact he ▸ List.sublist_append_left _ _
    · cases c with
      | root => exact absurd trivial hc
      | node id =>
        rw [children, node_of_le (Nat.le_of_not_lt hc)]
        exact List.nil_sublist _

/-- What a node keeps when it is retouched, every node keeps when some are. -/
theorem congr_node_retouch {β : Type} {p : List Attribute → List Attribute} {q : Slot → Slot}
    (f : Node → β) (hf : ∀ n, f (n.retouch p q) = f n) (t : Arena) (ids : List NodeId)
    (x : NodeId) :
    f ((t.retouch p q ids).node x) = f (t.node x) := by
  induction ids generalizing t with
  | nil => rfl
  | cons first rest ih =>
    rw [retouch_cons, ih, node_modify]
    split
    · exact hf _
    · rfl

theorem extends_retouch (p : List Attribute → List Attribute) (q : Slot → Slot)
    (ids : List NodeId) : t.Extends (t.retouch p q ids) ids where
  count_le := Nat.le_of_eq (count_retouch t ids).symm
  containerOf_eq id _ := containerOf_retouch t ids id
  name_eq id _ := congr_node_retouch Node.name (fun _ => rfl) t ids id
  slot_eq id _ hid := by rw [node_retouch_of_not_mem hid]
  children_sublist c := by rw [children_retouch]

/-- Attributes are added without touching a slot. -/
theorem extends_retouch_attributes (p : List Attribute → List Attribute) (ids : List NodeId) :
    t.Extends (t.retouch p (fun slot => slot) ids) [] where
  __ := extends_retouch p (fun slot => slot) ids
  slot_eq id _ _ := congr_node_retouch Node.slot (fun _ => rfl) t ids id

end MarkupShorthand.Arena
