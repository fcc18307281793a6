import MarkupShorthand.Outline
import MarkupShorthand.Proofs.Arena.Edits

/-!
# The layout of outlines

An outline has one line for each node, in the order of the document (`WellLinked.outline_eq`). What
stands in front of a node in its line depends on its way down only: a column for each ancestor, blank
below the last of some siblings, and a corner or a tee for the node (`Arena.outlineLine`). The writer
has no ways down, but pending entries with what they are to be written with. Each is the entry of a
node (`Arena.entry`), as what it leaves behind of a node are the entries of the children
(`WellLinked.below_entry`), so that it writes the lines of all nodes below the pending ones
(`WellLinked.run_entries`).
-/

namespace MarkupShorthand

/-- Of siblings, the last one is written as such. -/
theorem Outline.entries_map {α : Type} [DecidableEq α] {siblings : List α} (h : siblings.Nodup)
    (margin : String) (f : α → Element) :
    entries margin (siblings.map f) =
      siblings.map fun a => ⟨f a, margin, siblings.getLast? = some a⟩ := by
  rcases List.eq_nil_or_concat siblings with rfl | ⟨before, last, rfl⟩
  · rfl
  · rw [List.concat_eq_append] at h ⊢
    have hlast : ∀ a ∈ before, last ≠ a := fun a ha e =>
      List.disjoint_of_nodup_append h ha (e ▸ List.mem_singleton_self last)
    have hbefore : before.map (fun a => (⟨f a, margin, false⟩ : Entry)) =
        before.map fun a => ⟨f a, margin, some last = some a⟩ :=
      List.map_congr_left fun a ha => by simp [hlast a ha]
    rw [List.getLast?_concat, List.map_append, List.map_append, ← hbefore]
    simp [entries]

namespace Arena

variable {t : Arena} {id : NodeId}

/-- Whether no sibling follows a node. Top-level nodes are siblings of each other. -/
def isLast (t : Arena) (id : NodeId) : Bool :=
  (t.children (t.containerOf id)).toList.getLast? = some id

/-- What lines of nodes in a container start with: from the top level down, a column for each node
on the way, with a bar in it if siblings follow. -/
def margin (t : Arena) (c : Container) : String :=
  String.join ((t.pathTo c).map fun id => if t.isLast id then "  " else "│ ")

/-- The line of a node: the columns of its ancestors, its connector and its label. -/
def outlineLine (t : Arena) (id : NodeId) : String :=
  t.margin (t.containerOf id) ++ (if t.isLast id then "└─" else "├─") ++ " " ++
    (t.element id).label ++ "\n"

/-- What the writer has to know of a node that is still to be written. -/
def entry (t : Arena) (id : NodeId) : Outline.Entry :=
  ⟨t.element id, t.margin (t.containerOf id), t.isLast id⟩

theorem line_entry (t : Arena) (id : NodeId) : (t.entry id).line = t.outlineLine id := rfl

namespace WellLinked

variable (h : t.WellLinked)

include h

/-- Below a node stands one more column. -/
theorem margin_node (id : NodeId) :
    t.margin (.node id) = t.margin (t.containerOf id) ++ Outline.column (t.isLast id) := by
  rw [margin, pathTo, h.path_eq, List.map_append, String.join_append]
  simp [margin, Outline.column]

/-- The entries of siblings. -/
theorem entries_children (c : Container) :
    Outline.entries (t.margin c) ((t.children c).toList.map t.element) =
      (t.children c).toList.map t.entry := by
  rw [Outline.entries_map (h.nodup_children c)]
  refine List.map_congr_left fun id hid => ?_
  rw [entry, isLast, h.containerOf_eq hid]

/-- What is to be written below a node are its children. -/
theorem below_entry (id : NodeId) :
    (t.entry id).below = (t.node id).children.toList.map t.entry := by
  have hmargin : (t.entry id).margin ++ Outline.column (t.entry id).isLast = t.margin (.node id) :=
    (h.margin_node id).symm
  have hchildren : (t.entry id).element.children = (t.children (.node id)).toList.map t.element :=
    h.children_element id
  rw [Outline.Entry.below, hmargin, hchildren, h.entries_children]
  rfl

/-- The writer writes the lines of the pending nodes and of all nodes below them. -/
theorem run_entries (written : String) (pending : List NodeId) :
    Outline.run written (pending.map t.entry) =
      written ++ String.join ((pending.flatMap t.below).map t.outlineLine) := by
  -- every step writes the first of the nodes that are left
  induction hn : (pending.flatMap t.below).length generalizing written pending with
  | zero =>
    cases pending with
    | nil => simp [Outline.run]
    | cons id pending =>
      rw [List.flatMap_cons, h.below_eq] at hn
      simp at hn
  | succ n ih =>
    cases pending with
    | nil => simp at hn
    | cons id pending =>
      have hnext : (id :: pending).flatMap t.below =
          id :: ((t.node id).children.toList ++ pending).flatMap t.below := by
        rw [List.flatMap_cons, h.below_eq, List.flatMap_append, List.cons_append]
      rw [hnext] at hn ⊢
      rw [List.map_cons, Outline.run, h.below_entry, ← List.map_append, line_entry,
        ih _ _ (Nat.succ.inj hn), List.map_cons, String.join_cons, String.append_assoc]

/-- An outline is a header with the number of nodes and one line for each node, in the order of the
document, and as many columns as there are levels above a node stand in its line. -/
theorem outline_eq :
    t.outline = Outline.header t.count ++ String.join (t.preorder.toList.map t.outlineLine) ∧
      t.preorder.toList.Perm (List.range t.count) ∧
      ∀ id, (t.pathTo (t.containerOf id)).length = t.depth id := by
  refine ⟨?_, h.preorder_perm, h.length_pathTo⟩
  have hroots : Outline.entries "" t.forest = t.roots.toList.map t.entry :=
    h.entries_children .root
  rw [outline, hroots, h.run_entries, h.preorder_eq]

end WellLinked

/-- A link in the first of two items, and a bold word in a paragraph behind the list: bars stand below
the list and the first item, and a blank below the paragraph. -/
theorem outline_of_list_and_paragraph :
    ∃ t : Arena, t.WellLinked ∧ t.preorder.toList = [0, 1, 2, 3, 4, 5] ∧
      t.preorder.toList.map t.outlineLine =
        ["├─ ul\n", "│ ├─ li\n", "│ │ └─ a\n", "│ └─ li\n", "└─ p\n", "  └─ b\n"] ∧
      t.outline =
        "⧉ 6 nodes\n├─ ul\n│ ├─ li\n│ │ └─ a\n│ └─ li\n└─ p\n  └─ b\n" := by
  have append : ∀ {t : Arena} {c : Container} (name : String), t.WellLinked → t.Has c →
      (t.append c name).WellLinked := fun name hw hc => (hw.growsTo_append hc name).1
  have hul := append "ul" wellLinked_empty (c := .root) trivial
  have hfirst := append "li" hul (c := .node 0) (by decide)
  have hlink := append "a" hfirst (c := .node 1) (by decide)
  have hsecond := append "li" hlink (c := .node 0) (by decide)
  have hparagraph := append "p" hsecond (c := .root) trivial
  have hbold := append "b" hparagraph (c := .node 4) (by decide)
  refine ⟨_, hbold, by decide +kernel, by decide +kernel, ?_⟩
  rw [hbold.outline_eq.1]
  decide +kernel

end Arena

end MarkupShorthand
