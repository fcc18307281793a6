import MarkupShorthand.Markup.Render
import MarkupShorthand.Proofs.Arena.Traversal

/-!
# Marks

Markup node by node, with the places to type at in it (`Arena.marks`). Every node is written with
the number that its way up gives it (`Arena.index`). Marks are the same in both modes, and the
writer does nothing but write them (`Output.forest_eq_marks`): it leaves the places out, or puts
a tab stop at each.
-/

namespace MarkupShorthand

/-- A place to type at: the value of an attribute that has none, or the inside of a leaf. -/
inductive Site where
  | attribute (id : NodeId) (name : String)
  | leaf (id : NodeId)
deriving DecidableEq

/-- A piece of markup in which tab stops are not numbered. -/
inductive Mark where
  | text (content : String)
  | site (site : Site)
deriving DecidableEq

namespace Mark

/-- The place that a mark is. -/
def site? : Mark → Option Site
  | .text _ => none
  | .site place => some place

/-- The piece that a mark is in both modes. -/
def piece? : Mark → Option Piece
  | .text content => some (.text content)
  | .site _ => none

/-- Marks as pieces, with a tab stop at each place, numbered from `next`. -/
def numbered (next : Nat) : List Mark → List Piece
  | [] => []
  | .text content :: rest => .text content :: numbered next rest
  | .site _ :: rest => .stop next :: numbered (next + 1) rest

end Mark

namespace Output

/-- The output with a mark at its end. -/
def mark (o : Output) (mode : RenderMode) : Mark → Output
  | .text content => o.text content
  | .site _ => o.place mode

/-- The output with marks at its end. -/
def marks (o : Output) (mode : RenderMode) (marks : List Mark) : Output :=
  marks.foldl (·.mark mode ·) o

variable {o : Output} {mode : RenderMode}

theorem marks_cons (first : Mark) (rest : List Mark) :
    o.marks mode (first :: rest) = (o.mark mode first).marks mode rest := rfl

theorem marks_append (first second : List Mark) :
    o.marks mode (first ++ second) = (o.marks mode first).marks mode second :=
  List.foldl_append

theorem pieces_counting (o : Output) (marks : List Mark) :
    (o.marks .counting marks).pieces.toList =
      o.pieces.toList ++ Mark.numbered o.stops.next marks := by
  induction marks generalizing o with
  | nil => exact (List.append_nil _).symm
  | cons first rest ih =>
    rw [marks_cons, ih]
    cases first with
    | text content => simp [mark, text, Mark.numbered]
    | site site => simp [mark, place, stop, StopCounter.advance, Mark.numbered]

theorem pieces_silent (o : Output) (marks : List Mark) :
    (o.marks .silent marks).pieces.toList = o.pieces.toList ++ marks.filterMap Mark.piece? := by
  induction marks generalizing o with
  | nil => exact (List.append_nil _).symm
  | cons first rest ih =>
    rw [marks_cons, ih]
    cases first with
    | text content => simp [mark, text, Mark.piece?]
    | site site => rfl

end Output

namespace Arena

/-! ## Nodes -/

/-- The number of a node, from its slot and the number of the node above it. The way up ends because
links lead to smaller ids; at one that does not, numbering starts again. -/
def index (t : Arena) (numbering : Numbering) (id : NodeId) : Nat :=
  numbering.index (t.node id).slot <|
    match (t.node id).parent with
    | none => 1
    | some parent => if parent < id then t.index numbering parent else 1

/-- The number that nodes in a container are below. -/
def indexAbove (t : Arena) (numbering : Numbering) : Container → Nat
  | .root => 1
  | .node id => t.index numbering id

/-- An attribute of a node. -/
def attributeMarks (index : Nat) (id : NodeId) (a : Attribute) : List Mark :=
  [.text (" " ++ a.name ++ "=\""),
    if a.isPlaceholder then .site (.attribute id a.name)
    else .text (" ".intercalate (a.renderedValues index)),
    .text "\""]

variable (t : Arena) (numbering : Numbering) (indent : String)

/-- The indentation of a node's line. -/
def indentation (id : NodeId) : String :=
  String.join (List.replicate (t.depth id) indent)

/-- The opening tag of a node. -/
def openMarks (id : NodeId) : List Mark :=
  .text (t.indentation indent id ++ "<" ++ (t.node id).name) ::
    (t.node id).attributes.flatMap (attributeMarks (t.index numbering id) id) ++ [.text ">"]

/-- A node and everything below it: a leaf holds a place, any other node its children, each on a
line of its own. -/
def elementMarks (id : NodeId) : List Mark :=
  t.fold (fun id below =>
    t.openMarks numbering indent id ++
      (if below.isEmpty then [.site (.leaf id)]
        else below.flatMap (.text "\n" :: ·) ++ [.text ("\n" ++ t.indentation indent id)]) ++
      [.text ("</" ++ (t.node id).name ++ ">")]) id

/-- The top-level nodes and everything below them, each on a line of its own. -/
def marks : List Mark :=
  [.text "\n"].intercalate (t.roots.toList.map (t.elementMarks numbering indent))

/-- The places of a node: its attributes without a value, in order, and its inside if it is a leaf.
-/
def sites (id : NodeId) : List Site :=
  ((t.node id).attributes.filter (·.isPlaceholder)).map (.attribute id ·.name) ++
    if (t.node id).isLeaf then [.leaf id] else []

variable {t numbering indent} {id : NodeId}

theorem WellLinked.index_eq (h : t.WellLinked) (id : NodeId) :
    t.index numbering id =
      numbering.index (t.node id).slot (t.indexAbove numbering (t.containerOf id)) := by
  rw [index]
  cases hp : (t.node id).parent with
  | none => rw [containerOf_eq_root.2 hp]; rfl
  | some parent =>
    have hc := containerOf_eq_node.2 hp
    dsimp only
    rw [if_pos (h.lt_of_containerOf hc), hc]
    rfl

theorem WellLinked.index_element (h : t.WellLinked) (id : NodeId) :
    numbering.index (t.element id).slot (t.indexAbove numbering (t.containerOf id)) =
      t.index numbering id := by
  rw [h.index_eq, h.element_eq]

theorem WellLinked.elementMarks_eq (h : t.WellLinked) (id : NodeId) :
    t.elementMarks numbering indent id = t.openMarks numbering indent id ++
      (if (t.node id).isLeaf then [.site (.leaf id)]
        else
          (t.node id).children.toList.flatMap (.text "\n" :: t.elementMarks numbering indent ·) ++
            [.text ("\n" ++ t.indentation indent id)]) ++
      [.text ("</" ++ (t.node id).name ++ ">")] := by
  unfold elementMarks
  rw [h.fold_eq, List.isEmpty_map, List.flatMap_map, Array.isEmpty_toList]
  rfl

theorem intercalate_map (separator : Mark) (f : NodeId → List Mark) (first : NodeId)
    (rest : List NodeId) :
    [separator].intercalate ((first :: rest).map f) =
      f first ++ rest.flatMap (separator :: f ·) := by
  induction rest generalizing first with
  | nil => simp
  | cons id rest ih =>
    rw [List.map_cons, List.map_cons, List.intercalate_cons_cons, ← List.map_cons, ih,
      List.flatMap_cons, List.append_assoc]
    rfl

end Arena

/-! ## The writer -/

namespace Output

open Arena

variable {t : Arena} {options : RenderOptions}

theorem attr_eq_marks (o : Output) (mode : RenderMode) (index : Nat) (id : NodeId) (a : Attribute) :
    o.attr mode index a = o.marks mode (attributeMarks index id a) := by
  rw [attr, attributeMarks]
  split <;> rfl

theorem attrs_eq_marks (o : Output) (mode : RenderMode) (index : Nat) (id : NodeId)
    (attributes : List Attribute) :
    attributes.foldl (·.attr mode index ·) o =
      o.marks mode (attributes.flatMap (attributeMarks index id)) := by
  induction attributes generalizing o with
  | nil => rfl
  | cons a rest ih => rw [List.foldl_cons, List.flatMap_cons, marks_append, ih, attr_eq_marks]

theorem openTag_eq_marks (h : t.WellLinked) (o : Output) (id : NodeId) :
    o.openTag options (t.element id) (t.depth id) (t.index options.numbering id) =
      o.marks options.mode (t.openMarks options.numbering options.indent id) := by
  rw [openTag, openMarks, h.element_eq, attrs_eq_marks _ _ _ id, List.cons_append, marks_cons,
    marks_append]
  rfl

theorem run_leaf (o : Output) {e : Element} (h : e.children = []) (depth parentIndex : Nat)
    (pending : List RenderStep) :
    o.run options (.element e depth parentIndex :: pending) =
      ((((if depth = 0 then o else o.text "\n").openTag options e depth
        (options.numbering.index e.slot parentIndex)).place options.mode).closeTag e.name).run
          options pending := by
  rw [run]
  split
  · rfl
  · rename_i hne
    exact absurd h hne

theorem run_inner (o : Output) {e : Element} (h : e.children ≠ []) (depth parentIndex : Nat)
    (pending : List RenderStep) :
    o.run options (.element e depth parentIndex :: pending) =
      ((if depth = 0 then o else o.text "\n").openTag options e depth
        (options.numbering.index e.slot parentIndex)).run options
          (RenderStep.elements (depth + 1) (options.numbering.index e.slot parentIndex)
            e.children ++ .close e.name depth :: pending) := by
  rw [run]
  split
  · rename_i hnil
    exact absurd hnil h
  · rfl

end Output

/-- The work of writing a node. -/
def RenderStep.node (t : Arena) (options : RenderOptions) (id : NodeId) : RenderStep :=
  .element (t.element id) (t.depth id) (t.indexAbove options.numbering (t.containerOf id))

/-- The work of writing the children of a node is that of writing nodes. -/
theorem Arena.WellLinked.elements_children {t : Arena} (h : t.WellLinked) (options : RenderOptions)
    (id : NodeId) :
    RenderStep.elements (t.depth id + 1) (t.index options.numbering id)
        ((t.node id).children.toList.map t.element) =
      (t.node id).children.toList.map (RenderStep.node t options) := by
  rw [RenderStep.elements, List.map_map]
  refine List.map_congr_left fun child hc => ?_
  have hparent := h.containerOf_eq (c := .node id) hc
  rw [Function.comp_apply, RenderStep.node, h.depth_node hparent, hparent]
  rfl

namespace Arena

variable (t : Arena) (options : RenderOptions)

/-- A node and everything below it, on a line of its own; nothing stands before the first line. -/
def lineMarks (id : NodeId) : List Mark :=
  (if t.depth id = 0 then [] else [.text "\n"]) ++
    t.elementMarks options.numbering options.indent id

end Arena

namespace Output

open Arena

variable {t : Arena} {options : RenderOptions}

theorem run_nodes {ids : List NodeId}
    (h : ∀ id ∈ ids, ∀ (o : Output) pending, o.run options (.node t options id :: pending) =
      (o.marks options.mode (t.lineMarks options id)).run options pending)
    (o : Output) (pending : List RenderStep) :
    o.run options (ids.map (.node t options) ++ pending) =
      (o.marks options.mode (ids.flatMap (t.lineMarks options))).run options pending := by
  induction ids generalizing o with
  | nil => rfl
  | cons id ids ih =>
    rw [List.map_cons, List.cons_append, h id List.mem_cons_self, List.flatMap_cons, marks_append]
    exact ih (fun x hx => h x (List.mem_cons_of_mem _ hx)) _

theorem lineMarks_child (h : t.WellLinked) {id child : NodeId}
    (hc : child ∈ (t.node id).children.toList) :
    t.lineMarks options child =
      .text "\n" :: t.elementMarks options.numbering options.indent child := by
  rw [lineMarks, h.depth_node (h.containerOf_eq (c := .node id) hc), if_neg (Nat.succ_ne_zero _)]
  rfl

/-- The writer writes the marks of a node and goes on. -/
theorem run_node (h : t.WellLinked) (id : NodeId) (o : Output) (pending : List RenderStep) :
    o.run options (.node t options id :: pending) =
      (o.marks options.mode (t.lineMarks options id)).run options pending := by
  induction id using h.inductionUp generalizing o pending with
  | step id ih =>
    have hname : (t.element id).name = (t.node id).name := by rw [h.element_eq]
    have opened : (if t.depth id = 0 then o else o.text "\n").openTag options (t.element id)
        (t.depth id) (t.index options.numbering id) =
        o.marks options.mode ((if t.depth id = 0 then [] else [.text "\n"]) ++
          t.openMarks options.numbering options.indent id) := by
      rw [openTag_eq_marks h, marks_append]
      split <;> rfl
    rw [RenderStep.node, lineMarks, h.elementMarks_eq]
    by_cases hleaf : (t.node id).isLeaf
    · have hc : (t.element id).children = [] := by
        rw [h.children_element, Array.isEmpty_iff.1 hleaf]
        rfl
      rw [run_leaf o hc, h.index_element, opened, if_pos hleaf, hname]
      simp only [marks_append]
      rfl
    · have hc : (t.element id).children ≠ [] := by
        rw [h.children_element, List.map_eq_nil_iff.ne, Array.toList_eq_nil_iff.ne]
        exact fun e => hleaf (Array.isEmpty_iff.2 e)
      have below : (t.node id).children.toList.flatMap (t.lineMarks options) =
          (t.node id).children.toList.flatMap
            (.text "\n" :: t.elementMarks options.numbering options.indent ·) :=
        List.flatMap_congr fun child hm => lineMarks_child h hm
      rw [run_inner o hc, h.index_element, opened, h.children_element, h.elements_children,
        run_nodes ih, below, if_neg hleaf, run, hname]
      simp only [marks_append]
      rfl

/-- The writer writes the marks of a top-level node, on the line where it stands. -/
theorem run_root (h : t.WellLinked) {id : NodeId} (hid : id ∈ t.roots.toList) (o : Output) :
    o.run options [.element (t.element id) 0 1] =
      o.marks options.mode (t.elementMarks options.numbering options.indent id) := by
  have hc := h.containerOf_eq (c := .root) hid
  have hnode : RenderStep.node t options id = .element (t.element id) 0 1 := by
    rw [RenderStep.node, WellLinked.depth_root hc, hc]
    rfl
  rw [← hnode, run_node h, lineMarks, if_pos (WellLinked.depth_root hc), run]
  rfl

/-- The writer writes the marks of an arena. -/
theorem forest_eq_marks (h : t.WellLinked) :
    forest options t.forest =
      ({} : Output).marks options.mode (t.marks options.numbering options.indent) := by
  have hrest : ∀ (rest : List NodeId) (o : Output), rest ⊆ t.roots.toList →
      (rest.map t.element).foldl (fun o e => (o.text "\n").run options [.element e 0 1]) o =
        o.marks options.mode (rest.flatMap
          (.text "\n" :: t.elementMarks options.numbering options.indent ·)) := by
    intro rest
    induction rest with
    | nil => exact fun o _ => rfl
    | cons id rest ih =>
      intro o hsub
      rw [List.map_cons, List.foldl_cons, run_root h (hsub List.mem_cons_self),
        ih _ (List.subset_of_cons_subset hsub), List.flatMap_cons, marks_append, marks_cons]
      rfl
  rw [Arena.forest, Arena.marks]
  cases hroots : t.roots.toList with
  | nil => rfl
  | cons first rest =>
    have hsub : first :: rest ⊆ t.roots.toList := hroots ▸ List.Subset.refl _
    rw [List.map_cons, Output.forest, run_root h (hsub List.mem_cons_self),
      hrest rest _ (List.subset_of_cons_subset hsub), ← marks_append, intercalate_map]

end Output

end MarkupShorthand
