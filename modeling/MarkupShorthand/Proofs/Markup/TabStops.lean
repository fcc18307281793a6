import MarkupShorthand.Proofs.Arena.Edits
import MarkupShorthand.Proofs.Markup.Marks

/-!
# Tab stops in markup

Where an arena's markup has tab stops (`Arena.TabStops`): at the places of its nodes in the order of
the document, numbered from 1 through the whole markup, and without them it is the plain markup. All
of it is read off the marks, which are the same in both modes: numbering them gives each place the
next number (`Mark.ids_numbered`), and taking the tab stops out again leaves the texts
(`Mark.texts_numbered`).
-/

namespace MarkupShorthand

/-- The number of the tab stop that a piece is. -/
def Piece.id? : Piece → Option Nat
  | .text _ => none
  | .stop id => some id

/-- Whether a piece is there in both modes. -/
def Piece.isText (piece : Piece) : Bool :=
  piece.id?.isNone

namespace Mark

theorem ids_numbered (next : Nat) (marks : List Mark) :
    (numbered next marks).filterMap Piece.id? =
      List.range' next (marks.filterMap site?).length := by
  induction marks generalizing next with
  | nil => rfl
  | cons first rest ih =>
    cases first with
    | text content => exact ih next
    | site place => exact congrArg (next :: ·) (ih (next + 1))

theorem texts_numbered (next : Nat) (marks : List Mark) :
    (numbered next marks).filter Piece.isText = marks.filterMap piece? := by
  induction marks generalizing next with
  | nil => rfl
  | cons first rest ih =>
    cases first with
    | text content => exact congrArg (Piece.text content :: ·) (ih next)
    | site place => exact ih (next + 1)

end Mark

/-- Output is written piece by piece. -/
theorem Output.write_eq (o : Output) : o.write = String.join (o.pieces.toList.map Piece.write) := by
  rw [write, ← Array.foldl_toList, String.join, List.foldl_map]

namespace Arena

variable (t : Arena)

/-- How many nodes have no children. -/
def leafCount : Nat :=
  (List.range t.count).countP fun id => (t.node id).isLeaf

/-- How many attributes have no value. -/
def placeholderCount : Nat :=
  ((List.range t.count).map fun id => (t.node id).attributes.countP (·.isPlaceholder)).sum

/-- What tab stops an arena's markup has, given the pieces of it that has them. -/
structure TabStops (numbering : Numbering) (indent : String) (pieces : List Piece) : Prop where
  /-- The pieces are those of the markup. -/
  render_counting : t.render ⟨.counting, numbering, indent⟩ = String.join (pieces.map Piece.write)
  /-- There is a tab stop at each place to type at, and nowhere else. -/
  pieces_eq : pieces = Mark.numbered 1 (t.marks numbering indent)
  /-- The places are those of the nodes, in the order of the document. -/
  sites_eq : (t.marks numbering indent).filterMap Mark.site? = t.preorder.toList.flatMap t.sites
  /-- The tab stops are numbered from 1 in the order in which they are written. -/
  ids_eq : pieces.filterMap Piece.id? = List.range' 1 (t.leafCount + t.placeholderCount)
  /-- Without the tab stops it is the plain markup. -/
  render_silent : t.render ⟨.silent, numbering, indent⟩ =
    String.join ((pieces.filter Piece.isText).map Piece.write)

variable {t} {numbering : Numbering} {indent : String} {id : NodeId}

/-! ## Places -/

theorem sites_openMarks (id : NodeId) :
    (t.openMarks numbering indent id).filterMap Mark.site? =
      ((t.node id).attributes.filter (·.isPlaceholder)).map (.attribute id ·.name) := by
  have hattribute : ∀ index (a : Attribute), (attributeMarks index id a).filterMap Mark.site? =
      if a.isPlaceholder then [.attribute id a.name] else [] := by
    intro index a
    rw [attributeMarks]
    split <;> rfl
  have hattributes : ∀ index (attributes : List Attribute),
      (attributes.flatMap (attributeMarks index id)).filterMap Mark.site? =
        (attributes.filter (·.isPlaceholder)).map (.attribute id ·.name) := by
    intro index attributes
    induction attributes with
    | nil => rfl
    | cons a rest ih =>
      rw [List.flatMap_cons, List.filterMap_append, hattribute, ih, List.filter_cons]
      split <;> rfl
  rw [openMarks, List.cons_append, List.filterMap_cons_none rfl, List.filterMap_append, hattributes]
  exact List.append_nil _

theorem WellLinked.sites_elementMarks (h : t.WellLinked) (id : NodeId) :
    (t.elementMarks numbering indent id).filterMap Mark.site? = (t.below id).flatMap t.sites := by
  induction id using h.inductionUp with
  | step id ih =>
    have hchildren : ((t.node id).children.toList.flatMap
        (.text "\n" :: t.elementMarks numbering indent ·)).filterMap Mark.site? =
          ((t.node id).children.toList.flatMap t.below).flatMap t.sites := by
      rw [List.filterMap_flatMap, List.flatMap_assoc]
      exact List.flatMap_congr ih
    rw [h.elementMarks_eq, h.below_eq, List.flatMap_cons, List.filterMap_append,
      List.filterMap_append, sites_openMarks, sites, ← hchildren]
    by_cases hleaf : (t.node id).isLeaf
    · rw [if_pos hleaf, if_pos hleaf, Array.isEmpty_iff.1 hleaf]
      rfl
    · rw [if_neg hleaf, if_neg hleaf, List.filterMap_append, List.append_nil]
      simp [Mark.site?]

theorem WellLinked.sites_marks (h : t.WellLinked) :
    (t.marks numbering indent).filterMap Mark.site? = t.preorder.toList.flatMap t.sites := by
  rw [h.preorder_eq, marks]
  cases t.roots.toList with
  | nil => rfl
  | cons first rest =>
    rw [intercalate_map, List.filterMap_append, List.filterMap_flatMap, List.flatMap_cons,
      List.flatMap_append, List.flatMap_assoc, h.sites_elementMarks]
    exact congrArg (_ ++ ·) (List.flatMap_congr fun id _ => h.sites_elementMarks id)

theorem length_flatMap_sites (ids : List NodeId) :
    (ids.flatMap t.sites).length = ids.countP (fun id => (t.node id).isLeaf) +
      (ids.map fun id => (t.node id).attributes.countP (·.isPlaceholder)).sum := by
  induction ids with
  | nil => rfl
  | cons id ids ih =>
    have hsites : (t.sites id).length = (t.node id).attributes.countP (·.isPlaceholder) +
        if (t.node id).isLeaf then 1 else 0 := by
      rw [sites, List.length_append, List.length_map, List.countP_eq_length_filter]
      split <;> rfl
    rw [List.flatMap_cons, List.length_append, hsites, ih, List.countP_cons, List.map_cons,
      List.sum_cons]
    ac_rfl

theorem WellLinked.length_sites (h : t.WellLinked) :
    (t.preorder.toList.flatMap t.sites).length = t.leafCount + t.placeholderCount := by
  rw [(h.preorder_perm.flatMap_right t.sites).length_eq, length_flatMap_sites]
  rfl

/-- The markup of an arena whose links agree has its tab stops at the places of its nodes. -/
theorem WellLinked.tabStops (h : t.WellLinked) (numbering : Numbering) (indent : String) :
    t.TabStops numbering indent
      (Output.forest ⟨.counting, numbering, indent⟩ t.forest).pieces.toList := by
  have hcounting : (Output.forest ⟨.counting, numbering, indent⟩ t.forest).pieces.toList =
      Mark.numbered 1 (t.marks numbering indent) := by
    rw [Output.forest_eq_marks h, Output.pieces_counting]
    rfl
  have hsilent : (Output.forest ⟨.silent, numbering, indent⟩ t.forest).pieces.toList =
      (t.marks numbering indent).filterMap Mark.piece? := by
    rw [Output.forest_eq_marks h, Output.pieces_silent]
    rfl
  exact {
    render_counting := Output.write_eq _
    pieces_eq := hcounting
    sites_eq := h.sites_marks
    ids_eq := by rw [hcounting, Mark.ids_numbered, h.sites_marks, h.length_sites]
    render_silent := by
      rw [hcounting, Mark.texts_numbered, ← hsilent]
      exact Output.write_eq _ }

/-- Two top-level nodes, one with an attribute without a value and a name that looks like a tab
stop: three tab stops, and none in the name. -/
theorem tabStops_of_placeholder :
    ∃ t : Arena, t.WellLinked ∧ t.leafCount = 2 ∧ t.placeholderCount = 1 ∧
      t.render ⟨.counting, .flat, "\t"⟩ = "<a$1 href=\"$1\">$2</a$1>\n<b>$3</b>" ∧
      t.TabStops .flat "\t" (Output.forest ⟨.counting, .flat, "\t"⟩ t.forest).pieces.toList := by
  let one := ({} : Arena).append .root "a$1"
  let attributed := one.addAttribute 0 ⟨"href", []⟩
  have hone : one.WellLinked := (wellLinked_empty.growsTo_append has_root _).1
  have hattributed : attributed.WellLinked := hone.modify 0 (fun _ => rfl) (fun _ => rfl)
  have h : (attributed.append .root "b").WellLinked :=
    (hattributed.growsTo_append has_root _).1
  exact ⟨attributed.append .root "b", h, by decide +kernel, by decide +kernel, by decide +kernel,
    h.tabStops .flat "\t"⟩

end Arena

end MarkupShorthand
