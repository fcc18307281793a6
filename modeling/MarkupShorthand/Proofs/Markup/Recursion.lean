import MarkupShorthand.Proofs.Arena.Edits
import MarkupShorthand.Proofs.Markup.Template

/-!
# The writer and its templates

What the writer's list of pending work still has to write is a template as well
(`RenderStep.template`, one behind the other), and each of the writer's steps writes its part of it
and leaves the rest (`Output.writes_run`). So a forest is written as the recursion says. Where the
links of an arena agree, this is a recursion over its nodes (`Arena.WellLinked.template_eq`).
-/

namespace MarkupShorthand

namespace Output

variable {o o' o'' : Output} {a b : Template} {options : RenderOptions}

/-- `o'` is `o` with a template written behind it. -/
def Writes (o o' : Output) (a : Template) : Prop :=
  o'.write = o.write ++ (a o.stops.next).1 ∧ o'.stops.next = (a o.stops.next).2

namespace Writes

theorem nil (o : Output) : Writes o o (.text "") := ⟨String.append_empty.symm, rfl⟩

theorem trans (h : Writes o o' a) (h' : Writes o' o'' b) : Writes o o'' (a ++ b) := by
  refine ⟨?_, ?_⟩
  · rw [h'.1, h.1, h.2, String.append_assoc, Template.append_def]
  · rw [h'.2, h.2, Template.append_def]

theorem push (o : Output) (piece : Piece) :
    ({ o with pieces := o.pieces.push piece } : Output).write = o.write ++ piece.write := by
  rw [write, Array.foldl_push, write]

theorem text (o : Output) (content : String) : Writes o (o.text content) (.text content) :=
  ⟨push o _, rfl⟩

theorem place (o : Output) (mode : RenderMode) : Writes o (o.place mode) (.place mode) := by
  cases mode with
  | silent => exact nil o
  | counting => exact ⟨push o _, rfl⟩

theorem attr (o : Output) (mode : RenderMode) (index : Nat) (a : Attribute) :
    Writes o (o.attr mode index a) (.attr mode index a) := by
  rw [Output.attr, Template.attr]
  refine ((text o _).trans ?_).trans (text _ _)
  cases hv : a.values with
  | nil =>
    rw [Attribute.isPlaceholder, hv, if_pos rfl]
    exact place _ mode
  | cons value values =>
    rw [Attribute.isPlaceholder, hv, Attribute.renderedValues, hv]
    exact text _ _

theorem attrs (o : Output) (mode : RenderMode) (index : Nat) (attributes : List Attribute) :
    Writes o (attributes.foldl (·.attr mode index ·) o)
      (.concat (attributes.map (.attr mode index))) := by
  induction attributes generalizing o with
  | nil => exact nil o
  | cons a rest ih => exact (attr o mode index a).trans (ih _)

theorem openTag (o : Output) (options : RenderOptions) (e : Element) (depth index : Nat) :
    Writes o (o.openTag options e depth index)
      (.openTag options depth index e.name e.attributes) := by
  rw [Output.openTag, Template.openTag, Template.indentation, Template.text_append_text,
    ← String.append_assoc]
  exact ((text o _).trans (attrs _ _ index e.attributes)).trans (text _ _)

theorem closeTag (o : Output) (name : String) : Writes o (o.closeTag name) (.closeTag name) :=
  text o _

/-- Below the top level an element starts on a new line. -/
theorem newLine (o : Output) (depth : Nat) :
    Writes o (if depth = 0 then o else o.text "\n")
      (if depth = 0 then .text "" else .text "\n") := by
  split
  · exact nil o
  · exact text o "\n"

end Writes

end Output

/-! ## Pending work -/

/-- What a piece of pending work writes. -/
def RenderStep.template (options : RenderOptions) : RenderStep → Template
  | element e depth parentIndex =>
    (if depth = 0 then .text "" else .text "\n") ++ .element options depth parentIndex e
  | close name depth =>
    .text "\n" ++ .indentation options depth ++ .closeTag name

/-- Children below the top level are written on lines of their own. -/
theorem RenderStep.template_elements (options : RenderOptions) (depth parentIndex : Nat)
    (first : Element) (rest : List Element) :
    Template.concat ((RenderStep.elements (depth + 1) parentIndex (first :: rest)).map
        (template options)) =
      .text "\n" ++
        .joined "\n" (Template.elements options (depth + 1) parentIndex (first :: rest)) := by
  have hrest : ∀ es : List Element, (RenderStep.elements (depth + 1) parentIndex es).map
      (template options) =
      (Template.elements options (depth + 1) parentIndex es).map (.text "\n" ++ ·) := by
    intro es
    induction es with
    | nil => rfl
    | cons e es ih =>
      rw [Template.elements, List.map_cons, ← ih]
      rfl
  rw [hrest, Template.elements, List.map_cons, Template.concat, Template.joined,
    Template.append_assoc]

namespace Output

/-- The writer writes what its pending work says. -/
theorem writes_run (options : RenderOptions) (o : Output) (pending : List RenderStep) :
    Writes o (o.run options pending) (.concat (pending.map (RenderStep.template options))) := by
  fun_induction Output.run options o pending with
  | case1 o => exact .nil o
  | case2 o e depth parentIndex pending index placed opened hleaf ih =>
    have placed : Writes o placed _ := .newLine o depth
    have opened : Writes o opened _ := placed.trans (.openTag _ options e depth index)
    have closed := (opened.trans (.place _ options.mode)).trans (.closeTag _ e.name)
    have h := closed.trans ih
    rw [List.map_cons, Template.concat, RenderStep.template, Template.element_of_leaf _ _ _ hleaf]
    simpa only [Template.append_assoc] using h
  | case3 o e depth parentIndex pending index placed opened hne ih =>
    have placed : Writes o placed _ := .newLine o depth
    have opened : Writes o opened _ := placed.trans (.openTag _ options e depth index)
    have h := opened.trans ih
    rw [List.map_append, Template.concat_append, List.map_cons, Template.concat] at h
    obtain ⟨first, rest, hc⟩ := List.exists_cons_of_ne_nil hne
    rw [hc, RenderStep.template_elements] at h
    rw [List.map_cons, Template.concat, RenderStep.template, Template.element_of_ne_nil _ _ _ hne,
      hc]
    simpa only [Template.append_assoc, RenderStep.template] using h
  | case4 o name depth pending ih =>
    have h := ((Writes.text o _).trans (.closeTag _ name)).trans ih
    exact h

/-- A top-level element is written with all that is below it. -/
theorem writes_root (options : RenderOptions) (o : Output) (e : Element) :
    Writes o (o.run options [.element e 0 1]) (.element options 0 1 e) := by
  have h := writes_run options o [.element e 0 1]
  rw [List.map_cons, List.map_nil, Template.concat, Template.concat, RenderStep.template,
    if_pos rfl, Template.append_text_nil, Template.text_nil_append] at h
  exact h

/-- The writer writes the elements of a forest one after the other. -/
theorem writes_forest (options : RenderOptions) (elements : List Element) :
    Writes {} (forest options elements) (.forest options elements) := by
  have hrest : ∀ (rest : List Element) (o : Output),
      Writes o (rest.foldl (fun o e => (o.text "\n").run options [.element e 0 1]) o)
        (.concat ((Template.elements options 0 1 rest).map (.text "\n" ++ ·))) := by
    intro rest
    induction rest with
    | nil => exact fun o => .nil o
    | cons e rest ih =>
      intro o
      exact ((Writes.text o "\n").trans (writes_root options _ e)).trans (ih _)
  cases elements with
  | nil => exact .nil {}
  | cons first rest =>
    rw [forest, Template.forest, Template.elements, Template.joined]
    exact (writes_root options {} first).trans (hrest rest _)

end Output

/-- The markup of a tree is that of its forest by recursion, with one count of tab stops from 1. -/
theorem Arena.render_eq_forest (t : Arena) (options : RenderOptions) :
    t.render options = (Template.forest options t.forest 1).1 := by
  have h := (Output.writes_forest options t.forest).1
  have hempty : ({} : Output).write = "" := rfl
  rw [hempty, String.empty_append] at h
  exact h

/-! ## Nodes of an arena -/

/-- A node at a depth, below a node with number `parentIndex`, where its children are written with
`child`, given the node's own number. A leaf holds a place to type at, and any other node its
children, each on a line of its own. -/
def Node.template (node : Node) (options : RenderOptions)
    (depth parentIndex : Nat) (child : Nat → NodeId → Template) : Template :=
  let index := options.numbering.index node.slot parentIndex
  .openTag options depth index node.name node.attributes ++
    (if node.children.toList = [] then .place options.mode
      else .text "\n" ++ .joined "\n" (node.children.toList.map (child index)) ++ .text "\n" ++
        .indentation options depth) ++
    .closeTag node.name

namespace Arena

/-- The template of a node at a depth, below a node with number `parentIndex`. -/
def template (t : Arena) (options : RenderOptions) (depth parentIndex : Nat) (id : NodeId) :
    Template :=
  .element options depth parentIndex (t.element id)

/-- The templates of some nodes are those of their elements. -/
theorem elements_map_element (t : Arena) (options : RenderOptions) (depth parentIndex : Nat)
    (ids : List NodeId) :
    Template.elements options depth parentIndex (ids.map t.element) =
      ids.map (t.template options depth parentIndex) := by
  induction ids with
  | nil => rfl
  | cons id rest ih => rw [List.map_cons, List.map_cons, Template.elements, ih, template]

/-- The template of a node is put together from its own data and the templates of its children. -/
theorem WellLinked.template_eq {t : Arena} (h : t.WellLinked) (options : RenderOptions)
    (depth parentIndex : Nat) (id : NodeId) :
    t.template options depth parentIndex id =
      (t.node id).template options depth parentIndex (t.template options (depth + 1)) := by
  have hslot : (t.element id).slot = (t.node id).slot := by rw [h.element_eq]
  have hname : (t.element id).name = (t.node id).name := by rw [h.element_eq]
  have hattributes : (t.element id).attributes = (t.node id).attributes := by rw [h.element_eq]
  have hchildren : (t.element id).children = (t.node id).children.toList.map t.element :=
    h.children_element id
  rw [template, Node.template, ← elements_map_element, ← hchildren, ← hslot, ← hname,
    ← hattributes]
  split
  · rename_i hleaf
    rw [hleaf] at hchildren
    exact Template.element_of_leaf _ _ _ hchildren
  · rename_i hinner
    exact Template.element_of_ne_nil _ _ _ (hchildren ▸ mt List.map_eq_nil_iff.1 hinner)

/-- The markup of a tree whose links agree is that of its forest by recursion, with one count of tab
stops from 1. This is a recursion over the nodes: the top-level nodes stand on lines of their own,
below number 1, and every node is put together from its own data and its children, one level deeper
and below its number. -/
theorem WellLinked.render_eq_joined {t : Arena} (h : t.WellLinked) (options : RenderOptions) :
    t.render options = (Template.forest options t.forest 1).1 ∧
    t.render options = (Template.joined "\n" (t.roots.toList.map (t.template options 0 1)) 1).1 ∧
    ∀ (depth parentIndex : Nat) (id : NodeId), t.template options depth parentIndex id =
      (t.node id).template options depth parentIndex (t.template options (depth + 1)) := by
  refine ⟨t.render_eq_forest options, ?_, h.template_eq options⟩
  rw [render_eq_forest, Template.forest, forest, elements_map_element]

/-- A list whose item has an attribute without a value and a numbered one, multiplied with its link.
-/
theorem render_of_placeholders :
    ∃ t : Arena, t.WellLinked ∧ t.count = 5 ∧
      t.render ⟨.counting, .stacked, "  "⟩ =
        "<ul>\n  <li id=\"$1\" class=\"item1\">\n    <a>$2</a>\n  </li>\n" ++
          "  <li id=\"$3\" class=\"item2\">\n    <a>$4</a>\n  </li>\n</ul>" ∧
      (Template.joined "\n" (t.roots.toList.map (t.template ⟨.counting, .stacked, "  "⟩ 0 1)) 1).1 =
        t.render ⟨.counting, .stacked, "  "⟩ ∧
      t.template ⟨.counting, .stacked, "  "⟩ 1 1 3 =
        .openTag ⟨.counting, .stacked, "  "⟩ 1 2 "li" [⟨"id", []⟩, ⟨"class", ["item$"]⟩] ++
          (.text "\n" ++ .joined "\n" [t.template ⟨.counting, .stacked, "  "⟩ 2 2 4] ++
            .text "\n" ++ .indentation ⟨.counting, .stacked, "  "⟩ 1) ++
          .closeTag "li" := by
  have hul := Reachable.empty.edit (.append .root "ul") trivial
  have hli := hul.edit (.append (.node 0) "li") (show 0 < _ by decide)
  have hid := hli.edit (.addAttribute 1 ⟨"id", []⟩) (show 1 < _ by decide)
  have hclass := hid.edit (.addAttribute 1 ⟨"class", ["item$"]⟩) (show 1 < _ by decide)
  have ha := hclass.edit (.append (.node 1) "a") (show 1 < _ by decide)
  have hmultiplied := ha.edit (.multiply 1 2) (show 1 < _ by decide)
  have rendered := hmultiplied.wellLinked.render_eq_joined ⟨.counting, .stacked, "  "⟩
  exact ⟨_, hmultiplied.wellLinked, by decide +kernel, by decide +kernel, rendered.2.1.symm,
    rendered.2.2 1 1 3⟩

end Arena

example : (Template.forest { mode := .counting, indent := "  " }
    [⟨"ul", [⟨"id", []⟩], {}, [⟨"li", [⟨"class", ["item$"]⟩], ⟨1, 2⟩, []⟩,
      ⟨"li", [⟨"class", ["item$"]⟩], ⟨2, 2⟩, []⟩]⟩] 1).1 =
    "<ul id=\"$1\">\n  <li class=\"item1\">$2</li>\n  <li class=\"item2\">$3</li>\n</ul>" := by
  decide +kernel

end MarkupShorthand
