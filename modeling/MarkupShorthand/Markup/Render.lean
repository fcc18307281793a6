import MarkupShorthand.Arena.Forest
import MarkupShorthand.Markup.Options
import MarkupShorthand.Markup.TabStop

/-!
# Markup

A forest written as nested tags: each tag on a line of its own, indented by its depth; a leaf closes
on the line that it opens on. The writer keeps its pending work in a list, so that the depth of a
tree is limited by memory alone. It writes pieces, which keep tab stops apart from the text around
them; `render` joins them.
-/

namespace MarkupShorthand

/-- What has been written, and the number of the next tab stop. -/
structure Output where
  pieces : Array Piece := #[]
  stops : StopCounter := {}

namespace Output

/-- The output with a text at its end. -/
def text (o : Output) (content : String) : Output :=
  { o with pieces := o.pieces.push (.text content) }

/-- The output with a tab stop at its end. -/
def stop (o : Output) : Output :=
  let (id, stops) := o.stops.advance
  ⟨o.pieces.push (.stop id), stops⟩

/-- A tab stop where the mode marks the places to type at, and otherwise nothing. -/
def place (o : Output) : RenderMode → Output
  | .silent => o
  | .counting => o.stop

/-- An attribute of a node with number `index`, with a space before it. -/
def attr (o : Output) (mode : RenderMode) (index : Nat) (a : Attribute) : Output :=
  let opened := o.text (" " ++ a.name ++ "=\"")
  let filled :=
    if a.isPlaceholder then opened.place mode
    else opened.text (" ".intercalate (a.renderedValues index))
  filled.text "\""

/-- As many units of indentation as a line at a depth has. -/
def indentation (options : RenderOptions) (depth : Nat) : String :=
  String.join (List.replicate depth options.indent)

/-- The opening tag of an element at a depth. -/
def openTag (o : Output) (options : RenderOptions) (e : Element) (depth index : Nat) : Output :=
  let started := o.text (indentation options depth ++ "<" ++ e.name)
  (e.attributes.foldl (·.attr options.mode index ·) started).text ">"

/-- The closing tag of a name. -/
def closeTag (o : Output) (name : String) : Output :=
  o.text ("</" ++ name ++ ">")

/-- The output as it is written. -/
def write (o : Output) : String :=
  o.pieces.foldl (fun written piece => written ++ piece.write) ""

end Output

/-- Work of the writer that is still to be done. -/
inductive RenderStep where
  /-- An element and all that is below it, under a node with number `parentIndex`. -/
  | element (e : Element) (depth parentIndex : Nat)
  /-- The closing tag of an element whose children are written. -/
  | close (name : String) (depth : Nat)

/-- A bound on the steps that a piece of work leads to. -/
def RenderStep.weight : RenderStep → Nat
  | element e _ _ => 2 * e.size
  | close _ _ => 1

/-- The work of writing some elements at a depth, under a node with number `parentIndex`. -/
def RenderStep.elements (depth parentIndex : Nat) (elements : List Element) : List RenderStep :=
  elements.map (element · depth parentIndex)

/-- A bound on the steps that some work leads to. -/
def RenderStep.weights : List RenderStep → Nat
  | [] => 0
  | step :: rest => step.weight + weights rest

theorem RenderStep.weights_append (before after : List RenderStep) :
    weights (before ++ after) = weights before + weights after := by
  induction before with
  | nil => simp [weights]
  | cons step before ih => simp [weights, ih, Nat.add_assoc]

theorem RenderStep.weights_elements (depth parentIndex : Nat) (elements : List Element) :
    weights (RenderStep.elements depth parentIndex elements) = 2 * Element.sizes elements := by
  induction elements with
  | nil => rfl
  | cons e rest ih =>
    simp only [RenderStep.elements, List.map_cons, weights, weight, Element.sizes] at ih ⊢
    omega

namespace Output

/-- Does the pending work in order. Below the top level, an element starts on a new line. -/
def run (options : RenderOptions) (o : Output) : List RenderStep → Output
  | [] => o
  | .element e depth parentIndex :: pending =>
    let index := options.numbering.index e.slot parentIndex
    let placed := if depth = 0 then o else o.text "\n"
    let opened := placed.openTag options e depth index
    match _children : e.children with
    | [] => run options ((opened.place options.mode).closeTag e.name) pending
    | children =>
      run options opened
        (RenderStep.elements (depth + 1) index children ++ .close e.name depth :: pending)
  | .close name depth :: pending =>
    run options ((o.text ("\n" ++ indentation options depth)).closeTag name) pending
termination_by pending => RenderStep.weights pending
decreasing_by
  all_goals simp only [RenderStep.weights, RenderStep.weights_append, RenderStep.weights_elements,
    RenderStep.weight, Element.size_eq]
  · omega
  · rw [_children]; omega
  · omega

/-- The roots of a forest, each on a new line. -/
def forest (options : RenderOptions) : List Element → Output
  | [] => {}
  | first :: rest =>
    rest.foldl (fun o e => (o.text "\n").run options [.element e 0 1])
      (({} : Output).run options [.element first 0 1])

end Output

/-- A forest as markup. -/
def Element.render (options : RenderOptions) (forest : List Element) : String :=
  (Output.forest options forest).write

/-- A tree as markup. -/
def Arena.render (t : Arena) (options : RenderOptions) : String :=
  Element.render options t.forest

end MarkupShorthand
