import MarkupShorthand.Markup.Render

/-!
# Templates

Markup by recursion over elements. A template is a text whose tab stops are still to be numbered: it
is given the number of its first tab stop and gives back the number behind its last. Templates are
put together like texts, and `Template.element` is the template of an element, made of those of its
children.
-/

namespace MarkupShorthand

/-- A text with tab stops, given the number of the first, and the number behind the last. -/
def Template : Type := Nat → String × Nat

namespace Template

/-- A text without tab stops. -/
def text (content : String) : Template := fun next => (content, next)

/-- A tab stop. -/
def stop : Template := fun next => ("$" ++ toString next, next + 1)

/-- One template behind another. -/
instance : Append Template where
  append a b := fun next => ((a next).1 ++ (b (a next).2).1, (b (a next).2).2)

/-- Templates one behind the other. -/
def concat : List Template → Template
  | [] => text ""
  | a :: rest => a ++ concat rest

/-- Templates one behind the other, with a text between them. -/
def joined (separator : String) : List Template → Template
  | [] => text ""
  | a :: rest => a ++ concat (rest.map (text separator ++ ·))

variable (a b c : Template) (s s' : String)

theorem append_def (next : Nat) :
    (a ++ b) next = ((a next).1 ++ (b (a next).2).1, (b (a next).2).2) := rfl

@[simp] theorem append_assoc : a ++ b ++ c = a ++ (b ++ c) := by
  funext next
  simp only [append_def, String.append_assoc]

@[simp] theorem text_nil_append : text "" ++ a = a := by
  funext next
  simp only [append_def, text, String.empty_append]

@[simp] theorem append_text_nil : a ++ text "" = a := by
  funext next
  simp only [append_def, text, String.append_empty]

theorem text_append_text : text s ++ text s' = text (s ++ s') := rfl

theorem concat_append (as bs : List Template) : concat (as ++ bs) = concat as ++ concat bs := by
  induction as with
  | nil => exact (text_nil_append _).symm
  | cons a as ih => rw [List.cons_append, concat, concat, ih, append_assoc]

/-! ## Elements -/

/-- The next tab stop where the mode marks the places to type at, and otherwise nothing. -/
def place : RenderMode → Template
  | .silent => text ""
  | .counting => stop

/-- An attribute of a node with number `index`: its values with their placeholders replaced, or a
place to type one at. -/
def attr (mode : RenderMode) (index : Nat) (a : Attribute) : Template :=
  text (" " ++ a.name ++ "=\"") ++
    (if a.values = [] then place mode
      else text (" ".intercalate (a.values.map (Placeholder.substitute · index)))) ++
    text "\""

/-- As many units of indentation as a line at a depth has. -/
def indentation (options : RenderOptions) (depth : Nat) : Template :=
  text (String.join (List.replicate depth options.indent))

/-- The opening tag of an element with number `index`, on a line at a depth. -/
def openTag (options : RenderOptions) (depth index : Nat) (name : String)
    (attributes : List Attribute) : Template :=
  indentation options depth ++ text ("<" ++ name) ++
    concat (attributes.map (attr options.mode index)) ++ text ">"

/-- The closing tag of a name. -/
def closeTag (name : String) : Template :=
  text ("</" ++ name ++ ">")

mutual

/-- An element at a depth, below a node with number `parentIndex`. A leaf holds a place to type at,
and any other element its children, each on a line of its own. -/
def element (options : RenderOptions) (depth parentIndex : Nat) : Element → Template
  | ⟨name, attributes, slot, children⟩ =>
    let index := options.numbering.index slot parentIndex
    openTag options depth index name attributes ++
      (match children with
        | [] => place options.mode
        | first :: rest =>
          text "\n" ++ joined "\n" (elements options (depth + 1) index (first :: rest)) ++
            text "\n" ++ indentation options depth) ++
      closeTag name

/-- The elements of a list at a depth, below a node with number `parentIndex`. -/
def elements (options : RenderOptions) (depth parentIndex : Nat) : List Element → List Template
  | [] => []
  | e :: rest => element options depth parentIndex e :: elements options depth parentIndex rest

end

theorem element_of_leaf (options : RenderOptions) (depth parentIndex : Nat) {e : Element}
    (h : e.children = []) :
    element options depth parentIndex e =
      openTag options depth (options.numbering.index e.slot parentIndex) e.name e.attributes ++
        place options.mode ++ closeTag e.name := by
  obtain ⟨name, attributes, slot, children⟩ := e
  obtain rfl : children = [] := h
  rw [element]

theorem element_of_ne_nil (options : RenderOptions) (depth parentIndex : Nat) {e : Element}
    (h : e.children ≠ []) :
    element options depth parentIndex e =
      openTag options depth (options.numbering.index e.slot parentIndex) e.name e.attributes ++
        (text "\n" ++ joined "\n" (elements options (depth + 1)
            (options.numbering.index e.slot parentIndex) e.children) ++
          text "\n" ++ indentation options depth) ++ closeTag e.name := by
  obtain ⟨name, attributes, slot, children⟩ := e
  obtain ⟨first, rest, rfl⟩ := List.exists_cons_of_ne_nil h
  rw [element]

/-- The elements of a forest, each on a line of its own. -/
def forest (options : RenderOptions) (elements : List Element) : Template :=
  joined "\n" (Template.elements options 0 1 elements)

end Template

end MarkupShorthand
