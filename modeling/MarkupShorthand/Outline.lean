import MarkupShorthand.Arena.Forest

/-!
# Outlines

A tree with one line per node: connectors show what is below what, then come the node's name, its
attributes in the notation of abbreviations, and its slot if it has companions. An outline leaves
placeholders as they are.
-/

namespace MarkupShorthand

/-- An attribute in an outline: values behind `#` or `.`, any other attribute in brackets. -/
def Attribute.label (a : Attribute) : String :=
  if a.name = idName ∧ !a.isPlaceholder then "#" ++ " ".intercalate a.values
  else if a.name = className then String.join (a.values.map ("." ++ ·))
  else if a.isPlaceholder then "[" ++ a.name ++ "]"
  else "[" ++ a.text ++ "]"

/-- A slot in an outline; a node that is alone shows none. -/
def Slot.label (slot : Slot) : String :=
  if slot.count > 1 then s!" ({slot.position}/{slot.count})" else ""

/-- A node in an outline. -/
def Element.label (e : Element) : String :=
  e.name ++ String.join (e.attributes.map Attribute.label) ++ e.slot.label

namespace Outline

/-- The sign before a node: a corner for the last of its siblings. -/
def connector (isLast : Bool) : String :=
  if isLast then "└─" else "├─"

/-- The column below a node: a bar if siblings follow it. -/
def column (isLast : Bool) : String :=
  if isLast then "  " else "│ "

/-- A node that is still to be written. -/
structure Entry where
  element : Element
  /-- The columns of the nodes above. -/
  margin : String
  isLast : Bool

/-- Siblings that are still to be written, below a margin. -/
def entries (margin : String) (siblings : List Element) : List Entry :=
  siblings.dropLast.map (⟨·, margin, false⟩) ++ siblings.getLast?.toList.map (⟨·, margin, true⟩)

/-- The line of a node. -/
def Entry.line (entry : Entry) : String :=
  entry.margin ++ connector entry.isLast ++ " " ++ entry.element.label ++ "\n"

/-- The nodes below an entry, still to be written. -/
def Entry.below (entry : Entry) : List Entry :=
  entries (entry.margin ++ column entry.isLast) entry.element.children

@[simp] theorem element_entries (margin : String) (siblings : List Element) :
    (entries margin siblings).map Entry.element = siblings := by
  rcases List.eq_nil_or_concat siblings with rfl | ⟨before, last, rfl⟩
  · rfl
  · simp [entries, Function.comp_def]

/-- How many nodes are still to be written. -/
def remaining (pending : List Entry) : Nat :=
  Element.sizes (pending.map Entry.element)

theorem remaining_step (entry : Entry) (pending : List Entry) :
    remaining (entry.below ++ pending) + 1 = remaining (entry :: pending) := by
  simp only [remaining, Entry.below, List.map_append, element_entries, List.map_cons,
    Element.sizes_append, Element.sizes, Element.size_eq]
  omega

/-- Writes the pending nodes with all that is below them, in order. -/
def run (written : String) : List Entry → String
  | [] => written
  | entry :: pending => run (written ++ entry.line) (entry.below ++ pending)
termination_by pending => remaining pending
decreasing_by
  have := remaining_step entry pending
  omega

/-- The first line of the outline of a tree with `count` nodes. -/
def header (count : Nat) : String :=
  s!"⧉ {count} node" ++ (if count = 1 then "" else "s") ++ "\n"

end Outline

/-- A tree as an outline. -/
def Arena.outline (t : Arena) : String :=
  Outline.run (Outline.header t.count) (Outline.entries "" t.forest)

end MarkupShorthand
