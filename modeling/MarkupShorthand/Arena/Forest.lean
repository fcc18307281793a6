import MarkupShorthand.Arena.Basic
import MarkupShorthand.Element

/-!
# The forest of an arena

What an arena means: its top-level nodes as elements. A node lies below fewer nodes than there are,
so looking as many levels down as there are nodes finds everything.
-/

namespace MarkupShorthand.Arena

/-- A node as an element, with the nodes at most `levels` below it. -/
def elementWithin (t : Arena) : Nat → NodeId → Element
  | 0, id =>
    let node := t.node id
    ⟨node.name, node.attributes, node.slot, []⟩
  | levels + 1, id =>
    let node := t.node id
    ⟨node.name, node.attributes, node.slot, node.children.toList.map (t.elementWithin levels)⟩

/-- A node as an element. -/
def element (t : Arena) (id : NodeId) : Element :=
  t.elementWithin t.count id

/-- The top-level nodes as elements. -/
def forest (t : Arena) : List Element :=
  t.roots.toList.map t.element

end MarkupShorthand.Arena
