import MarkupShorthand.Arena.Basic

/-!
# Walking the arena

The nodes below a node, each before its children and siblings in order. A walk takes one step per
node and visits no node twice, so as many steps as there are nodes are enough for it.
-/

namespace MarkupShorthand.Arena

/-- The next `steps` nodes of the walk that has `pending` still to visit, behind those `visited`. -/
def visit (t : Arena) : Nat → List NodeId → Array NodeId → Array NodeId
  | 0, _, visited => visited
  | _ + 1, [], visited => visited
  | steps + 1, id :: pending, visited =>
    t.visit steps ((t.node id).children.toList ++ pending) (visited.push id)

/-- All nodes, each before its children. -/
def preorder (t : Arena) : Array NodeId :=
  t.visit t.count t.roots.toList #[]

/-- A node and the nodes below it, each before its children. -/
def subtree (t : Arena) (id : NodeId) : Array NodeId :=
  t.visit t.count [id] #[]

/-- The number of nodes in the subtree of a node, itself included. -/
def subtreeSize (t : Arena) (id : NodeId) : Nat :=
  (t.subtree id).size

/-- How often a node is listed where its parent link says it is. -/
def listings (t : Arena) (id : NodeId) : Nat :=
  (t.children (t.containerOf id)).count id

end MarkupShorthand.Arena
