import MarkupShorthand.Attribute
import MarkupShorthand.Slot

/-!
# The arena

The nodes of one tree, numbered in the order of their creation, with links both ways between a node
and its children. The top-level nodes hang off the root, which is no node. Every node enters through
`Arena.attach`, which sets both links, so that a parent's number is smaller than its children's.
-/

namespace MarkupShorthand

/-- The number of a node in its arena. -/
abbrev NodeId := Nat

/-- Where a node can be put: at the top level, or into a node. -/
inductive Container where
  | root
  | node (id : NodeId)
deriving DecidableEq, Hashable

/-- One tag of the skeleton. -/
structure Node where
  name : String := ""
  attributes : List Attribute := []
  children : Array NodeId := #[]
  /-- The node that lists this one as a child; a top-level node has none. -/
  parent : Option NodeId := none
  slot : Slot := {}
deriving DecidableEq

namespace Node

/-- The data of a node without its links, in another slot. -/
def detached (node : Node) (slot : Slot) : Node :=
  { name := node.name, attributes := node.attributes, slot := slot }

/-- The attribute of a name. -/
def attribute? (node : Node) (name : String) : Option Attribute :=
  node.attributes.find? (·.name = name)

/-- Whether a node has no children. -/
def isLeaf (node : Node) : Bool :=
  node.children.isEmpty

end Node

/-- A tree as a numbered store of nodes. -/
structure Arena where
  nodes : Array Node := #[]
  /-- The top-level nodes in order. -/
  roots : Array NodeId := #[]
deriving DecidableEq

namespace Arena

/-- How many nodes there are. -/
def count (t : Arena) : Nat :=
  t.nodes.size

/-- The node with a number; a number that was never given reads as a node without a name. -/
def node (t : Arena) (id : NodeId) : Node :=
  t.nodes.getD id {}

/-- Whether there is no top-level node. -/
def isEmpty (t : Arena) : Bool :=
  t.roots.isEmpty

/-- What a container holds, in order. -/
def children (t : Arena) : Container → Array NodeId
  | .root => t.roots
  | .node id => (t.node id).children

/-- The container that holds a node. -/
def containerOf (t : Arena) (id : NodeId) : Container :=
  match (t.node id).parent with
  | some parent => .node parent
  | none => .root

/-- The container one level up. The root is above itself. -/
def above (t : Arena) : Container → Container
  | .root => .root
  | .node id => t.containerOf id

/-- The number of nodes above a node. Parent links lead to smaller numbers, so the way up ends. -/
def depth (t : Arena) (id : NodeId) : Nat :=
  match (t.node id).parent with
  | none => 0
  | some parent => if parent < id then t.depth parent + 1 else 0

/-- The arena with a node changed. -/
def modify (t : Arena) (id : NodeId) (f : Node → Node) : Arena :=
  { t with nodes := t.nodes.modify id f }

/-- The arena with a new node at the end of a container. The node's number is the old count. -/
def attach (t : Arena) (container : Container) (node : Node) : Arena :=
  let id := t.count
  match container with
  | .root =>
    { t with nodes := t.nodes.push { node with parent := none }, roots := t.roots.push id }
  | .node parent =>
    { t with
      nodes := (t.nodes.push { node with parent := some parent }).modify parent fun above =>
        { above with children := above.children.push id } }

/-- The arena with a new node that has only a name. -/
def append (t : Arena) (container : Container) (name : String) : Arena :=
  t.attach container { name := name }

/-- The arena with an attribute added to a node. -/
def addAttribute (t : Arena) (id : NodeId) (a : Attribute) : Arena :=
  t.modify id fun node => { node with attributes := a.addTo node.attributes }

@[simp] theorem count_modify (t : Arena) (id : NodeId) (f : Node → Node) :
    (t.modify id f).count = t.count := by
  simp [count, modify]

@[simp] theorem count_addAttribute (t : Arena) (id : NodeId) (a : Attribute) :
    (t.addAttribute id a).count = t.count := by
  simp [addAttribute]

@[simp] theorem count_attach (t : Arena) (container : Container) (node : Node) :
    (t.attach container node).count = t.count + 1 := by
  cases container <;> simp [attach, count]

@[simp] theorem count_append (t : Arena) (container : Container) (name : String) :
    (t.append container name).count = t.count + 1 := by
  simp [append]

end Arena

end MarkupShorthand
