import Std.Data.HashSet
import MarkupShorthand.Arena.Walk
import MarkupShorthand.Arena.Copy

/-!
# Operations on groups

A multiplication turns one node into several, and every later operator applies to all of them. An
`Operand` is what an operator applies to: a node or a group. The operations here take either and
give back a node where one is left (`Operand.collapse`).
-/

namespace MarkupShorthand

/-- What an operator applies to. -/
inductive Operand where
  | node (id : NodeId)
  | group (members : List NodeId)
deriving DecidableEq

namespace Operand

/-- The operand of a list of nodes: a list of one is a node. -/
def collapse : List NodeId → Operand
  | [id] => node id
  | ids => group ids

/-- The nodes of an operand in order. -/
def members : Operand → List NodeId
  | node id => [id]
  | group members => members

@[simp] theorem members_collapse (ids : List NodeId) : (collapse ids).members = ids := by
  unfold collapse; split <;> rfl

end Operand

/-- The containers `kept`, and behind them those of a list that are not yet `seen`, each once. -/
def firstSeen (seen : Std.HashSet Container) (kept : Array Container) :
    List Container → Array Container
  | [] => kept
  | container :: rest =>
    if seen.contains container then firstSeen seen kept rest
    else firstSeen (seen.insert container) (kept.push container) rest

namespace Arena

/-- The containers of some nodes, each once, in order of first appearance. -/
def groupParents (t : Arena) (ids : List NodeId) : List Container :=
  (firstSeen ∅ #[] (ids.map t.containerOf)).toList

/-- The containers of an operand's nodes. -/
def parents (t : Arena) : Operand → List Container
  | .node id => [t.containerOf id]
  | .group members => t.groupParents members

/-- The containers one level above some containers: those of the nodes among them, and the root if
it is among them. -/
def climb (t : Arena) (containers : List Container) : List Container :=
  let parents := t.groupParents (containers.filterMap fun
    | .root => none
    | .node id => some id)
  if containers.contains .root && !parents.contains .root then parents ++ [.root] else parents

/-- The containers some levels above an operand: its nodes themselves, then their containers, then
the containers above those. The way up ends at the root. -/
def containersAbove (t : Arena) (operand : Operand) : Nat → List Container
  | 0 => operand.members.map .node
  | levels + 1 => levels.repeat t.climb (t.parents operand)

/-- The arena with a new node of a name in each container, and the new nodes. -/
def appendToEach (t : Arena) (containers : List Container) (name : String) : Arena × Operand :=
  let created := List.range' t.count containers.length
  (containers.foldl (·.append · name) t, .collapse created)

/-- The arena with an attribute added to every node of an operand, and the nodes. -/
def addAttributeTo (t : Arena) (operand : Operand) (a : Attribute) : Arena × Operand :=
  (operand.members.foldl (·.addAttribute · a) t, .collapse operand.members)

/-- The arena with every node of an operand multiplied in its own container, and all the copies. -/
def multiplyEach (t : Arena) (operand : Operand) (count : Nat) : Arena × Operand :=
  let (multiplied, groups) := operand.members.foldl
    (fun (t, groups) id => let (t, group) := t.multiply id count; (t, groups ++ group))
    (t, (#[] : Array NodeId))
  (multiplied, .collapse groups.toList)

end Arena

end MarkupShorthand
