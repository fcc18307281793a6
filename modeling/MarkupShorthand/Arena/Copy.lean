import MarkupShorthand.Arena.Basic

/-!
# Copying subtrees

`Arena.clone` puts a copy of a subtree into a container, its nodes numbered in the order of a walk.
`Arena.multiply` makes a node the first of a group and adds the other copies behind it.
-/

namespace MarkupShorthand.Arena

/-- Copies up to `steps` of the nodes that are still to be copied, each into the copy of its parent.
A node's children are copied right after it. -/
def copyPending (t : Arena) : Nat → List (NodeId × NodeId) → Arena
  | 0, _ => t
  | _ + 1, [] => t
  | steps + 1, (source, parent) :: pending =>
    let node := t.node source
    let copy := t.count
    copyPending (t.attach (.node parent) (node.detached node.slot)) steps
      (node.children.toList.map (·, copy) ++ pending)

/-- The arena with a copy of the subtree of `template` at the end of a container. The copy takes
`position` in the template's group; the nodes below it keep their slots. Its number is the old
count. -/
def clone (t : Arena) (template : NodeId) (container : Container) (position : Nat) : Arena :=
  let node := t.node template
  let copy := t.count
  copyPending (t.attach container (node.detached { node.slot with position := position })) copy
    (node.children.toList.map (·, copy))

/-- The arena with a node made the first of a group of `count` and its further copies added behind
the container's other nodes, and the group. A group of 0 has the node in it all the same. -/
def multiply (t : Arena) (id : NodeId) (count : Nat) : Arena × List NodeId :=
  let container := t.containerOf id
  let first := t.modify id fun node => { node with slot := ⟨1, count⟩ }
  let (multiplied, group) := (List.range' 2 (count - 1)).foldl
    (fun (t, group) position => let copy := t.count; (t.clone id container position, group.push copy))
    (first, #[id])
  (multiplied, group.toList)

end MarkupShorthand.Arena
