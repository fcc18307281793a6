import MarkupShorthand.Arena.Walk

/-!
# Expectations

The expected shape of a tree, said from the top down, and how a tree is inspected for it. An
inspection stops at the first mismatch, names the place of it (`root[0].child[1]`) and tells which
nodes were entered on the way.
-/

namespace MarkupShorthand

/-- What a node is expected to be. -/
inductive NodeExpectation where
  | name (expected : String)
  | childCount (expected : Nat)
  | leaf
  /-- Expectations of the child at an index. -/
  | child (index : Nat) (expected : List NodeExpectation)
  | childNames (expected : List String)
  | attribute (name : String) (expected : List String)
  | attributeCount (expected : Nat)
  | noAttributes
  | slot (expected : Slot)
deriving Inhabited

/-- What a tree is expected to be. -/
inductive TreeExpectation where
  | rootCount (expected : Nat)
  /-- Every node is listed once where its parent link says it is. -/
  | links
  /-- Expectations of the top-level node at an index. -/
  | root (index : Nat) (expected : List NodeExpectation)

/-- Where a node is: the index of a top-level node, then an index among children on every level. -/
structure Place where
  root : Nat
  children : List Nat := []
deriving DecidableEq

/-- A place as it is written. -/
def Place.text (place : Place) : String :=
  s!"root[{place.root}]" ++ String.join (place.children.map fun index => s!".child[{index}]")

/-- The place of a child. -/
def Place.child (place : Place) (index : Nat) : Place :=
  { place with children := place.children ++ [index] }

/-- How a node differs from what was expected. -/
inductive NodeMismatch where
  | name (expected actual : String)
  | childCount (expected actual : Nat)
  | childIndex (index count : Nat)
  | childNames
  | missingAttribute (name : String)
  | attributeValues (name : String)
  | attributeCount (expected actual : Nat)
  | slot
deriving DecidableEq

/-- How a tree differs from what was expected. -/
inductive Mismatch where
  | rootCount (expected actual : Nat)
  | rootIndex (index count : Nat)
  | listings (id : NodeId) (name : String) (count : Nat)
  | node (place : Place) (mismatch : NodeMismatch)
deriving DecidableEq

/-- The sentence for a node's mismatch. -/
def NodeMismatch.message : NodeMismatch → String
  | .name expected actual => s!"expected name '{expected}', found '{actual}'"
  | .childCount expected actual => s!"expected {expected} children, found {actual}"
  | .childIndex index count => s!"child index {index} out of bounds ({count} children)"
  | .childNames => "unexpected children"
  | .missingAttribute wanted => s!"expected attribute '{wanted}', found none"
  | .attributeValues wanted => s!"unexpected values for '{wanted}'"
  | .attributeCount expected actual => s!"expected {expected} attributes, found {actual}"
  | .slot => "unexpected multiplicity"

/-- The sentence for a mismatch. -/
def Mismatch.message : Mismatch → String
  | rootCount expected actual => s!"tree: expected {expected} top-level nodes, found {actual}"
  | rootIndex index count =>
    s!"tree: root index {index} out of bounds ({count} top-level nodes)"
  | listings id name count =>
    s!"tree: node #{id} ({name}) appears {count} times under its parent"
  | node place mismatch => place.text ++ ": " ++ mismatch.message

/-- What an inspection came to. -/
structure Inspection where
  /-- The nodes entered, in order. -/
  entered : List NodeId := []
  mismatch : Option Mismatch := none

namespace Inspection

/-- An inspection that goes on if nothing was wrong so far. -/
def andThen (first : Inspection) (next : Inspection) : Inspection :=
  match first.mismatch with
  | some _ => first
  | none => ⟨first.entered ++ next.entered, next.mismatch⟩

/-- An inspection of one fact. -/
def require (holds : Bool) (mismatch : Mismatch) : Inspection :=
  if holds then {} else { mismatch := some mismatch }

end Inspection

open Inspection (require)

mutual

/-- Inspects a node for one expectation. -/
def NodeExpectation.inspect (t : Arena) (place : Place) (id : NodeId) :
    NodeExpectation → Inspection
  | .name expected =>
    let actual := (t.node id).name
    require (actual == expected) (.node place (.name expected actual))
  | .childCount expected =>
    let actual := (t.node id).children.size
    require (actual == expected) (.node place (.childCount expected actual))
  | .leaf =>
    let actual := (t.node id).children.size
    require (actual == 0) (.node place (.childCount 0 actual))
  | .child index expected =>
    let children := (t.node id).children
    match children[index]? with
    | none => { mismatch := some (.node place (.childIndex index children.size)) }
    | some child =>
      Inspection.andThen { entered := [child] } (inspectAll t (place.child index) child expected)
  | .childNames expected =>
    let actual := (t.node id).children.toList.map fun child => (t.node child).name
    require (actual == expected) (.node place .childNames)
  | .attribute name expected =>
    match (t.node id).attribute? name with
    | none => { mismatch := some (.node place (.missingAttribute name)) }
    | some a => require (a.values == expected) (.node place (.attributeValues name))
  | .attributeCount expected =>
    let actual := (t.node id).attributes.length
    require (actual == expected) (.node place (.attributeCount expected actual))
  | .noAttributes =>
    let actual := (t.node id).attributes.length
    require (actual == 0) (.node place (.attributeCount 0 actual))
  | .slot expected => require ((t.node id).slot == expected) (.node place .slot)

/-- Inspects a node for several expectations in order. -/
def inspectAll (t : Arena) (place : Place) (id : NodeId) : List NodeExpectation → Inspection
  | [] => {}
  | expectation :: rest =>
    (expectation.inspect t place id).andThen (inspectAll t place id rest)

end

/-- Inspects a tree for one expectation. -/
def TreeExpectation.inspect (t : Arena) : TreeExpectation → Inspection
  | .rootCount expected =>
    let actual := t.roots.size
    require (actual == expected) (.rootCount expected actual)
  | .links =>
    match t.preorder.find? (t.listings · != 1) with
    | none => {}
    | some id => { mismatch := some (.listings id (t.node id).name (t.listings id)) }
  | .root index expected =>
    match t.roots[index]? with
    | none => { mismatch := some (.rootIndex index t.roots.size) }
    | some id => Inspection.andThen { entered := [id] } (inspectAll t { root := index } id expected)

/-- Inspects a tree for several expectations in order. -/
def Arena.inspect (t : Arena) (expectations : List TreeExpectation) : Inspection :=
  expectations.foldl (fun inspection e => inspection.andThen (e.inspect t)) {}

end MarkupShorthand
