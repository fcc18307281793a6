import MarkupShorthand.Placeholder

/-!
# Attributes

An attribute is a name with its values in order. A node holds one attribute per name: adding to
`class` collects values, adding to any other name replaces them (`Attribute.merge`, `Attribute.addTo`).
-/

namespace MarkupShorthand

/-- A named list of values; without values it holds the place of a value yet to be typed. -/
structure Attribute where
  name : String
  values : List String
deriving DecidableEq

namespace Attribute

/-- The name whose values add up. -/
def className : String := "class"

/-- The name that `#` gives a value to. -/
def idName : String := "id"

/-- Whether an attribute has no value yet. -/
def isPlaceholder (a : Attribute) : Bool :=
  a.values.isEmpty

/-- An attribute with another of the same name added to it. -/
def merge (a added : Attribute) : Attribute :=
  if a.name = className then { a with values := a.values ++ added.values }
  else { a with values := added.values }

/-- The values of an attribute on a node with number `index`. -/
def renderedValues (a : Attribute) (index : Nat) : List String :=
  a.values.map (Placeholder.substitute · index)

/-- An attribute as it is written in a tag, with its placeholders left in. -/
def text (a : Attribute) : String :=
  a.name ++ "=\"" ++ " ".intercalate a.values ++ "\""

/-- A list of attributes with one more added: merged into the one of its name, or at the end. -/
def addTo (added : Attribute) : List Attribute → List Attribute
  | [] => [added]
  | a :: rest => if a.name = added.name then a.merge added :: rest else a :: added.addTo rest

@[simp] theorem name_merge (a added : Attribute) : (a.merge added).name = a.name := by
  unfold merge; split <;> rfl

/-- Adding an attribute brings in its name and no other. -/
theorem mem_map_name_addTo {added : Attribute} {attributes : List Attribute} {name : String} :
    name ∈ (added.addTo attributes).map Attribute.name ↔
      name = added.name ∨ name ∈ attributes.map Attribute.name := by
  induction attributes with
  | nil => simp [addTo]
  | cons a rest ih =>
    unfold addTo
    split
    · rename_i h
      simp only [List.map_cons, name_merge, List.mem_cons, h]
      simp only [← or_assoc, or_self]
    · simp only [List.map_cons, List.mem_cons, ih]
      constructor <;> rintro (h | h | h) <;> simp [h]

end Attribute

end MarkupShorthand
