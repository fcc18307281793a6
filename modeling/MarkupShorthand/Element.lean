import MarkupShorthand.Attribute
import MarkupShorthand.Slot

/-!
# Elements

A node with everything below it, as a value: children are nested and nothing refers back. Elements
are what the formats print, and two trees are the same but for numbering when their elements are
equal.
-/

namespace MarkupShorthand

/-- A tag with its attributes, its slot and its children. -/
structure Element where
  name : String
  attributes : List Attribute
  slot : Slot
  children : List Element

namespace Element

mutual

/-- Equality of elements is decided from the top. -/
def decEq : (a b : Element) → Decidable (a = b)
  | ⟨name, attributes, slot, children⟩, ⟨name', attributes', slot', children'⟩ =>
    if h : name = name' ∧ attributes = attributes' ∧ slot = slot' then
      match decEqList children children' with
      | isTrue hc => isTrue (by rw [h.1, h.2.1, h.2.2, hc])
      | isFalse hc => isFalse fun e => hc (congrArg Element.children e)
    else isFalse fun e => h ⟨congrArg Element.name e, congrArg Element.attributes e,
      congrArg Element.slot e⟩

/-- Equality of lists of elements is decided from the front. -/
def decEqList : (a b : List Element) → Decidable (a = b)
  | [], [] => isTrue rfl
  | [], _ :: _ => isFalse nofun
  | _ :: _, [] => isFalse nofun
  | a :: as, b :: bs =>
    match decEq a b with
    | isFalse h => isFalse fun e => h (List.cons.inj e).1
    | isTrue h =>
      match decEqList as bs with
      | isTrue ht => isTrue (by rw [h, ht])
      | isFalse ht => isFalse fun e => ht (List.cons.inj e).2

end

instance : DecidableEq Element := decEq

mutual

/-- The number of tags in an element, its own included. -/
def size : Element → Nat
  | ⟨_, _, _, children⟩ => sizes children + 1

/-- The number of tags in some elements. -/
def sizes : List Element → Nat
  | [] => 0
  | element :: rest => element.size + sizes rest

end

theorem size_eq (e : Element) : e.size = sizes e.children + 1 := by
  cases e; rw [size]

theorem sizes_append (before after : List Element) :
    sizes (before ++ after) = sizes before + sizes after := by
  induction before with
  | nil => simp [sizes]
  | cons e before ih => simp [sizes, ih, Nat.add_assoc]

theorem size_le_sizes {child : Element} {elements : List Element} (h : child ∈ elements) :
    child.size ≤ sizes elements := by
  induction elements with
  | nil => simp at h
  | cons e rest ih =>
    rw [sizes]
    rcases List.mem_cons.1 h with rfl | h
    · omega
    · have := ih h
      omega

/-- A child is smaller than the element it is in. -/
theorem size_lt {child e : Element} (h : child ∈ e.children) : child.size < e.size := by
  have := size_le_sizes h
  rw [size_eq e]
  omega

end Element

end MarkupShorthand
