import Mathlib.Data.List.ModifyLast
import MarkupShorthand.Element
import MarkupShorthand.Proofs.Abbreviation.Items

/-!
# Sketches

What an abbreviation means, without nodes and groups. A sketch is an element written once: it has
the list of its slots instead of copies. Reading an abbreviation extends a forest of sketches at its
cursor, which is the last sketch at some depth (`Draft.read`), and `Sketch.unfoldAll` writes the
copies out.
-/

namespace MarkupShorthand

/-- An element with the slots of its copies. -/
structure Sketch where
  name : String
  attributes : List Attribute := []
  slots : List Slot := [{}]
  children : List Sketch := []

namespace Sketch

mutual

/-- The copies of an element, one for each slot in order, each with all that its children stand for.
-/
def unfold : Sketch → List Element
  | ⟨name, attributes, slots, children⟩ =>
    slots.map (⟨name, attributes, ·, unfoldAll children⟩)

/-- What some sketches stand for, one after the other. -/
def unfoldAll : List Sketch → List Element
  | [] => []
  | sketch :: rest => unfold sketch ++ unfoldAll rest

end

theorem unfold_eq (s : Sketch) :
    s.unfold = s.slots.map (⟨s.name, s.attributes, ·, unfoldAll s.children⟩) := by
  cases s; rw [unfold]

theorem unfoldAll_append (done rest : List Sketch) :
    unfoldAll (done ++ rest) = unfoldAll done ++ unfoldAll rest := by
  induction done with
  | nil => rfl
  | cons s done ih => rw [List.cons_append, unfoldAll, unfoldAll, ih, List.append_assoc]

theorem unfoldAll_concat (done : List Sketch) (last : Sketch) :
    unfoldAll (done ++ [last]) = unfoldAll done ++ last.unfold := by
  rw [unfoldAll_append, unfoldAll, unfoldAll, List.append_nil]

/-- A sketch with an attribute added. -/
def addAttribute (a : Attribute) (s : Sketch) : Sketch :=
  { s with attributes := a.addTo s.attributes }

/-- The slots of `copies` groups of `count`: the first of each, and then what follows each first. -/
def groupSlots (copies count : Nat) : List Slot :=
  List.replicate copies ⟨1, count⟩ ++
    (List.replicate copies ((List.range' 2 (count - 1)).map (⟨·, count⟩))).flatten

/-- A sketch with every copy made the first of a group of `count`. -/
def multiply (count : Nat) (s : Sketch) : Sketch :=
  { s with slots := groupSlots s.slots.length count }

/-- The sketches with the list `depth` levels down along the last ones changed. -/
def atDepth (f : List Sketch → List Sketch) : Nat → List Sketch → List Sketch
  | 0, sketches => f sketches
  | depth + 1, sketches =>
    sketches.modifyLast fun last => { last with children := atDepth f depth last.children }

theorem atDepth_succ_concat (f : List Sketch → List Sketch) (depth : Nat) (done : List Sketch)
    (last : Sketch) :
    atDepth f (depth + 1) (done ++ [last]) =
      done ++ [{ last with children := atDepth f depth last.children }] := by
  rw [atDepth, List.modifyLast_concat]

theorem modifyLast_modifyLast {α : Type} (f g : α → α) (items : List α) :
    (items.modifyLast f).modifyLast g = items.modifyLast (g ∘ f) := by
  rcases items.eq_nil_or_concat with rfl | ⟨done, last, rfl⟩
  · rfl
  · rw [List.concat_eq_append]
    simp only [List.modifyLast_concat, Function.comp_apply]

/-- Two changes at one depth are one. -/
theorem atDepth_atDepth (f g : List Sketch → List Sketch) (depth : Nat) (sketches : List Sketch) :
    atDepth g depth (atDepth f depth sketches) = atDepth (g ∘ f) depth sketches := by
  induction depth generalizing sketches with
  | zero => rfl
  | succ depth ih =>
    rw [atDepth, atDepth, atDepth, modifyLast_modifyLast]
    refine congrArg (List.modifyLast · sketches) (funext fun last => ?_)
    simp only [Function.comp_apply, ih]

end Sketch

/-- What has been read of an abbreviation. The cursor is the last sketch at a depth. -/
structure Draft where
  sketches : List Sketch := []
  depth : Nat := 0
  waiting : Option Pending := none

namespace Draft

/-- The draft with the cursor changed. -/
def edit (d : Draft) (f : Sketch → Sketch) : Draft :=
  { sketches := Sketch.atDepth (·.modifyLast f) d.depth d.sketches, depth := d.depth }

/-- The draft with a new cursor behind the children of the cursor's ancestor `levels` levels up.
Above the top-level sketches there is only the list of them. -/
def place (d : Draft) (levels : Nat) (name : String) : Draft :=
  let depth := d.depth + 1 - levels
  { sketches := Sketch.atDepth (· ++ [{ name := name }]) depth d.sketches, depth := depth }

/-- The draft after an operator has got its literal. -/
def carryOut (d : Draft) (pending : Pending) (literal : String) : Draft :=
  match pending.operator with
  | .child | .sibling | .climb => d.place pending.levels literal
  | .idAttribute => d.edit (.addAttribute ⟨Attribute.idName, [literal]⟩)
  | .classAttribute => d.edit (.addAttribute ⟨Attribute.className, [literal]⟩)
  | .multiply => d.edit (.multiply (Text.ofDecimal literal.toList))
  | .inert => { d with waiting := none }

/-- The draft after one more item. The first literal is the first cursor, a later one is dropped
unless an operator waits for it. A `^` behind a waiting operator adds a level to it. -/
def read (d : Draft) : Item → Draft
  | .reserved => d
  | .operator operator offset =>
    match d.waiting with
    | none => { d with waiting := some { operator := operator, offset := offset } }
    | some pending => { d with waiting := some { pending with climbs := pending.climbs + 1 } }
  | .literal literal =>
    match d.waiting, d.sketches with
    | some pending, _ => d.carryOut pending literal.text
    | none, [] => { sketches := [{ name := literal.text }] }
    | none, _ :: _ => d

end Draft

/-- The sketches that an abbreviation describes. -/
def sketch (abbreviation : String) : List Sketch :=
  match tokenize abbreviation with
  | .error _ => []
  | .ok lexemes => ((items lexemes).foldl Draft.read {}).sketches

end MarkupShorthand
