import MarkupShorthand.Json.Codec
import MarkupShorthand.Markup.Render
import MarkupShorthand.Outline
import MarkupShorthand.Text.Quoted

/-!
# Formats

The ways to write a tree, each under a name. A registry holds one formatter per name: registering
another under the same name replaces it.
-/

namespace MarkupShorthand

/-- Why a tree was not written. -/
inductive FormatError where
  /-- No formatter is registered under the name. -/
  | notFound (name : String)
  /-- The formatter cannot write the tree. -/
  | serialization (reason : String)
deriving DecidableEq

/-- The sentence shown to the user. -/
def FormatError.message : FormatError → String
  | notFound name => s!"format '{name}' not found"
  | serialization reason => s!"serialization error: {reason}"

/-- A way to write trees. -/
structure Formatter where
  name : String
  write : Arena → Except FormatError String
  description : String := ""

namespace Formatter

/-- Markup. -/
def tag (options : RenderOptions) : Formatter where
  name := "tag"
  write t := .ok (t.render options)
  description := "Markup with optional snippet tab stops"

/-- Outlines. -/
def outline : Formatter where
  name := "treeviz"
  write t := .ok t.outline
  description := "One line per node, showing attributes and multiplication slots"

/-- JSON. -/
def json : Formatter where
  name := "json"
  write t := .ok t.json
  description := "Tree snapshot as JSON"

/-- The formatter that comes with the library under a name. -/
def builtIn? (options : RenderOptions) : String → Option Formatter
  | "tag" => some (tag options)
  | "treeviz" => some outline
  | "json" => some json
  | _ => none

/-- A formatter that writes the same text for every tree. -/
def const (name text : String) : Formatter where
  name := name
  write _ := .ok text

end Formatter

/-- Formatters by name. -/
structure Registry where
  /-- The formatters, the last registered first; no two have one name. -/
  formatters : List Formatter := []

namespace Registry

/-- The registry with a formatter in place of the one of its name. -/
def register (r : Registry) (f : Formatter) : Registry :=
  ⟨f :: r.formatters.filter (·.name != f.name)⟩

/-- The formatter of a name. -/
def get? (r : Registry) (name : String) : Option Formatter :=
  r.formatters.find? (·.name == name)

/-- Whether there is a formatter of a name. -/
def has (r : Registry) (name : String) : Bool :=
  r.formatters.any (·.name == name)

/-- A tree in the format of a name. -/
def write (r : Registry) (t : Arena) (name : String) : Except FormatError String :=
  match r.get? name with
  | some f => f.write t
  | none => .error (.notFound name)

/-- The names in order; UTF-8 bytes are in the order of code points. -/
def names (r : Registry) : List String :=
  (r.formatters.map Formatter.name).mergeSort (fun a b => decide (a ≤ b))

/-- The registry as a log shows it. -/
def describe (r : Registry) : String :=
  "FormatRegistry \x7b formats: [" ++ ", ".intercalate (r.names.map Text.quoted) ++ "] \x7d"

/-- The formats that come with the library. -/
def builtIn (options : RenderOptions) : Registry :=
  ((({} : Registry).register (.tag options)).register .outline).register .json

variable {r : Registry} {f : Formatter} {options : RenderOptions} {name : String}

/-- The last formatter registered under a name is the one that is found. -/
@[simp] theorem get?_register_self (r : Registry) (f : Formatter) :
    (r.register f).get? f.name = some f := by
  simp [register, get?]

/-- Registering a formatter does not touch other names. -/
theorem get?_register_of_ne (r : Registry) (f : Formatter) (h : name ≠ f.name) :
    (r.register f).get? name = r.get? name := by
  have hf : (f.name == name) = false := by simpa using Ne.symm h
  simp only [register, get?, List.find?_cons, hf, List.find?_filter]
  congr 1
  funext g
  by_cases hg : g.name = name
  · simp [hg, h]
  · simp [hg]

theorem get?_register (r : Registry) (f : Formatter) (name : String) :
    (r.register f).get? name = if f.name = name then some f else r.get? name := by
  split
  · rename_i h
    exact h ▸ get?_register_self r f
  · rename_i h
    exact get?_register_of_ne r f (Ne.symm h)

theorem name_of_get? (h : r.get? name = some f) : f.name = name := by
  rw [get?] at h
  simpa using List.find?_some h

theorem has_eq (r : Registry) (name : String) : r.has name = (r.get? name).isSome := by
  rw [has, get?, List.isSome_find?]

theorem write_eq_of_get? (h : r.get? name = some f) (t : Arena) : r.write t name = f.write t := by
  rw [write, h]

theorem write_eq_of_none (h : r.get? name = none) (t : Arena) :
    r.write t name = .error (.notFound name) := by
  rw [write, h]

/-- The formatters of the library are registered under their names. -/
theorem get?_builtIn (options : RenderOptions) (name : String) :
    (builtIn options).get? name = Formatter.builtIn? options name := by
  rw [builtIn, get?_register, get?_register, get?_register]
  split
  case isTrue h => exact h ▸ rfl
  split
  case isTrue h => exact h ▸ rfl
  split
  case isTrue h => exact h ▸ rfl
  case isFalse hjson houtline htag =>
    unfold Formatter.builtIn?
    split
    · exact absurd rfl htag
    · exact absurd rfl houtline
    · exact absurd rfl hjson
    · rfl

/-- The formats that come with the library write every tree. -/
theorem exists_write_of_builtIn (h : (builtIn options).get? name = some f) (t : Arena) :
    ∃ written, f.write t = .ok written := by
  rw [get?_builtIn] at h
  unfold Formatter.builtIn? at h
  split at h
  all_goals cases h
  all_goals exact ⟨_, rfl⟩

end Registry

end MarkupShorthand
