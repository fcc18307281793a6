import MarkupShorthand.Arena.Forest
import MarkupShorthand.Json.Printer
import MarkupShorthand.Json.Reader
import MarkupShorthand.Markup.Options
import MarkupShorthand.Text.Decimal

/-!
# Trees and options in JSON

How elements and rendering options are written as JSON values and read back. A record is read from
an object, whose fields may come in any order and in company of others, or from the list of its
fields' values. Reading opens a limited number of lists and objects inside one another (`room`).
-/

namespace MarkupShorthand

open Text

/-! ## Writing -/

/-- A text as a JSON value. -/
def Json.ofString (text : String) : Json :=
  .string (some text)

/-- A number as a JSON value. -/
def Json.ofNat (n : Nat) : Json :=
  .number (decimal n)

/-- A record as a JSON value. -/
def Json.ofFields (fields : List (String × Json)) : Json :=
  .object (fields.map fun (name, value) => (some name, value))

/-- An attribute as a JSON value. -/
def Attribute.toJson (a : Attribute) : Json :=
  .ofFields [("name", .ofString a.name), ("values", .array (a.values.map .ofString))]

/-- A slot as a JSON value. -/
def Slot.toJson (slot : Slot) : Json :=
  .ofFields [("position", .ofNat slot.position), ("end", .ofNat slot.count)]

/-- An element as a JSON value. -/
def Element.toJson (e : Element) : Json :=
  .ofFields [
    ("name", .ofString e.name),
    ("attributes", .array (e.attributes.map Attribute.toJson)),
    ("multiplicity", e.slot.toJson),
    ("children", .array (e.children.map toJson))]
termination_by e.size
decreasing_by
  rename_i h
  exact Element.size_lt h

/-- Rendering options as a JSON value. -/
def RenderOptions.toJson (options : RenderOptions) : Json :=
  .ofFields [
    ("mode", .ofString options.mode.name),
    ("numbering", .ofString options.numbering.name),
    ("indent", .ofString options.indent)]

/-! ## Reading -/

namespace Json

/-- How many lists and objects may be open at one time while a value is read. -/
def maxRoom : Nat := 127

/-- The text of a string. -/
def text? : Json → Option String
  | string text => text
  | _ => none

/-- The value of a number that is written with digits alone and fits into 64 bits. -/
def nat? : Json → Option Nat
  | number literal =>
    if literal.all Char.isDigit then
      let n := ofDecimal literal
      if n < Nat.pow 2 64 then some n else none
    else none
  | _ => none

/-- The items of a list, each read in the room that is left inside. -/
def listOf? {α : Type} (read : Nat → Json → Option α) : Nat → Json → Option (List α)
  | room + 1, array items => items.mapM (read room)
  | _, _ => none

/-- The value of a field that must stand exactly once. -/
def field? (fields : List (Option String × Json)) (name : String) : Option Json :=
  match fields.filter (·.1 = some name) with
  | [(_, value)] => some value
  | _ => none

/-- The values of a record's fields, in the order of their `names`. -/
def record? (names : List String) : Json → Option (List Json)
  | array items => if items.length = names.length then some items else none
  | object fields => if fields.all (·.1.isSome) then names.mapM (field? fields) else none
  | _ => none

/-- The word that names a variant: a string, or the one field of an object, whose value is null. -/
def variant? : Nat → Json → Option String
  | _, string text => text
  | _ + 1, object [(name, null)] => name
  | _, _ => none

end Json

/-- Reads an attribute. -/
def Attribute.ofJson? : Nat → Json → Option Attribute
  | 0, _ => none
  | room + 1, json => do
    let [name, values] ← json.record? ["name", "values"] | none
    return ⟨← name.text?, ← values.listOf? (fun _ => Json.text?) room⟩

/-- Reads a slot. -/
def Slot.ofJson? : Nat → Json → Option Slot
  | 0, _ => none
  | _ + 1, json => do
    let [position, count] ← json.record? ["position", "end"] | none
    return ⟨← position.nat?, ← count.nat?⟩

/-- Reads an element. It takes room for itself and for the lists in it. -/
def Element.ofJson? : Nat → Json → Option Element
  | 0, _ => none
  | 1, _ => none
  | room + 2, json => do
    let [name, attributes, slot, children] ←
      json.record? ["name", "attributes", "multiplicity", "children"] | none
    let .array children := children | none
    return {
      name := ← name.text?
      attributes := ← attributes.listOf? Attribute.ofJson? (room + 1)
      slot := ← Slot.ofJson? (room + 1) slot
      children := ← children.mapM (Element.ofJson? room) }

/-- Reads a mode. -/
def RenderMode.ofJson? (room : Nat) (json : Json) : Option RenderMode :=
  (json.variant? room).bind ofName?

/-- Reads a numbering. -/
def Numbering.ofJson? (room : Nat) (json : Json) : Option Numbering :=
  (json.variant? room).bind ofName?

/-- Reads rendering options. -/
def RenderOptions.ofJson? : Nat → Json → Option RenderOptions
  | 0, _ => none
  | room + 1, json => do
    let [mode, numbering, indent] ← json.record? ["mode", "numbering", "indent"] | none
    return ⟨← RenderMode.ofJson? room mode, ← Numbering.ofJson? room numbering, ← indent.text?⟩

/-- A forest as a JSON text. -/
def Arena.json (t : Arena) : String :=
  (Json.array (t.forest.map Element.toJson)).pretty

end MarkupShorthand
