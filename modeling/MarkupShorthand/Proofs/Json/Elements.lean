import MarkupShorthand.Proofs.Json.Values
import MarkupShorthand.Proofs.Markup.Shape

/-!
# Reading elements back

An element is written as a value that has a text of its own (`Element.plain_toJson`), and such a
text is read as that value. What is left is to read the element from the value: each record has the
fields that are looked for, and there is room enough if the value does not open more lists and
objects inside one another than that (`Element.ofJson?_toJson`). So the text of an element gives the
element, and the texts of two trees are the same only if the trees are (`json_round_trip`).
-/

namespace MarkupShorthand

open Text

/-! ## Nesting -/

namespace Json

mutual

/-- How many lists and objects are open at one time, at most, in the text of a value. -/
def nesting : Json → Nat
  | array items => nestings items + 1
  | object fields => fieldNestings fields + 1
  | _ => 0

/-- The nesting of the items of a list. -/
def nestings : List Json → Nat
  | [] => 0
  | item :: rest => max item.nesting (nestings rest)

/-- The nesting of the fields of an object. -/
def fieldNestings : List (Option String × Json) → Nat
  | [] => 0
  | (_, value) :: rest => max value.nesting (fieldNestings rest)

end

theorem nesting_le_nestings {item : Json} {items : List Json} (h : item ∈ items) :
    item.nesting ≤ nestings items := by
  induction items with
  | nil => cases h
  | cons first rest ih =>
    rw [nestings]
    rcases List.mem_cons.1 h with rfl | h
    · exact Nat.le_max_left _ _
    · exact (ih h).trans (Nat.le_max_right _ _)

theorem mapM_map_eq_some {α β : Type} {read : β → Option α} {write : α → β} {l : List α}
    (h : ∀ a ∈ l, read (write a) = some a) : (l.map write).mapM read = some l := by
  induction l with
  | nil => rfl
  | cons a l ih =>
    obtain ⟨ha, hl⟩ := List.forall_mem_cons.1 h
    simp [ha, ih hl]

/-- A list is read back if each of its items is, in one room less. -/
theorem listOf?_map {α : Type} {read : Nat → Json → Option α} {write : α → Json} {l : List α}
    {room : Nat} (hn : (array (l.map write)).nesting ≤ room)
    (h : ∀ a ∈ l, ∀ {room}, (write a).nesting ≤ room → read room (write a) = some a) :
    (array (l.map write)).listOf? read room = some l := by
  rw [nesting] at hn
  obtain ⟨room, rfl⟩ := Nat.exists_eq_add_of_le' (Nat.le_of_add_left_le hn)
  refine mapM_map_eq_some fun a ha => h a ha ?_
  exact (nesting_le_nestings (List.mem_map_of_mem ha)).trans (Nat.le_of_succ_le_succ hn)

theorem ofString_inj {text text' : String} : ofString text = ofString text' ↔ text = text' := by
  rw [ofString, ofString, string.injEq, Option.some.injEq]

/-- A numeral tells its number. -/
theorem ofNat_inj {n n' : Nat} : ofNat n = ofNat n' ↔ n = n' := by
  rw [ofNat, ofNat, number.injEq]
  refine ⟨fun h => ?_, fun h => h ▸ rfl⟩
  rw [← ofDecimal_decimal n, h, ofDecimal_decimal]

theorem text?_ofString (text : String) : (ofString text).text? = some text := rfl

theorem nat?_ofNat {n : Nat} (h : n < 2 ^ 64) : (ofNat n).nat? = some n := by
  rw [ofNat, nat?, if_pos (List.all_eq_true.2 isDigit_of_mem_decimal), ofDecimal_decimal]
  exact if_pos h

end Json

/-! ## Elements -/

/-- Whether the numbers of a slot fit into 64 bits. -/
structure Slot.Fits (slot : Slot) : Prop where
  position_lt : slot.position < 2 ^ 64
  count_lt : slot.count < 2 ^ 64

/-- Whether the numbers of an element and of all below it fit into 64 bits. -/
inductive Element.Fits : Element → Prop where
  | mk {e : Element} : e.slot.Fits → (∀ child ∈ e.children, child.Fits) → e.Fits

open Json

theorem Attribute.plain_toJson (a : Attribute) : Plain a.toJson := by
  refine .object (List.forall_mem_cons.2 ⟨.string _, List.forall_mem_singleton.2 ?_⟩)
  refine .array fun value hm => ?_
  obtain ⟨text, -, rfl⟩ := List.mem_map.1 hm
  exact .string text

theorem Attribute.ofJson?_toJson (a : Attribute) {room : Nat} (h : a.toJson.nesting ≤ room) :
    Attribute.ofJson? room a.toJson = some a := by
  obtain ⟨room, rfl⟩ := Nat.exists_eq_add_of_le' (Nat.le_of_add_left_le h)
  have hroom : (array (a.values.map ofString)).nesting ≤ room := by
    simp only [toJson, ofFields_eq, named_cons, named_nil, nesting, fieldNestings] at h ⊢
    omega
  have hvalues : (array (a.values.map ofString)).listOf? (fun _ => Json.text?) room =
      some a.values := listOf?_map hroom fun _ _ _ _ => text?_ofString _
  have hrecord : a.toJson.record? ["name", "values"] =
      some [ofString a.name, array (a.values.map ofString)] := rfl
  rw [Attribute.ofJson?, hrecord]
  simp only [Option.bind_eq_bind, Option.bind_some, text?_ofString, hvalues]
  rfl

theorem Attribute.toJson_injective : Function.Injective Attribute.toJson := by
  intro a a' h
  simp only [toJson, ofFields_eq, named_cons, named_nil, object.injEq, List.cons.injEq,
    Prod.mk.injEq, true_and, and_true, ofString_inj, array.injEq] at h
  cases a
  cases a'
  exact Attribute.mk.injEq .. ▸ ⟨h.1, List.map_injective_iff.2 (fun _ _ => ofString_inj.1) h.2⟩

theorem Slot.plain_toJson (slot : Slot) : Plain slot.toJson :=
  .object (List.forall_mem_cons.2 ⟨.number _, List.forall_mem_singleton.2 (.number _)⟩)

theorem Slot.ofJson?_toJson {slot : Slot} (hs : slot.Fits) {room : Nat}
    (h : slot.toJson.nesting ≤ room) : Slot.ofJson? room slot.toJson = some slot := by
  obtain ⟨room, rfl⟩ := Nat.exists_eq_add_of_le' (Nat.le_of_add_left_le h)
  have hrecord : slot.toJson.record? ["position", "end"] =
      some [ofNat slot.position, ofNat slot.count] := rfl
  rw [Slot.ofJson?, hrecord]
  simp only [Option.bind_eq_bind, Option.bind_some, nat?_ofNat hs.position_lt,
    nat?_ofNat hs.count_lt]
  rfl

theorem Slot.toJson_injective : Function.Injective Slot.toJson := by
  intro slot slot' h
  simp only [toJson, ofFields_eq, named_cons, named_nil, object.injEq, List.cons.injEq,
    Prod.mk.injEq, true_and, and_true, ofNat_inj] at h
  cases slot
  cases slot'
  exact Slot.mk.injEq .. ▸ h

namespace Element

theorem toJson_eq (e : Element) : e.toJson = ofFields [
    ("name", ofString e.name),
    ("attributes", array (e.attributes.map Attribute.toJson)),
    ("multiplicity", e.slot.toJson),
    ("children", array (e.children.map toJson))] := by
  rw [toJson]

theorem plain_toJson (e : Element) : Plain e.toJson := by
  induction e using Element.induction with
  | step e ih =>
    rw [toJson_eq]
    refine .object (List.forall_mem_cons.2 ⟨.string _, List.forall_mem_cons.2 ⟨.array ?_,
      List.forall_mem_cons.2 ⟨e.slot.plain_toJson, List.forall_mem_singleton.2 (.array ?_)⟩⟩⟩)
    · exact List.forall_mem_map.2 fun a _ => a.plain_toJson
    · exact List.forall_mem_map.2 ih

theorem ofJson?_toJson {e : Element} (he : e.Fits) {room : Nat} (h : e.toJson.nesting ≤ room) :
    Element.ofJson? room e.toJson = some e := by
  induction he generalizing room with
  | @mk e hslot _ ih =>
    rw [toJson_eq] at h ⊢
    simp only [ofFields_eq, named_cons, named_nil, nesting, fieldNestings] at h
    obtain ⟨room, rfl⟩ := Nat.exists_eq_add_of_le' (show 2 ≤ room by omega)
    have hattributes : (array (e.attributes.map Attribute.toJson)).listOf? Attribute.ofJson?
        (room + 1) = some e.attributes :=
      listOf?_map (by rw [nesting]; omega) fun a _ _ => a.ofJson?_toJson
    have hchildren : (e.children.map toJson).mapM (Element.ofJson? room) = some e.children := by
      refine mapM_map_eq_some fun child hm => ih child hm ?_
      have hchild := nesting_le_nestings (List.mem_map_of_mem (f := toJson) hm)
      omega
    have hrecord : (ofFields [
        ("name", ofString e.name),
        ("attributes", array (e.attributes.map Attribute.toJson)),
        ("multiplicity", e.slot.toJson),
        ("children", array (e.children.map toJson))]).record?
          ["name", "attributes", "multiplicity", "children"] =
        some [ofString e.name, array (e.attributes.map Attribute.toJson), e.slot.toJson,
          array (e.children.map toJson)] := rfl
    rw [Element.ofJson?, hrecord]
    simp only [Option.bind_eq_bind, Option.bind_some, text?_ofString, hattributes, hchildren,
      Slot.ofJson?_toJson hslot (show e.slot.toJson.nesting ≤ room + 1 by omega)]
    cases e
    rfl

/-- The text of an element gives the element. -/
theorem ofText?_pretty {e : Element} (he : e.Fits) (h : e.toJson.nesting < 128) :
    (Json.ofText? e.toJson.pretty).bind (Element.ofJson? maxRoom) = some e := by
  rw [Json.ofText?_pretty e.plain_toJson]
  exact ofJson?_toJson he (Nat.le_of_lt_succ h)

theorem toJson_injective : Function.Injective Element.toJson := by
  intro e
  induction e using Element.induction with
  | step e ih =>
    intro e' h
    rw [toJson_eq, toJson_eq] at h
    simp only [ofFields_eq, named_cons, named_nil, object.injEq, List.cons.injEq, Prod.mk.injEq,
      true_and, and_true, ofString_inj, array.injEq] at h
    obtain ⟨hname, hattributes, hslot, hchildren⟩ := h
    have hsame : e.children.map id = e'.children.map id :=
      map_eq_map_of (fun child hm _ _ h => ih child hm h) hchildren
    rw [List.map_id, List.map_id] at hsame
    cases e
    cases e'
    rw [Element.mk.injEq]
    exact ⟨hname, List.map_injective_iff.2 Attribute.toJson_injective hattributes,
      Slot.toJson_injective hslot, hsame⟩

end Element

/-- The JSON text of a tree gives its forest. -/
theorem Arena.ofText?_json (t : Arena) :
    Json.ofText? t.json = some (array (t.forest.map Element.toJson)) :=
  ofText?_pretty (.array (List.forall_mem_map.2 fun e _ => e.plain_toJson))

/-- The text of an element, whatever characters are in it, gives the element, if no more than 127
lists and objects are open in it at one time. Two trees have one text only if they are the same, but
for numbering. -/
theorem json_round_trip :
    (∀ e : Element, e.Fits → e.toJson.nesting < 128 →
      (Json.ofText? e.toJson.pretty).bind (Element.ofJson? maxRoom) = some e) ∧
    ∀ t t' : Arena, t.json = t'.json ↔ t.forest = t'.forest := by
  refine ⟨fun e he hn => Element.ofText?_pretty he hn, fun t t' => ⟨fun h => ?_, fun h => ?_⟩⟩
  · have hread := t.ofText?_json
    rw [h, t'.ofText?_json] at hread
    have hforest := array.inj (Option.some.inj hread)
    exact (List.map_injective_iff.2 Element.toJson_injective hforest).symm
  · rw [Arena.json, Arena.json, h]

/-- Quotes, a backslash, control characters, a delete character and one beyond the basic plane come
back, as do empty lists and the largest numbers. -/
theorem json_round_trip_of_signs :
    let leaf : Element := ⟨"\x7f😀", [⟨"", []⟩, ⟨"\\", ["", "\x01\n"]⟩], ⟨1, 2 ^ 64 - 1⟩, []⟩
    let e : Element := ⟨"\"", [], ⟨0, 0⟩, [leaf, leaf]⟩
    e.Fits ∧ e.toJson.nesting < 128 ∧
      (Json.ofText? e.toJson.pretty).bind (Element.ofJson? maxRoom) = some e := by
  intro leaf e
  have leaf_fits : leaf.Fits := .mk ⟨by decide, by decide⟩ nofun
  have fits : e.Fits := .mk ⟨by decide, by decide⟩
    (List.forall_mem_cons.2 ⟨leaf_fits, List.forall_mem_singleton.2 leaf_fits⟩)
  have hnesting : e.toJson.nesting < 128 := by
    simp [e, leaf, Element.toJson_eq, Attribute.toJson, Slot.toJson, ofFields_eq, named_cons,
      named_nil, nesting, nestings, fieldNestings, ofString, ofNat]
  exact ⟨fits, hnesting, json_round_trip.1 e fits hnesting⟩

end MarkupShorthand
