import MarkupShorthand.Outline
import MarkupShorthand.Proofs.Abbreviation.Words
import MarkupShorthand.Proofs.Listing

/-!
# Reading outlines back

An outline shows all that a parsed tree is made of. A label has no space but in front of its slot, a
name and a value end at the first character that is in no text, and `.` starts classes only, so that
a label determines what an element is made of (`Element.Worded.eq_of_label`). A row tells its level
by its columns, which end with spaces, while connectors do not (`Outline.level`). So the lines
determine the forest (`outline_eq_iff`).
-/

namespace MarkupShorthand

/-! ## Labels -/

/-- Classes one behind the other, each behind a dot. -/
def dotted (values : List String) : List Char :=
  values.flatMap fun value => '.' :: value.toList

theorem Attribute.IsWorded.toList_label {a : Attribute} (h : a.IsWorded) :
    (∃ value, IsText value ∧ a = ⟨idName, [value]⟩ ∧ a.label.toList = '#' :: value.toList) ∨
      ∃ values, values ≠ [] ∧ (∀ value ∈ values, IsText value) ∧ a = ⟨className, values⟩ ∧
        a.label.toList = dotted values := by
  cases h with
  | @id value hv =>
    refine .inl ⟨value, hv, rfl, ?_⟩
    rw [label, if_pos ⟨rfl, rfl⟩]
    simp
  | @classes values hne hv =>
    refine .inr ⟨values, hne, hv, rfl, ?_⟩
    rw [label, if_neg (fun h => idName_ne_className h.1.symm), if_pos rfl, String.toList_join]
    simp [dotted, List.flatMap_map]

/-- The labels of attributes one behind the other. -/
def Attribute.labels (attributes : List Attribute) : List Char :=
  attributes.flatMap (·.label.toList)

/-- Classes are determined by what they look like, as no dot follows them. -/
theorem dotted_inj {values values' : List String} {back back' : List Char}
    (h : ∀ value ∈ values, IsText value) (h' : ∀ value ∈ values', IsText value)
    (hb : ∀ c ∈ back.head?, isTextChar c = false ∧ c ≠ '.')
    (hb' : ∀ c ∈ back'.head?, isTextChar c = false ∧ c ≠ '.')
    (e : dotted values ++ back = dotted values' ++ back') : values = values' ∧ back = back' := by
  have behind : ∀ {values : List String} {back : List Char},
      (∀ c ∈ back.head?, isTextChar c = false ∧ c ≠ '.') →
      ∀ c ∈ (dotted values ++ back).head?, isTextChar c = false := by
    intro values back hb c hc
    cases values with
    | nil => exact (hb c hc).1
    | cons value values => exact Option.mem_some.1 hc ▸ rfl
  induction values generalizing values' with
  | nil =>
    cases values' with
    | nil => exact ⟨rfl, e⟩
    | cons value' values' =>
      have hdot : '.' ∈ back.head? := congrArg List.head? e
      exact absurd rfl (hb _ hdot).2
  | cons value values ih =>
    cases values' with
    | nil =>
      have hdot : '.' ∈ back'.head? := (congrArg List.head? e).symm
      exact absurd rfl (hb' _ hdot).2
    | cons value' values' =>
      obtain ⟨hvalue, hvalues⟩ := List.forall_mem_cons.1 h
      obtain ⟨hvalue', hvalues'⟩ := List.forall_mem_cons.1 h'
      simp only [dotted, List.flatMap_cons, List.cons_append, List.append_assoc] at e
      obtain ⟨rfl, hmore⟩ := hvalue.append_inj hvalue' (behind hb) (behind hb') (List.cons.inj e).2
      obtain ⟨rfl, hback⟩ := ih hvalues hvalues' hmore
      exact ⟨rfl, hback⟩

namespace Attribute

variable {attributes attributes' : List Attribute}

/-- Labels of attributes start with no character of a text, and with a dot only before classes. -/
theorem AreWorded.head_labels (h : AreWorded attributes) : ∀ c ∈ (labels attributes).head?,
    isTextChar c = false ∧ (c = '.' → className ∈ attributes.map name) := by
  cases attributes with
  | nil => exact nofun
  | cons a rest =>
    intro c hc
    rw [labels, List.flatMap_cons] at hc
    rcases (h.isWorded a List.mem_cons_self).toList_label with ⟨value, -, -, e⟩ |
      ⟨values, hne, -, rfl, e⟩
    · rw [e] at hc
      obtain rfl := Option.mem_some.1 hc
      exact ⟨rfl, nofun⟩
    · obtain ⟨value, values, rfl⟩ := List.exists_cons_of_ne_nil hne
      rw [e] at hc
      obtain rfl := Option.mem_some.1 hc
      exact ⟨rfl, fun _ => List.mem_cons_self⟩

theorem AreWorded.of_cons {a : Attribute} (h : AreWorded (a :: attributes)) :
    AreWorded attributes :=
  ⟨(List.nodup_cons.1 h.nodup).2, (List.forall_mem_cons.1 h.isWorded).2⟩

theorem IsWorded.label_ne_nil {a : Attribute} (h : a.IsWorded) : a.label.toList ≠ [] := by
  rcases h.toList_label with ⟨value, -, -, e⟩ | ⟨values, hne, -, -, e⟩
  · rw [e]
    exact List.cons_ne_nil _ _
  · obtain ⟨value, values, rfl⟩ := List.exists_cons_of_ne_nil hne
    rw [e]
    exact List.cons_ne_nil _ _

/-- Where an attribute of the classes is the first, no dot follows it. -/
theorem AreWorded.head_labels_of_classes {values : List String}
    (h : AreWorded (⟨className, values⟩ :: attributes)) :
    ∀ c ∈ (labels attributes).head?, isTextChar c = false ∧ c ≠ '.' := by
  intro c hc
  obtain ⟨htext, hdot⟩ := h.of_cons.head_labels c hc
  exact ⟨htext, fun e => (List.nodup_cons.1 h.nodup).1 (hdot e)⟩

/-- Attributes are determined by their labels. -/
theorem AreWorded.eq_of_labels (h : AreWorded attributes) (h' : AreWorded attributes')
    (e : labels attributes = labels attributes') : attributes = attributes' := by
  have ne_nil : ∀ {a rest}, AreWorded (a :: rest) → labels (a :: rest) ≠ [] := fun h e =>
    (h.isWorded _ List.mem_cons_self).label_ne_nil (List.append_eq_nil_iff.1 e).1
  induction attributes generalizing attributes' with
  | nil =>
    cases attributes' with
    | nil => rfl
    | cons a' rest' => exact absurd e.symm (ne_nil h')
  | cons a rest ih =>
    cases attributes' with
    | nil => exact absurd e (ne_nil h)
    | cons a' rest' =>
      rw [labels, labels, List.flatMap_cons, List.flatMap_cons] at e
      rcases (h.isWorded a List.mem_cons_self).toList_label with ⟨value, hv, rfl, hl⟩ |
        ⟨values, hne, hv, rfl, hl⟩ <;>
      rcases (h'.isWorded a' List.mem_cons_self).toList_label with ⟨value', hv', rfl, hl'⟩ |
        ⟨values', hne', hv', rfl, hl'⟩ <;>
      rw [hl, hl'] at e
      · obtain ⟨rfl, hmore⟩ := hv.append_inj hv' (fun c hc => (h.of_cons.head_labels c hc).1)
          (fun c hc => (h'.of_cons.head_labels c hc).1) (List.cons.inj e).2
        rw [ih h.of_cons h'.of_cons hmore]
      · obtain ⟨value', values', rfl⟩ := List.exists_cons_of_ne_nil hne'
        exact absurd (List.cons.inj e).1 (by decide)
      · obtain ⟨value, values, rfl⟩ := List.exists_cons_of_ne_nil hne
        exact absurd (List.cons.inj e).1 (by decide)
      · obtain ⟨rfl, hmore⟩ := dotted_inj hv hv' h.head_labels_of_classes
          h'.head_labels_of_classes e
        rw [ih h.of_cons h'.of_cons hmore]

/-- What labels of attributes are written with. -/
theorem AreWorded.of_mem_labels (h : AreWorded attributes) {c : Char} (hc : c ∈ labels attributes) :
    isTextChar c = true ∨ c = '#' ∨ c = '.' := by
  obtain ⟨a, ha, hc⟩ := List.mem_flatMap.1 hc
  rcases (h.isWorded a ha).toList_label with ⟨value, hv, -, e⟩ | ⟨values, -, hv, -, e⟩
  · rw [e] at hc
    exact (List.mem_cons.1 hc).elim (fun e => .inr (.inl e)) fun hc => .inl (hv.2 c hc)
  · rw [e] at hc
    obtain ⟨value, hm, hc⟩ := List.mem_flatMap.1 hc
    exact (List.mem_cons.1 hc).elim (fun e => .inr (.inr e)) fun hc => .inl ((hv value hm).2 c hc)

end Attribute

/-! ### Slots -/

theorem toList_toString (n : Nat) : (toString n).toList = Nat.toDigits 10 n :=
  Nat.toList_repr

theorem isDigit_of_mem_toString {n : Nat} {c : Char} (h : c ∈ (toString n).toList) :
    c.isDigit = true :=
  Nat.isDigit_of_mem_toDigits (by decide) (by decide) (toList_toString n ▸ h)

/-- A numeral is seen where it ends, and it tells its number. -/
theorem toString_append_inj {n n' : Nat} {back back' : List Char}
    (hb : ∀ c ∈ back.head?, c.isDigit = false) (hb' : ∀ c ∈ back'.head?, c.isDigit = false)
    (e : (toString n).toList ++ back = (toString n').toList ++ back') : n = n' ∧ back = back' := by
  obtain ⟨hdigits, hback⟩ := append_inj_of_head? (fun _ => isDigit_of_mem_toString)
    (fun _ => isDigit_of_mem_toString) hb hb' e
  rw [toList_toString, toList_toString] at hdigits
  have hvalue := congrArg (Nat.ofDigitChars 10 · 0) hdigits
  rw [Nat.ofDigitChars_toDigits (by decide) (by decide),
    Nat.ofDigitChars_toDigits (by decide) (by decide)] at hvalue
  exact ⟨hvalue, hback⟩

theorem Slot.toList_label (slot : Slot) : slot.label.toList =
    if slot.count > 1 then ' ' :: '(' :: ((toString slot.position).toList ++
      '/' :: ((toString slot.count).toList ++ [')'])) else [] := by
  unfold label
  split
  · show (" (" ++ toString slot.position ++ "/" ++ toString slot.count ++ ")").toList = _
    simp only [String.toList_append, List.append_assoc]
    rfl
  · rfl

/-- A slot is determined by its label if it is one of the places that there are. -/
theorem Slot.eq_of_label {slot slot' : Slot} (h : 1 ≤ slot.position ∧ slot.position ≤ slot.count)
    (h' : 1 ≤ slot'.position ∧ slot'.position ≤ slot'.count)
    (e : slot.label.toList = slot'.label.toList) : slot = slot' := by
  obtain ⟨position, count⟩ := slot
  obtain ⟨position', count'⟩ := slot'
  simp only [toList_label] at e h h'
  split at e
  · split at e
    · have slash : ∀ {back : List Char}, ∀ c ∈ ('/' :: back).head?, c.isDigit = false :=
        fun c hc => Option.mem_some.1 hc ▸ rfl
      have paren : ∀ c ∈ ([')'] : List Char).head?, c.isDigit = false :=
        fun c hc => Option.mem_some.1 hc ▸ rfl
      obtain ⟨rfl, hcount⟩ := toString_append_inj slash slash (List.cons.inj (List.cons.inj e).2).2
      obtain ⟨rfl, -⟩ := toString_append_inj paren paren (List.cons.inj hcount).2
      rfl
    · cases e
  · split at e
    · cases e
    · -- a node that shows no slot is the only one of its group
      obtain ⟨rfl, rfl⟩ : position = position' ∧ count = count' := by omega
      rfl

/-! ### Elements -/

namespace Element

variable {e e' : Element}

/-- What is written of an element in front of its slot. -/
def body (e : Element) : List Char :=
  e.name.toList ++ Attribute.labels e.attributes

theorem toList_label (e : Element) : e.label.toList = e.body ++ e.slot.label.toList := by
  simp [label, body, Attribute.labels, String.toList_join, List.flatMap_map]

theorem Worded.not_mem_body (h : e.Worded) {c : Char} (hc : isTextChar c = false)
    (hp : c ≠ '#' ∧ c ≠ '.') : c ∉ e.body := by
  have no_text : isTextChar c ≠ true := Bool.eq_false_iff.1 hc
  intro hm
  rcases List.mem_append.1 hm with hm | hm
  · exact no_text (h.isText.2 c hm)
  · rcases h.attributes.of_mem_labels hm with ht | rfl | rfl
    · exact no_text ht
    · exact hp.1 rfl
    · exact hp.2 rfl

theorem Worded.eq_of_body (h : e.Worded) (h' : e'.Worded) (he : e.body = e'.body) :
    e.name = e'.name ∧ e.attributes = e'.attributes := by
  obtain ⟨hname, hlabels⟩ := h.isText.append_inj h'.isText
    (fun c hc => (h.attributes.head_labels c hc).1) (fun c hc => (h'.attributes.head_labels c hc).1)
    he
  exact ⟨hname, h.attributes.eq_of_labels h'.attributes hlabels⟩

/-- An element's own data is determined by its label. -/
theorem Worded.eq_of_label (h : e.Worded) (h' : e'.Worded)
    (he : e.label.toList = e'.label.toList) :
    e.name = e'.name ∧ e.attributes = e'.attributes ∧ e.slot = e'.slot := by
  have inside : ∀ {e : Element}, e.Worded → ∀ c ∈ e.body, (c != ' ') = true := fun h c hc =>
    bne_iff_ne.2 fun hspace => h.not_mem_body rfl (by decide) (hspace ▸ hc)
  have behind : ∀ {slot : Slot}, ∀ c ∈ slot.label.toList.head?, (c != ' ') = false := by
    intro slot c hc
    rw [Slot.toList_label] at hc
    split at hc
    · exact Option.mem_some.1 hc ▸ rfl
    · cases hc
  rw [toList_label, toList_label] at he
  obtain ⟨hbody, hslot⟩ := append_inj_of_head? (inside h) (inside h') behind behind he
  obtain ⟨hname, hattributes⟩ := h.eq_of_body h' hbody
  exact ⟨hname, hattributes, Slot.eq_of_label ⟨h.position_pos, h.position_le⟩
    ⟨h'.position_pos, h'.position_le⟩ hslot⟩

theorem Worded.lineBreak_not_mem_label (h : e.Worded) : '\n' ∉ e.label.toList := by
  have digits : ∀ n : Nat, '\n' ∉ Nat.toDigits 10 n := fun n hm =>
    absurd (isDigit_of_mem_toString (toList_toString n ▸ hm)) (by decide)
  rw [toList_label, List.mem_append, not_or]
  refine ⟨h.not_mem_body rfl (by decide), ?_⟩
  rw [Slot.toList_label]
  split
  · simp [digits]
  · exact List.not_mem_nil

end Element

/-! ## Rows -/

namespace Outline

/-- The row of a node, below a margin. -/
def row (margin : String) (isLast : Bool) (e : Element) : List Char :=
  (margin ++ connector isLast ++ " " ++ e.label).toList

mutual

/-- A node with all that is below it. -/
def block (margin : String) (isLast : Bool) : Element → Block
  | ⟨name, attributes, slot, children⟩ =>
    ⟨row margin isLast ⟨name, attributes, slot, children⟩,
      blocks (margin ++ column isLast) children, none⟩

/-- Siblings with all that is below them. -/
def blocks (margin : String) : List Element → List Block
  | [] => []
  | e :: rest => block margin rest.isEmpty e :: blocks margin rest

end

theorem block_eq (margin : String) (isLast : Bool) (e : Element) : block margin isLast e =
    ⟨row margin isLast e, blocks (margin ++ column isLast) e.children, none⟩ := by
  obtain ⟨name, attributes, slot, children⟩ := e
  rw [block]

/-- An entry with all that is below it. -/
def Entry.block (entry : Entry) : Block :=
  Outline.block entry.margin entry.isLast entry.element

theorem map_block_entries (margin : String) (siblings : List Element) :
    (entries margin siblings).map Entry.block = blocks margin siblings := by
  induction siblings with
  | nil => rfl
  | cons e rest ih =>
    rw [blocks, ← ih]
    cases rest with
    | nil => rfl
    | cons next rest => rfl

/-- Entries are written as the lines of their blocks. -/
theorem toList_run (written : String) (pending : List Entry) :
    (run written pending).toList =
      written.toList ++ lines (Block.listed (pending.map Entry.block)) := by
  fun_induction run written pending with
  | case1 written => exact (List.append_nil _).symm
  | case2 written entry pending ih =>
    have hline : entry.line.toList = row entry.margin entry.isLast entry.element ++ ['\n'] :=
      String.toList_append
    rw [ih, List.map_append, Entry.below, map_block_entries, List.map_cons, Block.listed,
      Block.listed_append, Entry.block, block_eq, Block.rows, List.cons_append, lines_cons,
      String.toList_append, hline]
    simp [lines_append]

/-! ### Levels -/

/-- The margins below as many nodes as a depth says. -/
inductive IsMargin : Nat → String → Prop where
  | top : IsMargin 0 ""
  | deeper {depth : Nat} {margin : String} (isLast : Bool) :
      IsMargin depth margin → IsMargin (depth + 1) (margin ++ column isLast)

/-- The number of columns of a row, which end with spaces. -/
def level : List Char → Nat
  | _ :: ' ' :: rest => level rest + 1
  | _ => 0

theorem IsMargin.length_eq {depth : Nat} {margin : String} (h : IsMargin depth margin) :
    margin.toList.length = 2 * depth := by
  induction h with
  | top => rfl
  | deeper isLast _ ih =>
    rw [String.toList_append, List.length_append, ih]
    cases isLast <;> rfl

theorem IsMargin.level_append {depth : Nat} {margin : String} (h : IsMargin depth margin)
    (rest : List Char) : level (margin.toList ++ rest) = level rest + depth := by
  induction h generalizing rest with
  | top => rfl
  | @deeper depth margin isLast _ ih =>
    have hcolumn : level ((column isLast).toList ++ rest) = level rest + 1 := by
      cases isLast <;> rfl
    rw [String.toList_append, List.append_assoc, ih, hcolumn]
    omega

theorem IsMargin.lineBreak_not_mem {depth : Nat} {margin : String} (h : IsMargin depth margin) :
    '\n' ∉ margin.toList := by
  induction h with
  | top => exact List.not_mem_nil
  | deeper isLast _ ih =>
    rw [String.toList_append, List.mem_append, not_or]
    refine ⟨ih, ?_⟩
    cases isLast <;> decide

variable {depth : Nat} {margin margin' : String} {isLast isLast' : Bool} {e e' : Element}
  {siblings siblings' : List Element}

theorem toList_row (margin : String) (isLast : Bool) (e : Element) :
    row margin isLast e =
      margin.toList ++ ((connector isLast).toList ++ ' ' :: e.label.toList) := by
  simp [row]

theorem IsMargin.level_row (h : IsMargin depth margin) (isLast : Bool) (e : Element) :
    level (row margin isLast e) = depth := by
  rw [toList_row, h.level_append]
  cases isLast <;> exact Nat.zero_add depth

theorem mem_blocks {b : Block} (h : b ∈ blocks margin siblings) :
    ∃ e ∈ siblings, ∃ isLast, b = block margin isLast e := by
  induction siblings with
  | nil => cases h
  | cons e rest ih =>
    rw [blocks] at h
    rcases List.mem_cons.1 h with rfl | h
    · exact ⟨e, List.mem_cons_self, _, rfl⟩
    · obtain ⟨e', hm, isLast, rfl⟩ := ih h
      exact ⟨e', List.mem_cons_of_mem _ hm, isLast, rfl⟩

/-- The rows of an outline tell their levels; none is closed. -/
theorem fits_block (he : e.Legible) (h : IsMargin depth margin) (isLast : Bool) :
    (block margin isLast e).Fits level (fun _ => false) depth := by
  induction he generalizing depth margin isLast with
  | @mk e worded _ ih =>
    rw [block_eq]
    refine .mk (h.level_row isLast e) ?_ (fun b hb => ?_) rfl nofun
    · rw [toList_row, List.mem_append, List.mem_append, List.mem_cons, not_or, not_or, not_or]
      refine ⟨h.lineBreak_not_mem, ?_, by decide, worded.lineBreak_not_mem_label⟩
      cases isLast <;> decide
    · obtain ⟨child, hm, isLast', rfl⟩ := mem_blocks hb
      exact ih child hm (.deeper isLast h) isLast'

/-! ### Elements from blocks -/

theorem IsMargin.label_eq (h : IsMargin depth margin) (h' : IsMargin depth margin')
    (hrow : row margin isLast e = row margin' isLast' e') : e.label.toList = e'.label.toList := by
  rw [toList_row, toList_row] at hrow
  have hlength : margin.toList.length = margin'.toList.length := h.length_eq.trans h'.length_eq.symm
  have hmore := (List.append_inj hrow hlength).2
  have hsigns : (connector isLast).toList.length = (connector isLast').toList.length := by
    cases isLast <;> cases isLast' <;> decide
  exact (List.cons.inj (List.append_inj hmore hsigns).2).2

/-- Siblings are determined by their blocks if each of them is. -/
theorem blocks_inj_of (ih : ∀ e ∈ siblings, ∀ {margin margin' isLast isLast' e'},
      IsMargin depth margin → IsMargin depth margin' → e'.Legible →
      block margin isLast e = block margin' isLast' e' → e = e')
    (h : IsMargin depth margin) (h' : IsMargin depth margin')
    (legible : ∀ e' ∈ siblings', e'.Legible)
    (hb : blocks margin siblings = blocks margin' siblings') : siblings = siblings' := by
  induction siblings generalizing siblings' with
  | nil =>
    cases siblings' with
    | nil => rfl
    | cons e' rest' => cases hb
  | cons e rest next =>
    cases siblings' with
    | nil => cases hb
    | cons e' rest' =>
      obtain ⟨hlegible, hmore⟩ := List.forall_mem_cons.1 legible
      rw [blocks, blocks] at hb
      obtain ⟨hfirst, hrest⟩ := List.cons.inj hb
      rw [ih e List.mem_cons_self h h' hlegible hfirst,
        next (fun e hm => ih e (List.mem_cons_of_mem _ hm)) hmore hrest]

theorem block_inj (he : e.Legible) (h : IsMargin depth margin) (h' : IsMargin depth margin')
    (he' : e'.Legible) (hb : block margin isLast e = block margin' isLast' e') : e = e' := by
  induction he generalizing depth margin margin' isLast isLast' e' with
  | @mk e worded _ ih =>
    cases he' with
    | mk worded' legible' =>
      rw [block_eq, block_eq] at hb
      obtain ⟨hrow, hbelow, -⟩ := Block.mk.inj hb
      obtain ⟨hname, hattributes, hslot⟩ := worded.eq_of_label worded' (h.label_eq h' hrow)
      have hchildren : e.children = e'.children :=
        blocks_inj_of (fun child hm => ih child hm) (h.deeper isLast) (h'.deeper isLast') legible'
          hbelow
      cases e
      cases e'
      rw [Element.mk.injEq]
      exact ⟨hname, hattributes, hslot, hchildren⟩

end Outline

/-! ## Whole outlines -/

open Outline

theorem toList_outline (t : Arena) : t.outline.toList =
    (header t.count).toList ++ lines (Block.listed (blocks "" t.forest)) := by
  rw [Arena.outline, toList_run, map_block_entries]

/-- The header is one line. -/
theorem exists_header (count : Nat) :
    ∃ title, (header count).toList = title ++ ['\n'] ∧ '\n' ∉ title := by
  refine ⟨_, String.toList_append, ?_⟩
  rw [String.toList_append, List.mem_append, not_or]
  constructor
  · show '\n' ∉ ("⧉ " ++ toString count ++ " node").toList
    rw [String.toList_append, String.toList_append, List.mem_append, List.mem_append, not_or,
      not_or]
    exact ⟨⟨by decide, fun hm => absurd (isDigit_of_mem_toString hm) (by decide)⟩, by decide⟩
  · split <;> decide

/-- The outlines of two abbreviations are the same if and only if their trees are, but for
numbering. -/
theorem outline_eq_iff {first second : String} {t t' : Arena} (h : parse first = .ok t)
    (h' : parse second = .ok t') : t.outline = t'.outline ↔ t.forest = t'.forest := by
  have legible := legible_of_parse h
  have legible' := legible_of_parse h'
  constructor
  · intro e
    have e := congrArg String.toList e
    obtain ⟨title, htitle, hn⟩ := exists_header t.count
    obtain ⟨title', htitle', hn'⟩ := exists_header t'.count
    rw [toList_outline, toList_outline, htitle, htitle', List.append_assoc, List.append_assoc] at e
    have hlines := (append_lineBreak_inj hn hn' e).2
    have fits : ∀ {es : List Element}, (∀ e ∈ es, e.Legible) →
        ∀ b ∈ blocks "" es, b.Fits level (fun _ => false) 0 := by
      intro es legible b hb
      obtain ⟨e, hm, isLast, rfl⟩ := mem_blocks hb
      exact fits_block (legible e hm) .top isLast
    have hblocks := Block.eq_of_lines (fits legible) (fits legible') hlines
    exact blocks_inj_of (fun e hm => block_inj (legible e hm)) .top .top legible' hblocks
  · intro e
    rw [Arena.outline, Arena.outline, ← sizes_forest_of_parse h, ← sizes_forest_of_parse h', e]

/-- Names that look like signs of an outline do not hide what is below what. -/
theorem outline_ne_of_signs :
    ∃ t t', parse "a>├─+│" = .ok t ∧ parse "a>├─^│" = .ok t' ∧ t.outline ≠ t'.outline := by
  have hok : (parse "a>├─+│").isOk = true ∧ (parse "a>├─^│").isOk = true := by decide +kernel
  have hne : (parse "a>├─+│").map Arena.forest ≠ (parse "a>├─^│").map Arena.forest := by
    decide +kernel
  cases h : parse "a>├─+│" with
  | error e => rw [h] at hok; cases hok.1
  | ok t =>
    cases h' : parse "a>├─^│" with
    | error e => rw [h'] at hok; cases hok.2
    | ok t' =>
      rw [h, h'] at hne
      exact ⟨t, t', rfl, rfl, fun e => hne (congrArg Except.ok ((outline_eq_iff h h').1 e))⟩

end MarkupShorthand
