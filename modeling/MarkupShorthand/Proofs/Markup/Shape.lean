import MarkupShorthand.Proofs.Markup.Recursion
import MarkupShorthand.Proofs.Abbreviation.Words
import MarkupShorthand.Proofs.Listing

/-!
# Reading markup back

Names and values are written as they are, so that a closing tag can look like an opening one and
a value like an attribute. Still, plain markup with tabs tells what is below what: a row's tabs tell
its level, its first `>` ends the opening tag, behind which only a leaf has anything
(`Element.Legible.fits_block`), and the name ends at the first character that is in no text
(`Element.Worded.name_eq_of_head`). So the markup of two abbreviations is the same only where their
forests have the same names in the same places (`skeletons_eq_of_render_eq`).
-/

namespace MarkupShorthand

open Text

/-! ## Skeletons -/

namespace Element

/-- What holds of an element if it holds of its children holds of every element. -/
theorem induction {P : Element → Prop} (step : ∀ e, (∀ child ∈ e.children, P child) → P e)
    (e : Element) : P e :=
  step e fun child _ => induction step child
termination_by e.size
decreasing_by
  rename_i hm
  exact size_lt hm

mutual

/-- The names of an element and of those below it, where they are. -/
def skeleton : Element → Element
  | ⟨name, _, _, children⟩ => ⟨name, [], {}, skeletons children⟩

/-- The skeletons of elements. -/
def skeletons : List Element → List Element
  | [] => []
  | e :: rest => skeleton e :: skeletons rest

end

theorem skeletons_eq_map (elements : List Element) :
    skeletons elements = elements.map skeleton := by
  induction elements with
  | nil => rfl
  | cons e rest ih => rw [skeletons, ih, List.map_cons]

theorem skeleton_eq (e : Element) :
    e.skeleton = ⟨e.name, [], {}, e.children.map skeleton⟩ := by
  cases e
  rw [skeleton, skeletons_eq_map]

end Element

/-! ## Rows -/

/-- Markup without tab stops, with a tab for each level. -/
def RenderOptions.plain (numbering : Numbering) : RenderOptions :=
  { mode := .silent, numbering := numbering, indent := "\t" }

/-- An attribute of a node with number `index`, as it is written without tab stops. -/
def Attribute.plain (index : Nat) (a : Attribute) : List Char :=
  " ".toList ++ a.name.toList ++ "=\"".toList ++
    (" ".intercalate (a.values.map (Placeholder.substitute · index))).toList ++ ['"']

namespace Element

/-- What an opening tag with number `index` holds. -/
def tag (index : Nat) (e : Element) : List Char :=
  e.name.toList ++ e.attributes.flatMap (Attribute.plain index)

/-- The closing tag. -/
def closing (e : Element) : List Char :=
  '<' :: '/' :: (e.name.toList ++ ['>'])

/-- The first row: the opening tag, and for a leaf the closing tag. -/
def head (depth index : Nat) (e : Element) : List Char :=
  List.replicate depth '\t' ++ '<' :: (e.tag index ++
    '>' :: if e.children = [] then e.closing else [])

/-- The row that closes an element. -/
def foot? (depth : Nat) (e : Element) : Option (List Char) :=
  if e.children = [] then none
  else some (List.replicate depth '\t' ++ e.closing)

mutual

/-- An element at a depth with all that is below it, under a node with number `parentIndex`. -/
def block (numbering : Numbering) (depth parentIndex : Nat) : Element → Block
  | ⟨name, attributes, slot, children⟩ =>
    let index := numbering.index slot parentIndex
    ⟨head depth index ⟨name, attributes, slot, children⟩,
      blocks numbering (depth + 1) index children, foot? depth ⟨name, attributes, slot, children⟩⟩

/-- Elements of a list with all that is below them. -/
def blocks (numbering : Numbering) (depth parentIndex : Nat) : List Element → List Block
  | [] => []
  | e :: rest => block numbering depth parentIndex e :: blocks numbering depth parentIndex rest

end

variable {numbering : Numbering} {depth parentIndex parentIndex' : Nat} {e e' : Element}

theorem block_eq (numbering : Numbering) (depth parentIndex : Nat) (e : Element) :
    e.block numbering depth parentIndex =
      ⟨e.head depth (numbering.index e.slot parentIndex),
        blocks numbering (depth + 1) (numbering.index e.slot parentIndex) e.children,
        e.foot? depth⟩ := by
  cases e
  rw [block]

theorem blocks_eq_map (numbering : Numbering) (depth parentIndex : Nat) (elements : List Element) :
    blocks numbering depth parentIndex elements =
      elements.map (block numbering depth parentIndex) := by
  induction elements with
  | nil => rfl
  | cons e rest ih => rw [blocks, ih, List.map_cons]

end Element

/-! ## Lines -/

namespace Template

/-- A text as the characters that it has. -/
def chars (content : List Char) : Template :=
  text (String.ofList content)

theorem text_eq_chars (content : String) : text content = chars content.toList := by
  rw [chars, String.ofList_toList]

theorem chars_append_chars (front back : List Char) :
    chars front ++ chars back = chars (front ++ back) := by
  rw [chars, chars, text_append_text, ← String.ofList_append]
  rfl

theorem concat_chars {α : Type} (f : α → List Char) (l : List α) :
    concat (l.map fun a => chars (f a)) = chars (l.flatMap f) := by
  induction l with
  | nil => rfl
  | cons a l ih => rw [List.map_cons, concat, ih, chars_append_chars, List.flatMap_cons]

/-- Separated templates with one more separator behind them are the templates, each with one. -/
theorem joined_append (separator : String) (first : Template) (rest : List Template) :
    joined separator (first :: rest) ++ text separator =
      concat ((first :: rest).map (· ++ text separator)) := by
  induction rest generalizing first with
  | nil => simp [joined, concat]
  | cons next rest ih =>
    have ih := ih next
    simp only [joined, concat, List.map_cons, append_assoc] at ih ⊢
    rw [ih]

variable (numbering : Numbering) (depth parentIndex index : Nat) (e : Element)

theorem attr_plain (a : Attribute) : attr .silent index a = chars (a.plain index) := by
  rw [attr, Attribute.plain]
  simp only [text_eq_chars, place]
  cases a.values with
  | nil => simp [chars_append_chars]
  | cons value values => simp [chars_append_chars]

theorem indentation_plain : indentation (.plain numbering) depth =
    chars (List.replicate depth '\t') := by
  rw [indentation, text_eq_chars, String.toList_join, RenderOptions.plain]
  simp [List.flatMap_replicate]

theorem openTag_plain : openTag (.plain numbering) depth index e.name e.attributes =
    chars (List.replicate depth '\t' ++ '<' :: (e.tag index ++ ['>'])) := by
  have hattr : attr (RenderOptions.plain numbering).mode index = fun a => chars (a.plain index) :=
    funext (attr_plain index)
  rw [openTag, indentation_plain, hattr, concat_chars, text_eq_chars, text_eq_chars]
  simp [chars_append_chars, Element.tag]

theorem closeTag_plain : closeTag e.name = chars e.closing := by
  rw [closeTag, text_eq_chars]
  simp [Element.closing]

/-- Elements on lines of their own are written as the lines of their blocks if each of them is. -/
theorem joined_plain_of {elements : List Element} (hne : elements ≠ [])
    (ih : ∀ e ∈ elements, element (.plain numbering) depth parentIndex e ++ text "\n" =
      chars (lines (e.block numbering depth parentIndex).rows)) :
    joined "\n" (Template.elements (.plain numbering) depth parentIndex elements) ++ text "\n" =
      chars (lines (Block.listed (Element.blocks numbering depth parentIndex elements))) := by
  have hlines : ∀ es ⊆ elements,
      concat ((Template.elements (.plain numbering) depth parentIndex es).map (· ++ text "\n")) =
        chars (lines (Block.listed (Element.blocks numbering depth parentIndex es))) := by
    intro es hsub
    induction es with
    | nil => rfl
    | cons e es next =>
      obtain ⟨he, hes⟩ := List.cons_subset.1 hsub
      rw [Template.elements, List.map_cons, concat, ih e he, next hes, chars_append_chars,
        Element.blocks, Block.listed, lines_append]
  obtain ⟨first, rest, rfl⟩ := List.exists_cons_of_ne_nil hne
  rw [← hlines _ (List.Subset.refl _), Template.elements, joined_append]

/-- An element is written as the lines of its block. -/
theorem element_plain : element (.plain numbering) depth parentIndex e ++ text "\n" =
    chars (lines (e.block numbering depth parentIndex).rows) := by
  induction e using Element.induction generalizing depth parentIndex with
  | step e ih =>
    have hbreak : text "\n" = chars ['\n'] := rfl
    have hindex : (RenderOptions.plain numbering).numbering = numbering := rfl
    rw [Element.block_eq, Block.rows, lines_cons, lines_append, Element.head, Element.foot?]
    by_cases hc : e.children = []
    · have hplace : place (RenderOptions.plain numbering).mode = chars [] := rfl
      rw [element_of_leaf _ _ _ hc, openTag_plain, closeTag_plain, hplace, hbreak, hindex,
        if_pos hc, if_pos hc, hc]
      simp [chars_append_chars, Element.blocks, Block.listed, lines]
    · have hchildren := joined_plain_of numbering (depth + 1)
        (numbering.index e.slot parentIndex) hc fun child hm => ih child hm _ _
      rw [element_of_ne_nil _ _ _ hc, openTag_plain, closeTag_plain, indentation_plain, hindex,
        if_neg hc, if_neg hc]
      -- the line break behind the last child belongs to its line
      have regroup : ∀ opened children closed : Template,
          opened ++ (text "\n" ++ children ++ text "\n" ++ chars (List.replicate depth '\t')) ++
            closed ++ text "\n" =
          opened ++ text "\n" ++ (children ++ text "\n") ++
            (chars (List.replicate depth '\t') ++ closed ++ text "\n") := by
        simp only [append_assoc, implies_true]
      rw [regroup, hchildren, hbreak]
      simp [chars_append_chars, lines]

end Template

/-- Plain markup with a line break behind it is the lines of the forest. -/
theorem Arena.toList_render (t : Arena) (numbering : Numbering) (h : t.forest ≠ []) :
    (t.render (.plain numbering)).toList ++ ['\n'] =
      lines (Block.listed (Element.blocks numbering 0 1 t.forest)) := by
  have hwrites := (Output.writes_forest (.plain numbering) t.forest).1
  have hempty : ({} : Output).write = "" := rfl
  rw [hempty, String.empty_append] at hwrites
  have hlines := Template.joined_plain_of numbering 0 1 h fun e _ => Template.element_plain ..
  have hfirst := congrArg (fun a : Template => (a 1).1.toList) hlines
  rw [Arena.render, Element.render, hwrites]
  simpa [Template.append_def, Template.text, Template.chars, Template.forest] using hfirst

/-! ## Levels -/

namespace Element

/-- How many tabs a row starts with. -/
def level (row : List Char) : Nat :=
  (row.takeWhile (· == '\t')).length

/-- Whether a row ends with its first `>`, so that a closing one follows. -/
def isOpen (row : List Char) : Bool :=
  row.dropWhile (· != '>') == ['>']

variable {numbering : Numbering} {depth parentIndex parentIndex' index index' : Nat}
  {e e' : Element} {row front back : List Char}

theorem level_append (depth : Nat) (back : List Char) :
    level (List.replicate depth '\t' ++ '<' :: back) = depth := by
  rw [level, Token.takeWhile_append_of_head?, List.length_replicate]
  · intro c hc
    rw [List.eq_of_mem_replicate hc]
    rfl
  · exact fun c hc => Option.mem_some.1 hc ▸ rfl

theorem isOpen_append (h : '>' ∉ front) (back : List Char) :
    isOpen (front ++ '>' :: back) = decide (back = []) := by
  have inside : ∀ c ∈ front, (c != '>') = true := fun c hc => bne_iff_ne.2 fun e => h (e ▸ hc)
  have hdrop : (front ++ '>' :: back).dropWhile (· != '>') = '>' :: back := by
    rw [List.dropWhile_append_of_pos inside]
    rfl
  rw [isOpen, hdrop]
  cases back <;> rfl

/-! ### What is in a tag -/

theorem isTextChar_of_isDigit {c : Char} (h : c.isDigit = true) : isTextChar c = true := by
  obtain ⟨hs, hcontrol⟩ := of_isDigit h
  refine isTextChar_iff.2 ⟨hs, hcontrol, fun hp => ?_⟩
  rw [(of_mem_punctuation hp).2.1] at h
  cases h

/-- A number in the place of a placeholder leaves a text a text. -/
theorem isTextChar_of_mem_substitute {value : String} (hv : IsText value) {c : Char}
    (hc : c ∈ (Placeholder.substitute value index).toList) : isTextChar c = true := by
  have hparts := Placeholder.split_append value.toList
  rw [Placeholder.substitute] at hc
  split at hc
  · exact hv.2 c hc
  · rename_i before run after _ hsplit
    rw [hsplit] at hparts
    simp only [String.toList_ofList, List.mem_append] at hc
    rcases hc with (hc | hc) | hc
    · exact hv.2 c (hparts ▸ List.mem_append_left _ hc)
    · exact isTextChar_of_isDigit (isDigit_of_mem_padded c hc)
    · exact hv.2 c (hparts ▸ List.mem_append_right _ (List.mem_append_right _ hc))

theorem of_mem_intercalate {values : List String} {c : Char}
    (hc : c ∈ (" ".intercalate values).toList) : c = ' ' ∨ ∃ value ∈ values, c ∈ value.toList := by
  induction values with
  | nil => cases hc
  | cons value rest ih =>
    cases rest with
    | nil =>
      rw [String.intercalate_singleton] at hc
      exact .inr ⟨value, List.mem_cons_self, hc⟩
    | cons next rest =>
      rw [String.intercalate_cons_cons, String.toList_append, String.toList_append, List.mem_append,
        List.mem_append] at hc
      rcases hc with (hc | hc) | hc
      · exact .inr ⟨value, List.mem_cons_self, hc⟩
      · exact .inl (List.mem_singleton.1 hc)
      · exact (ih hc).imp_right fun ⟨v, hm, hc⟩ => ⟨v, List.mem_cons_of_mem _ hm, hc⟩

theorem isTextChar_of_mem_plain {a : Attribute} (h : a.IsWorded) {c : Char}
    (hc : c ∈ a.plain index) : isTextChar c = true ∨ c = ' ' := by
  obtain ⟨hname, hvalues⟩ := h.isText
  simp only [Attribute.plain, List.mem_append] at hc
  rcases hc with (((hc | hc) | hc) | hc) | hc
  · exact .inr (List.mem_singleton.1 hc)
  · exact .inl (hname.2 c hc)
  · have signs : ∀ c ∈ "=\"".toList, isTextChar c = true := List.all_eq_true.1 (by decide)
    exact .inl (signs c hc)
  · rcases of_mem_intercalate hc with hc | ⟨written, hm, hc⟩
    · exact .inr hc
    · obtain ⟨value, hv, rfl⟩ := List.mem_map.1 hm
      exact .inl (isTextChar_of_mem_substitute (hvalues value hv) hc)
  · exact .inl (List.mem_singleton.1 hc ▸ rfl)

/-- An opening tag is written with characters of texts and spaces. -/
theorem Worded.not_mem_tag (h : e.Worded) {c : Char} (htext : isTextChar c = false)
    (hspace : c ≠ ' ') : c ∉ e.tag index := by
  have no_text : isTextChar c ≠ true := Bool.eq_false_iff.1 htext
  intro hc
  rcases List.mem_append.1 hc with hc | hc
  · exact no_text (h.isText.2 c hc)
  · obtain ⟨a, ha, hc⟩ := List.mem_flatMap.1 hc
    exact (isTextChar_of_mem_plain (h.attributes.isWorded a ha) hc).elim no_text hspace

/-! ### Blocks -/

theorem lineBreak_not_mem_tabs (depth : Nat) : '\n' ∉ List.replicate depth '\t' := fun h =>
  absurd (List.eq_of_mem_replicate h) (by decide)

theorem Worded.lineBreak_not_mem_closing (h : e.Worded) : '\n' ∉ e.closing := by
  have hname : '\n' ∉ e.name.toList := fun hm => absurd (h.isText.2 _ hm) (by decide)
  simp [closing, hname]

theorem Worded.lineBreak_not_mem_head (h : e.Worded) : '\n' ∉ e.head depth index := by
  have hclosing : '\n' ∉ if e.children = [] then e.closing else [] := by
    split
    · exact h.lineBreak_not_mem_closing
    · exact List.not_mem_nil
  have htag : '\n' ∉ e.tag index := h.not_mem_tag rfl (by decide)
  simp [head, htag, hclosing]

/-- Behind its opening tag only a leaf has anything. -/
theorem Worded.isOpen_head (h : e.Worded) :
    isOpen (e.head depth index) = decide (e.children ≠ []) := by
  have hfront : '>' ∉ List.replicate depth '\t' ++ '<' :: e.tag index := by
    have htag : '>' ∉ e.tag index := h.not_mem_tag rfl (by decide)
    have htabs : '>' ∉ List.replicate depth '\t' := fun hm =>
      absurd (List.eq_of_mem_replicate hm) (by decide)
    simp [htag, htabs]
  have hhead : e.head depth index = List.replicate depth '\t' ++ '<' :: e.tag index ++
      '>' :: if e.children = [] then e.closing else [] := by
    simp [head]
  rw [hhead, isOpen_append hfront]
  by_cases hc : e.children = [] <;> simp [hc, closing]

/-- The rows of plain markup tell their levels, and the first row of an element whether there is a
closing one. -/
theorem Legible.fits_block (he : e.Legible) (numbering : Numbering) (depth parentIndex : Nat) :
    (e.block numbering depth parentIndex).Fits level isOpen depth := by
  induction he generalizing depth parentIndex with
  | @mk e worded _ ih =>
    rw [block_eq]
    refine .mk (level_append depth _) worded.lineBreak_not_mem_head (fun b hb => ?_) ?_
      fun row hrow => ?_
    · rw [blocks_eq_map] at hb
      obtain ⟨child, hm, rfl⟩ := List.mem_map.1 hb
      exact ih child hm _ _
    · rw [worded.isOpen_head, foot?]
      split <;> simp_all
    · rw [foot?] at hrow
      split at hrow
      · cases hrow
      · obtain rfl := Option.mem_some.1 hrow
        refine ⟨level_append depth _, fun hm => ?_⟩
        exact (List.mem_append.1 hm).elim (lineBreak_not_mem_tabs depth)
          worded.lineBreak_not_mem_closing

/-- Elements at one depth have the same name if they start with the same row. -/
theorem Worded.name_eq_of_head (h : e.Worded) (h' : e'.Worded)
    (hrow : e.head depth index = e'.head depth index') : e.name = e'.name := by
  have behind : ∀ {attributes : List Attribute} {index : Nat} {back : List Char},
      ∀ c ∈ (attributes.flatMap (Attribute.plain index) ++ '>' :: back).head?,
        isTextChar c = false := by
    intro attributes index back c hc
    cases attributes with
    | nil => exact Option.mem_some.1 hc ▸ rfl
    | cons a rest => exact Option.mem_some.1 hc ▸ rfl
  rw [head, head, tag, tag, List.append_assoc, List.append_assoc] at hrow
  have htags := (List.cons.inj (List.append_cancel_left hrow)).2
  exact (h.isText.append_inj h'.isText behind behind htags).1

/-- What two functions have in common at equal values they have at lists of them. -/
theorem map_eq_map_of {α β γ : Type} {f f' : α → β} {g : α → γ} {l l' : List α}
    (hg : ∀ a ∈ l, ∀ a' ∈ l', f a = f' a' → g a = g a') (h : l.map f = l'.map f') :
    l.map g = l'.map g := by
  induction l generalizing l' with
  | nil =>
    rw [List.map_eq_nil_iff.1 h.symm]
  | cons a l ih =>
    cases l' with
    | nil => cases h
    | cons a' l' =>
      obtain ⟨hfirst, hrest⟩ := List.cons.inj h
      rw [List.map_cons, List.map_cons, hg a List.mem_cons_self a' List.mem_cons_self hfirst,
        ih (fun a hm a' hm' => hg a (List.mem_cons_of_mem _ hm) a' (List.mem_cons_of_mem _ hm'))
          hrest]

/-- Elements at one depth have the same skeleton if they are written as the same rows. -/
theorem Legible.skeleton_eq_of_block (he : e.Legible) (he' : e'.Legible)
    (hb : e.block numbering depth parentIndex = e'.block numbering depth parentIndex') :
    e.skeleton = e'.skeleton := by
  induction he generalizing depth parentIndex parentIndex' e' with
  | @mk e worded _ ih =>
    cases he' with
    | mk worded' legible' =>
      rw [block_eq, block_eq] at hb
      obtain ⟨hrow, hbelow, -⟩ := Block.mk.inj hb
      rw [blocks_eq_map, blocks_eq_map] at hbelow
      have hchildren : e.children.map skeleton = e'.children.map skeleton :=
        map_eq_map_of (fun child hm child' hm' => ih child hm (legible' child' hm')) hbelow
      rw [skeleton_eq, skeleton_eq, worded.name_eq_of_head worded' hrow, hchildren]

end Element

/-- The forests of two abbreviations have the same names in the same places if their plain markup
with tabs is the same. -/
theorem skeletons_eq_of_render_eq {first second : String} {t t' : Arena} (numbering : Numbering)
    (h : parse first = .ok t) (h' : parse second = .ok t')
    (e : t.render { mode := .silent, numbering := numbering, indent := "\t" } =
      t'.render { mode := .silent, numbering := numbering, indent := "\t" }) :
    t.forest.map Element.skeleton = t'.forest.map Element.skeleton := by
  have legible := legible_of_parse h
  have legible' := legible_of_parse h'
  have hlines := t.toList_render numbering (forest_ne_nil_of_parse h)
  rw [show t.render (.plain numbering) = t'.render (.plain numbering) from e,
    t'.toList_render numbering (forest_ne_nil_of_parse h')] at hlines
  have fits : ∀ {elements : List Element}, (∀ e ∈ elements, e.Legible) →
      ∀ b ∈ Element.blocks numbering 0 1 elements, b.Fits Element.level Element.isOpen 0 := by
    intro elements legible b hb
    rw [Element.blocks_eq_map] at hb
    obtain ⟨e, hm, rfl⟩ := List.mem_map.1 hb
    exact (legible e hm).fits_block numbering 0 1
  have hblocks := Block.eq_of_lines (fits legible) (fits legible') hlines.symm
  rw [Element.blocks_eq_map, Element.blocks_eq_map] at hblocks
  exact Element.map_eq_map_of (fun e hm e' hm' =>
    (legible e hm).skeleton_eq_of_block (legible' e' hm')) hblocks

/-- A name that starts like a closing tag, with a placeholder and with its number. -/
theorem skeletons_eq_of_slash_name :
    ∃ t t', parse "b>/b.i$+b" = .ok t ∧ parse "b>/b.i1+b" = .ok t' ∧
      t.render { mode := .silent, numbering := .stacked, indent := "\t" } =
        t'.render { mode := .silent, numbering := .stacked, indent := "\t" } ∧
      t.forest.map Element.skeleton = t'.forest.map Element.skeleton := by
  have hok : (parse "b>/b.i$+b").isOk = true ∧ (parse "b>/b.i1+b").isOk = true := by
    decide +kernel
  have hsame : (parse "b>/b.i$+b").map (·.render (.plain .stacked)) =
      (parse "b>/b.i1+b").map (·.render (.plain .stacked)) := by
    decide +kernel
  cases h : parse "b>/b.i$+b" with
  | error e => rw [h] at hok; cases hok.1
  | ok t =>
    cases h' : parse "b>/b.i1+b" with
    | error e => rw [h'] at hok; cases hok.2
    | ok t' =>
      rw [h, h'] at hsame
      have e := Except.ok.inj hsame
      exact ⟨t, t', rfl, rfl, e, skeletons_eq_of_render_eq .stacked h h' e⟩

end MarkupShorthand
