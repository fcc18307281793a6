import MarkupShorthand.Proofs.Json.Scanning

/-!
# Reading values back

What is written of a value does not depend on what stands before it (`toList_write`), so its
characters are a function of the value and its depth (`chars`). In front of anything that does not go
on with a number they are read as the value that they were written for (`value_chars`). For lists
and objects that is shown of their items, given it of each of them.
-/

namespace MarkupShorthand.Json

open Text

/-! ## The characters of a value -/

/-- A line break and the indentation behind it. -/
def lineBreak (depth : Nat) : List Char :=
  '\n' :: List.replicate (2 * depth) ' '

/-- What stands before the value of a field. -/
def fieldStart (name : Option String) : List Char :=
  (quote (name.getD "")).toList ++ [':', ' ']

mutual

/-- The characters of a value at a depth. -/
def chars (depth : Nat) : Json → List Char
  | null => ['n', 'u', 'l', 'l']
  | bool true => ['t', 'r', 'u', 'e']
  | bool false => ['f', 'a', 'l', 's', 'e']
  | number literal => literal
  | string text => (quote (text.getD "")).toList
  | array [] => ['[', ']']
  | array (item :: rest) =>
    '[' :: (lineBreak (depth + 1) ++ (item.chars (depth + 1) ++ charsBehind depth rest))
  | object [] => ['\x7b', '\x7d']
  | object ((name, value) :: rest) =>
    '\x7b' :: (lineBreak (depth + 1) ++
      (fieldStart name ++ (value.chars (depth + 1) ++ fieldCharsBehind depth rest)))

/-- The characters behind an item of a list: the items that follow, and the bracket at the end. -/
def charsBehind (depth : Nat) : List Json → List Char
  | [] => lineBreak depth ++ [']']
  | item :: rest =>
    ',' :: (lineBreak (depth + 1) ++ (item.chars (depth + 1) ++ charsBehind depth rest))

/-- The characters behind a field: the fields that follow, and the brace at the end. -/
def fieldCharsBehind (depth : Nat) : List (Option String × Json) → List Char
  | [] => lineBreak depth ++ ['\x7d']
  | (name, value) :: rest =>
    ',' :: (lineBreak (depth + 1) ++
      (fieldStart name ++ (value.chars (depth + 1) ++ fieldCharsBehind depth rest)))

end

/-- Fields under names that are texts. -/
def named (fields : List (String × Json)) : List (Option String × Json) :=
  fields.map fun (name, value) => (some name, value)

theorem named_nil : named [] = [] := rfl

theorem named_cons (field : String × Json) (rest : List (String × Json)) :
    named (field :: rest) = (some field.1, field.2) :: named rest := rfl

theorem ofFields_eq (fields : List (String × Json)) : ofFields fields = object (named fields) := rfl

theorem toList_pushn (text : String) (c : Char) (n : Nat) :
    (text.pushn c n).toList = text.toList ++ List.replicate n c := by
  induction n with
  | zero => simp [String.pushn, Nat.repeat]
  | succ n ih =>
    rw [String.pushn, Nat.repeat, String.toList_push, ← String.pushn, ih, List.append_assoc,
      ← List.replicate_succ']

theorem toList_newline (depth : Nat) : (newline depth).toList = lineBreak depth := by
  simp [newline, lineBreak, toList_pushn]

mutual

/-- Writing puts the characters of a value behind what is already written. -/
theorem toList_write (depth : Nat) (written : String) (value : Json) :
    (value.write depth written).toList = written.toList ++ value.chars depth := by
  match value with
  | null => simp [write, chars]
  | bool true => simp [write, chars]
  | bool false => simp [write, chars]
  | number literal => simp [write, chars]
  | string text => simp [write, chars]
  | array [] => simp [write, chars]
  | array (item :: rest) =>
    rw [write, toList_writeItems, toList_write]
    simp [chars, toList_newline]
  | object [] => simp [write, chars]
  | object ((name, value) :: rest) =>
    rw [write, toList_writeFields, toList_write]
    simp [chars, fieldStart, toList_newline]

theorem toList_writeItems (depth : Nat) (written : String) (items : List Json) :
    (writeItems (depth + 1) written items ++ newline depth ++ "]").toList =
      written.toList ++ charsBehind depth items := by
  match items with
  | [] => simp [writeItems, charsBehind, toList_newline]
  | item :: rest =>
    rw [writeItems, toList_writeItems, toList_write]
    simp [charsBehind, toList_newline]

theorem toList_writeFields (depth : Nat) (written : String)
    (fields : List (Option String × Json)) :
    (writeFields (depth + 1) written fields ++ newline depth ++ "\x7d").toList =
      written.toList ++ fieldCharsBehind depth fields := by
  match fields with
  | [] => simp [writeFields, fieldCharsBehind, toList_newline]
  | (name, value) :: rest =>
    rw [writeFields, toList_writeFields, toList_write]
    simp [fieldCharsBehind, fieldStart, toList_newline]

end

theorem toList_pretty (value : Json) : value.pretty.toList = value.chars 0 := by
  rw [pretty, toList_write]
  rfl

/-! ## Blanks -/

theorem skipBlanks_lineBreak (depth : Nat) (rest : List Char) :
    skipBlanks (lineBreak depth ++ rest) = skipBlanks rest := by
  have hblank : ∀ c ∈ lineBreak depth, isBlank c = true := by
    intro c hc
    rcases List.mem_cons.1 hc with rfl | hc
    · rfl
    · rw [List.eq_of_mem_replicate hc]
      rfl
  rw [skipBlanks, List.dropWhile_append_of_pos hblank, skipBlanks]

theorem skipBlanks_cons {c : Char} (h : isBlank c = false) (rest : List Char) :
    skipBlanks (c :: rest) = c :: rest := by
  simp [skipBlanks, h]

/-! ## Values -/

/-- Whether a value has a text of its own: its numbers are decimal, and its strings and the names of
its fields are texts. -/
inductive Plain : Json → Prop where
  | null : Plain null
  | bool (b : Bool) : Plain (bool b)
  | number (n : Nat) : Plain (ofNat n)
  | string (text : String) : Plain (ofString text)
  | array {items : List Json} : (∀ item ∈ items, Plain item) → Plain (array items)
  | object {fields : List (String × Json)} : (∀ field ∈ fields, Plain field.2) →
      Plain (ofFields fields)

theorem ne_of_isDigit {c d : Char} (hc : c.isDigit = true) (hd : d.isDigit = false) : c ≠ d := by
  rintro rfl
  rw [hc] at hd
  cases hd

theorem isBlank_of_isDigit {c : Char} (h : c.isDigit = true) : isBlank c = false := by
  simp only [isBlank, Bool.or_eq_false_iff, beq_eq_false_iff_ne]
  exact ⟨⟨⟨ne_of_isDigit h rfl, ne_of_isDigit h rfl⟩, ne_of_isDigit h rfl⟩, ne_of_isDigit h rfl⟩

/-- A value starts with no blank, and with nothing that closes a list. -/
theorem Plain.head {value : Json} (h : Plain value) (depth : Nat) :
    ∃ c more, value.chars depth = c :: more ∧ isBlank c = false ∧ c ≠ ']' := by
  cases h with
  | null => exact ⟨_, _, by rw [chars], rfl, by decide⟩
  | bool b => cases b <;> exact ⟨_, _, by rw [chars], rfl, by decide⟩
  | number n =>
    obtain ⟨c, digits, hc⟩ := List.exists_cons_of_ne_nil (decimal_ne_nil n)
    have hdigit := isDigit_of_mem_decimal c (hc ▸ List.mem_cons_self)
    exact ⟨c, digits, by rw [ofNat, chars, hc], isBlank_of_isDigit hdigit, ne_of_isDigit hdigit rfl⟩
  | string text => exact ⟨_, _, by rw [ofString, chars, toList_quote], rfl, by decide⟩
  | @array items =>
    cases items with
    | nil => exact ⟨_, _, by rw [chars], rfl, by decide⟩
    | cons item rest => exact ⟨_, _, by rw [chars], rfl, by decide⟩
  | @object fields =>
    cases fields with
    | nil => exact ⟨_, _, by rw [ofFields, List.map_nil, chars], rfl, by decide⟩
    | cons field rest => exact ⟨_, _, by rw [ofFields, List.map_cons, chars], rfl, by decide⟩

theorem value_decimal (n steps : Nat) {rest : List Char} (h : EndsNumber rest) :
    value (steps + 1) (decimal n ++ rest) = some (ofNat n, rest) := by
  obtain ⟨c, digits, hc⟩ := List.exists_cons_of_ne_nil (decimal_ne_nil n)
  have hdigit := isDigit_of_mem_decimal c (hc ▸ List.mem_cons_self)
  have hnumber := numberLiteral_decimal n h
  rw [hc, List.cons_append] at hnumber ⊢
  rw [value, skipBlanks_cons (isBlank_of_isDigit hdigit)]
  split
  case h_7 => rw [hnumber, ofNat, hc]; rfl
  all_goals
    rename_i e
    exact absurd (List.cons.inj e).1 (ne_of_isDigit hdigit rfl)

/-- Blanks in front of a value do not matter, nor do they in front of items and fields. -/
theorem value_congr (steps : Nat) {cs cs' : List Char} (h : skipBlanks cs = skipBlanks cs') :
    value steps cs = value steps cs' := by
  cases steps with
  | zero => rfl
  | succ steps => rw [value, value, h]

theorem items_congr (steps : Nat) {cs cs' : List Char} (h : skipBlanks cs = skipBlanks cs') :
    items steps cs = items steps cs' := by
  cases steps with
  | zero => rfl
  | succ steps => rw [items, items, value_congr steps h]

theorem fields_congr (steps : Nat) {cs cs' : List Char} (h : skipBlanks cs = skipBlanks cs') :
    fields steps cs = fields steps cs' := by
  cases steps with
  | zero => rfl
  | succ steps => rw [fields, fields, h]

/-- Whether a value is read back wherever it stands. -/
def ReadsBack (value : Json) : Prop :=
  ∀ (depth steps : Nat) {rest : List Char}, EndsNumber rest →
    2 * (value.chars depth).length ≤ steps →
    Json.value steps (value.chars depth ++ rest) = some (value, rest)

theorem endsNumber_charsBehind (depth : Nat) (rest : List Json) (after : List Char) :
    EndsNumber (charsBehind depth rest ++ after) := by
  intro c hc
  cases rest with
  | nil =>
    rw [charsBehind] at hc
    exact Option.mem_some.1 hc ▸ rfl
  | cons item rest =>
    rw [charsBehind] at hc
    exact Option.mem_some.1 hc ▸ rfl

theorem endsNumber_fieldCharsBehind (depth : Nat) (rest : List (Option String × Json))
    (after : List Char) : EndsNumber (fieldCharsBehind depth rest ++ after) := by
  intro c hc
  cases rest with
  | nil =>
    rw [fieldCharsBehind] at hc
    exact Option.mem_some.1 hc ▸ rfl
  | cons field rest =>
    rw [fieldCharsBehind] at hc
    exact Option.mem_some.1 hc ▸ rfl

/-- Items are read back if each of them is. -/
theorem items_chars {item : Json} {rest : List Json} (h : ∀ value ∈ item :: rest, ReadsBack value)
    (depth : Nat) (after : List Char) (steps : Nat)
    (hs : 2 * (item.chars (depth + 1) ++ charsBehind depth rest).length ≤ steps) :
    items steps (item.chars (depth + 1) ++ (charsBehind depth rest ++ after)) =
      some (item :: rest, after) := by
  induction rest generalizing item steps with
  | nil =>
    obtain ⟨steps, rfl⟩ : ∃ n, steps = n + 1 := ⟨steps - 1, by simp [charsBehind] at hs; omega⟩
    have hitem := h item List.mem_cons_self (depth + 1) steps
      (endsNumber_charsBehind depth [] after) (by simp [charsBehind] at hs; omega)
    rw [items, hitem, charsBehind, List.append_assoc]
    simp only [Option.bind_eq_bind, Option.bind_some, skipBlanks_lineBreak]
    rfl
  | cons next rest ih =>
    obtain ⟨steps, rfl⟩ : ∃ n, steps = n + 1 := ⟨steps - 1, by simp [charsBehind] at hs; omega⟩
    have hitem := h item List.mem_cons_self (depth + 1) steps
      (endsNumber_charsBehind depth (next :: rest) after) (by simp [charsBehind] at hs; omega)
    have hrest := ih (fun value hm => h value (List.mem_cons_of_mem _ hm)) steps
      (by simp [charsBehind] at hs ⊢; omega)
    rw [items, hitem, charsBehind]
    simp only [Option.bind_eq_bind, Option.bind_some, List.cons_append, List.append_assoc,
      skipBlanks_cons (show isBlank ',' = false from rfl),
      items_congr steps (skipBlanks_lineBreak _ _), hrest]
    rfl

/-- Behind the name of a field stands its value. -/
theorem fields_fieldStart (steps : Nat) (name : String) (chars : List Char) :
    fields (steps + 1) (fieldStart (some name) ++ chars) = (do
      let (value, rest) ← value steps chars
      match skipBlanks rest with
      | ',' :: rest =>
        let (more, after) ← fields steps rest
        return ((some name, value) :: more, after)
      | '\x7d' :: after => return ([(some name, value)], after)
      | _ => none) := by
  have hvalue : value steps (' ' :: chars) = value steps chars := value_congr steps rfl
  rw [fieldStart, Option.getD_some, toList_quote, fields]
  simp only [List.cons_append, List.append_assoc, List.nil_append,
    skipBlanks_cons (show isBlank '\x22' = false from rfl), stringText_quote, Option.bind_eq_bind,
    Option.bind_some, skipBlanks_cons (show isBlank ':' = false from rfl)]
  exact congrArg (Option.bind · _) hvalue

/-- Fields are read back if the value of each of them is. -/
theorem fields_chars {field : String × Json} {rest : List (String × Json)}
    (h : ∀ f ∈ field :: rest, ReadsBack f.2) (depth : Nat) (after : List Char) (steps : Nat)
    (hs : 2 * (fieldStart (some field.1) ++
      (field.2.chars (depth + 1) ++ fieldCharsBehind depth (named rest))).length ≤ steps) :
    fields steps (fieldStart (some field.1) ++
        (field.2.chars (depth + 1) ++ (fieldCharsBehind depth (named rest) ++ after))) =
      some (named (field :: rest), after) := by
  induction rest generalizing field steps with
  | nil =>
    obtain ⟨steps, rfl⟩ : ∃ n, steps = n + 1 := ⟨steps - 1, by simp [fieldStart] at hs; omega⟩
    have hvalue := h field List.mem_cons_self (depth + 1) steps
      (endsNumber_fieldCharsBehind depth [] after) (by simp [fieldStart] at hs; omega)
    rw [fields_fieldStart, named_nil, hvalue, fieldCharsBehind, List.append_assoc]
    simp only [Option.bind_eq_bind, Option.bind_some, skipBlanks_lineBreak]
    rfl
  | cons next rest ih =>
    obtain ⟨steps, rfl⟩ : ∃ n, steps = n + 1 := ⟨steps - 1, by simp [fieldStart] at hs; omega⟩
    have hvalue := h field List.mem_cons_self (depth + 1) steps
      (endsNumber_fieldCharsBehind depth (named (next :: rest)) after)
      (by simp [fieldStart] at hs; omega)
    have hrest := ih (fun f hm => h f (List.mem_cons_of_mem _ hm)) steps
      (by simp [named_cons, fieldCharsBehind] at hs ⊢; omega)
    rw [fields_fieldStart, hvalue, named_cons, fieldCharsBehind]
    simp only [Option.bind_eq_bind, Option.bind_some, List.cons_append, List.append_assoc,
      skipBlanks_cons (show isBlank ',' = false from rfl),
      fields_congr steps (skipBlanks_lineBreak _ _), hrest]
    rfl

/-- A value that has a text of its own takes a step to be read. -/
theorem ReadsBack.of {value : Json} (h : Plain value)
    (hread : ∀ (depth steps : Nat) {rest : List Char}, EndsNumber rest →
      2 * (value.chars depth).length ≤ steps + 1 →
      Json.value (steps + 1) (value.chars depth ++ rest) = some (value, rest)) :
    ReadsBack value := by
  intro depth steps rest hr hs
  obtain ⟨c, more, hc, -⟩ := h.head depth
  obtain ⟨steps, rfl⟩ : ∃ n, steps = n + 1 := ⟨steps - 1, by simp [hc] at hs; omega⟩
  exact hread depth steps hr hs

/-- Every value that has a text of its own is read back from it. -/
theorem Plain.readsBack {value : Json} (h : Plain value) : ReadsBack value := by
  induction h with
  | null => exact .of .null fun _ _ _ _ _ => rfl
  | bool b =>
    refine .of (.bool b) fun _ _ _ _ _ => ?_
    cases b <;> rfl
  | number n => exact .of (.number n) fun _ steps _ hr _ => value_decimal n steps hr
  | string text =>
    refine .of (.string text) fun depth steps rest _ _ => ?_
    rw [ofString, chars, Option.getD_some, toList_quote, Json.value]
    simp only [List.cons_append, List.append_assoc, List.nil_append,
      skipBlanks_cons (show isBlank '\x22' = false from rfl), stringText_quote]
    rfl
  | @array items plain ih =>
    refine .of (.array plain) fun depth steps rest _ hs => ?_
    cases items with
    | nil => rfl
    | cons item more =>
      obtain ⟨c, behind, hc, hblank, hclose⟩ := (plain item List.mem_cons_self).head (depth + 1)
      have hitems := items_chars ih depth rest steps (by simp [chars] at hs ⊢; omega)
      rw [hc, List.cons_append] at hitems
      rw [chars, Json.value]
      simp only [List.cons_append, List.append_assoc, skipBlanks_lineBreak,
        skipBlanks_cons (show isBlank '[' = false from rfl), hc, skipBlanks_cons hblank]
      split
      · rename_i e
        exact absurd (List.cons.inj e).1 hclose
      · rw [hitems]
        rfl
  | @object fields plain ih =>
    refine .of (.object plain) fun depth steps rest _ hs => ?_
    cases fields with
    | nil => rfl
    | cons field more =>
      have hfields := fields_chars ih depth rest steps (by simp [ofFields_eq, named_cons, chars] at hs ⊢; omega)
      rw [fieldStart, Option.getD_some, toList_quote] at hfields
      rw [ofFields_eq, named_cons, chars, Json.value, fieldStart, Option.getD_some, toList_quote]
      simp only [List.cons_append, List.append_assoc, skipBlanks_lineBreak,
        skipBlanks_cons (show isBlank '\x7b' = false from rfl),
        skipBlanks_cons (show isBlank '\x22' = false from rfl)] at hfields ⊢
      exact congrArg (Option.map fun (fields, after) => (Json.object fields, after)) hfields

/-- So is a whole text. -/
theorem ofText?_pretty {value : Json} (h : Plain value) : ofText? value.pretty = some value := by
  have hvalue := h.readsBack 0 (2 * (value.chars 0).length + 1) (by exact nofun : EndsNumber [])
    (Nat.le_succ _)
  rw [List.append_nil] at hvalue
  rw [ofText?, toList_pretty, hvalue]
  rfl

end MarkupShorthand.Json
