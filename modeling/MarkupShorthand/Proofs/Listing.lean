import MarkupShorthand.Proofs.Abbreviation.Lexing

/-!
# Listings

Trees listed line by line. A block is a row with the blocks below it and perhaps a row that closes
it, and its rows are listed in this order (`Block.rows`). Where each row tells its level and whether
it is closed (`Block.Fits`), the rows determine the blocks (`Block.listed_inj_of`), and so do the
lines, as no row has a line break in it (`Block.eq_of_lines`).
-/

namespace MarkupShorthand

/-! ## Lines -/

/-- Rows, each with a line break behind it. -/
def lines (rows : List (List Char)) : List Char :=
  rows.flatMap (· ++ ['\n'])

/-- Where a text ends is seen from what is in it and what comes behind it. -/
theorem append_inj_of_head? {α : Type} {p : α → Bool} {front front' back back' : List α}
    (hf : ∀ a ∈ front, p a = true) (hf' : ∀ a ∈ front', p a = true)
    (hb : ∀ a ∈ back.head?, p a = false) (hb' : ∀ a ∈ back'.head?, p a = false)
    (e : front ++ back = front' ++ back') : front = front' ∧ back = back' := by
  have h := congrArg (List.takeWhile p) e
  rw [Token.takeWhile_append_of_head? hf hb, Token.takeWhile_append_of_head? hf' hb'] at h
  obtain rfl := h
  exact ⟨rfl, List.append_cancel_left e⟩

/-- So a name or a value ends at the first character that is in none. -/
theorem IsText.append_inj {text text' : String} {back back' : List Char} (h : IsText text)
    (h' : IsText text') (hb : ∀ c ∈ back.head?, isTextChar c = false)
    (hb' : ∀ c ∈ back'.head?, isTextChar c = false)
    (e : text.toList ++ back = text'.toList ++ back') : text = text' ∧ back = back' := by
  obtain ⟨htext, hback⟩ := append_inj_of_head? h.2 h'.2 hb hb' e
  exact ⟨String.toList_inj.1 htext, hback⟩

/-- A line ends at the first line break. -/
theorem append_lineBreak_inj {row row' more more' : List Char} (h : '\n' ∉ row) (h' : '\n' ∉ row')
    (e : row ++ '\n' :: more = row' ++ '\n' :: more') : row = row' ∧ more = more' := by
  have inside : ∀ {row : List Char}, '\n' ∉ row → ∀ c ∈ row, (c != '\n') = true := fun hn c hc =>
    bne_iff_ne.2 fun e => hn (e ▸ hc)
  have behind : ∀ {more : List Char}, ∀ c ∈ ('\n' :: more).head?, (c != '\n') = false :=
    fun c hc => Option.mem_some.1 hc ▸ rfl
  obtain ⟨hrow, hmore⟩ := append_inj_of_head? (inside h) (inside h') behind behind e
  exact ⟨hrow, (List.cons.inj hmore).2⟩

theorem lines_cons (row : List Char) (rows : List (List Char)) :
    lines (row :: rows) = row ++ '\n' :: lines rows := by
  rw [lines, List.flatMap_cons, List.append_assoc]
  rfl

theorem lines_append (rows rows' : List (List Char)) :
    lines (rows ++ rows') = lines rows ++ lines rows' :=
  List.flatMap_append

theorem lines_inj {rows rows' : List (List Char)} (h : ∀ row ∈ rows, '\n' ∉ row)
    (h' : ∀ row ∈ rows', '\n' ∉ row) (e : lines rows = lines rows') : rows = rows' := by
  induction rows generalizing rows' with
  | nil =>
    cases rows' with
    | nil => rfl
    | cons row' rows' => simp [lines] at e
  | cons row rows ih =>
    cases rows' with
    | nil => simp [lines] at e
    | cons row' rows' =>
      obtain ⟨hrow, hrows⟩ := List.forall_mem_cons.1 h
      obtain ⟨hrow', hrows'⟩ := List.forall_mem_cons.1 h'
      rw [lines_cons, lines_cons] at e
      obtain ⟨rfl, hmore⟩ := append_lineBreak_inj hrow hrow' e
      rw [ih hrows hrows' hmore]

/-! ## Blocks -/

/-- A row, what is listed below it, and the row that closes it. -/
inductive Block where
  | mk (head : List Char) (below : List Block) (foot : Option (List Char))

namespace Block

mutual

/-- The rows of a block. -/
def rows : Block → List (List Char)
  | ⟨head, below, foot⟩ => head :: (listed below ++ foot.toList)

/-- The rows of blocks one behind the other. -/
def listed : List Block → List (List Char)
  | [] => []
  | block :: rest => block.rows ++ listed rest

end

theorem listed_append (blocks blocks' : List Block) :
    listed (blocks ++ blocks') = listed blocks ++ listed blocks' := by
  induction blocks with
  | nil => rfl
  | cons block blocks ih => rw [List.cons_append, listed, listed, ih, List.append_assoc]

variable {level : List Char → Nat} {closed : List Char → Bool} {depth : Nat}
  {blocks blocks' : List Block} {block block' : Block} {rest rest' : List (List Char)}

/-- Whether the rows of a block tell that they are at a depth, those below it that they are deeper,
and its first row whether there is a closing one; and whether all rows are one line. -/
inductive Fits (level : List Char → Nat) (closed : List Char → Bool) : Nat → Block → Prop where
  | mk {depth : Nat} {head : List Char} {below : List Block} {foot : Option (List Char)} :
      level head = depth → '\n' ∉ head → (∀ block ∈ below, Fits level closed (depth + 1) block) →
      foot.isSome = closed head → (∀ row ∈ foot, level row = depth ∧ '\n' ∉ row) →
      Fits level closed depth ⟨head, below, foot⟩

/-! ### From rows to blocks -/

theorem Fits.exists_cons (h : Fits level closed depth block) :
    ∃ head more, block.rows = head :: more ∧ level head = depth := by
  cases h with
  | mk hl => exact ⟨_, _, rfl, hl⟩

/-- Blocks start with a row at their depth. -/
theorem level_head?_le (h : ∀ block ∈ blocks, Fits level closed depth block)
    (hr : ∀ row ∈ rest.head?, level row ≤ depth) :
    ∀ row ∈ (listed blocks ++ rest).head?, level row ≤ depth := by
  cases blocks with
  | nil => exact hr
  | cons block blocks =>
    obtain ⟨head, more, hrows, hl⟩ := (h block List.mem_cons_self).exists_cons
    intro row hm
    rw [listed, hrows] at hm
    obtain rfl := Option.mem_some.1 hm
    exact Nat.le_of_eq hl

/-- Rows above the depth of a block are not its rows. -/
theorem ne_listed_cons (h : Fits level closed depth block)
    (hr : ∀ row ∈ rest.head?, level row < depth) : rest ≠ listed (block :: blocks) ++ rest' := by
  obtain ⟨head, more, hrows, hl⟩ := h.exists_cons
  rintro rfl
  rw [listed, hrows] at hr
  exact Nat.ne_of_lt (hr head rfl) hl

/-- Blocks are determined by their rows if each of them is. -/
theorem listed_inj_of (ih : ∀ block ∈ blocks, ∀ {block' rest rest'},
      Fits level closed depth block' → (∀ row ∈ rest.head?, level row ≤ depth) →
      (∀ row ∈ rest'.head?, level row ≤ depth) → block.rows ++ rest = block'.rows ++ rest' →
      block = block' ∧ rest = rest')
    (h : ∀ block ∈ blocks, Fits level closed depth block)
    (h' : ∀ block ∈ blocks', Fits level closed depth block)
    (hr : ∀ row ∈ rest.head?, level row < depth) (hr' : ∀ row ∈ rest'.head?, level row < depth)
    (e : listed blocks ++ rest = listed blocks' ++ rest') : blocks = blocks' ∧ rest = rest' := by
  induction blocks generalizing blocks' with
  | nil =>
    cases blocks' with
    | nil => exact ⟨rfl, e⟩
    | cons block' blocks' => exact absurd e (ne_listed_cons (h' block' List.mem_cons_self) hr)
  | cons block blocks next =>
    obtain ⟨hblock, hmore⟩ := List.forall_mem_cons.1 h
    cases blocks' with
    | nil => exact absurd e.symm (ne_listed_cons hblock hr')
    | cons block' blocks' =>
      obtain ⟨hblock', hmore'⟩ := List.forall_mem_cons.1 h'
      rw [listed, listed, List.append_assoc, List.append_assoc] at e
      obtain ⟨rfl, hnext⟩ := ih block List.mem_cons_self hblock'
        (level_head?_le hmore fun row hm => Nat.le_of_lt (hr row hm))
        (level_head?_le hmore' fun row hm => Nat.le_of_lt (hr' row hm)) e
      obtain ⟨rfl, hrest⟩ := next (fun block hm => ih block (List.mem_cons_of_mem _ hm)) hmore
        hmore' hnext
      exact ⟨rfl, hrest⟩

/-- Rows that close a block or follow it are above what is below it. -/
theorem level_foot_lt {foot : Option (List Char)}
    (h : ∀ row ∈ foot, level row = depth ∧ '\n' ∉ row)
    (hr : ∀ row ∈ rest.head?, level row ≤ depth) :
    ∀ row ∈ (foot.toList ++ rest).head?, level row < depth + 1 := by
  cases foot with
  | none => exact fun row hm => Nat.lt_succ_of_le (hr row hm)
  | some foot => exact fun row hm => Nat.lt_succ_of_le (Nat.le_of_eq (h row hm).1)

/-- A block is determined by its rows, whatever rows follow that are not below it. -/
theorem Fits.rows_inj (h : Fits level closed depth block) : ∀ {block' rest rest'},
    Fits level closed depth block' → (∀ row ∈ rest.head?, level row ≤ depth) →
    (∀ row ∈ rest'.head?, level row ≤ depth) → block.rows ++ rest = block'.rows ++ rest' →
    block = block' ∧ rest = rest' := by
  induction h with
  | @mk depth head below foot _ _ hbelow hfoot hlfoot ih =>
    intro block' rest rest' h' hr hr' e
    cases h' with
    | @mk _ head' below' foot' _ _ hbelow' hfoot' hlfoot' =>
      rw [rows, rows, List.cons_append, List.cons_append, List.append_assoc, List.append_assoc] at e
      obtain ⟨rfl, hmore⟩ := List.cons.inj e
      obtain ⟨rfl, hrest⟩ := listed_inj_of ih hbelow hbelow' (level_foot_lt hlfoot hr)
        (level_foot_lt hlfoot' hr') hmore
      cases foot with
      | none =>
        cases foot' with
        | none => exact ⟨rfl, hrest⟩
        | some row' => cases hfoot.trans hfoot'.symm
      | some row =>
        cases foot' with
        | none => cases hfoot.trans hfoot'.symm
        | some row' =>
          obtain ⟨rfl, hlast⟩ := List.cons.inj hrest
          exact ⟨rfl, hlast⟩

/-! ### From lines to blocks -/

theorem not_mem_listed (ih : ∀ block ∈ blocks, ∀ row ∈ block.rows, '\n' ∉ row) :
    ∀ row ∈ listed blocks, '\n' ∉ row := by
  induction blocks with
  | nil => exact nofun
  | cons block blocks next =>
    obtain ⟨hblock, hmore⟩ := List.forall_mem_cons.1 ih
    rw [listed]
    exact List.forall_mem_append.2 ⟨hblock, next hmore⟩

theorem Fits.not_mem_rows (h : Fits level closed depth block) : ∀ row ∈ block.rows, '\n' ∉ row := by
  induction h with
  | mk _ hhead _ _ hfoot ih =>
    rw [rows, List.forall_mem_cons, List.forall_mem_append]
    exact ⟨hhead, not_mem_listed ih, fun row hm => (hfoot row (Option.mem_toList.1 hm)).2⟩

/-- The lines of blocks determine them. -/
theorem eq_of_lines (h : ∀ block ∈ blocks, Fits level closed depth block)
    (h' : ∀ block ∈ blocks', Fits level closed depth block)
    (e : lines (listed blocks) = lines (listed blocks')) : blocks = blocks' := by
  have hrows := lines_inj (not_mem_listed fun block hm => (h block hm).not_mem_rows)
    (not_mem_listed fun block hm => (h' block hm).not_mem_rows) e
  have hnil : ∀ row ∈ ([] : List (List Char)).head?, level row < depth := by simp
  exact (listed_inj_of (fun block hm => (h block hm).rows_inj) h h' hnil hnil
    (congrArg (· ++ []) hrows)).1

end Block

end MarkupShorthand
