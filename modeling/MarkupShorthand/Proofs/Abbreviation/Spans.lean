import Mathlib.Data.List.Chain
import MarkupShorthand.Proofs.Abbreviation.Lexing

/-!
# The spans of lexemes

What lexemes have to be to cover characters (`Partition`), told of the bytes that they take and
not of how they are found: their spans follow one another, hold what the tokens are written with,
and leave out white space alone. Such lexemes are a cut (`Partition.cut`), and a cut is such lexemes
(`Cut.partition`), so there is one way to cover characters, and the lexer finds it
(`tokenize_eq_iff_partition`).
-/

namespace MarkupShorthand

open Text

/-! ## Slices -/

/-- Whether `part` takes the bytes from `start` up to `stop` of characters of which the first is at
`offset`. -/
def Slice (offset : Nat) (chars : List Char) (start stop : Nat) (part : List Char) : Prop :=
  ∃ before after, chars = before ++ part ++ after ∧ start = offset + utf8Length before ∧
    stop = start + utf8Length part

/-- Whether a character is at a place. -/
def CharAt (offset : Nat) (chars : List Char) (place : Nat) (c : Char) : Prop :=
  Slice offset chars place (place + c.utf8Size) [c]

variable {offset start stop place : Nat} {chars first rest part : List Char} {c d : Char}

theorem utf8Length_eq_zero (h : utf8Length chars = 0) : chars = [] := by
  cases chars with
  | nil => rfl
  | cons c chars =>
    have hpos := c.utf8Size_pos
    rw [utf8Length_cons] at h
    omega

namespace Slice

theorem le (h : Slice offset chars start stop part) : offset ≤ start := by
  obtain ⟨before, after, -, rfl, -⟩ := h
  exact Nat.le_add_right _ _

theorem append_left (first : List Char)
    (h : Slice (offset + utf8Length first) rest start stop part) :
    Slice offset (first ++ rest) start stop part := by
  obtain ⟨before, after, rfl, rfl, rfl⟩ := h
  exact ⟨first ++ before, after, by simp, by rw [utf8Length_append, Nat.add_assoc], rfl⟩

/-- What starts behind the first characters is a slice of the others. -/
theorem of_append (first : List Char) (h : Slice offset (first ++ rest) start stop part)
    (hle : offset + utf8Length first ≤ start) :
    Slice (offset + utf8Length first) rest start stop part := by
  obtain ⟨before, after, e, rfl, rfl⟩ := h
  rw [List.append_assoc] at e
  rcases List.append_eq_append_iff.1 e with ⟨between, rfl, rfl⟩ | ⟨between, rfl, hrest⟩
  · refine ⟨between, after, (List.append_assoc ..).symm, ?_, rfl⟩
    rw [utf8Length_append, Nat.add_assoc]
  · rw [utf8Length_append] at hle
    obtain rfl : between = [] := utf8Length_eq_zero (by omega)
    exact ⟨[], after, hrest.symm, by simp, rfl⟩

/-- A slice that starts where the characters do is their beginning. -/
theorem eq_append (h : Slice offset chars offset stop part) :
    stop = offset + utf8Length part ∧ ∃ after, chars = part ++ after := by
  obtain ⟨before, after, rfl, hstart, rfl⟩ := h
  obtain rfl : before = [] := utf8Length_eq_zero (by omega)
  exact ⟨rfl, after, by simp⟩

end Slice

theorem charAt_cons : CharAt offset (c :: rest) offset c :=
  ⟨[], rest, rfl, rfl, rfl⟩

theorem CharAt.mem_head? (h : CharAt offset chars offset c) : c ∈ chars.head? := by
  obtain ⟨-, after, rfl⟩ := Slice.eq_append h
  rfl

/-! ## Partitions -/

/-- Whether lexemes cover characters of which the first is at `offset`: with white space between
them, and with tokens that nothing could be added to. -/
structure Partition (offset : Nat) (chars : List Char) (lexemes : List Lexeme) : Prop where
  slice : ∀ lexeme ∈ lexemes, Slice offset chars lexeme.start lexeme.stop lexeme.token.written
  nonempty : ∀ lexeme ∈ lexemes, lexeme.start < lexeme.stop
  ordered : lexemes.Pairwise fun earlier later => earlier.stop ≤ later.start
  gaps : ∀ place c, CharAt offset chars place c →
    (∀ lexeme ∈ lexemes, ¬ (lexeme.start ≤ place ∧ place < lexeme.stop)) → isWhiteSpace c = true
  text : ∀ lexeme ∈ lexemes, ∀ content, lexeme.token = .text content →
    ∀ c ∈ content.toList, isWhiteSpace c = false ∧ isControl c = false ∧ c ∉ punctuation
  /-- Between two texts in a row there is a gap. -/
  separated : lexemes.IsChain fun earlier later => ∀ content content',
    earlier.token = .text content → later.token = .text content' → earlier.stop < later.start
  /-- What a directive is in front of could not have been part of it. -/
  directive : ∀ lexeme ∈ lexemes, ∀ content, lexeme.token = .directive content →
    IsDirective content.toList ∧ ∀ c, CharAt offset chars lexeme.stop c →
      (c = '-' → content ≠ "@") ∧ (c.isDigit = true → content = "@-")

variable {lexemes past : List Lexeme} {lexeme : Lexeme} {token : Token}

namespace Partition

/-! ### From the left -/

theorem longest (h : Partition offset chars lexemes) (hl : lexeme ∈ lexemes) :
    lexeme.token.Longest [] := by
  have hne := h.nonempty lexeme hl
  obtain ⟨before, after, -, -, hstop⟩ := h.slice lexeme hl
  cases ht : lexeme.token with
  | text content =>
    refine ⟨⟨?_, fun c hc => isTextChar_iff.2 (h.text lexeme hl content ht c hc)⟩, nofun⟩
    rintro rfl
    have hzero : utf8Length lexeme.token.written = 0 := by rw [ht]; rfl
    omega
  | directive content => exact ⟨(h.directive lexeme hl content ht).1, nofun⟩
  | _ => trivial

/-- Behind some lexemes and what they cover, the others cover the rest. -/
theorem drop (h : Partition offset (first ++ rest) (past ++ lexemes))
    (hp : ∀ lexeme ∈ past, lexeme.stop ≤ offset + utf8Length first)
    (hr : ∀ lexeme ∈ lexemes, offset + utf8Length first ≤ lexeme.start) :
    Partition (offset + utf8Length first) rest lexemes where
  slice lexeme hl := (h.slice lexeme (List.mem_append_right _ hl)).of_append first (hr lexeme hl)
  nonempty lexeme hl := h.nonempty lexeme (List.mem_append_right _ hl)
  ordered := (List.pairwise_append.1 h.ordered).2.1
  gaps place c hc hout := by
    have hplace := Slice.le hc
    refine h.gaps place c (hc.append_left first) fun lexeme hl hin => ?_
    rcases List.mem_append.1 hl with hl | hl
    · have hstop := hp lexeme hl
      omega
    · exact hout lexeme hl hin
  text lexeme hl := h.text lexeme (List.mem_append_right _ hl)
  separated := h.separated.right_of_append
  directive lexeme hl content ht :=
    have ⟨form, ends⟩ := h.directive lexeme (List.mem_append_right _ hl) content ht
    ⟨form, fun c hc => ends c (hc.append_left first)⟩

/-- White space starts no lexeme. -/
theorem of_space (h : Partition offset (c :: rest) lexemes) (hs : isWhiteSpace c = true) :
    Partition (offset + c.utf8Size) rest lexemes := by
  have whole : Partition offset ([c] ++ rest) ([] ++ lexemes) := h
  refine whole.drop nofun fun lexeme hl => ?_
  obtain ⟨before, after, e, hstart, -⟩ := h.slice lexeme hl
  cases before with
  | nil =>
    obtain ⟨d, more, hw⟩ := (h.longest hl).exists_cons
    have hd := ((h.longest hl).of_mem_written (hw ▸ List.mem_cons_self)).1
    rw [hw] at e
    rw [← (List.cons.inj e).1, hs] at hd
    cases hd
  | cons d before =>
    obtain rfl := (List.cons.inj e).1
    simp only [utf8Length_cons, utf8Length_nil] at hstart ⊢
    omega

/-- What is no white space starts the first lexeme. -/
theorem head (h : Partition offset (c :: rest) lexemes) (hs : isWhiteSpace c = false) :
    ∃ token after later, lexemes = ⟨token, offset, offset + utf8Length token.written⟩ :: later ∧
      c :: rest = token.written ++ after := by
  obtain ⟨lexeme, hl, hle, hlt⟩ :
      ∃ lexeme ∈ lexemes, lexeme.start ≤ offset ∧ offset < lexeme.stop := by
    by_contra hnone
    have hspace := h.gaps offset c charAt_cons fun lexeme hl hin => hnone ⟨lexeme, hl, hin⟩
    rw [hs] at hspace
    cases hspace
  have hstart : lexeme.start = offset := Nat.le_antisymm hle (h.slice lexeme hl).le
  obtain ⟨token, start, stop⟩ := lexeme
  obtain rfl : start = offset := hstart
  obtain ⟨hstop, after, hafter⟩ := (h.slice _ hl).eq_append
  obtain rfl : stop = start + utf8Length token.written := hstop
  cases lexemes with
  | nil => cases hl
  | cons earlier later =>
    rcases List.mem_cons.1 hl with rfl | hl
    · exact ⟨token, after, later, rfl, hafter⟩
    · -- a lexeme before it would have to start before the characters do
      have hstop : earlier.stop ≤ start := (List.pairwise_cons.1 h.ordered).1 _ hl
      have hne := h.nonempty earlier List.mem_cons_self
      have hle := (h.slice earlier List.mem_cons_self).le
      omega

section First

variable (h : Partition offset (token.written ++ rest)
  (⟨token, offset, offset + utf8Length token.written⟩ :: lexemes))
include h

/-- Behind the first lexeme the others cover the rest. -/
theorem of_token : Partition (offset + utf8Length token.written) rest lexemes := by
  have whole : Partition offset (token.written ++ rest)
    ([⟨token, offset, offset + utf8Length token.written⟩] ++ lexemes) := h
  refine whole.drop (fun lexeme hl => ?_) (List.pairwise_cons.1 h.ordered).1
  rw [List.mem_singleton.1 hl]

theorem longest_head : token.Longest rest := by
  have hl : token.Longest [] := h.longest List.mem_cons_self
  cases token with
  | text content =>
    refine ⟨hl.1, fun c hc => Bool.eq_false_iff.2 fun htext => ?_⟩
    -- a character of texts would start another text, with no gap before it
    obtain ⟨rest, rfl⟩ := List.head?_eq_some_iff.1 (Option.mem_def.1 hc)
    obtain ⟨next, after, later, rfl, e⟩ := h.of_token.head (isTextChar_iff.1 htext).1
    have hnext : next.Longest [] := h.longest (List.mem_cons_of_mem _ List.mem_cons_self)
    obtain ⟨d, more, hw⟩ := hnext.exists_cons
    rw [hw] at e
    obtain rfl := (List.cons.inj e).1
    obtain ⟨content', rfl⟩ := hnext.exists_text hw htext
    have hgap := (List.isChain_cons_cons.1 h.separated).1 content content' rfl rfl
    exact absurd hgap (Nat.lt_irrefl _)
  | directive content =>
    refine ⟨hl.1, fun c hc => (h.directive _ List.mem_cons_self content rfl).2 c ?_⟩
    obtain ⟨rest, rfl⟩ := List.head?_eq_some_iff.1 (Option.mem_def.1 hc)
    exact ⟨content.toList, rest, by simp [Token.written], rfl, rfl⟩
  | _ => trivial

end First

/-- Lexemes that cover characters are how these are cut. -/
theorem cut (h : Partition offset chars lexemes) : Cut offset chars lexemes := by
  induction hn : chars.length using Nat.strongRecOn generalizing offset chars lexemes with
  | _ n ih =>
    cases chars with
    | nil =>
      cases lexemes with
      | nil => exact .nil offset
      | cons lexeme lexemes =>
        obtain ⟨before, after, e, -⟩ := h.slice lexeme List.mem_cons_self
        obtain ⟨d, more, hw⟩ := (h.longest List.mem_cons_self).exists_cons
        simp [hw] at e
    | cons c rest =>
      cases hs : isWhiteSpace c with
      | true => exact .space hs (ih _ (by simp [← hn]) (h.of_space hs) rfl)
      | false =>
        obtain ⟨token, after, later, rfl, e⟩ := h.head hs
        rw [e] at h ⊢
        obtain ⟨d, more, hw⟩ := h.longest_head.exists_cons
        have hshort : after.length < n := by
          rw [← hn, e, hw, List.length_append, List.length_cons]
          omega
        exact .token h.longest_head (ih _ hshort h.of_token rfl)

/-! ### To the left -/

theorem nil (offset : Nat) : Partition offset [] [] where
  slice := nofun
  nonempty := nofun
  ordered := .nil
  gaps place c hc _ := by
    obtain ⟨before, after, e, -⟩ := hc
    simp at e
  text := nofun
  separated := .nil
  directive := nofun

theorem space_cons (hs : isWhiteSpace c = true) (h : Partition (offset + c.utf8Size) rest lexemes) :
    Partition offset (c :: rest) lexemes where
  slice lexeme hl := (h.slice lexeme hl).append_left [c]
  nonempty := h.nonempty
  ordered := h.ordered
  gaps place d hd hout := by
    obtain ⟨before, after, e, hplace, hstop⟩ := hd
    cases before with
    | nil =>
      obtain rfl := (List.cons.inj e).1
      exact hs
    | cons x before =>
      refine h.gaps place d (Slice.of_append [c] ⟨_, after, e, hplace, hstop⟩ ?_) hout
      obtain rfl := (List.cons.inj e).1
      simp only [utf8Length_cons, utf8Length_nil] at hplace ⊢
      omega
  text := h.text
  separated := h.separated
  directive lexeme hl content ht := by
    obtain ⟨form, ends⟩ := h.directive lexeme hl content ht
    have hle := (h.slice lexeme hl).le
    have hne := h.nonempty lexeme hl
    refine ⟨form, fun d hd => ends d (Slice.of_append [c] hd ?_)⟩
    simp only [utf8Length_cons, utf8Length_nil]
    omega

theorem token_append (hl : token.Longest rest)
    (h : Partition (offset + utf8Length token.written) rest lexemes) :
    Partition offset (token.written ++ rest)
      (⟨token, offset, offset + utf8Length token.written⟩ :: lexemes) where
  slice := List.forall_mem_cons.2
    ⟨⟨[], rest, by simp, by simp, rfl⟩, fun lexeme hm => (h.slice lexeme hm).append_left _⟩
  nonempty := by
    obtain ⟨d, more, hw⟩ := hl.exists_cons
    have hpos := d.utf8Size_pos
    refine List.forall_mem_cons.2 ⟨?_, h.nonempty⟩
    simp only [hw, utf8Length_cons]
    omega
  ordered := List.pairwise_cons.2 ⟨fun lexeme hm => (h.slice lexeme hm).le, h.ordered⟩
  gaps place c hc hout := by
    rcases Nat.lt_or_ge place (offset + utf8Length token.written) with hlt | hge
    · exact absurd ⟨Slice.le hc, hlt⟩ (hout _ List.mem_cons_self)
    · refine h.gaps place c (hc.of_append _ hge) fun lexeme hm => ?_
      exact hout lexeme (List.mem_cons_of_mem _ hm)
  text := by
    refine List.forall_mem_cons.2 ⟨?_, h.text⟩
    rintro content rfl c hc
    exact isTextChar_iff.1 (hl.1.2 c hc)
  separated := by
    refine List.isChain_cons.2 ⟨fun next hnext => ?_, h.separated⟩
    rintro content content' rfl hnexttext
    have hmem := List.mem_of_mem_head? hnext
    have hslice := h.slice next hmem
    refine Nat.lt_of_le_of_ne hslice.le fun hstart => ?_
    -- without a gap the rest starts with a character of texts, and the first text is not longest
    rw [← hstart] at hslice
    obtain ⟨-, after, rfl⟩ := hslice.eq_append
    have hlongest := h.longest hmem
    obtain ⟨d, more, hw⟩ := hlongest.exists_cons
    rw [hnexttext] at hlongest hw
    have htext := hlongest.head_isTextChar hw
    rw [hl.2 d (by rw [hnexttext, hw]; rfl)] at htext
    cases htext
  directive := by
    refine List.forall_mem_cons.2 ⟨?_, fun lexeme hm content ht => ?_⟩
    · rintro content rfl
      exact ⟨hl.1, fun c hc => hl.2 c (CharAt.mem_head? (hc.of_append _ (Nat.le_refl _)))⟩
    · obtain ⟨form, ends⟩ := h.directive lexeme hm content ht
      have hle := (h.slice lexeme hm).le
      have hne := h.nonempty lexeme hm
      exact ⟨form, fun c hc => ends c (hc.of_append _ (by omega))⟩

end Partition

theorem Cut.partition (h : Cut offset chars lexemes) : Partition offset chars lexemes := by
  induction h with
  | nil offset => exact .nil offset
  | space hs _ ih => exact ih.space_cons hs
  | token hl _ ih => exact ih.token_append hl

/-- An abbreviation without unknown characters is read as the one list of lexemes that covers it,
and any other one is refused for its first unknown character. -/
theorem tokenize_eq_iff_partition (source : String) :
    ((∃ lexemes, tokenize source = .ok lexemes) ↔ ∀ c ∈ source.toList, ¬ IsUnknown c) ∧
      (∀ e, tokenize source = .error e ↔ ∃ before c after, source.toList = before ++ c :: after ∧
        IsUnknown c ∧ (∀ d ∈ before, ¬ IsUnknown d) ∧
        e = .unknownToken c (utf8Length before)) ∧
      ∀ lexemes, tokenize source = .ok lexemes ↔ Partition 0 source.toList lexemes := by
  refine ⟨tokenize_isOk_iff, fun e => tokenize_eq_error_iff, fun lexemes => ?_⟩
  rw [tokenize_eq_ok_iff_cut]
  exact ⟨Cut.partition, Partition.cut⟩

/-- A directive has one sign or digits, not both. -/
example : tokenize "a @-1" =
    .ok [⟨.text "a", 0, 1⟩, ⟨.directive "@-", 2, 4⟩, ⟨.text "1", 4, 5⟩] := by decide +kernel

end MarkupShorthand
