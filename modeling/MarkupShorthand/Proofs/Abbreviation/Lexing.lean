import Mathlib.Data.List.TakeWhile
import MarkupShorthand.Abbreviation.Lexeme

/-!
# Cutting an abbreviation into lexemes

What `scan` finds, said without scanning. A token is as long as it can be in front of the characters
behind it (`Token.Longest`), and it is then the one that is found there
(`Token.starting?_of_longest`). Characters are cut into such tokens and white space (`Cut`). The
scanner finds how they are cut (`tokenize_eq_ok_iff_cut`), and where it fails it has met the first
unknown character (`of_scan_error`).
-/

namespace MarkupShorthand

open Text

/-! ## Characters -/

/-- Whether a character is part of no token and is not skipped either. -/
def IsUnknown (c : Char) : Prop :=
  isControl c = true ∧ isWhiteSpace c = false

/-- The characters that are tokens on their own, and the one that starts a directive. -/
def punctuation : List Char :=
  ['>', '+', '^', '#', '.', '*', '[', ']', '\x7b', '\x7d', '(', ')', '@']

theorem mem_punctuation {c : Char} :
    c ∈ punctuation ↔ (Token.ofSymbol? c).isSome = true ∨ c = '@' := by
  constructor
  · intro h
    simp only [punctuation, List.mem_cons, List.not_mem_nil, or_false] at h
    rcases h with rfl | rfl | rfl | rfl | rfl | rfl | rfl | rfl | rfl | rfl | rfl | rfl | rfl <;>
      simp [Token.ofSymbol?]
  · rintro (h | rfl)
    · unfold Token.ofSymbol? at h
      split at h <;> simp_all [punctuation]
    · simp [punctuation]

theorem isTextChar_iff {c : Char} :
    isTextChar c = true ↔ isWhiteSpace c = false ∧ isControl c = false ∧ c ∉ punctuation := by
  rw [mem_punctuation]
  simp [isTextChar, and_assoc]

theorem of_mem_punctuation {c : Char} (h : c ∈ punctuation) :
    isTextChar c = false ∧ c.isDigit = false ∧ c ≠ '-' ∧ isWhiteSpace c = false := by
  simp only [punctuation, List.mem_cons, List.not_mem_nil, or_false] at h
  rcases h with rfl | rfl | rfl | rfl | rfl | rfl | rfl | rfl | rfl | rfl | rfl | rfl | rfl <;>
    decide

theorem of_isDigit {c : Char} (h : c.isDigit = true) :
    isWhiteSpace c = false ∧ isControl c = false := by
  have hrange : 48 ≤ c.toNat ∧ c.toNat ≤ 57 := by
    simpa [Char.isDigit, UInt32.le_iff_toNat_le] using h
  constructor
  · simp only [isWhiteSpace, whiteSpaceRanges, List.any_cons, List.any_nil, Bool.or_eq_false_iff,
      Bool.and_eq_false_iff, decide_eq_false_iff_not, and_true]
    omega
  · simp only [isControl, Bool.or_eq_false_iff, decide_eq_false_iff_not, beq_eq_false_iff_ne]
    omega

/-! ## Tokens -/

/-- Whether a text is one that the lexer finds: characters of texts, at least one. -/
def IsText (content : String) : Prop :=
  content ≠ "" ∧ ∀ c ∈ content.toList, isTextChar c = true

/-- Whether characters are an `@` with one `-`, with digits, or alone. -/
def IsDirective (chars : List Char) : Prop :=
  chars = ['@', '-'] ∨ ∃ digits, (∀ c ∈ digits, c.isDigit = true) ∧ chars = '@' :: digits

namespace Token

/-- The characters that a token is written with. -/
def written : Token → List Char
  | child => ['>']
  | sibling => ['+']
  | climb => ['^']
  | id => ['#']
  | className => ['.']
  | multiply => ['*']
  | openBracket => ['[']
  | closeBracket => [']']
  | openBrace => ['\x7b']
  | closeBrace => ['\x7d']
  | openParen => ['(']
  | closeParen => [')']
  | directive content => content.toList
  | text content => content.toList

/-- Whether a token can be written at all and cannot be longer in front of some characters. -/
def Longest (rest : List Char) : Token → Prop
  | text content => IsText content ∧ ∀ c ∈ rest.head?, isTextChar c = false
  | directive content => IsDirective content.toList ∧
      ∀ c ∈ rest.head?, (c = '-' → content ≠ "@") ∧ (c.isDigit = true → content = "@-")
  | _ => True

variable {c : Char} {rest more : List Char} {token : Token} {taken : Nat}

namespace Longest

theorem exists_cons (h : token.Longest rest) : ∃ first more, token.written = first :: more := by
  cases token with
  | text content => exact List.exists_cons_of_ne_nil fun e => h.1.1 (String.toList_inj.1 e)
  | directive content =>
    rcases h.1 with e | ⟨digits, -, e⟩
    · exact ⟨_, _, e⟩
    · exact ⟨_, _, e⟩
  | _ => exact ⟨_, _, rfl⟩

/-- Tokens are written without white space and without control characters. -/
theorem of_mem_written (h : token.Longest rest) (hc : c ∈ token.written) :
    isWhiteSpace c = false ∧ isControl c = false := by
  cases token with
  | text content =>
    obtain ⟨hs, hcontrol, -⟩ := isTextChar_iff.1 (h.1.2 c hc)
    exact ⟨hs, hcontrol⟩
  | directive content =>
    rcases h.1 with e | ⟨digits, hd, e⟩
    · simp only [written, e, List.mem_cons, List.not_mem_nil, or_false] at hc
      rcases hc with rfl | rfl <;> decide
    · rw [written, e] at hc
      rcases List.mem_cons.1 hc with rfl | hc
      · decide
      · exact of_isDigit (hd c hc)
  | _ =>
    obtain rfl := List.mem_singleton.1 hc
    decide

theorem not_isUnknown (h : token.Longest rest) (hc : c ∈ token.written) : ¬ IsUnknown c := by
  intro hu
  have hcontrol := (h.of_mem_written hc).2
  rw [hu.1] at hcontrol
  cases hcontrol

theorem head_isTextChar {content : String} (h : (text content).Longest rest)
    (hw : (text content).written = c :: more) : isTextChar c = true :=
  h.1.2 c (show c ∈ (text content).written from hw ▸ List.mem_cons_self)

/-- Only a text starts with a character of texts. -/
theorem exists_text (h : token.Longest rest) (hw : token.written = c :: more)
    (hc : isTextChar c = true) : ∃ content, token = .text content := by
  have hp := (isTextChar_iff.1 hc).2.2
  cases token with
  | text content => exact ⟨content, rfl⟩
  | directive content =>
    rcases h.1 with e | ⟨digits, -, e⟩
    · obtain rfl := (List.cons.inj (hw.symm.trans e)).1
      exact absurd (by decide) hp
    · obtain rfl := (List.cons.inj (hw.symm.trans e)).1
      exact absurd (by decide) hp
  | _ =>
    cases hw
    exact absurd (by decide) hp

/-- Punctuation behind the characters does not make a token longer. -/
theorem append_punctuation (h : token.Longest rest) {later : List Char}
    (hl : ∀ c ∈ later.head?, c ∈ punctuation) : token.Longest (rest ++ later) := by
  have hhead : ∀ c ∈ (rest ++ later).head?, c ∈ rest.head? ∨ c ∈ punctuation := by
    intro c hc
    cases rest with
    | nil => exact .inr (hl c hc)
    | cons d rest => exact .inl hc
  cases token with
  | text content =>
    refine ⟨h.1, fun c hc => ?_⟩
    rcases hhead c hc with hc | hc
    · exact h.2 c hc
    · exact (of_mem_punctuation hc).1
  | directive content =>
    refine ⟨h.1, fun c hc => ?_⟩
    rcases hhead c hc with hc | hc
    · exact h.2 c hc
    · obtain ⟨-, hd, hminus, -⟩ := of_mem_punctuation hc
      exact ⟨fun e => absurd e hminus, fun e => absurd e (Bool.eq_false_iff.1 hd)⟩
  | _ => trivial

end Longest

/-! ### Finding a token -/

section TakeWhile

variable {α : Type} {p : α → Bool} {front back : List α}

theorem take_drop_takeWhile (p : α → Bool) (l : List α) :
    l.take (l.takeWhile p).length = l.takeWhile p ∧
      l.drop (l.takeWhile p).length = l.dropWhile p := by
  have htake := (List.prefix_iff_eq_take.1 (List.takeWhile_prefix p (l := l))).symm
  have hsplit := List.take_append_drop (l.takeWhile p).length l
  rw [htake] at hsplit
  exact ⟨htake, List.append_cancel_left (hsplit.trans List.takeWhile_append_dropWhile.symm)⟩

theorem of_mem_head?_dropWhile {l : List α} {a : α} (h : a ∈ (l.dropWhile p).head?) :
    p a = false := by
  have hnot := List.head?_dropWhile_not p l
  rw [Option.mem_def.1 h] at hnot
  exact hnot

theorem takeWhile_append_of_head? (hf : ∀ a ∈ front, p a = true)
    (hb : ∀ a ∈ back.head?, p a = false) : (front ++ back).takeWhile p = front := by
  rw [List.takeWhile_append_of_pos hf]
  cases back with
  | nil => simp
  | cons a back => simp [hb a rfl]

/-- What a run of characters leaves behind it. -/
theorem dropWhile_append_of_head? (hf : ∀ a ∈ front, p a = true)
    (hb : ∀ a ∈ back.head?, p a = false) : (front ++ back).dropWhile p = back := by
  have h := List.takeWhile_append_dropWhile (p := p) (l := front ++ back)
  rw [takeWhile_append_of_head? hf hb] at h
  exact List.append_cancel_left h

end TakeWhile

theorem directiveArgument_eq (h : rest.head? ≠ some '-') :
    directiveArgument rest = rest.takeWhile Char.isDigit := by
  unfold directiveArgument
  split
  · exact absurd rfl h
  · rfl

/-- The argument of a directive is as long as it can be. -/
theorem longest_directiveArgument (rest : List Char) :
    rest.take (directiveArgument rest).length = directiveArgument rest ∧
      (directive (String.ofList ('@' :: directiveArgument rest))).Longest
        (rest.drop (directiveArgument rest).length) := by
  by_cases hsign : rest.head? = some '-'
  · obtain ⟨tail, rfl⟩ := List.head?_eq_some_iff.1 hsign
    refine ⟨rfl, .inl String.toList_ofList, fun c _ => ⟨fun _ e => ?_, fun _ => rfl⟩⟩
    exact absurd (congrArg String.toList e) (by simp [directiveArgument])
  · obtain ⟨htake, hdrop⟩ := take_drop_takeWhile Char.isDigit rest
    rw [directiveArgument_eq hsign, htake, hdrop]
    refine ⟨rfl, .inr ⟨_, fun c hc => List.mem_takeWhile_imp hc, String.toList_ofList⟩,
      fun c hc => ⟨?_, fun hd => ?_⟩⟩
    · -- without digits, what is behind the argument is what is behind the sign
      rintro rfl e
      have hnil : rest.takeWhile Char.isDigit = [] := by simpa using congrArg String.toList e
      rw [← hdrop, hnil] at hc
      exact hsign hc
    · rw [of_mem_head?_dropWhile hc] at hd
      cases hd

theorem directiveArgument_append {content : String} (h : (directive content).Longest rest)
    (hw : content.toList = '@' :: more) : directiveArgument (more ++ rest) = more := by
  rcases h.1 with e | ⟨digits, hd, e⟩
  · obtain rfl : more = ['-'] := (List.cons.inj (hw.symm.trans e)).2
    rfl
  · obtain rfl : more = digits := (List.cons.inj (hw.symm.trans e)).2
    have hsign : (more ++ rest).head? ≠ some '-' := by
      intro hc
      cases more with
      | nil => exact (h.2 '-' hc).1 rfl (String.toList_inj.1 hw)
      | cons d more =>
        cases hc
        exact absurd (hd '-' List.mem_cons_self) (by decide)
    rw [directiveArgument_eq hsign]
    refine takeWhile_append_of_head? hd fun c hc => Bool.eq_false_iff.2 fun hdigit => ?_
    rw [(h.2 c hc).2 hdigit] at hw
    obtain rfl : more = ['-'] := (List.cons.inj hw).2.symm
    exact absurd (hd '-' List.mem_cons_self) (by decide)

theorem of_ofSymbol? (h : ofSymbol? c = some token) :
    token.written = [c] ∧ ∀ rest, token.Longest rest := by
  unfold ofSymbol? at h
  split at h
  all_goals
    cases h
    try exact ⟨rfl, fun _ => trivial⟩

/-- The token that is found is the longest there. -/
theorem longest_of_starting? (h : starting? c rest = some (token, taken)) :
    token.written = c :: rest.take taken ∧ token.Longest (rest.drop taken) := by
  unfold starting? at h
  split at h
  · rename_i symbol hs
    cases h
    obtain ⟨hw, hl⟩ := of_ofSymbol? hs
    exact ⟨hw, hl _⟩
  · split at h
    · rename_i hat
      cases h
      obtain ⟨htake, hl⟩ := longest_directiveArgument rest
      rw [htake, hat]
      exact ⟨String.toList_ofList, hl⟩
    · split at h
      · rename_i hc
        cases h
        obtain ⟨htake, hdrop⟩ := take_drop_takeWhile isTextChar rest
        rw [htake, hdrop]
        refine ⟨String.toList_ofList, ⟨by simp, fun d hd => ?_⟩,
          fun d hd => of_mem_head?_dropWhile hd⟩
        rw [String.toList_ofList] at hd
        rcases List.mem_cons.1 hd with rfl | hd
        · exact hc
        · exact List.mem_takeWhile_imp hd
      · cases h

/-- A token that is the longest there is the one that is found. -/
theorem starting?_of_longest (h : token.Longest rest) (hw : token.written = c :: more) :
    starting? c (more ++ rest) = some (token, more.length) := by
  cases token with
  | text content =>
    have hall : ∀ d ∈ c :: more, isTextChar d = true := fun d hd =>
      h.1.2 d (show d ∈ (text content).written from hw ▸ hd)
    have hc := hall c List.mem_cons_self
    obtain ⟨-, -, hp⟩ := isTextChar_iff.1 hc
    rw [mem_punctuation, not_or, Bool.not_eq_true, Option.isSome_eq_false_iff,
      Option.isNone_iff_eq_none] at hp
    have hmore := takeWhile_append_of_head? (fun d hd => hall d (List.mem_cons_of_mem c hd)) h.2
    simp only [starting?, hp.1, if_neg hp.2, if_pos hc, hmore, ← hw]
    rw [written, String.ofList_toList]
  | directive content =>
    obtain rfl : c = '@' := by
      rcases h.1 with e | ⟨digits, -, e⟩
      · exact (List.cons.inj (hw.symm.trans e)).1
      · exact (List.cons.inj (hw.symm.trans e)).1
    have hsymbol : ofSymbol? '@' = none := rfl
    simp only [starting?, hsymbol, if_true, directiveArgument_append h hw, ← hw]
    rw [written, String.ofList_toList]
  | _ => cases hw; rfl

/-- What starts no token and is no white space is unknown. -/
theorem isUnknown_of_starting? (h : starting? c rest = none) (hs : isWhiteSpace c = false) :
    IsUnknown c := by
  refine ⟨?_, hs⟩
  unfold starting? at h
  split at h
  · cases h
  · rename_i hsymbol
    split at h
    · cases h
    · rename_i hat
      split at h
      · cases h
      · rename_i htext
        by_contra hc
        refine htext (isTextChar_iff.2 ⟨hs, Bool.not_eq_true _ ▸ hc, fun hp => ?_⟩)
        rcases mem_punctuation.1 hp with hp | hp
        · rw [hsymbol] at hp
          cases hp
        · exact hat hp

end Token

/-! ## Cutting -/

/-- How characters that start at an offset are cut into white space and the longest tokens. -/
inductive Cut : Nat → List Char → List Lexeme → Prop where
  | nil (offset : Nat) : Cut offset [] []
  | space {offset : Nat} {c : Char} {rest : List Char} {lexemes : List Lexeme} :
      isWhiteSpace c = true → Cut (offset + c.utf8Size) rest lexemes →
      Cut offset (c :: rest) lexemes
  | token {offset : Nat} {token : Token} {rest : List Char} {lexemes : List Lexeme} :
      token.Longest rest → Cut (offset + utf8Length token.written) rest lexemes →
      Cut offset (token.written ++ rest)
        (⟨token, offset, offset + utf8Length token.written⟩ :: lexemes)

variable {offset : Nat} {chars : List Char} {lexemes : List Lexeme} {c : Char}

theorem not_isUnknown_of_space (h : isWhiteSpace c = true) : ¬ IsUnknown c := by
  intro hu
  rw [hu.2] at h
  cases h

namespace Cut

/-- What the scanner finds is how the characters are cut. -/
theorem of_scan {found result : Array Lexeme} (h : scan offset found chars = .ok result) :
    ∃ lexemes, result.toList = found.toList ++ lexemes ∧ Cut offset chars lexemes := by
  fun_induction scan offset found chars with
  | case1 offset found => exact ⟨[], by simp [Except.ok.inj h], .nil offset⟩
  | case2 offset found c rest hs ih =>
    obtain ⟨lexemes, e, cut⟩ := ih h
    exact ⟨lexemes, e, .space hs cut⟩
  | case3 => cases h
  | case4 offset found c rest hs token taken ht stop ih =>
    obtain ⟨lexemes, e, cut⟩ := ih h
    obtain ⟨hw, hl⟩ := Token.longest_of_starting? ht
    have hstop : stop = offset + utf8Length token.written := by rw [hw]
    rw [hstop] at e cut
    have whole := Cut.token hl cut
    rw [hw, List.cons_append, List.take_append_drop, ← hw] at whole
    exact ⟨_, by rw [e, Array.toList_push, List.append_assoc, List.singleton_append], whole⟩

/-- The scanner finds how the characters are cut. -/
theorem scan_eq (h : Cut offset chars lexemes) (found : Array Lexeme) :
    (scan offset found chars).map Array.toList = .ok (found.toList ++ lexemes) := by
  induction h generalizing found with
  | nil => simp [scan, Except.map]
  | space hs cut ih => rw [scan, if_pos hs, ih]
  | @token offset token rest lexemes hl cut ih =>
    obtain ⟨first, more, hw⟩ := hl.exists_cons
    have hs := (hl.of_mem_written (hw ▸ List.mem_cons_self)).1
    rw [hw, List.cons_append, scan, hs]
    simp only [Bool.false_eq_true, if_false, Token.starting?_of_longest hl hw]
    rw [List.take_left, List.drop_left, ← hw, ih, Array.toList_push, List.append_assoc,
      List.singleton_append]

/-- Whatever is cut is known. -/
theorem not_isUnknown (h : Cut offset chars lexemes) : ∀ c ∈ chars, ¬ IsUnknown c := by
  induction h with
  | nil => exact nofun
  | space hs _ ih => exact List.forall_mem_cons.2 ⟨not_isUnknown_of_space hs, ih⟩
  | token hl _ ih =>
    exact List.forall_mem_append.2 ⟨fun c hc => hl.not_isUnknown hc, ih⟩

/-- Behind what is cut, punctuation starts anew. -/
theorem append {later : List Char} {lexemes' : List Lexeme} (h : Cut offset chars lexemes)
    (h' : Cut (offset + utf8Length chars) later lexemes')
    (hl : ∀ c ∈ later.head?, c ∈ punctuation) :
    Cut offset (chars ++ later) (lexemes ++ lexemes') := by
  induction h with
  | nil => exact h'
  | space hs _ ih =>
    rw [utf8Length_cons, ← Nat.add_assoc] at h'
    exact .space hs (ih h')
  | token longest _ ih =>
    rw [utf8Length_append, ← Nat.add_assoc] at h'
    rw [List.append_assoc]
    exact .token (longest.append_punctuation hl) (ih h')

theorem eq_nil (h : Cut offset [] lexemes) : lexemes = [] := by
  generalize hc : [] = chars at h
  cases h with
  | nil => rfl
  | space => cases hc
  | token longest =>
    obtain ⟨first, more, hw⟩ := longest.exists_cons
    rw [hw] at hc
    cases hc

/-- Punctuation starts a lexeme that is no text. -/
theorem exists_cons_of_punctuation {rest : List Char} (h : Cut offset (c :: rest) lexemes)
    (hc : c ∈ punctuation) :
    ∃ lexeme later, lexemes = lexeme :: later ∧ ∀ content, lexeme.token ≠ .text content := by
  obtain ⟨htext, -, -, hspace⟩ := of_mem_punctuation hc
  generalize hchars : c :: rest = chars at h
  cases h with
  | nil => cases hchars
  | space hs =>
    obtain rfl := (List.cons.inj hchars).1
    rw [hspace] at hs
    cases hs
  | token longest =>
    refine ⟨_, _, rfl, ?_⟩
    rintro content rfl
    obtain ⟨first, more, hw⟩ := longest.exists_cons
    rw [hw] at hchars
    obtain rfl := (List.cons.inj hchars).1
    rw [longest.head_isTextChar hw] at htext
    cases htext

/-- A lexeme is written where it starts, and the ones behind it follow. -/
theorem exists_at {past later : List Lexeme} {lexeme : Lexeme}
    (h : Cut offset chars (past ++ lexeme :: later)) : ∃ before after, chars = before ++ after ∧
      lexeme.start = offset + utf8Length before ∧ lexeme.token.written <+: after ∧
      Cut lexeme.start after (lexeme :: later) := by
  generalize hl : past ++ lexeme :: later = lexemes at h
  induction h generalizing past with
  | nil => simp at hl
  | @space offset c rest lexemes hs _ ih =>
    obtain ⟨before, after, rfl, hstart, hw, cut⟩ := ih hl
    refine ⟨c :: before, after, rfl, ?_, hw, cut⟩
    rw [hstart, utf8Length_cons, Nat.add_assoc]
  | @token offset token rest lexemes longest cut ih =>
    cases past with
    | nil =>
      obtain ⟨rfl, rfl⟩ := List.cons.inj hl
      exact ⟨[], _, rfl, rfl, List.prefix_append _ _, .token longest cut⟩
    | cons first past =>
      obtain ⟨before, after, rfl, hstart, hw, cut⟩ := ih (List.cons.inj hl).2
      refine ⟨token.written ++ before, after, (List.append_assoc ..).symm, ?_, hw, cut⟩
      rw [hstart, utf8Length_append, Nat.add_assoc]

/-- Without white space, characters are those that the tokens are written with. -/
theorem filter_eq (h : Cut offset chars lexemes) :
    chars.filter (!isWhiteSpace ·) = lexemes.flatMap (·.token.written) := by
  induction h with
  | nil => rfl
  | space hs _ ih => rw [List.filter_cons_of_neg (by simp [hs]), ih]
  | token longest _ ih =>
    have hw := List.filter_eq_self.2 fun c hc =>
      congrArg (!·) (longest.of_mem_written hc).1
    rw [List.filter_append, ih, hw, List.flatMap_cons]

end Cut

theorem tokenize_eq_ok_iff_cut {source : String} :
    tokenize source = .ok lexemes ↔ Cut 0 source.toList lexemes := by
  rw [tokenize]
  constructor
  · intro h
    cases hs : scan 0 #[] source.toList with
    | error e => rw [hs] at h; cases h
    | ok found =>
      rw [hs] at h
      obtain rfl : found.toList = lexemes := Except.ok.inj h
      obtain ⟨_, e, cut⟩ := Cut.of_scan hs
      rw [e]
      exact cut
  · exact fun cut => cut.scan_eq #[]

/-! ## Unknown characters -/

/-- Where the scanner fails it has met the first unknown character. -/
theorem of_scan_error {found : Array Lexeme} {e : ParseError}
    (h : scan offset found chars = .error e) :
    ∃ before c after, chars = before ++ c :: after ∧ IsUnknown c ∧
      (∀ d ∈ before, ¬ IsUnknown d) ∧ e = .unknownToken c (offset + utf8Length before) := by
  fun_induction scan offset found chars with
  | case1 => cases h
  | case2 offset found c rest hs ih =>
    obtain ⟨before, d, after, rfl, hd, hb, rfl⟩ := ih h
    refine ⟨c :: before, d, after, rfl, hd,
      List.forall_mem_cons.2 ⟨not_isUnknown_of_space hs, hb⟩, ?_⟩
    rw [utf8Length_cons, Nat.add_assoc]
  | case3 offset found c rest hs hn =>
    have hu := Token.isUnknown_of_starting? hn (Bool.eq_false_iff.2 hs)
    exact ⟨[], c, rest, rfl, hu, nofun, (Except.error.inj h).symm⟩
  | case4 offset found c rest hs token taken ht stop ih =>
    obtain ⟨hw, hl⟩ := Token.longest_of_starting? ht
    obtain ⟨before, d, after, hrest, hd, hb, rfl⟩ := ih h
    refine ⟨token.written ++ before, d, after, ?_, hd,
      List.forall_mem_append.2 ⟨fun x hx => hl.not_isUnknown hx, hb⟩, ?_⟩
    · rw [List.append_assoc, ← hrest, hw, List.cons_append, List.take_append_drop]
    · rw [utf8Length_append, hw, ← Nat.add_assoc]

/-- Characters that are all known are cut. -/
theorem exists_cut (offset : Nat) (h : ∀ c ∈ chars, ¬ IsUnknown c) :
    ∃ lexemes, Cut offset chars lexemes := by
  cases hs : scan offset #[] chars with
  | error e =>
    obtain ⟨before, c, after, rfl, hc, -⟩ := of_scan_error hs
    exact absurd hc (h c (by simp))
  | ok found =>
    obtain ⟨lexemes, -, cut⟩ := Cut.of_scan hs
    exact ⟨lexemes, cut⟩

theorem first_unknown_unique {before before' after after' : List Char} {c c' : Char}
    (h : before ++ c :: after = before' ++ c' :: after') (hc : IsUnknown c) (hc' : IsUnknown c')
    (hb : ∀ d ∈ before, ¬ IsUnknown d) (hb' : ∀ d ∈ before', ¬ IsUnknown d) :
    before = before' ∧ c = c' := by
  rcases List.append_eq_append_iff.1 h with ⟨between, rfl, e⟩ | ⟨between, rfl, e⟩
  · cases between with
    | nil => exact ⟨(List.append_nil _).symm, (List.cons.inj e).1⟩
    | cons d between =>
      obtain rfl := (List.cons.inj e).1
      exact absurd hc (hb' c (by simp))
  · cases between with
    | nil => exact ⟨List.append_nil _, (List.cons.inj e).1.symm⟩
    | cons d between =>
      obtain rfl := (List.cons.inj e).1
      exact absurd hc' (hb c' (by simp))

/-- An abbreviation is refused here for its first unknown character. -/
theorem tokenize_eq_error_iff {source : String} {e : ParseError} :
    tokenize source = .error e ↔ ∃ before c after, source.toList = before ++ c :: after ∧
      IsUnknown c ∧ (∀ d ∈ before, ¬ IsUnknown d) ∧ e = .unknownToken c (utf8Length before) := by
  constructor
  · intro h
    rw [tokenize] at h
    cases hs : scan 0 #[] source.toList with
    | ok found => rw [hs] at h; cases h
    | error e' =>
      rw [hs] at h
      obtain rfl : e' = e := Except.error.inj h
      simpa using of_scan_error hs
  · rintro ⟨before, c, after, hsource, hc, hb, rfl⟩
    cases ht : tokenize source with
    | ok lexemes =>
      exact absurd hc ((tokenize_eq_ok_iff_cut.1 ht).not_isUnknown c (by simp [hsource]))
    | error e =>
      rw [tokenize] at ht
      cases hs : scan 0 #[] source.toList with
      | ok found => rw [hs] at ht; cases ht
      | error e' =>
        rw [hs] at ht
        obtain rfl : e' = e := Except.error.inj ht
        obtain ⟨before', c', after', hsource', hc', hb', rfl⟩ := of_scan_error hs
        obtain ⟨rfl, rfl⟩ := first_unknown_unique (hsource.symm.trans hsource') hc hc' hb hb'
        rw [Nat.zero_add]

theorem tokenize_isOk_iff {source : String} :
    (∃ lexemes, tokenize source = .ok lexemes) ↔ ∀ c ∈ source.toList, ¬ IsUnknown c := by
  constructor
  · rintro ⟨lexemes, h⟩
    exact (tokenize_eq_ok_iff_cut.1 h).not_isUnknown
  · intro h
    obtain ⟨lexemes, cut⟩ := exists_cut 0 h
    exact ⟨lexemes, tokenize_eq_ok_iff_cut.2 cut⟩

end MarkupShorthand
