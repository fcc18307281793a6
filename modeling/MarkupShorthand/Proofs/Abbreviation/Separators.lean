import Mathlib.Data.List.Chain
import MarkupShorthand.Proofs.Abbreviation.Moving
import MarkupShorthand.Proofs.Abbreviation.Offsets

/-!
# Brackets and white space

What stands between the words of an abbreviation. A place that is in no word divides the lexemes
(`Cut.split`). There a bracket becomes a lexeme of its own (`Cut.exists_insert`), which only keeps
texts apart, so that the tree stays (`parse_insert_bracket`). White space keeps a token from going
on, and where it is taken out, a text before it and a text behind it become one (`Cut.join`), which
they were as a literal before (`parse_delete_space`).
-/

namespace MarkupShorthand

open Text

/-! ## Places between lexemes -/

variable {offset : Nat} {chars before after space : List Char} {past rest lexemes : List Lexeme}
  {c : Char}

/-- How long a token is depends on the next character only. -/
theorem Token.Longest.of_head? {token : Token} {chars chars' : List Char}
    (h : token.Longest chars) (hc : ∀ c ∈ chars'.head?, c ∈ chars.head?) :
    token.Longest chars' := by
  cases token with
  | text content => exact ⟨h.1, fun c hm => h.2 c (hc c hm)⟩
  | directive content => exact ⟨h.1, fun c hm => h.2 c (hc c hm)⟩
  | _ => trivial

namespace Cut

/-- A lexeme lies within the characters that are cut. -/
theorem bounds (h : Cut offset chars lexemes) : ∀ lexeme ∈ lexemes, offset ≤ lexeme.start ∧
    lexeme.start < lexeme.stop ∧ lexeme.stop ≤ offset + utf8Length chars := by
  induction h with
  | nil => exact nofun
  | space _ _ ih =>
    intro lexeme hm
    obtain ⟨hstart, hlt, hstop⟩ := ih lexeme hm
    rw [utf8Length_cons]
    exact ⟨by omega, hlt, by omega⟩
  | @token offset token rest lexemes longest _ ih =>
    obtain ⟨first, more, hw⟩ := longest.exists_cons
    have hpos : 0 < utf8Length token.written := by
      rw [hw, utf8Length_cons]
      exact Nat.add_pos_left first.utf8Size_pos _
    rw [utf8Length_append]
    refine List.forall_mem_cons.2 ⟨⟨Nat.le_refl _, Nat.lt_add_of_pos_right hpos, ?_⟩, ?_⟩
    · show offset + utf8Length token.written ≤ _
      omega
    · intro lexeme hm
      obtain ⟨hstart, hlt, hstop⟩ := ih lexeme hm
      exact ⟨by omega, hlt, by omega⟩

theorem stop_eq (h : Cut offset chars lexemes) : ∀ lexeme ∈ lexemes,
    lexeme.stop = lexeme.start + utf8Length lexeme.token.written := by
  induction h with
  | nil => exact nofun
  | space _ _ ih => exact ih
  | token _ _ ih => exact List.forall_mem_cons.2 ⟨rfl, ih⟩

/-- A place that is in no lexeme divides them. -/
theorem split (h : Cut offset (before ++ after) lexemes)
    (outside : ∀ lexeme ∈ lexemes, ¬ (lexeme.start < offset + utf8Length before ∧
      offset + utf8Length before < lexeme.stop)) :
    ∃ past rest, lexemes = past ++ rest ∧ Cut offset before past ∧
      Cut (offset + utf8Length before) after rest := by
  generalize hc : before ++ after = chars at h
  induction h generalizing before with
  | nil offset =>
    obtain ⟨rfl, rfl⟩ := List.append_eq_nil_iff.1 hc
    exact ⟨[], [], rfl, .nil _, .nil _⟩
  | @space offset c chars lexemes hs cut ih =>
    cases before with
    | nil =>
      obtain rfl : after = c :: chars := hc
      exact ⟨[], lexemes, rfl, .nil _, .space hs cut⟩
    | cons d before =>
      obtain ⟨rfl, hrest⟩ := List.cons.inj hc
      rw [utf8Length_cons, ← Nat.add_assoc] at outside ⊢
      obtain ⟨past, rest, rfl, hpast, hrest⟩ := ih outside hrest
      exact ⟨past, rest, rfl, .space hs hpast, hrest⟩
  | @token offset token chars lexemes longest cut ih =>
    cases before with
    | nil =>
      obtain rfl : after = token.written ++ chars := hc
      exact ⟨[], _, rfl, .nil _, .token longest cut⟩
    | cons d before =>
      obtain ⟨first, outside⟩ := List.forall_mem_cons.1 outside
      have hd := d.utf8Size_pos
      simp only [utf8Length_cons] at first
      -- the token starts before the place, so that all of it is before the place
      obtain ⟨x, hx, rfl⟩ : ∃ x, d :: before = token.written ++ x ∧ chars = x ++ after := by
        rcases List.append_eq_append_iff.1 hc with ⟨x, hw, hafter⟩ | h
        · cases x with
          | nil => exact ⟨[], by simpa using hw.symm, hafter.symm⟩
          | cons e x =>
            have he := e.utf8Size_pos
            simp only [hw, List.cons_append, utf8Length_cons, utf8Length_append] at first
            omega
        · exact h
      rw [hx, utf8Length_append, ← Nat.add_assoc] at outside ⊢
      obtain ⟨past, rest, rfl, hpast, hrest⟩ := ih outside rfl
      have longest := Token.Longest.of_head? longest fun c => List.mem_head?_append_of_mem_head?
      exact ⟨_, rest, rfl, .token longest hpast, hrest⟩

/-- White space is in no lexeme. -/
theorem outside_of_space (h : Cut offset (before ++ c :: after) lexemes)
    (hc : isWhiteSpace c = true) : ∀ lexeme ∈ lexemes,
      ¬ (lexeme.start < offset + utf8Length before ∧
        offset + utf8Length before < lexeme.stop) := by
  generalize hchars : before ++ c :: after = chars at h
  induction h generalizing before with
  | nil => exact nofun
  | @space offset d chars lexemes hs cut ih =>
    cases before with
    | nil =>
      intro lexeme hm h
      have hstart := (cut.bounds lexeme hm).1
      simp only [utf8Length_nil] at h
      omega
    | cons d before =>
      rw [utf8Length_cons, ← Nat.add_assoc, (List.cons.inj hchars).1]
      exact ih (List.cons.inj hchars).2
  | @token offset token chars lexemes longest cut ih =>
    rcases append_eq_append_cons hchars.symm with ⟨x, hw⟩ | ⟨x, rfl, hx⟩
    · have hspace := (longest.of_mem_written (hw ▸ List.mem_append_right _ List.mem_cons_self)).1
      rw [hc] at hspace
      cases hspace
    · rw [utf8Length_append, ← Nat.add_assoc]
      refine List.forall_mem_cons.2 ⟨fun h => ?_, ih hx.symm⟩
      exact Nat.not_lt.2 (Nat.le_add_right _ _) h.2

/-- White space in front of lexemes is skipped. -/
theorem of_spaces (hs : ∀ c ∈ space, isWhiteSpace c = true)
    (h : Cut offset (space ++ after) lexemes) :
    Cut (offset + utf8Length space) after lexemes := by
  induction space generalizing offset with
  | nil => exact h
  | cons c space ih =>
    obtain ⟨hc, hs⟩ := List.forall_mem_cons.1 hs
    rw [utf8Length_cons, ← Nat.add_assoc]
    refine ih hs ?_
    generalize hchars : c :: space ++ after = chars at h
    cases h with
    | nil => cases hchars
    | space _ cut =>
      obtain ⟨rfl, rfl⟩ := List.cons.inj hchars
      exact cut
    | token longest =>
      obtain ⟨first, more, hw⟩ := longest.exists_cons
      rw [hw] at hchars
      obtain rfl := (List.cons.inj hchars).1
      rw [(longest.of_mem_written (hw ▸ List.mem_cons_self)).1] at hc
      cases hc

/-- A character of texts starts a text. -/
theorem exists_text (h : Cut offset (c :: chars) lexemes) (hc : isTextChar c = true) :
    ∃ content after later, c :: chars = content.toList ++ after ∧
      (Token.text content).Longest after ∧
      Cut (offset + utf8Length content.toList) after later ∧
      lexemes = ⟨.text content, offset, offset + utf8Length content.toList⟩ :: later := by
  generalize hchars : c :: chars = all at h
  cases h with
  | nil => cases hchars
  | space hs =>
    obtain rfl := (List.cons.inj hchars).1
    rw [(isTextChar_iff.1 hc).1] at hs
    cases hs
  | @token offset token after later longest cut =>
    obtain ⟨first, more, hw⟩ := longest.exists_cons
    rw [hw] at hchars
    obtain rfl := (List.cons.inj hchars).1
    obtain ⟨content, rfl⟩ := longest.exists_text hw hc
    exact ⟨content, after, later, rfl, longest, cut, rfl⟩

/-- A token that is no directive goes on in what is behind it only where both are texts, which are
one literal then as before. -/
theorem token_append {token : Token} (longest : token.Longest [])
    (hd : ∀ content, token ≠ .directive content)
    (h : Cut (offset + utf8Length token.written) after rest) :
    ∃ lexemes, Cut offset (token.written ++ after) lexemes ∧
      items lexemes = items (⟨token, offset, offset + utf8Length token.written⟩ :: rest) := by
  cases token with
  | text content =>
    by_cases hc : ∃ c ∈ after.head?, isTextChar c = true
    · obtain ⟨c, hhead, hc⟩ := hc
      obtain ⟨chars, rfl⟩ := List.head?_eq_some_iff.1 hhead
      obtain ⟨content', after, later, hchars, longest', cut, rfl⟩ := h.exists_text hc
      have written : (Token.text (content ++ content')).written =
          content.toList ++ content'.toList := String.toList_append
      have joined : (Token.text (content ++ content')).Longest after :=
        ⟨longest.1.append longest'.1, longest'.2⟩
      have behind : Cut (offset + utf8Length (Token.text (content ++ content')).written) after
          later := by
        rw [written, utf8Length_append, ← Nat.add_assoc]
        exact cut
      have whole := Cut.token joined behind
      rw [written, List.append_assoc] at whole
      rw [hchars]
      exact ⟨_, whole, (Item.joinTo_joinTo ⟨content, _⟩ ⟨content', _⟩ (items later)).symm⟩
    · exact ⟨_, .token ⟨longest.1, fun c hm => Bool.eq_false_iff.2 fun e => hc ⟨c, hm, e⟩⟩ h, rfl⟩
  | directive content => exact absurd rfl (hd content)
  | _ => exact ⟨_, .token trivial h, rfl⟩

/-- Where two parts that are cut meet, at most a text goes on, which does not change the items. -/
theorem join (h : Cut offset before past) (h' : Cut (offset + utf8Length before) after rest)
    (hd : ∀ lexeme ∈ past, ∀ content, lexeme.token = .directive content →
      lexeme.stop ≠ offset + utf8Length before) :
    ∃ lexemes, Cut offset (before ++ after) lexemes ∧ items lexemes = items (past ++ rest) := by
  induction h with
  | nil offset => exact ⟨rest, h', rfl⟩
  | @space offset c before past hs _ ih =>
    rw [utf8Length_cons, ← Nat.add_assoc] at h' hd
    obtain ⟨lexemes, cut, he⟩ := ih h' hd
    exact ⟨lexemes, .space hs cut, he⟩
  | @token offset token chars past longest cut ih =>
    rw [utf8Length_append, ← Nat.add_assoc] at h' hd
    obtain ⟨first, hd⟩ := List.forall_mem_cons.1 hd
    cases chars with
    | nil =>
      obtain rfl := cut.eq_nil
      rw [List.append_nil]
      exact token_append longest (fun content e => first content e rfl) h'
    | cons c chars =>
      obtain ⟨lexemes, joined, he⟩ := ih h' hd
      rw [List.append_assoc]
      refine ⟨_, .token (longest.of_head? fun _ => id) joined, ?_⟩
      rw [items, he, List.cons_append, items]

end Cut

variable {f : Nat → Nat}

/-- Where an edit takes out white space or nothing, and at a place that is in no lexeme, the lexemes
before it stay and those behind it are moved. -/
theorem Displaces.exists_moved {new : Nat}
    (hf : Displaces f (utf8Length before) (utf8Length space) new)
    (hs : ∀ c ∈ space, isWhiteSpace c = true) (h : Cut 0 (before ++ (space ++ after)) lexemes)
    (outside : ∀ lexeme ∈ lexemes,
      ¬ (lexeme.start < utf8Length before ∧ utf8Length before < lexeme.stop)) :
    ∃ past rest moved, lexemes = past ++ rest ∧ Cut 0 before past ∧
      Cut (utf8Length before) (space ++ after) rest ∧ Cut (utf8Length before + new) after moved ∧
      past.map Lexeme.item = past.map (fun l => l.item.move f) ∧
      moved.map Lexeme.item = rest.map fun l => l.item.move f := by
  rw [← Nat.zero_add (utf8Length before)] at outside
  obtain ⟨past, rest, rfl, hpast, hrest⟩ := h.split outside
  rw [Nat.zero_add] at hrest
  obtain ⟨moved, hmoved, hitems⟩ := (hrest.of_spaces hs).move hf.behind
  refine ⟨past, rest, moved, rfl, hpast, hrest, hmoved, hf.map_item_eq fun lexeme hm => ?_, hitems⟩
  obtain ⟨-, hlt, hle⟩ := hpast.bounds lexeme hm
  rw [Nat.zero_add] at hle
  exact Nat.lt_of_lt_of_le hlt hle

/-! ## Brackets -/

/-- The characters that are reserved tokens on their own. -/
def brackets : List Char :=
  ['[', ']', '\x7b', '\x7d', '(', ')']

/-- Whether a place is in no text and in no directive, and not between two texts that have nothing
but white space between them. -/
structure Separates (place : Nat) (lexemes : List Lexeme) : Prop where
  outside : ∀ lexeme ∈ lexemes, lexeme.token.text?.isSome = true →
    ¬ (lexeme.start < place ∧ place < lexeme.stop)
  apart : lexemes.IsChain fun first second =>
    first.content?.isSome = true → second.content?.isSome = true →
    ¬ (first.stop ≤ place ∧ place ≤ second.start)

theorem of_mem_brackets {bracket : Char} (h : bracket ∈ brackets) :
    bracket ∈ punctuation ∧ bracket.utf8Size = 1 ∧
      ∃ token, Token.ofSymbol? bracket = some token ∧ token.operator? = some .inert := by
  simp only [brackets, List.mem_cons, List.not_mem_nil, or_false] at h
  rcases h with rfl | rfl | rfl | rfl | rfl | rfl <;> exact ⟨by decide, rfl, _, rfl, rfl⟩

theorem not_isUnknown_of_bracket {bracket : Char} (h : bracket ∈ brackets) :
    ¬ IsUnknown bracket := by
  obtain ⟨-, -, token, hs, -⟩ := of_mem_brackets h
  obtain ⟨hw, longest⟩ := Token.of_ofSymbol? hs
  exact (longest []).not_isUnknown (hw ▸ List.mem_singleton_self bracket)

theorem displaces_insert (place : Nat) :
    Displaces (fun offset => if place ≤ offset then offset + 1 else offset) place 0 1 where
  before offset h := if_neg (Nat.not_le.2 h)
  behind n := by
    rw [if_pos (by omega)]
    omega

/-- Only words have places in them. -/
theorem Separates.outside_all {place : Nat} (h : Separates place lexemes)
    (cut : Cut offset chars lexemes) :
    ∀ lexeme ∈ lexemes, ¬ (lexeme.start < place ∧ place < lexeme.stop) := by
  intro lexeme hm
  cases hw : lexeme.token.text? with
  | some word => exact h.outside lexeme hm (by rw [hw]; rfl)
  | none =>
    have hstop := cut.stop_eq lexeme hm
    have hone : utf8Length lexeme.token.written = 1 := by
      cases ht : lexeme.token with
      | directive | text =>
        rw [ht] at hw
        cases hw
      | _ => rfl
    omega

theorem Separates.not_both {place : Nat} (h : Separates place (past ++ rest))
    (hpast : ∀ lexeme ∈ past, lexeme.stop ≤ place) (hrest : ∀ lexeme ∈ rest, place ≤ lexeme.start) :
    ∀ first ∈ past.getLast?, ∀ second ∈ rest.head?,
      first.item.isLiteral = true → second.item.isLiteral = false := by
  intro first hf second hs hl
  by_contra hl'
  have isSome_of_isLiteral : ∀ lexeme : Lexeme, lexeme.item.isLiteral = true →
      lexeme.content?.isSome = true := by
    intro lexeme h
    rw [Option.isSome_iff_ne_none]
    exact fun e => absurd (Lexeme.content?_eq_none.1 e) (by rw [h]; nofun)
  refine (List.isChain_append.1 h.apart).2.2 first hf second hs (isSome_of_isLiteral first hl)
    (isSome_of_isLiteral second (Bool.not_eq_false _ ▸ hl')) ⟨?_, ?_⟩
  · exact hpast first (List.mem_of_getLast? hf)
  · exact hrest second (List.mem_of_head? hs)

/-- A reserved lexeme is noticed by nothing but texts that it keeps apart. -/
theorem readItems_insert {lexeme : Lexeme} (hl : lexeme.item = .reserved) (b : Builder) :
    b.readItems (items (past ++ lexeme :: rest)) = b.readItems (items past ++ items rest) := by
  rw [items_append, items, hl]
  · exact b.readItems_reserved _ _
  · intro _ _ second hm _
    obtain rfl := Option.mem_some.1 hm
    rw [hl]
    rfl

/-- A bracket becomes a lexeme of its own, and the items are read as if only offsets had moved. -/
theorem Cut.exists_insert {bracket : Char} (hb : bracket ∈ brackets)
    (hf : Displaces f (utf8Length before) 0 1) (h : Cut 0 (before ++ after) lexemes)
    (separates : Separates (utf8Length before) lexemes) :
    ∃ lexemes', Cut 0 (before ++ ([bracket] ++ after)) lexemes' ∧ ∀ b : Builder,
      b.readItems (items lexemes') = b.readItems ((items lexemes).map (·.move f)) := by
  obtain ⟨hpunct, hsize, token, hs, hop⟩ := of_mem_brackets hb
  obtain ⟨hw, longest⟩ := Token.of_ofSymbol? hs
  have no_space : ∀ c ∈ ([] : List Char), isWhiteSpace c = true := List.forall_mem_nil _
  obtain ⟨past, rest, moved, rfl, hpast, hrest, hmoved, hkept, hitems⟩ :=
    hf.exists_moved no_space h (separates.outside_all h)
  have hbehind : Cut (0 + utf8Length before + utf8Length token.written) after moved := by
    rw [Nat.zero_add, hw, utf8Length_cons, hsize]
    exact hmoved
  have whole := hpast.append (.token (longest after) hbehind)
  rw [hw] at whole
  refine ⟨_, whole fun c hc => Option.mem_some.1 hc ▸ hpunct, fun b => ?_⟩
  rw [readItems_insert (Lexeme.item_eq_reserved.2 hop), items_move hkept, items_move hitems,
    ← List.map_append, ← items_append]
  refine separates.not_both (fun lexeme hm => ?_) fun lexeme hm => (hrest.bounds lexeme hm).1
  rw [← Nat.zero_add (utf8Length before)]
  exact (hpast.bounds lexeme hm).2.2

/-- A bracket that is put in anywhere but into a text, into a directive or between two texts that
are one literal leaves the tree the same, and an error the same but for the bracket's byte in front
of what it points at. -/
theorem parse_insert_bracket {bracket : Char} (hb : bracket ∈ brackets) (before after : String)
    (hp : ∀ lexemes, tokenize (before ++ after) = .ok lexemes →
      Separates before.utf8ByteSize lexemes) :
    parse (before ++ String.singleton bracket ++ after) =
      (parse (before ++ after)).mapError
        (·.move fun offset => if before.utf8ByteSize ≤ offset then offset + 1 else offset) := by
  have hchars : (before ++ after).toList = before.toList ++ ([] ++ after.toList) := by simp
  have hchars' : (before ++ String.singleton bracket ++ after).toList =
      before.toList ++ ([bracket] ++ after.toList) := by simp
  have hf := displaces_insert before.utf8ByteSize
  rw [← utf8Length_toList] at hf hp ⊢
  generalize (fun offset => if utf8Length before.toList ≤ offset then offset + 1 else offset) = f
    at hf ⊢
  cases ht : tokenize (before ++ after) with
  | error e =>
    have known : ∀ c ∈ [bracket], ¬ IsUnknown c :=
      List.forall_mem_singleton.2 (not_isUnknown_of_bracket hb)
    have hsize : utf8Length [bracket] = 1 := by simp [(of_mem_brackets hb).2.1]
    rw [← hsize] at hf
    exact hf.parse_eq_of_error hchars hchars' (List.forall_mem_nil _) known ht
  | ok lexemes =>
    have cut := tokenize_eq_ok_iff_cut.1 ht
    rw [String.toList_append] at cut
    obtain ⟨lexemes', cut', hread⟩ := cut.exists_insert hb hf (hp lexemes ht)
    rw [← hchars'] at cut'
    exact parse_eq_of_items ht (tokenize_eq_ok_iff_cut.2 cut') (hread {})

/-- A bracket in the middle of stacked climbs, in front of a count that is refused. -/
theorem parse_insert_bracket_into_climbs :
    parse ("a>b>^" ++ String.singleton '(' ++ "^é*x") = .error (.invalidCount "x" 10) ∧
      parse ("a>b>^" ++ "^é*x") = .error (.invalidCount "x" 9) := by
  have h : parse ("a>b>^" ++ "^é*x") = .error (.invalidCount "x" 9) := by decide +kernel
  refine ⟨?_, h⟩
  rw [parse_insert_bracket (by decide) "a>b>^" "^é*x", h]
  · rfl
  · intro lexemes ht
    have found : tokenize ("a>b>^" ++ "^é*x") = .ok [⟨.text "a", 0, 1⟩, ⟨.child, 1, 2⟩,
        ⟨.text "b", 2, 3⟩, ⟨.child, 3, 4⟩, ⟨.climb, 4, 5⟩, ⟨.climb, 5, 6⟩, ⟨.text "é", 6, 8⟩,
        ⟨.multiply, 8, 9⟩, ⟨.text "x", 9, 10⟩] := by decide +kernel
    obtain rfl := Except.ok.inj (found.symm.trans ht)
    exact ⟨by decide +kernel, by decide +kernel⟩

/-! ## White space -/

theorem displaces_delete (place size : Nat) :
    Displaces (fun offset => offset - min (offset - place) size) place size 0 where
  before offset h := by omega
  behind n := by omega

/-- Where white space is taken out, the items are the same but for offsets. -/
theorem Cut.exists_delete (hf : Displaces f (utf8Length before) (utf8Length (c :: space)) 0)
    (hs : ∀ d ∈ c :: space, isWhiteSpace d = true)
    (h : Cut 0 (before ++ (c :: space ++ after)) lexemes)
    (hd : ∀ lexeme ∈ lexemes, ∀ content, lexeme.token = .directive content →
      lexeme.stop ≠ utf8Length before) :
    ∃ lexemes', Cut 0 (before ++ after) lexemes' ∧
      items lexemes' = (items lexemes).map (·.move f) := by
  have outside := h.outside_of_space (hs c List.mem_cons_self)
  rw [Nat.zero_add] at outside
  obtain ⟨past, rest, moved, rfl, hpast, -, hmoved, hkept, hitems⟩ := hf.exists_moved hs h outside
  rw [← Nat.zero_add (utf8Length before)] at hd
  rw [← Nat.zero_add (utf8Length before), Nat.add_zero] at hmoved
  obtain ⟨lexemes', whole, he⟩ := hpast.join hmoved fun lexeme hm =>
    hd lexeme (List.mem_append_left _ hm)
  refine ⟨lexemes', whole, ?_⟩
  rw [he]
  refine items_move ?_
  rw [List.map_append, List.map_append, hkept, hitems]

/-- White space that is taken out anywhere but right behind a directive leaves the tree the same,
and an error the same but for the bytes that were in front of what it points at. -/
theorem parse_delete_space (before space after : String)
    (hs : ∀ c ∈ space.toList, isWhiteSpace c = true)
    (hd : ∀ lexemes, tokenize (before ++ space ++ after) = .ok lexemes → ∀ lexeme ∈ lexemes,
      ∀ content, lexeme.token = .directive content → lexeme.stop ≠ before.utf8ByteSize) :
    parse (before ++ after) = (parse (before ++ space ++ after)).mapError (·.move fun offset =>
      offset - min (offset - before.utf8ByteSize) space.utf8ByteSize) := by
  have hchars : (before ++ space ++ after).toList =
      before.toList ++ (space.toList ++ after.toList) := by simp
  have hchars' : (before ++ after).toList = before.toList ++ ([] ++ after.toList) := by simp
  have hf := displaces_delete before.utf8ByteSize space.utf8ByteSize
  rw [← utf8Length_toList, ← utf8Length_toList] at hf ⊢
  rw [← utf8Length_toList] at hd
  cases ht : tokenize (before ++ space ++ after) with
  | error e =>
    have known : ∀ c ∈ space.toList, ¬ IsUnknown c := fun c hc => not_isUnknown_of_space (hs c hc)
    exact hf.parse_eq_of_error hchars hchars' known (List.forall_mem_nil _) ht
  | ok lexemes =>
    cases hspace : space.toList with
    | nil =>
      obtain rfl : space = "" := String.toList_inj.1 hspace
      have hid : (fun offset => offset - min (offset - utf8Length before.toList)
          (utf8Length [])) = id := funext fun offset => by simp
      rw [String.append_empty, hid]
      cases parse (before ++ after) with
      | error e => exact congrArg Except.error e.move_id.symm
      | ok t => rfl
    | cons c more =>
      have cut := tokenize_eq_ok_iff_cut.1 ht
      rw [hspace] at hf hs hchars
      rw [hchars] at cut
      obtain ⟨lexemes', cut', he⟩ := cut.exists_delete hf hs (hd lexemes ht)
      rw [← String.toList_append] at cut'
      exact parse_eq_of_items ht (tokenize_eq_ok_iff_cut.2 cut') (by rw [he])

/-- White space in a name and in a count. -/
theorem parse_delete_space_in_words :
    parse ("u" ++ " \t" ++ "l*1 x") = .error (.invalidCount "1x" 5) ∧
      parse ("u" ++ "l*1 x") = .error (.invalidCount "1x" 3) := by
  have h : parse ("u" ++ " \t" ++ "l*1 x") = .error (.invalidCount "1x" 5) := by decide +kernel
  refine ⟨h, ?_⟩
  rw [parse_delete_space "u" " \t" "l*1 x" (List.all_eq_true.1 (by decide)), h]
  · rfl
  · intro lexemes ht
    have found : tokenize ("u" ++ " \t" ++ "l*1 x") = .ok [⟨.text "u", 0, 1⟩, ⟨.text "l", 3, 4⟩,
        ⟨.multiply, 4, 5⟩, ⟨.text "1", 5, 6⟩, ⟨.text "x", 7, 8⟩] := by decide +kernel
    obtain rfl := Except.ok.inj (found.symm.trans ht)
    simp

end MarkupShorthand
