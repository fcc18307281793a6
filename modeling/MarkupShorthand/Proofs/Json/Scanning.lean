import MarkupShorthand.Json.Codec
import MarkupShorthand.Proofs.Abbreviation.Lexing

/-!
# Reading strings and numbers back

A character between quotes is read as what it was, escaped or not (`stringUnits_escape`), so a
string is read up to its closing quote and no further (`stringText_quote`). A number ends where its
digits do: nothing that a number could go on with may follow (`numberLiteral_decimal`).
-/

namespace MarkupShorthand.Json

open Text

/-! ## Strings -/

theorem hexValue?_hexDigit : ∀ n < 16, hexValue? (hexDigit n) = some n := by
  decide

/-- A control character is read back from its code. -/
theorem hexUnit?_hexDigit {c : Char} (h : c.toNat < 0x20) :
    hexUnit? '0' '0' (hexDigit (c.toNat / 16)) (hexDigit (c.toNat % 16)) = some (.char c) := by
  have hzero : hexValue? '0' = some 0 := by decide
  have hcode : ((0 * 16 + 0) * 16 + c.toNat / 16) * 16 + c.toNat % 16 = c.toNat := by omega
  simp only [hexUnit?, hzero, hexValue?_hexDigit (c.toNat / 16) (by omega),
    hexValue?_hexDigit (c.toNat % 16) (by omega), Option.bind_eq_bind, Option.bind_some, hcode]
  rw [if_neg (by omega), Char.ofNat_toNat]
  rfl

/-- A character that is not escaped stands for itself. -/
theorem stringUnits_cons {c : Char} (hquote : c ≠ '\x22') (hslash : c ≠ '\\')
    (hcontrol : ¬ c.toNat < 0x20) (rest : List Char) :
    stringUnits (c :: rest) = (stringUnits rest).map fun (units, after) =>
      (.char c :: units, after) := by
  rw [stringUnits]
  · rw [if_neg (fun h => h.elim hslash hcontrol)]
    cases stringUnits rest <;> rfl
  · exact fun e => hquote e
  · exact fun _ _ _ _ _ e _ => hslash e
  · exact fun _ _ e _ => hslash e

/-- A backslash and a sign stand for one character. -/
theorem stringUnits_escaped {sign c : Char} (hc : escaped? sign = some c) (rest : List Char) :
    stringUnits ('\\' :: sign :: rest) = (stringUnits rest).map fun (units, after) =>
      (.char c :: units, after) := by
  rw [stringUnits]
  · rw [hc]
    cases stringUnits rest <;> rfl
  · rintro _ _ _ _ _ rfl -
    cases hc

/-- Whatever the character, it is read back. -/
theorem stringUnits_escape (c : Char) (rest : List Char) :
    stringUnits (escape c ++ rest) = (stringUnits rest).map fun (units, after) =>
      (.char c :: units, after) := by
  unfold escape
  split
  case h_8 hquote hslash _ _ _ _ _ =>
    split
    · rename_i hcontrol
      simp only [List.cons_append, List.nil_append, stringUnits, hexUnit?_hexDigit hcontrol]
      cases stringUnits rest <;> rfl
    · rename_i hcontrol
      exact stringUnits_cons hquote hslash hcontrol rest
  all_goals exact stringUnits_escaped rfl rest

theorem joinUnits_map_char (chars : List Char) : joinUnits (chars.map .char) = some chars := by
  induction chars with
  | nil => rfl
  | cons c chars ih => rw [List.map_cons, joinUnits, ih]; rfl

theorem stringUnits_flatMap_escape (chars rest : List Char) :
    stringUnits (chars.flatMap escape ++ '\x22' :: rest) = some (chars.map .char, rest) := by
  induction chars with
  | nil => rfl
  | cons c chars ih =>
    rw [List.flatMap_cons, List.append_assoc, stringUnits_escape, ih]
    rfl

/-- The characters of a text between quotes. -/
theorem toList_quote (text : String) :
    (quote text).toList = '\x22' :: (text.toList.flatMap escape ++ ['\x22']) := by
  simp [quote]

/-- A string is read up to its closing quote, and it is what was written. -/
theorem stringText_quote (text : String) (rest : List Char) :
    stringText (text.toList.flatMap escape ++ '\x22' :: rest) = some (some text, rest) := by
  rw [stringText, stringUnits_flatMap_escape]
  simp [joinUnits_map_char]

/-! ## Numbers -/

/-- Whether a character may stand in a number behind its first one. -/
def goesOnNumber (c : Char) : Bool :=
  c.isDigit || c == '.' || c == 'e' || c == 'E'

/-- Whether what follows a number does not belong to it. -/
def EndsNumber (rest : List Char) : Prop :=
  ∀ c ∈ rest.head?, goesOnNumber c = false

theorem digits1_append {digits rest : List Char} (hne : digits ≠ [])
    (hdigits : ∀ c ∈ digits, c.isDigit = true) (hrest : ∀ c ∈ rest.head?, c.isDigit = false) :
    digits1 (digits ++ rest) = some (digits, rest) := by
  obtain ⟨c, more, rfl⟩ := List.exists_cons_of_ne_nil hne
  simp only [digits1, Token.takeWhile_append_of_head? hdigits hrest,
    Token.dropWhile_append_of_head? hdigits hrest]

/-- Only zero is written with a zero in front. -/
theorem head_decimal {n : Nat} (h : n ≠ 0) : ∃ c digits, decimal n = c :: digits ∧ c ≠ '0' := by
  induction n using Nat.strongRecOn with
  | ind n ih =>
    rcases Nat.lt_or_ge n 10 with hsmall | hlarge
    · have hdigit : ∀ n < 10, n ≠ 0 → n.digitChar ≠ '0' := by decide
      exact ⟨_, [], Nat.toDigits_of_lt_base hsmall, hdigit n hsmall h⟩
    · obtain ⟨c, digits, hc, hne⟩ := ih (n / 10) (by omega) (by omega)
      refine ⟨c, digits ++ [(n % 10).digitChar], ?_, hne⟩
      rw [decimal, Nat.toDigits_of_base_le (by decide) hlarge]
      exact congrArg (· ++ [(n % 10).digitChar]) hc

theorem wholePart_decimal (n : Nat) {rest : List Char}
    (hrest : ∀ c ∈ rest.head?, c.isDigit = false) :
    wholePart (decimal n ++ rest) = some (decimal n, rest) := by
  by_cases h : n = 0
  · subst h
    rfl
  · obtain ⟨c, digits, hc, hne⟩ := head_decimal h
    have hdigits := digits1_append (decimal_ne_nil n) isDigit_of_mem_decimal hrest
    rw [← hdigits, hc, List.cons_append, wholePart]
    exact fun _ e => hne (List.cons.inj e).1

theorem fraction_of_ends {rest : List Char} (h : EndsNumber rest) : fraction rest = some ([], rest) := by
  cases rest with
  | nil => rfl
  | cons c rest =>
    rw [fraction]
    rintro _ e
    obtain rfl := (List.cons.inj e).1
    exact absurd (h '.' rfl) (by decide)

theorem exponent_of_ends {rest : List Char} (h : EndsNumber rest) :
    exponent rest = some ([], rest) := by
  cases rest with
  | nil => rfl
  | cons c rest =>
    rw [exponent, if_neg]
    rintro (rfl | rfl)
    · exact absurd (h 'e' rfl) (by decide)
    · exact absurd (h 'E' rfl) (by decide)

theorem EndsNumber.isDigit_eq_false {rest : List Char} (h : EndsNumber rest) :
    ∀ c ∈ rest.head?, c.isDigit = false := by
  intro c hc
  have hno := h c hc
  simp only [goesOnNumber, Bool.or_eq_false_iff] at hno
  exact hno.1.1.1

/-- A number is read up to where its digits end. -/
theorem numberLiteral_decimal (n : Nat) {rest : List Char} (h : EndsNumber rest) :
    numberLiteral (decimal n ++ rest) = some (decimal n, rest) := by
  have hunsigned : unsigned (decimal n ++ rest) = some (decimal n, rest) := by
    simp only [unsigned, wholePart_decimal n h.isDigit_eq_false, fraction_of_ends h,
      exponent_of_ends h, Option.bind_eq_bind, Option.bind_some, List.append_nil]
    rfl
  obtain ⟨c, digits, hc⟩ := List.exists_cons_of_ne_nil (decimal_ne_nil n)
  rw [← hunsigned, hc, List.cons_append, numberLiteral]
  rintro _ e
  have hdigit := isDigit_of_mem_decimal c (hc ▸ List.mem_cons_self)
  rw [(List.cons.inj e).1] at hdigit
  exact absurd hdigit (by decide)

end MarkupShorthand.Json
