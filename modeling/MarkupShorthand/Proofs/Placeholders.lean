import Mathlib.Data.Nat.Log
import MarkupShorthand.Placeholder
import MarkupShorthand.Proofs.Abbreviation.Lexing

/-!
# Numbers in the place of `$`

A value with a `$` has a first run of them (`exists_firstRun`), and a number takes the place of this
run and of nothing else (`FirstRun.substitute_eq`). What it is written with is a numeral that stands
for the number, has zeros in front up to the length of the run, and is longer only where the number
has more digits than that (`isNumeral_padded`). So the number can be read off the value again
(`FirstRun.substitute_inj`).
-/

namespace MarkupShorthand.Placeholder

open Text

variable {value before after : String} {width index index' : Nat}

/-- Where the first run of `$` in a value is: what comes before it, its length, and what comes
behind it. -/
structure FirstRun (value before : String) (width : Nat) (after : String) : Prop where
  value_eq : value = before ++ String.ofList (List.replicate width '$') ++ after
  width_pos : 0 < width
  not_mem_before : '$' ∉ before.toList
  head_after : after.toList.head? ≠ some '$'

/-- A decimal numeral of a number that has at least a given width and no zeros in front beyond it. -/
structure IsNumeral (digits : String) (width index : Nat) : Prop where
  isDigit : ∀ c ∈ digits.toList, c.isDigit = true
  ofDecimal_eq : ofDecimal digits.toList = index
  length_eq : digits.length = max width (Nat.log 10 index + 1)

/-! ## Numerals -/

/-- How long a numeral is goes by the greatest power of ten in its number. -/
theorem length_decimal (n : Nat) : (decimal n).length = Nat.log 10 n + 1 := by
  have hpos : 0 < (decimal n).length := Nat.length_toDigits_pos
  have hle : (decimal n).length ≤ Nat.log 10 n + 1 :=
    (Nat.length_toDigits_le_iff (by decide) (Nat.succ_pos _)).2
      (Nat.lt_pow_succ_log_self (by decide) n)
  have hbound : n < 10 ^ (decimal n).length :=
    (Nat.length_toDigits_le_iff (by decide) hpos).1 le_rfl
  have hge : Nat.log 10 n < (decimal n).length := Nat.log_lt_of_lt_pow' hpos.ne' hbound
  omega

theorem isNumeral_padded (width index : Nat) :
    IsNumeral (String.ofList (padded width index)) width index where
  isDigit := by
    rw [String.toList_ofList]
    exact isDigit_of_mem_padded
  ofDecimal_eq := by rw [String.toList_ofList, ofDecimal_padded]
  length_eq := by rw [String.length_ofList, length_padded, length_decimal]

/-! ## The first run -/

/-- The parts of a value are those around the first run. -/
theorem split_run {before after : List Char} (hbefore : '$' ∉ before) (hwidth : 0 < width)
    (hafter : after.head? ≠ some '$') :
    split (before ++ (List.replicate width '$' ++ after)) =
      (before, List.replicate width '$', after) := by
  have outside : ∀ c ∈ before, (c != '$') = true := fun c hc =>
    bne_iff_ne.2 fun e => hbefore (e ▸ hc)
  have inside : ∀ c ∈ List.replicate width '$', (c == '$') = true := fun c hc =>
    beq_iff_eq.2 (List.eq_of_mem_replicate hc)
  have starts : ∀ c ∈ (List.replicate width '$' ++ after).head?, (c != '$') = false := by
    obtain ⟨n, rfl⟩ := Nat.exists_eq_add_one.2 hwidth
    exact fun c hc => Option.mem_some.1 hc ▸ rfl
  have ends : ∀ c ∈ after.head?, (c == '$') = false := fun c hc =>
    beq_eq_false_iff_ne.2 fun e => hafter (e ▸ hc)
  simp only [split, Token.takeWhile_append_of_head? outside starts,
    Token.dropWhile_append_of_head? outside starts, Token.takeWhile_append_of_head? inside ends,
    Token.dropWhile_append_of_head? inside ends]

theorem FirstRun.split_eq (h : FirstRun value before width after) :
    split value.toList = (before.toList, List.replicate width '$', after.toList) := by
  rw [h.value_eq, String.toList_append, String.toList_append, String.toList_ofList,
    List.append_assoc, split_run h.not_mem_before h.width_pos h.head_after]

theorem exists_run (chars : List Char) :
    ∃ width rest, chars = List.replicate width '$' ++ rest ∧ rest.head? ≠ some '$' := by
  induction chars with
  | nil => exact ⟨0, [], rfl, nofun⟩
  | cons c chars ih =>
    by_cases hc : c = '$'
    · obtain ⟨width, rest, rfl, hrest⟩ := ih
      exact ⟨width + 1, rest, hc ▸ rfl, hrest⟩
    · exact ⟨0, c :: chars, rfl, fun e => hc (Option.some.inj e)⟩

/-- A value with a `$` has a first run. -/
theorem exists_firstRun (h : '$' ∈ value.toList) :
    ∃ before width after, FirstRun value before width after := by
  obtain ⟨front, back, hvalue, hfront⟩ := List.eq_append_cons_of_mem h
  obtain ⟨more, rest, hmore, hrest⟩ := exists_run back
  refine ⟨String.ofList front, more + 1, String.ofList rest, ?_, more.succ_pos, ?_, ?_⟩
  · rw [← String.toList_inj, hvalue, hmore]
    simp [List.replicate_succ]
  · rwa [String.toList_ofList]
  · rwa [String.toList_ofList]

/-! ## Substitution -/

theorem substitute_of_not_mem (h : '$' ∉ value.toList) (index : Nat) :
    substitute value index = value := by
  have outside : value.toList.dropWhile (· != '$') = [] :=
    List.dropWhile_eq_nil_iff.2 fun c hc => bne_iff_ne.2 fun e => h (e ▸ hc)
  simp only [substitute, split, outside, List.takeWhile_nil]

theorem FirstRun.substitute_eq (h : FirstRun value before width after) (index : Nat) :
    substitute value index = before ++ String.ofList (padded width index) ++ after := by
  obtain ⟨n, rfl⟩ := Nat.exists_eq_add_one.2 h.width_pos
  have hsplit := h.split_eq
  rw [List.replicate_succ] at hsplit
  rw [substitute, hsplit]
  simp only [List.length_cons, List.length_replicate, String.ofList_append, String.ofList_toList]

/-- The number can be read off a value again. -/
theorem FirstRun.substitute_inj (h : FirstRun value before width after)
    (e : substitute value index = substitute value index') : index = index' := by
  rw [h.substitute_eq, h.substitute_eq, String.append_left_inj, String.append_right_inj,
    String.ofList_inj] at e
  rw [← ofDecimal_padded width index, e, ofDecimal_padded]

/-- A value without `$` stays what it is. In a value with a `$`, a numeral of the number that is as
long as the first run, or longer where the number needs more digits, takes the place of the run, and
all that comes before and behind the run stays, so that different numbers make different values. -/
theorem substitute_first_run (value : String) (index : Nat) :
    ('$' ∉ value.toList → substitute value index = value) ∧
    ('$' ∈ value.toList → ∃ before width after, FirstRun value before width after) ∧
    (∀ before width after, FirstRun value before width after →
      ∃ digits, IsNumeral digits width index ∧
        substitute value index = before ++ digits ++ after) ∧
    ('$' ∈ value.toList → ∀ index', substitute value index' = substitute value index →
      index' = index) := by
  refine ⟨fun hnone => substitute_of_not_mem hnone index, exists_firstRun,
    fun before width after h => ?_, fun hsome index' e => ?_⟩
  · exact ⟨_, isNumeral_padded width index, h.substitute_eq index⟩
  · obtain ⟨before, width, after, h⟩ := exists_firstRun hsome
    exact h.substitute_inj e

/-- A run behind a letter of two bytes, with another run behind it, and a number that is longer than
the run. -/
theorem substitute_first_run_of_two_runs :
    '$' ∈ "é$$–$c".toList ∧ FirstRun "é$$–$c" "é" 2 "–$c" ∧
      (∃ digits, IsNumeral digits 2 1234 ∧ substitute "é$$–$c" 1234 = "é" ++ digits ++ "–$c") ∧
      (∀ index', substitute "é$$–$c" index' = "é1234–$c" → index' = 1234) ∧
      '$' ∉ "é–c".toList ∧ substitute "é–c" 1234 = "é–c" := by
  have hsome : '$' ∈ "é$$–$c".toList := by decide +kernel
  have hnone : '$' ∉ "é–c".toList := by decide +kernel
  have hrun : FirstRun "é$$–$c" "é" 2 "–$c" :=
    ⟨by decide +kernel, by decide, by decide +kernel, by decide +kernel⟩
  have hvalue : substitute "é$$–$c" 1234 = "é1234–$c" := by decide +kernel
  obtain ⟨-, -, hplaced, hinj⟩ := substitute_first_run "é$$–$c" 1234
  exact ⟨hsome, hrun, hplaced _ _ _ hrun, fun index' e => hinj hsome index' (e.trans hvalue.symm),
    hnone, (substitute_first_run "é–c" 1234).1 hnone⟩

end MarkupShorthand.Placeholder
