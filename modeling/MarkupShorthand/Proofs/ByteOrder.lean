import Mathlib.Algebra.Ring.Nat
import Mathlib.Tactic.SplitIfs

/-!
# Texts in the order of their bytes

Texts are in the order of their code points, and this is also the order of their bytes in UTF-8
(`toUTF8_lt`). A code point is written as a leading byte and, the longer the form the greater the
leading byte is, up to three more with six bits each. In one form a greater code point has greater
bytes (`sixBitBytes_append_lt`), and of two forms the longer one begins with a greater byte
(`following_eq_or_leading_lt`), so that the first character that differs decides
(`utf8EncodeChar_append_lt`).
-/

namespace MarkupShorthand.Text

variable {v w n lead : Nat} {c d : Char} {a b : String}

/-- The bytes of a number that has a leading byte, which `lead` is added to, and behind it as many
bytes as are given, each with six bits of the number. -/
def sixBitBytes (lead : Nat) : Nat → Nat → List UInt8
  | 0, v => [UInt8.ofNat (v + lead)]
  | n + 1, v => sixBitBytes lead n (v / 64) ++ [UInt8.ofNat (v % 64 + 0x80)]

/-- How many bytes follow the leading byte of a code point. -/
def following (v : Nat) : Nat :=
  if v ≤ 0x7f then 0 else if v ≤ 0x7ff then 1 else if v ≤ 0xffff then 2 else 3

/-- What is added to a leading byte to tell how many bytes follow. -/
def leadingBits : Nat → Nat
  | 0 => 0
  | 1 => 0xc0
  | 2 => 0xe0
  | _ => 0xf0

/-- The leading byte of a code point. -/
def leading (v : Nat) : Nat :=
  v / 64 ^ following v + leadingBits (following v)

/-! ## Characters -/

theorem ofNat_lt_ofNat (h : v < w) (hw : w < 256) : UInt8.ofNat v < UInt8.ofNat w := by
  rw [UInt8.lt_iff_toNat_lt, UInt8.toNat_ofNat', UInt8.toNat_ofNat']
  omega

theorem exists_sixBitBytes_eq (lead n v : Nat) :
    ∃ more, sixBitBytes lead n v = UInt8.ofNat (v / 64 ^ n + lead) :: more := by
  induction n generalizing v with
  | zero => exact ⟨[], by rw [sixBitBytes, Nat.pow_zero, Nat.div_one]⟩
  | succ n ih =>
    obtain ⟨more, hmore⟩ := ih (v / 64)
    refine ⟨more ++ [UInt8.ofNat (v % 64 + 0x80)], ?_⟩
    rw [sixBitBytes, hmore, Nat.div_div_eq_div_mul, ← Nat.pow_succ', List.cons_append]

/-- In one form, a greater number has greater bytes, whatever follows. -/
theorem sixBitBytes_append_lt (h : v < w) (hw : w / 64 ^ n + lead < 256) (s t : List UInt8) :
    sixBitBytes lead n v ++ s < sixBitBytes lead n w ++ t := by
  induction n generalizing v w s t with
  | zero =>
    rw [Nat.pow_zero, Nat.div_one] at hw
    exact List.cons_lt_cons_iff.2 (.inl (ofNat_lt_ofNat (by omega) hw))
  | succ n ih =>
    rw [sixBitBytes, sixBitBytes, List.append_assoc, List.append_assoc]
    rcases Nat.lt_or_ge (v / 64) (w / 64) with hdiv | hdiv
    · exact ih hdiv (by rwa [Nat.div_div_eq_div_mul, ← Nat.pow_succ']) _ _
    · have hsame : v / 64 = w / 64 := by omega
      rw [hsame]
      exact List.append_left_lt
        (List.cons_lt_cons_iff.2 (.inl (ofNat_lt_ofNat (by omega) (by omega))))

theorem toNat_lt (c : Char) : c.toNat < 0x110000 := by
  have hvalid : c.toNat.isValidChar := c.valid
  rcases hvalid with h | ⟨-, h⟩ <;> omega

theorem utf8EncodeChar_eq (c : Char) :
    String.utf8EncodeChar c =
      sixBitBytes (leadingBits (following c.toNat)) (following c.toNat) c.toNat := by
  have hc := toNat_lt c
  have hv : c.val.toNat = c.toNat := rfl
  simp only [String.utf8EncodeChar, following, hv]
  split_ifs
  · rfl
  · rw [Nat.mod_eq_of_lt (by omega : c.toNat / 64 < 32)]
    rfl
  · rw [Nat.mod_eq_of_lt (by omega : c.toNat / 4096 < 16)]
    simp only [leadingBits, sixBitBytes, Nat.div_div_eq_div_mul]
    rfl
  · rw [Nat.mod_eq_of_lt (by omega : c.toNat / 262144 < 8)]
    simp only [leadingBits, sixBitBytes, Nat.div_div_eq_div_mul]
    rfl

theorem leading_lt (hv : v < 0x110000) : leading v < 256 := by
  unfold leading following
  split_ifs <;> simp only [leadingBits] <;> omega

theorem following_eq_or_leading_lt (h : v < w) (hw : w < 0x110000) :
    following v = following w ∨ leading v < leading w := by
  unfold leading following
  split_ifs <;> simp only [leadingBits, true_or] <;> omega

/-- A greater character has greater bytes, whatever follows. -/
theorem utf8EncodeChar_append_lt (h : c < d) (s t : List UInt8) :
    String.utf8EncodeChar c ++ s < String.utf8EncodeChar d ++ t := by
  have hcode : c.toNat < d.toNat := h
  rw [utf8EncodeChar_eq, utf8EncodeChar_eq]
  rcases following_eq_or_leading_lt hcode (toNat_lt d) with hform | hlead
  · rw [hform]
    exact sixBitBytes_append_lt hcode (leading_lt (toNat_lt d)) s t
  · obtain ⟨front, hfront⟩ := exists_sixBitBytes_eq (leadingBits (following c.toNat)) _ c.toNat
    obtain ⟨back, hback⟩ := exists_sixBitBytes_eq (leadingBits (following d.toNat)) _ d.toNat
    rw [hfront, hback]
    exact List.cons_lt_cons_iff.2 (.inl (ofNat_lt_ofNat hlead (leading_lt (toNat_lt d))))

/-! ## Texts -/

theorem flatMap_utf8EncodeChar_lt {chars chars' : List Char} (h : chars < chars') :
    chars.flatMap String.utf8EncodeChar < chars'.flatMap String.utf8EncodeChar := by
  induction h with
  | nil =>
    rename_i d rest
    obtain ⟨more, hmore⟩ := exists_sixBitBytes_eq (leadingBits (following d.toNat)) _ d.toNat
    rw [List.flatMap_cons, utf8EncodeChar_eq, hmore]
    exact List.nil_lt_cons _ _
  | rel h =>
    rw [List.flatMap_cons, List.flatMap_cons]
    exact utf8EncodeChar_append_lt h _ _
  | cons h ih =>
    rw [List.flatMap_cons, List.flatMap_cons]
    exact List.append_left_lt ih

theorem toUTF8_data_toList (a : String) :
    a.toUTF8.data.toList = a.toList.flatMap String.utf8EncodeChar := by
  show a.toByteArray.data.toList = _
  rw [← String.utf8Encode_toList, List.utf8Encode, List.data_toByteArray]

/-- Bytes are in the order of the texts. -/
theorem toUTF8_lt (h : a < b) : a.toUTF8.data.toList < b.toUTF8.data.toList := by
  rw [toUTF8_data_toList, toUTF8_data_toList]
  exact flatMap_utf8EncodeChar_lt h

end MarkupShorthand.Text
