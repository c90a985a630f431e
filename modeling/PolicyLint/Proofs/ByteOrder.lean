import Mathlib.Data.List.Basic
import Mathlib.Tactic.SplitIfs

/-!
# The order of bytes

Texts are ordered by their characters, and file systems order names by the bytes that they are
written with. Both orders agree, since the bytes of a character are ordered as its number is :
a larger number has a larger first byte, or the same first byte and larger ones behind it.

Main statement : a smaller text has smaller bytes (`Text.bytes_lt_bytes`).
-/

namespace PolicyLint.Text

/-- The bytes that a text is written with. -/
def bytes (text : String) : List UInt8 :=
  text.toByteArray.data.toList

theorem bytes_eq_flatMap (text : String) :
    bytes text = text.toList.flatMap String.utf8EncodeChar := by
  rw [bytes, ← String.utf8Encode_toList, List.utf8Encode, List.toList_data_toByteArray]

/-! ## Characters -/

theorem ofNat_cons_lt_iff {m n : Nat} (hm : m < 256) (hn : n < 256) {xs ys : List UInt8} :
    UInt8.ofNat m :: xs < UInt8.ofNat n :: ys ↔ m < n ∨ m = n ∧ xs < ys := by
  rw [List.cons_lt_cons_iff, UInt8.lt_iff_toNat_lt, ← UInt8.toNat_inj,
    UInt8.toNat_ofNat_of_lt' hm, UInt8.toNat_ofNat_of_lt' hn]

theorem toNat_val_lt (c : Char) : c.val.toNat < 0x110000 := by
  rcases c.valid with h | ⟨-, h⟩
  · exact Nat.lt_trans h (by decide)
  · exact h

/-- The bytes of a smaller character are smaller, whatever stands behind them. -/
theorem utf8EncodeChar_append_lt {c d : Char} (h : c < d) (xs ys : List UInt8) :
    String.utf8EncodeChar c ++ xs < String.utf8EncodeChar d ++ ys := by
  have hlt : c.val.toNat < d.val.toNat := UInt32.lt_iff_toNat_lt.1 h
  have hmax := toNat_val_lt d
  unfold String.utf8EncodeChar
  generalize c.val.toNat = m at *
  generalize d.val.toNat = n at *
  -- All bytes but the first hold six digits, so the numbers are told apart digit by digit.
  have hdiv (k : Nat) : k / 4096 = k / 64 / 64 ∧ k / 262144 = k / 64 / 64 / 64 := by
    simp only [Nat.div_div_eq_div_mul, Nat.reduceMul, and_self]
  simp only [hdiv]
  split_ifs <;>
    simp (disch := omega) only [List.cons_append, List.nil_append, ofNat_cons_lt_iff] <;> omega

theorem nil_lt_utf8EncodeChar_append (c : Char) (xs : List UInt8) :
    [] < String.utf8EncodeChar c ++ xs := by
  unfold String.utf8EncodeChar
  dsimp only
  split_ifs <;> exact List.nil_lt_cons _ _

/-! ## Texts -/

/-- A smaller text has smaller bytes. -/
theorem bytes_lt_bytes {text text' : String} (h : text < text') : bytes text < bytes text' := by
  rw [bytes_eq_flatMap, bytes_eq_flatMap]
  have hlex : List.Lex (· < ·) text.toList text'.toList := h
  generalize text.toList = chars, text'.toList = chars' at hlex
  induction hlex with
  | nil =>
    rw [List.flatMap_nil, List.flatMap_cons]
    exact nil_lt_utf8EncodeChar_append _ _
  | rel hlt =>
    rw [List.flatMap_cons, List.flatMap_cons]
    exact utf8EncodeChar_append_lt hlt _ _
  | cons _ ih =>
    rw [List.flatMap_cons, List.flatMap_cons]
    exact List.append_left_lt ih

end PolicyLint.Text
