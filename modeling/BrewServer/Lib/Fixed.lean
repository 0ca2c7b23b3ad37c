import Mathlib.Algebra.Order.Floor.Ring
import Mathlib.Data.Rat.Floor
import Mathlib.Tactic.Linarith
import BrewServer.Lib.Text

/-!
# Numbers of fixed width

A number is written with leading zeros up to a width, or to two decimals. A half is rounded
to the even neighbour.
-/

namespace BrewServer.Chars

section Padding

variable {width n m : ℕ} {t : Chars}

def padLeft (width : ℕ) (t : Chars) : Chars := List.replicate (width - t.length) '0' ++ t

/-- A number with leading zeros. -/
def padded (width n : ℕ) : Chars := padLeft width (decimal n)

theorem length_padLeft (h : t.length ≤ width) : (padLeft width t).length = width := by
  rw [padLeft, List.length_append, List.length_replicate]
  omega

theorem length_padded (hw : 0 < width) (h : n < 10 ^ width) : (padded width n).length = width :=
  length_padLeft ((Nat.length_toDigits_le_iff (by decide) hw).mpr h)

theorem isDigit_of_mem_padded {c : Char} (h : c ∈ padded width n) : c.isDigit = true := by
  rcases List.mem_append.mp h with h | h
  · rw [List.eq_of_mem_replicate h]
    rfl
  · exact isDigit_of_mem_decimal h

theorem ofDigitChars_padded : Nat.ofDigitChars 10 (padded width n) 0 = n := by
  rw [padded, padLeft, Nat.ofDigitChars_append, Nat.ofDigitChars_replicate_zero, Nat.mul_zero]
  exact Nat.ofDigitChars_ten_toDigits

theorem padded_inj (h : padded width n = padded width m) : n = m := by
  calc
    n = Nat.ofDigitChars 10 (padded width n) 0 := ofDigitChars_padded.symm
    _ = Nat.ofDigitChars 10 (padded width m) 0 := by rw [h]
    _ = m := ofDigitChars_padded

/-- Zeros before a point stand before its whole part. -/
theorem padLeft_append (t tail : Chars) : padLeft (width + tail.length) (t ++ tail) = padLeft width t ++ tail := by
  have hzeros : width + tail.length - (t.length + tail.length) = width - t.length := by omega
  rw [padLeft, padLeft, List.length_append, hzeros, List.append_assoc]

end Padding

section Rounding

variable {x : ℚ}

/-- The nearest integer, the even one of two. -/
def roundEven (x : ℚ) : ℤ := if Int.fract x = 1 / 2 ∧ ⌊x⌋ % 2 = 0 then ⌊x⌋ else ⌊x + 1 / 2⌋

theorem abs_sub_roundEven_le (x : ℚ) : |x - roundEven x| ≤ 1 / 2 := by
  unfold roundEven
  split
  · next h =>
    rw [← Int.fract, h.1]
    norm_num
  · have hlo := Int.floor_le (x + 1 / 2)
    have hhi := Int.lt_floor_add_one (x + 1 / 2)
    rw [abs_le]
    constructor
    · linarith
    · linarith

/-- Up to half below an even number rounding stays below it. -/
theorem roundEven_lt_iff {k : ℤ} (hk : k % 2 = 0) : roundEven x < k ↔ x < k - 1 / 2 := by
  unfold roundEven
  split
  · next h =>
    have hfract : x - ⌊x⌋ = 1 / 2 := h.1
    constructor
    · intro hlt
      have hle : ⌊x⌋ + 2 ≤ k := by omega
      have hle' : ((⌊x⌋ : ℤ) : ℚ) + 2 ≤ k := by exact_mod_cast hle
      linarith
    · intro hlt
      have hlt' : ((⌊x⌋ : ℤ) : ℚ) < k := by linarith
      exact_mod_cast hlt'
  · rw [Int.floor_lt]
    constructor
    · intro hlt
      linarith
    · intro hlt
      linarith

theorem roundEven_nonneg (h : 0 ≤ x) : 0 ≤ roundEven x := by
  unfold roundEven
  split
  · exact Int.floor_nonneg.mpr h
  · exact Int.floor_nonneg.mpr (by linarith)

/-- `x` in hundredths. -/
def hundredths (x : ℚ) : ℕ := (roundEven (x * 100)).toNat

/-- A number that is not negative to two decimals, with leading zeros. -/
def fixedTwo (width : ℕ) (x : ℚ) : Chars :=
  padLeft width (decimal (hundredths x / 100) ++ '.' :: padded 2 (hundredths x % 100))

theorem fixedTwo_eq (width : ℕ) (x : ℚ) :
    fixedTwo (width + 3) x = padded width (hundredths x / 100) ++ '.' :: padded 2 (hundredths x % 100) := by
  have htail : ('.' :: padded 2 (hundredths x % 100)).length = 3 := by
    have hlt : hundredths x % 100 < 10 ^ 2 := Nat.mod_lt _ (by decide)
    rw [List.length_cons, length_padded (by decide) hlt]
  have h := @padLeft_append width (decimal (hundredths x / 100)) ('.' :: padded 2 (hundredths x % 100))
  rw [htail] at h
  exact h

theorem cast_hundredths (h : 0 ≤ x) : ((hundredths x : ℕ) : ℚ) = (roundEven (x * 100) : ℤ) := by
  have hnonneg : 0 ≤ roundEven (x * 100) := roundEven_nonneg (by linarith)
  exact_mod_cast congrArg (fun k : ℤ => (k : ℚ)) (Int.toNat_of_nonneg hnonneg)

/-- Two decimals are at most half a hundredth off. -/
theorem abs_hundredths_sub_le (h : 0 ≤ x) : |((hundredths x : ℕ) : ℚ) / 100 - x| ≤ 1 / 200 := by
  have herr := abs_le.mp (abs_sub_roundEven_le (x * 100))
  rw [cast_hundredths h, abs_le]
  constructor
  · linarith
  · linarith

theorem hundredths_lt_iff {k : ℕ} (h : 0 ≤ x) (hk : k % 2 = 0) : hundredths x < k ↔ x * 100 < k - 1 / 2 := by
  have hiff := roundEven_lt_iff (x := x * 100) (k := (k : ℤ)) (by omega)
  have hcast : hundredths x < k ↔ roundEven (x * 100) < (k : ℤ) := by
    have hnonneg : 0 ≤ roundEven (x * 100) := roundEven_nonneg (by linarith)
    unfold hundredths
    omega
  rw [hcast, hiff, Int.cast_natCast]

end Rounding

end BrewServer.Chars
