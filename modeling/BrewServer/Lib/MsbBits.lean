import BrewServer.Lib.LeBytes

/-!
# Bits of a byte string, most significant first

A byte string is determined by its length and its bits.
-/

namespace BrewServer

/-- Bit `i` of a byte string, 0 past its end. -/
def bitAt (bs : Bytes) (i : ℕ) : Bool := ((bs[i / 8]?).getD 0).toNat.testBit (7 - i % 8)

/-- A byte for a bit. -/
def bitByte (b : Bool) : UInt8 := if b then 1 else 0

@[simp] theorem bitByte_ne_zero (b : Bool) : (bitByte b ≠ 0) ↔ b = true := by cases b <;> simp [bitByte]

/-- Bytes with the same bits are the same. -/
theorem byte_ext {a b : UInt8} (h : ∀ k < 8, a.toNat.testBit k = b.toNat.testBit k) : a = b := by
  refine UInt8.toNat_inj.mp (Nat.eq_of_testBit_eq fun k => ?_)
  by_cases hk : k < 8
  · exact h k hk
  · have hpow : 2 ^ 8 ≤ 2 ^ k := Nat.pow_le_pow_right (by decide) (by omega)
    have ha := a.toNat_lt
    have hb := b.toNat_lt
    rw [Nat.testBit_lt_two_pow (by omega), Nat.testBit_lt_two_pow (by omega)]

theorem ext_bitAt {a b : Bytes} (hlen : a.length = b.length) (h : ∀ i < 8 * a.length, bitAt a i = bitAt b i) : a = b := by
  refine List.ext_getElem hlen fun n hna hnb => byte_ext fun k hk => ?_
  -- Bit `k` of byte `n` is bit `8 * n + (7 - k)` of the string.
  have hbit := h (8 * n + (7 - k)) (by omega)
  have hdiv : (8 * n + (7 - k)) / 8 = n := by omega
  have hmod : 7 - (8 * n + (7 - k)) % 8 = k := by omega
  rw [bitAt, bitAt, hdiv, hmod, List.getElem?_eq_getElem hna, List.getElem?_eq_getElem hnb] at hbit
  exact hbit

/-- One bit of a byte as a byte. -/
theorem shiftRight_and_one (b : UInt8) {k : ℕ} (hk : k < 8) :
    (b >>> UInt8.ofNat k) &&& 1 = bitByte (b.toNat.testBit k) := by
  apply UInt8.toNat_inj.mp
  have hkn : (UInt8.ofNat k).toNat = k := by
    simp only [UInt8.toNat_ofNat']
    omega
  have hone : (1 : UInt8).toNat = 1 := rfl
  rw [UInt8.toNat_and, UInt8.toNat_shiftRight, hkn, hone, Nat.mod_eq_of_lt hk, Nat.testBit]
  rw [Nat.and_comm 1, Nat.and_one_is_mod]
  rcases Nat.mod_two_eq_zero_or_one (b.toNat >>> k) with h | h <;> rw [h] <;> rfl

/-- Setting a bit of a byte. -/
theorem testBit_or_shiftLeft (b : UInt8) {k j : ℕ} (hk : k < 8) (hj : j < 8) :
    (b ||| (1 <<< UInt8.ofNat k)).toNat.testBit j = (b.toNat.testBit j || decide (k = j)) := by
  have hkn : (UInt8.ofNat k).toNat = k := by
    simp only [UInt8.toNat_ofNat']
    omega
  have hone : (1 : UInt8).toNat = 1 := rfl
  rw [UInt8.toNat_or, UInt8.toNat_shiftLeft, hkn, hone, Nat.mod_eq_of_lt hk, Nat.one_shiftLeft, Nat.testBit_or,
    Nat.testBit_mod_two_pow, Nat.testBit_two_pow]
  simp only [hj, decide_true, Bool.true_and]

/-- The bits of a byte string, each as a byte. -/
theorem bitAt_modify {bs : Bytes} {i j : ℕ} (hi : i / 8 < bs.length) :
    bitAt (bs.modify (i / 8) (· ||| (1 <<< UInt8.ofNat (7 - i % 8)))) j = (bitAt bs j || decide (i = j)) := by
  rw [bitAt, bitAt, List.getElem?_modify]
  by_cases hsame : i / 8 = j / 8
  · have hget : bs[j / 8]? = some bs[i / 8] := by
      rw [← hsame]
      exact List.getElem?_eq_getElem hi
    have hbits := testBit_or_shiftLeft bs[i / 8] (k := 7 - i % 8) (j := 7 - j % 8) (by omega) (by omega)
    have hplace : (7 - i % 8 = 7 - j % 8) ↔ i = j := by omega
    rw [← decide_eq_decide.mpr hplace, hget]
    simp only [if_pos hsame, Option.map_eq_map, Option.map_some, Option.getD_some]
    exact hbits
  · have hne : i ≠ j := fun heq => hsame (by rw [heq])
    rw [decide_eq_false hne, Bool.or_false]
    simp only [if_neg hsame]
    cases bs[j / 8]? <;> rfl

/-- Masking one byte. -/
theorem bitAt_modify_and (bs : Bytes) (n : ℕ) (mask : UInt8) (j : ℕ) :
    bitAt (bs.modify n (· &&& mask)) j = (bitAt bs j && (decide (n ≠ j / 8) || mask.toNat.testBit (7 - j % 8))) := by
  rw [bitAt, bitAt, List.getElem?_modify]
  by_cases hn : n = j / 8
  · cases bs[j / 8]? <;> simp [hn]
  · cases bs[j / 8]? <;> simp [hn]

end BrewServer
