import BrewServer.Lib.LeBytes

/-!
# Bits of a byte string, least significant first

A field that straddles two bytes has its low bits at the top of the first byte and its
high bits at the bottom of the second.
-/

namespace BrewServer

/-- Bit `i` of a byte string read from the low end of each byte, 0 past its end. -/
def lowBitAt (bs : Bytes) (i : ℕ) : Bool := ((bs[i / 8]?).getD 0).toNat.testBit (i % 8)

/-- The `n` bits from bit `start` on, as a number. -/
def lowBits (bs : Bytes) (start n : ℕ) : ℕ := Nat.ofBits fun k : Fin n => lowBitAt bs (start + k)

theorem lowBitAt_of_length_le {bs : Bytes} {i : ℕ} (h : bs.length ≤ i / 8) : lowBitAt bs i = false := by
  rw [lowBitAt, List.getElem?_eq_none h, Option.getD_none]
  exact Nat.zero_testBit _

theorem testBit_byte_of_le (b : UInt8) {k : ℕ} (h : 8 ≤ k) : b.toNat.testBit k = false := by
  apply Nat.testBit_lt_two_pow
  have hb := b.toNat_lt
  have hpow : 2 ^ 8 ≤ 2 ^ k := Nat.pow_le_pow_right (by decide) h
  omega

/-- A byte shifted down shows the bits of the string from there to its own end. -/
theorem testBit_shiftRight_byte {bs : Bytes} {b : UInt8} {i k : ℕ} (hb : bs[i / 8]? = some b) :
    (b.toNat >>> (i % 8)).testBit k = (decide (i % 8 + k < 8) && lowBitAt bs (i + k)) := by
  rw [Nat.testBit_shiftRight]
  by_cases h : i % 8 + k < 8
  · have hdiv : (i + k) / 8 = i / 8 := by omega
    have hmod : (i + k) % 8 = i % 8 + k := by omega
    rw [lowBitAt, hdiv, hmod, hb, Option.getD_some, decide_eq_true h, Bool.true_and]
  · rw [decide_eq_false h, Bool.false_and]
    exact testBit_byte_of_le b (by omega)

/-- The next byte shifted up shows the bits that follow. -/
theorem testBit_shiftLeft_next {bs : Bytes} {c : UInt8} {i k : ℕ} (hc : bs[i / 8 + 1]? = some c) (hk : k < 8) :
    (c.toNat <<< (8 - i % 8)).testBit k = (decide (8 ≤ i % 8 + k) && lowBitAt bs (i + k)) := by
  rw [Nat.testBit_shiftLeft]
  by_cases h : 8 ≤ i % 8 + k
  · have hdiv : (i + k) / 8 = i / 8 + 1 := by omega
    have hmod : (i + k) % 8 = k - (8 - i % 8) := by omega
    have hle : k ≥ 8 - i % 8 := by omega
    rw [lowBitAt, hdiv, hmod, hc, Option.getD_some, decide_eq_true h, decide_eq_true hle]
  · have hle : ¬ k ≥ 8 - i % 8 := by omega
    rw [decide_eq_false h, decide_eq_false hle, Bool.false_and, Bool.false_and]

end BrewServer
