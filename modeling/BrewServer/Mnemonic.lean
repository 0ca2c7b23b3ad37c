import BrewServer.Lib.LsbBits
import BrewServer.Protocol

/-!
# Packed mnemonic text

The septets of a mnemonic name straddle its bytes. Each character the loop yields is the
seven bits of the text at its own place.
-/

namespace BrewServer.Protocol

variable {data : Bytes} {b : UInt8} {bitPos : ℕ}

/-- The low part of a septet, and the bits it takes from the next byte. -/
def septetValue (data : Bytes) (b : UInt8) (bitPos : ℕ) : ℕ :=
  let low := b.toNat >>> (bitPos % 8)
  match data[bitPos / 8 + 1]? with
  | some c => if 1 < bitPos % 8 then low ||| (c.toNat <<< (8 - bitPos % 8)) else low
  | none => low

theorem decode7bitFrom_succ (n : ℕ) (hb : data[bitPos / 8]? = some b) :
    decode7bitFrom data (n + 1) bitPos =
      Char.ofNat (septetValue data b bitPos &&& 0x7f) :: decode7bitFrom data n (bitPos + 7) := by
  rw [decode7bitFrom, hb]
  rfl

theorem decode7bitFrom_beyond (n : ℕ) (h : data.length ≤ bitPos / 8) : decode7bitFrom data n bitPos = [] := by
  cases n with
  | zero => rfl
  | succ n => rw [decode7bitFrom, List.getElem?_eq_none h]

/-- Where the shift leaves no bit of the septet in this byte, the next one supplies it. -/
theorem testBit_septetValue {k : ℕ} (hb : data[bitPos / 8]? = some b) (hk : k < 7) :
    (septetValue data b bitPos).testBit k = lowBitAt data (bitPos + k) := by
  have hlow := testBit_shiftRight_byte (k := k) hb
  have hsplit : ∀ x : Bool, (decide (bitPos % 8 + k < 8) && x || decide (8 ≤ bitPos % 8 + k) && x) = x := by
    intro x
    by_cases h : bitPos % 8 + k < 8
    · simp [h]
    · simp [h, Nat.le_of_not_lt h]
  unfold septetValue
  cases hc : data[bitPos / 8 + 1]? with
  | none =>
    by_cases h : bitPos % 8 + k < 8
    · show (b.toNat >>> (bitPos % 8)).testBit k = _
      rw [hlow, decide_eq_true h, Bool.true_and]
    · -- Past the last byte every bit is 0.
      have hend : data.length ≤ (bitPos + k) / 8 := by
        have hlen := List.getElem?_eq_none_iff.mp hc
        omega
      show (b.toNat >>> (bitPos % 8)).testBit k = _
      rw [hlow, decide_eq_false h, Bool.false_and, lowBitAt_of_length_le hend]
  | some c =>
    by_cases h : 1 < bitPos % 8
    · have hnext := testBit_shiftLeft_next (k := k) hc (by omega)
      show (if 1 < bitPos % 8 then _ else _ : ℕ).testBit k = _
      rw [if_pos h, Nat.testBit_or, hlow, hnext]
      exact hsplit _
    · -- At these two phases the septet ends within its byte.
      have hin : bitPos % 8 + k < 8 := by omega
      show (if 1 < bitPos % 8 then _ else _ : ℕ).testBit k = _
      rw [if_neg h, hlow, decide_eq_true hin, Bool.true_and]

theorem septetValue_and (hb : data[bitPos / 8]? = some b) :
    septetValue data b bitPos &&& 0x7f = lowBits data bitPos 7 := by
  apply Nat.eq_of_testBit_eq
  intro k
  have hmask : (0x7f : ℕ) = 2 ^ 7 - 1 := rfl
  rw [Nat.testBit_and, hmask, Nat.testBit_two_pow_sub_one]
  by_cases hk : k < 7
  · rw [decide_eq_true hk, Bool.and_true, testBit_septetValue hb hk, lowBits, Nat.testBit_ofBits_lt _ _ hk]
  · rw [decide_eq_false hk, Bool.and_false, lowBits, Nat.testBit_ofBits_ge _ _ (by omega)]

/-- What the loop yields from a bit on: one character for each septet that begins within
the data. -/
theorem getElem?_decode7bitFrom (n : ℕ) (i : ℕ) :
    (decode7bitFrom data n bitPos)[i]? =
      if i < n ∧ bitPos + 7 * i < 8 * data.length then some (Char.ofNat (lowBits data (bitPos + 7 * i) 7))
      else none := by
  induction n generalizing bitPos i with
  | zero => simp [decode7bitFrom]
  | succ n ih =>
    by_cases h : bitPos / 8 < data.length
    · have hb : data[bitPos / 8]? = some data[bitPos / 8] := List.getElem?_eq_getElem h
      rw [decode7bitFrom_succ n hb, septetValue_and hb]
      cases i with
      | zero =>
        have hin : 0 < n + 1 ∧ bitPos + 7 * 0 < 8 * data.length := by omega
        rw [if_pos hin]
        rfl
      | succ i =>
        have hplace : bitPos + 7 + 7 * i = bitPos + 7 * (i + 1) := by omega
        rw [List.getElem?_cons_succ, ih, hplace]
        simp only [Nat.add_lt_add_iff_right]
    · have hout : ¬ (i < n + 1 ∧ bitPos + 7 * i < 8 * data.length) := by omega
      rw [decode7bitFrom_beyond _ (by omega), if_neg hout]
      rfl

theorem length_decode7bitFrom (n : ℕ) :
    (decode7bitFrom data n bitPos).length =
      ((List.range n).filter fun i => bitPos + 7 * i < 8 * data.length).length := by
  induction n generalizing bitPos with
  | zero => rfl
  | succ n ih =>
    rw [List.range_succ_eq_map]
    by_cases h : bitPos / 8 < data.length
    · have hb : data[bitPos / 8]? = some data[bitPos / 8] := List.getElem?_eq_getElem h
      have hin : bitPos + 7 * 0 < 8 * data.length := by omega
      rw [decode7bitFrom_succ n hb, List.length_cons, ih, List.filter_cons_of_pos (by simpa using hin),
        List.length_cons, List.filter_map, List.length_map]
      have hplace : ∀ i, bitPos + 7 + 7 * i = bitPos + 7 * (i + 1) := fun i => by omega
      simp only [hplace]
      rfl
    · rw [decode7bitFrom_beyond _ (by omega)]
      symm
      apply List.length_eq_zero_iff.mpr
      apply List.filter_eq_nil_iff.mpr
      intro i _
      simp only [decide_eq_true_eq]
      omega

/-- The characters of a packed text are its septets, and there is one for each whole septet
of the declared length that begins within the data. -/
theorem decode7bitPacked_septets (data : Bytes) (lenBits : ℕ) :
    (∀ i, (decode7bitPacked data lenBits)[i]? =
      if i < lenBits / 7 ∧ 7 * i < 8 * data.length then some (Char.ofNat (lowBits data (7 * i) 7)) else none) ∧
    (decode7bitPacked data lenBits).length =
      ((List.range (lenBits / 7)).filter fun i => 7 * i < 8 * data.length).length := by
  unfold decode7bitPacked
  constructor
  · intro i
    rw [getElem?_decode7bitFrom]
    simp only [Nat.zero_add]
  · rw [length_decode7bitFrom]
    simp only [Nat.zero_add]

example : decode7bitPacked [0x41, 0xe1, 0x10] 21 = ['A', 'B', 'C'] := by decide

end BrewServer.Protocol
