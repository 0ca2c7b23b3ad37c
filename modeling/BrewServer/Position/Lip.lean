import Mathlib.Tactic.Linarith
import Mathlib.Tactic.NormNum
import Mathlib.Tactic.Positivity
import BrewServer.Lib.MsbBits

/-!
# Binary position reports

A short and a long location report carry the same longitude in 25 bits. Degrees are exact
rationals.
-/

namespace BrewServer.Position

/-- A decoded position in decimal degrees. -/
structure LatLon where
  lat : ℚ
  lon : ℚ
  deriving DecidableEq

/-- Exactly 0/0 is the "no fix" value of every beacon format, never a position. -/
def LatLon.new (lat lon : ℚ) : Option LatLon :=
  if (-90 ≤ lat ∧ lat ≤ 90) ∧ (-180 ≤ lon ∧ lon ≤ 180) ∧ (lat ≠ 0 ∨ lon ≠ 0) then some { lat, lon } else none

/-- The number in `n` bits from bit `start`. -/
def take (bs : Bytes) (start n : ℕ) : ℕ := (List.range n).foldl (fun v k => 2 * v + (bitAt bs (start + k)).toNat) 0

/-- The number in the lowest `n` bits of a word, by a shift to its top and back. -/
def signExtend (v n : ℕ) : ℤ := ((BitVec.ofNat 32 v <<< (32 - n)).sshiftRight (32 - n)).toInt

/-- A short location report, with the protocol id before it. -/
def decodeLip (bytes : Bytes) : Option LatLon :=
  if bytes.length < 8 ∨ bytes[0]? ≠ some 0x0a then none
  else
    let pdu := bytes.drop 1
    if pdu.length * 8 < 4 + 25 + 24 then none
    else if take pdu 0 2 ≠ 0 then none
    else
      let lonRaw := take pdu 4 25
      let latRaw := take pdu 29 24
      let lon : ℚ := signExtend lonRaw 25 * 360 / 2 ^ 25
      let lat : ℚ := signExtend latRaw 24 * 180 / 2 ^ 24
      if lonRaw = 0 ∧ latRaw = 0 then none else LatLon.new lat lon

/-- A long location report. -/
def decodeLipLong (data : Bytes) : Option LatLon :=
  if data.length < 23 ∨ data[0]? ≠ some 0x83 then none
  else
    let latRaw := take data 119 24
    let lonRaw := take data 152 25
    if latRaw = 0 ∧ lonRaw = 0 then none
    else
      let lat : ℚ := latRaw * 180 / 2 ^ 23
      let lon : ℚ := lonRaw * 360 / 2 ^ 25
      LatLon.new lat lon

/-! ## Numbers in bits -/

section Bits

variable {bs : Bytes} {start n v : ℕ}

theorem take_succ : take bs start (n + 1) = 2 * take bs start n + (bitAt bs (start + n)).toNat := by
  unfold take
  rw [List.range_succ, List.foldl_append]
  rfl

theorem take_lt : take bs start n < 2 ^ n := by
  induction n with
  | zero => exact Nat.one_pos
  | succ n ih =>
    have hbit := (bitAt bs (start + n)).toNat_lt
    rw [take_succ, pow_succ]
    omega

theorem take_congr {bs' : Bytes} {start' : ℕ} (h : ∀ k < n, bitAt bs (start + k) = bitAt bs' (start' + k)) :
    take bs start n = take bs' start' n := by
  induction n with
  | zero => rfl
  | succ n ih => rw [take_succ, take_succ, ih fun k hk => h k (Nat.lt_succ_of_lt hk), h n (Nat.lt_succ_self n)]

/-- The top bit counts negative. -/
theorem signExtend_eq (hn : n < 32) (hv : v < 2 ^ (n + 1)) :
    signExtend v (n + 1) = if v < 2 ^ n then (v : ℤ) else v - 2 ^ (n + 1) := by
  obtain ⟨s, hs⟩ : ∃ s, s = 32 - (n + 1) := ⟨_, rfl⟩
  have hword : 2 ^ (n + 1) * 2 ^ s = 2 ^ 32 := by
    rw [← pow_add]
    congr 1
    omega
  have hhalf : 2 * 2 ^ n = 2 ^ (n + 1) := (pow_succ' 2 n).symm
  have hpos : 0 < 2 ^ s := Nat.two_pow_pos s
  have hfit : v * 2 ^ s < 2 ^ 32 := by
    rw [← hword]
    exact Nat.mul_lt_mul_of_pos_right hv hpos
  have hsmall : v < 2 ^ 32 := lt_of_le_of_lt (Nat.le_mul_of_pos_right v hpos) hfit
  have htop : (BitVec.ofNat 32 v <<< s).toNat = v * 2 ^ s := by
    rw [BitVec.toNat_shiftLeft, BitVec.toNat_ofNat, Nat.mod_eq_of_lt hsmall, Nat.shiftLeft_eq, Nat.mod_eq_of_lt hfit]
  have hsign : 2 * (v * 2 ^ s) < 2 ^ 32 ↔ v < 2 ^ n := by
    rw [← hword, ← hhalf, mul_assoc]
    constructor
    · intro h
      exact Nat.lt_of_mul_lt_mul_right (Nat.lt_of_mul_lt_mul_left h)
    · intro h
      exact Nat.mul_lt_mul_of_pos_left (Nat.mul_lt_mul_of_pos_right h hpos) (by decide)
  have hunit : ((2 ^ s : ℕ) : ℤ) ≠ 0 := by exact_mod_cast hpos.ne'
  unfold signExtend
  rw [← hs, BitVec.toInt_sshiftRight, BitVec.toInt_eq_toNat_cond, htop, Int.shiftRight_eq_div_pow]
  by_cases h : v < 2 ^ n
  · rw [if_pos (hsign.mpr h), if_pos h, Nat.cast_mul]
    exact Int.mul_ediv_cancel _ hunit
  · rw [if_neg fun hlt => h (hsign.mp hlt), if_neg h, ← hword, Nat.cast_mul, Nat.cast_mul, ← sub_mul]
    rw [Int.mul_ediv_cancel _ hunit, Nat.cast_pow]
    rfl

end Bits

/-! ## The two reports -/

theorem LatLon.new_eq_some {lat lon : ℚ} {p : LatLon} :
    LatLon.new lat lon = some p ↔
      ((-90 ≤ lat ∧ lat ≤ 90) ∧ (-180 ≤ lon ∧ lon ≤ 180) ∧ (lat ≠ 0 ∨ lon ≠ 0)) ∧ p = { lat, lon } := by
  unfold LatLon.new
  constructor
  · intro h
    split at h
    · next hrange => exact ⟨hrange, (Option.some.inj h).symm⟩
    · cases h
  · rintro ⟨hrange, rfl⟩
    exact if_pos hrange

section Reports

variable {short long : Bytes} {p : LatLon}

/-- A short report's longitude. -/
theorem lon_of_decodeLip (h : decodeLip short = some p) :
    p.lon = (signExtend (take (short.drop 1) 4 25) 25 : ℚ) * 360 / 2 ^ 25 := by
  unfold decodeLip at h
  dsimp only at h
  split at h
  · cases h
  · split at h
    · cases h
    · split at h
      · cases h
      · split at h
        · cases h
        · obtain ⟨-, rfl⟩ := LatLon.new_eq_some.mp h
          rfl

/-- A long report whose latitude is a place north of the equator is read as far as its
longitude, taken without a sign, goes to 180 degrees. -/
theorem decodeLipLong_eq_some (hlen : 23 ≤ long.length) (hpid : long[0]? = some 0x83) (hfix : take long 119 24 ≠ 0)
    (hnorth : (take long 119 24 : ℚ) * 180 / 2 ^ 23 ≤ 90) :
    decodeLipLong long = some p ↔
      (take long 152 25 : ℚ) * 360 / 2 ^ 25 ≤ 180 ∧
        p = { lat := take long 119 24 * 180 / 2 ^ 23, lon := take long 152 25 * 360 / 2 ^ 25 } := by
  have hshape : ¬ (long.length < 23 ∨ long[0]? ≠ some 0x83) := by
    rintro (h | h)
    · omega
    · exact h hpid
  have hpos : (0 : ℚ) < take long 119 24 := by exact_mod_cast Nat.pos_of_ne_zero hfix
  have hlat : (0 : ℚ) < take long 119 24 * 180 / 2 ^ 23 := by positivity
  have hlon : (0 : ℚ) ≤ take long 152 25 * 360 / 2 ^ 25 := by positivity
  unfold decodeLipLong
  rw [if_neg hshape]
  dsimp only
  rw [if_neg fun h => hfix h.1, LatLon.new_eq_some]
  constructor
  · rintro ⟨⟨-, ⟨-, hle⟩, -⟩, hp⟩
    exact ⟨hle, hp⟩
  · rintro ⟨hle, hp⟩
    exact ⟨⟨⟨by linarith, hnorth⟩, ⟨by linarith, hle⟩, Or.inl hlat.ne'⟩, hp⟩

/-- The long report is read with the longitude of the short one exactly if the field they
share has its top bit clear: the long report takes it without a sign. -/
theorem decodeLipLong_lon_iff (short long : Bytes) (p : LatLon) (hshort : decodeLip short = some p)
    (hlen : 23 ≤ long.length) (hpid : long[0]? = some 0x83) (hfix : take long 119 24 ≠ 0)
    (hnorth : (take long 119 24 : ℚ) * 180 / 2 ^ 23 ≤ 90)
    (hbits : ∀ k < 25, bitAt long (152 + k) = bitAt (short.drop 1) (4 + k)) :
    (∃ q, decodeLipLong long = some q ∧ q.lon = p.lon) ↔ take (short.drop 1) 4 25 < 2 ^ 24 := by
  have hsame : take long 152 25 = take (short.drop 1) 4 25 := take_congr hbits
  have hlt : take (short.drop 1) 4 25 < 2 ^ 25 := take_lt
  have hlon := lon_of_decodeLip hshort
  rw [signExtend_eq (n := 24) (by decide) hlt] at hlon
  constructor
  · rintro ⟨q, hq, hqlon⟩
    obtain ⟨-, rfl⟩ := (decodeLipLong_eq_some hlen hpid hfix hnorth).mp hq
    by_contra hwest
    rw [if_neg hwest, ← hqlon, hsame] at hlon
    push_cast at hlon
    norm_num at hlon
    linarith
  · intro heast
    rw [if_pos heast] at hlon
    have heast' : ((take (short.drop 1) 4 25 : ℕ) : ℚ) ≤ 2 ^ 24 := by exact_mod_cast heast.le
    have hle : (take long 152 25 : ℚ) * 360 / 2 ^ 25 ≤ 180 := by
      rw [hsame]
      linarith
    refine ⟨_, (decodeLipLong_eq_some hlen hpid hfix hnorth).mpr ⟨hle, rfl⟩, ?_⟩
    rw [hlon]
    dsimp only
    rw [hsame]
    rfl

end Reports

def athensShort : Bytes := [0x0a, 0x01, 0x0e, 0x62, 0x39, 0xb0, 0x43, 0x9a, 0xff, 0xe0, 0x20]

/-- A long report with the same longitude. -/
def athensLong : Bytes :=
  [0x83, 0x00, 0x11, 0x80, 0x13, 0x13, 0x23, 0x2f, 0x34, 0x1f, 0x5c, 0x77, 0x6d, 0xea, 0x66, 0x36, 0x08, 0x68, 0xe3,
    0x10, 0xe6, 0x23, 0xc1]

theorem decodeLipLong_athens : ∃ q, decodeLipLong athensLong = some q ∧ q.lon = 2214983 * 360 / 2 ^ 25 :=
  (decodeLipLong_lon_iff athensShort athensLong ⟨3541107 * 180 / 2 ^ 24, 2214983 * 360 / 2 ^ 25⟩ (by decide +kernel)
    (by decide) (by decide) (by decide) (by decide +kernel) (by decide)).mpr (by decide)

/-- As far west of Greenwich. -/
def westShort : Bytes := [0x0a, 0x0e, 0xf1, 0x9d, 0xc9, 0xb0, 0x43, 0x9a, 0xff, 0xe0, 0x20]

def westLong : Bytes :=
  [0x83, 0x00, 0x11, 0x80, 0x13, 0x13, 0x23, 0x2f, 0x34, 0x1f, 0x5c, 0x77, 0x6d, 0xea, 0x66, 0x36, 0x08, 0x68, 0xe3,
    0xef, 0x19, 0xdc, 0xc1]

theorem decodeLipLong_west :
    decodeLip westShort = some ⟨3541107 * 180 / 2 ^ 24, -2214983 * 360 / 2 ^ 25⟩ ∧
      (23 ≤ westLong.length ∧ westLong[0]? = some 0x83 ∧ take westLong 119 24 ≠ 0 ∧
        (take westLong 119 24 : ℚ) * 180 / 2 ^ 23 ≤ 90) ∧
      (∀ k < 25, bitAt westLong (152 + k) = bitAt (westShort.drop 1) (4 + k)) ∧ decodeLipLong westLong = none := by
  refine ⟨by decide +kernel, ⟨by decide, by decide, by decide, by decide +kernel⟩, by decide, by decide +kernel⟩

end BrewServer.Position
