import BrewServer.Lib.MsbBits
import BrewServer.Protocol

/-!
# Speech frames

A traffic frame carries two coded speech frames of 137 bits each, packed back to back
behind one header byte. Each coded frame is stored in 18 bytes, its last seven bits unused.
-/

namespace BrewServer.Protocol

def acelpCodedFrameBits : ℕ := 137
def acelpCodedFrameBytes : ℕ := 18
def steVoicePayloadBytes : ℕ := 36
/-- The bits of both coded frames. -/
def steVoiceTotalBits : ℕ := 2 * acelpCodedFrameBits

/-- The first `nBits` bits of `packed`, one a byte. -/
def unpackBitsMsb (packed : Bytes) (nBits : ℕ) : Option Bytes :=
  (List.range nBits).mapM fun i => (packed[i / 8]?).map fun b => (b >>> UInt8.ofNat (7 - i % 8)) &&& 1

/-- Sets bit `i` if its byte is not zero. -/
def packBit (out : Bytes) (bit : UInt8 × ℕ) : Bytes :=
  if bit.1 ≠ 0 then out.modify (bit.2 / 8) (· ||| (1 <<< UInt8.ofNat (7 - bit.2 % 8))) else out

/-- Bits, one a byte, packed into bytes. -/
def packBitsMsb (bits : Bytes) : Bytes := bits.zipIdx.foldl packBit (List.replicate ((bits.length + 7) / 8) 0)

def packSteVoicePayload (sub1 sub2 : Bytes) : Option Bytes := do
  let bits1 ← unpackBitsMsb sub1 acelpCodedFrameBits
  let bits2 ← unpackBitsMsb sub2 acelpCodedFrameBits
  return 0x00 :: packBitsMsb (bits1 ++ bits2)

def unpackSteVoicePayload (payload : Bytes) : Option (Bytes × Bytes) := do
  let bits ← unpackBitsMsb (payload.drop 1) steVoiceTotalBits
  return (packBitsMsb (bits.take acelpCodedFrameBits), packBitsMsb (bits.drop acelpCodedFrameBits))

def buildTrafficFrame (id : Uuid) (sub1 sub2 : Bytes) : Option Bytes := do
  let payload ← packSteVoicePayload sub1 sub2
  return [classFrame, frameTrafficChannel] ++ id.asBytes ++ le16 (UInt16.ofNat (steVoicePayloadBytes * 8)) ++ payload

def buildDtmfFrame (id : Uuid) (digit : UInt8) : Bytes :=
  [classFrame, frameDtmf] ++ id.asBytes ++ le16 8 ++ [digit]

/-! ## Packing and unpacking -/

/-- The bits of a byte string, one a byte. -/
def bitBytes (packed : Bytes) (nBits : ℕ) : Bytes := (List.range nBits).map fun i => bitByte (bitAt packed i)

theorem unpackBitsMsb_eq {packed : Bytes} {nBits : ℕ} (h : nBits ≤ 8 * packed.length) :
    unpackBitsMsb packed nBits = some (bitBytes packed nBits) := by
  have hall : ∀ is : List ℕ, (∀ i ∈ is, i < nBits) →
      is.mapM (fun i => (packed[i / 8]?).map fun b => (b >>> UInt8.ofNat (7 - i % 8)) &&& 1) =
        some (is.map fun i => bitByte (bitAt packed i)) := by
    intro is
    induction is with
    | nil => exact fun _ => rfl
    | cons i is ih =>
      intro hlt
      have hi : i < nBits := hlt i List.mem_cons_self
      have hget : packed[i / 8]? = some packed[i / 8] := List.getElem?_eq_getElem (by omega)
      have hbit : (packed[i / 8] >>> UInt8.ofNat (7 - i % 8)) &&& 1 = bitByte (bitAt packed i) := by
        rw [shiftRight_and_one _ (by omega), bitAt, hget, Option.getD_some]
      rw [List.mapM_cons, hget, Option.map_some, hbit, ih fun j hj => hlt j (List.mem_cons_of_mem i hj)]
      rfl
  exact hall _ fun i hi => List.mem_range.mp hi

theorem length_packBit (out : Bytes) (bit : UInt8 × ℕ) : (packBit out bit).length = out.length := by
  unfold packBit
  split
  · exact List.length_modify ..
  · rfl

theorem length_packBitsMsb (bits : Bytes) : (packBitsMsb bits).length = (bits.length + 7) / 8 := by
  have hfold : ∀ (l : List (UInt8 × ℕ)) (out : Bytes), (l.foldl packBit out).length = out.length := by
    intro l
    induction l with
    | nil => exact fun _ => rfl
    | cons bit l ih =>
      intro out
      rw [List.foldl_cons, ih, length_packBit]
  rw [packBitsMsb, hfold, List.length_replicate]

theorem bitAt_packBit {out : Bytes} {bit : UInt8 × ℕ} (h : bit.2 / 8 < out.length) (j : ℕ) :
    bitAt (packBit out bit) j = (bitAt out j || (decide (bit.1 ≠ 0) && decide (bit.2 = j))) := by
  unfold packBit
  split
  · next hne => rw [bitAt_modify h, decide_eq_true hne, Bool.true_and]
  · next heq => rw [decide_eq_false heq, Bool.false_and, Bool.or_false]

theorem bitAt_replicate_zero (n j : ℕ) : bitAt (List.replicate n 0) j = false := by
  rw [bitAt, List.getElem?_replicate]
  split <;> exact Nat.zero_testBit _

/-- Bit `j` of what is packed is the one at place `j`. -/
theorem bitAt_packBitsMsb (bits : Bytes) (j : ℕ) : bitAt (packBitsMsb bits) j = (bits[j]?).any (· ≠ 0) := by
  have hfold : ∀ (l : List (UInt8 × ℕ)) (out : Bytes), (∀ bit ∈ l, bit.2 / 8 < out.length) →
      bitAt (l.foldl packBit out) j = (bitAt out j || l.any fun bit => decide (bit.1 ≠ 0) && decide (bit.2 = j)) := by
    intro l
    induction l with
    | nil =>
      intro out _
      rw [List.foldl_nil, List.any_nil, Bool.or_false]
    | cons bit l ih =>
      intro out hall
      have hbit : bit.2 / 8 < out.length := hall bit List.mem_cons_self
      rw [List.foldl_cons, ih _ fun b hb => ?_, bitAt_packBit hbit, List.any_cons, Bool.or_assoc]
      rw [length_packBit]
      exact hall b (List.mem_cons_of_mem bit hb)
  have hplace : ∀ bit ∈ bits.zipIdx, bit.2 / 8 < (List.replicate ((bits.length + 7) / 8) (0 : UInt8)).length := by
    intro bit hbit
    have hlt := List.snd_lt_of_mem_zipIdx hbit
    rw [List.length_replicate]
    omega
  rw [packBitsMsb, hfold _ _ hplace, bitAt_replicate_zero, Bool.false_or, Bool.eq_iff_iff, List.any_eq_true,
    Option.any_eq_true]
  simp only [Bool.and_eq_true, decide_eq_true_eq]
  constructor
  · rintro ⟨bit, hmem, hne, rfl⟩
    exact ⟨bit.1, List.mem_zipIdx_iff_getElem?.mp hmem, hne⟩
  · rintro ⟨b, hb, hne⟩
    exact ⟨(b, j), List.mem_zipIdx_iff_getElem?.mpr hb, hne, rfl⟩

theorem length_bitBytes (packed : Bytes) (nBits : ℕ) : (bitBytes packed nBits).length = nBits := by
  rw [bitBytes, List.length_map, List.length_range]

theorem getElem?_bitBytes (packed : Bytes) (nBits j : ℕ) :
    (bitBytes packed nBits)[j]?.any (· ≠ 0) = (decide (j < nBits) && bitAt packed j) := by
  rw [bitBytes, List.getElem?_map]
  by_cases hj : j < nBits
  · rw [List.getElem?_range hj, Option.map_some, Option.any_some, decide_eq_true hj, Bool.true_and, Bool.eq_iff_iff,
      decide_eq_true_eq]
    exact bitByte_ne_zero _
  · rw [List.getElem?_eq_none (by rw [List.length_range]; omega), decide_eq_false hj]
    rfl

/-- Bits that fill whole bytes or less come back. -/
theorem bitBytes_packBitsMsb {bits : Bytes} {nBits : ℕ} (hlen : bits.length = nBits) (hbits : ∀ b ∈ bits, b = 0 ∨ b = 1) :
    bitBytes (packBitsMsb bits) nBits = bits := by
  refine List.ext_getElem (by rw [length_bitBytes, hlen]) fun j hj hj' => ?_
  have hbit := bitAt_packBitsMsb bits j
  rw [List.getElem?_eq_getElem hj', Option.any_some] at hbit
  simp only [bitBytes, List.getElem_map, List.getElem_range, hbit]
  rcases hbits _ (List.getElem_mem hj') with h | h <;> rw [h] <;> rfl

theorem mem_bitBytes {packed : Bytes} {nBits : ℕ} {b : UInt8} (h : b ∈ bitBytes packed nBits) : b = 0 ∨ b = 1 := by
  obtain ⟨i, -, rfl⟩ := List.mem_map.mp h
  cases bitAt packed i
  · exact .inl rfl
  · exact .inr rfl

/-! ## Traffic frames -/

/-- A coded frame with its unused bits cleared. -/
def clearPad (sub : Bytes) : Bytes := packBitsMsb (bitBytes sub acelpCodedFrameBits)

/-- A coded frame whose unused bits are clear is carried as it is. -/
theorem clearPad_eq_self {sub : Bytes} (hlen : sub.length = acelpCodedFrameBytes)
    (hpad : ∀ i, acelpCodedFrameBits ≤ i → bitAt sub i = false) : clearPad sub = sub := by
  have hlen' : (clearPad sub).length = sub.length := by
    rw [clearPad, length_packBitsMsb, length_bitBytes, hlen]
    rfl
  refine ext_bitAt hlen' fun i _ => ?_
  rw [clearPad, bitAt_packBitsMsb, getElem?_bitBytes]
  by_cases hi : i < acelpCodedFrameBits
  · rw [decide_eq_true hi, Bool.true_and]
  · rw [hpad i (Nat.not_lt.mp hi), Bool.and_false]

section Frames

variable {sub1 sub2 : Bytes}

theorem packSteVoicePayload_eq (h1 : sub1.length = acelpCodedFrameBytes) (h2 : sub2.length = acelpCodedFrameBytes) :
    packSteVoicePayload sub1 sub2 =
      some (0x00 :: packBitsMsb (bitBytes sub1 acelpCodedFrameBits ++ bitBytes sub2 acelpCodedFrameBits)) := by
  have hfit1 : acelpCodedFrameBits ≤ 8 * sub1.length := by rw [h1]; decide
  have hfit2 : acelpCodedFrameBits ≤ 8 * sub2.length := by rw [h2]; decide
  rw [packSteVoicePayload, unpackBitsMsb_eq hfit1, unpackBitsMsb_eq hfit2]
  rfl

/-- The payload of two coded frames unpacks to those frames. -/
theorem unpackSteVoicePayload_pack (h1 : sub1.length = acelpCodedFrameBytes) (h2 : sub2.length = acelpCodedFrameBytes) :
    ∃ payload, packSteVoicePayload sub1 sub2 = some payload ∧ payload.length = steVoicePayloadBytes ∧
      unpackSteVoicePayload payload = some (clearPad sub1, clearPad sub2) := by
  let bits := bitBytes sub1 acelpCodedFrameBits ++ bitBytes sub2 acelpCodedFrameBits
  have hbitlen : bits.length = steVoiceTotalBits := by
    rw [List.length_append, length_bitBytes, length_bitBytes]
    rfl
  have hpacked : (packBitsMsb bits).length = 35 := by
    rw [length_packBitsMsb, hbitlen]
    rfl
  refine ⟨_, packSteVoicePayload_eq h1 h2, ?_, ?_⟩
  · rw [List.length_cons, hpacked]
    rfl
  · have hfit : steVoiceTotalBits ≤ 8 * (packBitsMsb bits).length := by rw [hpacked]; decide
    have hback : bitBytes (packBitsMsb bits) steVoiceTotalBits = bits := by
      refine bitBytes_packBitsMsb hbitlen fun b hb => ?_
      rcases List.mem_append.mp hb with hb | hb
      · exact mem_bitBytes hb
      · exact mem_bitBytes hb
    have hfirst : bits.take acelpCodedFrameBits = bitBytes sub1 acelpCodedFrameBits := List.take_left' (length_bitBytes _ _)
    have hsecond : bits.drop acelpCodedFrameBits = bitBytes sub2 acelpCodedFrameBits := List.drop_left' (length_bitBytes _ _)
    simp only [unpackSteVoicePayload, List.drop_succ_cons, List.drop_zero]
    rw [unpackBitsMsb_eq hfit, hback]
    simp only [Option.bind_eq_bind, Option.bind_some, Option.pure_def, hfirst, hsecond]
    rfl

/-- The unused bits are the low seven of the last byte. -/
theorem clearPad_eq_modify {sub : Bytes} (hlen : sub.length = acelpCodedFrameBytes) :
    clearPad sub = sub.modify 17 (· &&& 0x80) := by
  have hlen' : (clearPad sub).length = sub.length := by
    rw [clearPad, length_packBitsMsb, length_bitBytes, hlen]
    rfl
  have hmask : ∀ k < 8, (0x80 : UInt8).toNat.testBit (7 - k) = decide (k = 0) := by decide
  apply ext_bitAt
  · rw [hlen', List.length_modify]
  · intro i hi
    rw [hlen', hlen] at hi
    rw [clearPad, bitAt_packBitsMsb, getElem?_bitBytes, bitAt_modify_and, hmask _ (Nat.mod_lt i (by decide)), Bool.and_comm]
    congr 1
    rw [← Bool.decide_or]
    apply decide_eq_decide.mpr
    simp only [acelpCodedFrameBits, acelpCodedFrameBytes] at hi ⊢
    omega

/-- The two coded frames of a payload are packed to that payload, but for its header
and the six bits behind the frames. -/
theorem packSteVoicePayload_unpack {payload : Bytes} (hlen : payload.length = steVoicePayloadBytes) :
    ∃ sub1 sub2 : Bytes, unpackSteVoicePayload payload = some (sub1, sub2) ∧ sub1.length = acelpCodedFrameBytes ∧
      sub2.length = acelpCodedFrameBytes ∧
      packSteVoicePayload sub1 sub2 = some ((payload.set 0 0).modify 35 (· &&& 0xc0)) := by
  obtain ⟨header, packed, rfl⟩ : ∃ header packed, payload = header :: packed :=
    List.exists_cons_of_length_eq_add_one (n := 35) hlen
  have hpacked : packed.length = 35 := by simpa [steVoicePayloadBytes] using hlen
  have hfit : steVoiceTotalBits ≤ 8 * packed.length := by rw [hpacked]; decide
  let bits := bitBytes packed steVoiceTotalBits
  have hbitlen : bits.length = steVoiceTotalBits := length_bitBytes _ _
  have hfirst : (bits.take acelpCodedFrameBits).length = acelpCodedFrameBits := by
    rw [List.length_take, hbitlen]
    decide
  have hsecond : (bits.drop acelpCodedFrameBits).length = acelpCodedFrameBits := by
    rw [List.length_drop, hbitlen]
    decide
  have hback1 := bitBytes_packBitsMsb hfirst fun b hb => mem_bitBytes (List.mem_of_mem_take hb)
  have hback2 := bitBytes_packBitsMsb hsecond fun b hb => mem_bitBytes (List.mem_of_mem_drop hb)
  have hlen1 : (packBitsMsb (bits.take acelpCodedFrameBits)).length = acelpCodedFrameBytes := by
    rw [length_packBitsMsb, hfirst]
    decide
  have hlen2 : (packBitsMsb (bits.drop acelpCodedFrameBits)).length = acelpCodedFrameBytes := by
    rw [length_packBitsMsb, hsecond]
    decide
  have hclear : packBitsMsb bits = packed.modify 34 (· &&& 0xc0) := by
    have hmask : ∀ k < 8, (0xc0 : UInt8).toNat.testBit (7 - k) = decide (k ≤ 1) := by decide
    have hlen' : (packBitsMsb bits).length = packed.length := by
      rw [length_packBitsMsb, hbitlen, hpacked]
      decide
    apply ext_bitAt
    · rw [hlen', List.length_modify]
    · intro i hi
      rw [hlen', hpacked] at hi
      rw [bitAt_packBitsMsb, getElem?_bitBytes, bitAt_modify_and, hmask _ (Nat.mod_lt i (by decide)), Bool.and_comm]
      congr 1
      rw [← Bool.decide_or]
      apply decide_eq_decide.mpr
      simp only [steVoiceTotalBits, acelpCodedFrameBits]
      omega
  refine ⟨_, _, ?_, hlen1, hlen2, ?_⟩
  · simp only [unpackSteVoicePayload, List.drop_succ_cons, List.drop_zero]
    rw [unpackBitsMsb_eq hfit]
    rfl
  · rw [packSteVoicePayload_eq hlen1 hlen2, hback1, hback2, List.take_append_drop, hclear]
    rfl

end Frames

end BrewServer.Protocol
