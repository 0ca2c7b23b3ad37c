import BrewServer.Transcode.Task

/-!
# The stream towards SIP

Tones and speech share one sequence of packet numbers, and speech is cut into packets
without losing or repeating a sample. A datagram that comes in is read within what was
received.
-/

namespace BrewServer.Transcode

open Protocol

variable {E D : Type} {su : Setup E D} {t t' : Task E D}

/-- The number a packet carries. -/
def sequenceNumber (packet : Bytes) : UInt16 := UInt16.ofNat (ofLe ((packet.drop 2).take 2).reverse)

/-- A packet of speech; a tone's packet is shorter. -/
def isAudio (packet : Bytes) : Bool := packet.length == 12 + rtpSamplesPerPacket

/-- The coded samples of the packets, in the order they went out. -/
def audio (packets : List Bytes) : Bytes := (packets.filter isAudio).flatMap (·.drop 12)

/-- What one event adds to the samples from the radio. -/
def hear (acelp : Acelp E D) (decoder : D) : Event → D × List Int16
  | .message raw => if isVoice raw then (decodeVoice acelp decoder raw).getD (decoder, []) else (decoder, [])
  | _ => (decoder, [])

def Event.ends : Event → Bool
  | .recvError => true
  | .closed => true
  | _ => false

/-- The samples decoded from the radio, up to the event that ends the loop. -/
def spoken (acelp : Acelp E D) : D → List Event → List Int16
  | _, [] => []
  | decoder, event :: events =>
    if event.ends then []
    else (hear acelp decoder event).2 ++ spoken acelp (hear acelp decoder event).1 events

/-! ## Packets -/

theorem length_toBe (k n : ℕ) : (toBe k n).length = k := by rw [toBe, List.length_reverse, length_toLe]

theorem length_rtpPacket (second : UInt8) (seq : UInt16) (timestamp ssrc : UInt32) (payload : Bytes) :
    (rtpPacket second seq timestamp ssrc payload).length = 12 + payload.length := by
  simp only [rtpPacket, List.length_append, length_toBe, List.length_cons, List.length_nil]

theorem sequenceNumber_rtpPacket (second : UInt8) (seq : UInt16) (timestamp ssrc : UInt32) (payload : Bytes) :
    sequenceNumber (rtpPacket second seq timestamp ssrc payload) = seq := by
  have hfield : ((rtpPacket second seq timestamp ssrc payload).drop 2).take 2 = toBe 2 seq.toNat := by
    simp only [rtpPacket, List.append_assoc]
    exact List.take_left' (length_toBe 2 _)
  have hlt : seq.toNat < 256 ^ 2 := seq.toNat_lt
  rw [sequenceNumber, hfield, toBe, List.reverse_reverse, ofLe_toLe, Nat.mod_eq_of_lt hlt, UInt16.ofNat_toNat]

theorem drop_rtpPacket (second : UInt8) (seq : UInt16) (timestamp ssrc : UInt32) (payload : Bytes) :
    (rtpPacket second seq timestamp ssrc payload).drop 12 = payload := by
  rw [rtpPacket]
  apply List.drop_left'
  simp only [List.length_append, length_toBe, List.length_cons, List.length_nil]

theorem audio_append (xs ys : List Bytes) : audio (xs ++ ys) = audio xs ++ audio ys := by
  rw [audio, List.filter_append, List.flatMap_append]
  rfl

theorem audio_rtpPacket {second : UInt8} {seq : UInt16} {timestamp ssrc : UInt32} {payload : Bytes}
    (h : payload.length = rtpSamplesPerPacket) : audio [rtpPacket second seq timestamp ssrc payload] = payload := by
  have hlong : isAudio (rtpPacket second seq timestamp ssrc payload) = true := by
    rw [isAudio, length_rtpPacket, h]
    rfl
  rw [audio, List.filter_cons_of_pos hlong, List.filter_nil, List.flatMap_cons, List.flatMap_nil, List.append_nil,
    drop_rtpPacket]

/-- A tone is no speech. -/
theorem audio_dtmfPackets (event : UInt8) (startSeq : UInt16) (ts ssrc : UInt32) :
    audio (dtmfPackets event startSeq ts ssrc) = [] := by
  have hshort : ∀ packet ∈ dtmfPackets event startSeq ts ssrc, ¬ isAudio packet = true := by
    intro packet hp
    have hlen : packet.length = 16 := by
      simp only [dtmfPackets, List.mem_cons, List.not_mem_nil, or_false] at hp
      rcases hp with rfl | rfl | rfl <;> rw [length_rtpPacket] <;> simp [length_toBe]
    simp [isAudio, hlen, rtpSamplesPerPacket]
  rw [audio, List.filter_eq_nil_iff.mpr hshort]
  rfl

/-- The three packets of a tone are numbered from its first. -/
theorem sequenceNumber_dtmfPackets (event : UInt8) (startSeq : UInt16) (ts ssrc : UInt32) (j : ℕ) (packet : Bytes)
    (h : (dtmfPackets event startSeq ts ssrc)[j]? = some packet) :
    sequenceNumber packet = startSeq + UInt16.ofNat j := by
  match j, h with
  | 0, h =>
    cases h
    rw [sequenceNumber_rtpPacket]
    exact (UInt16.add_zero startSeq).symm
  | 1, h =>
    cases h
    exact sequenceNumber_rtpPacket ..
  | 2, h =>
    cases h
    exact sequenceNumber_rtpPacket ..

/-! ## What the leg gets -/

section Send

variable {packets : List Bytes}

theorem sent_foldl : (packets.foldl Task.send t).sent = t.sent ++ packets := by
  induction packets generalizing t with
  | nil => exact (List.append_nil _).symm
  | cons packet packets ih =>
    rw [List.foldl_cons, ih]
    show t.sent ++ [packet] ++ packets = _
    rw [List.append_assoc]
    rfl

theorem wire_foldl :
    (packets.foldl Task.send t).wire =
      t.wire ++ packets.flatMap fun packet => t.remote.toList.map fun remote => (remote, packet) := by
  induction packets generalizing t with
  | nil => exact (List.append_nil _).symm
  | cons packet packets ih =>
    rw [List.foldl_cons, ih, List.flatMap_cons]
    show t.wire ++ _ ++ _ = _
    rw [List.append_assoc]
    rfl

/-- Sending changes nothing else. -/
theorem foldl_send_eq :
    packets.foldl Task.send t =
      { t with
        sent := (packets.foldl Task.send t).sent
        wire := (packets.foldl Task.send t).wire } := by
  induction packets generalizing t with
  | nil => rfl
  | cons packet packets ih =>
    rw [List.foldl_cons, ih]
    rfl

end Send

/-- A leg that knows its remote sends every packet on. -/
theorem map_snd_sent (address : String) (packets : List Bytes) :
    (packets.flatMap fun packet => (some address).toList.map fun remote => (remote, packet)).map Prod.snd =
      packets := by
  induction packets with
  | nil => rfl
  | cons packet packets ih =>
    rw [List.flatMap_cons, List.map_append, ih]
    rfl

/-- What one event does to the stream: the packets it hands to the leg are numbered on, and
samples are taken off the front of those that wait. -/
structure Advances (su : Setup E D) (t : Task E D) (event : Event) (t' : Task E D) (packets : List Bytes) : Prop where
  sent : t'.sent = t.sent ++ packets
  wire : t'.wire = t.wire ++ packets.flatMap fun packet => t.remote.toList.map fun remote => (remote, packet)
  remote : t'.remote = none → t.remote = none
  seq : t'.seq = t.seq + UInt16.ofNat packets.length
  numbered : ∀ j packet, packets[j]? = some packet → sequenceNumber packet = t.seq + UInt16.ofNat j
  decoder : t'.decoder = (hear su.acelp t.decoder event).1
  samples :
    audio packets ++ t'.pcmFromBrew.map (encodeSample su.payloadType) =
      (t.pcmFromBrew ++ (hear su.acelp t.decoder event).2).map (encodeSample su.payloadType)
  running : t'.running = (t.running && !event.ends)

/-- An event that hands nothing to the leg and lets the stream be. -/
theorem Advances.quiet {event : Event} (hsent : t'.sent = t.sent) (hwire : t'.wire = t.wire)
    (hremote : t'.remote = none → t.remote = none) (hseq : t'.seq = t.seq) (hdecoder : t'.decoder = t.decoder)
    (hpcm : t'.pcmFromBrew = t.pcmFromBrew) (hhear : hear su.acelp t.decoder event = (t.decoder, []))
    (hrunning : t'.running = (t.running && !event.ends)) : Advances su t event t' [] where
  sent := by rw [hsent, List.append_nil]
  wire := by rw [hwire, List.flatMap_nil, List.append_nil]
  remote := hremote
  seq := by
    rw [hseq]
    exact (UInt16.add_zero t.seq).symm
  numbered := by
    intro j packet h
    rw [List.getElem?_nil] at h
    cases h
  decoder := by rw [hdecoder, hhear]
  samples := by
    rw [hpcm, hhear, List.append_nil]
    rfl
  running := hrunning

/-! ## A datagram that comes in -/

/-- A datagram is its header with the sources it counts, an extension if it says so, and
its payload. -/
def Carries (packet payload : Bytes) : Prop :=
  ∃ b0 front extension, packet[0]? = some b0 ∧ packet = front ++ extension ++ payload ∧
    front.length = 12 + (b0 &&& 0x0f).toNat * 4 ∧
    if b0 &&& 0x10 ≠ 0 then
      ∃ hi lo, extension[2]? = some hi ∧ extension[3]? = some lo ∧ extension.length = 4 + ofLe [lo, hi] * 4
    else extension = []

section Datagram

variable {packet rest payload : Bytes} {b0 payloadType : UInt8}

theorem carries_plain (hb0 : packet[0]? = some b0) (hext : ¬ b0 &&& 0x10 ≠ 0) :
    Carries packet payload ↔
      12 + (b0 &&& 0x0f).toNat * 4 ≤ packet.length ∧ payload = packet.drop (12 + (b0 &&& 0x0f).toNat * 4) := by
  constructor
  · rintro ⟨b, front, extension, hb, heq, hfront, hif⟩
    rw [hb0] at hb
    cases hb
    rw [if_neg hext] at hif
    subst hif
    rw [List.append_nil] at heq
    rw [← hfront, heq]
    constructor
    · rw [List.length_append]
      omega
    · exact List.drop_left.symm
  · rintro ⟨hle, rfl⟩
    refine ⟨b0, packet.take (12 + (b0 &&& 0x0f).toNat * 4), [], hb0, ?_, List.length_take_of_le hle, ?_⟩
    · rw [List.append_nil, List.take_append_drop]
    · rw [if_neg hext]

theorem carries_extended (hb0 : packet[0]? = some b0) (hext : b0 &&& 0x10 ≠ 0) {offset : ℕ}
    (hoffset : offset = 12 + (b0 &&& 0x0f).toNat * 4) :
    Carries packet payload ↔
      ∃ hi lo, packet[offset + 2]? = some hi ∧ packet[offset + 3]? = some lo ∧
        offset + (4 + ofLe [lo, hi] * 4) ≤ packet.length ∧ payload = packet.drop (offset + (4 + ofLe [lo, hi] * 4)) := by
  constructor
  · rintro ⟨b, front, extension, hb, heq, hfront, hif⟩
    rw [hb0] at hb
    cases hb
    rw [if_pos hext] at hif
    obtain ⟨hi, lo, hhi, hlo, hlen⟩ := hif
    have hplace : ∀ k, k < extension.length → packet[offset + k]? = extension[k]? := by
      intro k hk
      rw [heq, List.append_assoc, List.getElem?_append_right (by omega), List.getElem?_append_left (by omega)]
      congr 1
      omega
    have hall : (front ++ extension).length = offset + (4 + ofLe [lo, hi] * 4) := by
      rw [List.length_append, hfront, hlen, hoffset]
    refine ⟨hi, lo, ?_, ?_, ?_, ?_⟩
    · rw [hplace 2 (by omega), hhi]
    · rw [hplace 3 (by omega), hlo]
    · rw [← hall, heq, @List.length_append _ (front ++ extension)]
      omega
    · rw [← hall, heq]
      exact List.drop_left.symm
  · rintro ⟨hi, lo, hhi, hlo, hle, rfl⟩
    have hlen : ((packet.drop offset).take (4 + ofLe [lo, hi] * 4)).length = 4 + ofLe [lo, hi] * 4 := by
      rw [List.length_take, List.length_drop]
      omega
    refine ⟨b0, packet.take offset, (packet.drop offset).take (4 + ofLe [lo, hi] * 4), hb0, ?_, ?_, ?_⟩
    · rw [List.append_assoc, ← List.drop_drop, List.take_append_drop, List.take_append_drop]
    · rw [List.length_take, ← hoffset]
      omega
    · rw [if_pos hext]
      refine ⟨hi, lo, ?_, ?_, hlen⟩
      · rw [List.getElem?_take_of_lt (by omega), List.getElem?_drop, hhi]
      · rw [List.getElem?_take_of_lt (by omega), List.getElem?_drop, hlo]

/-- Finding the payload looks at no byte past what was received, and finds it. -/
theorem payloadOffset_spec (h : 12 < packet.length) :
    ∃ o, payloadOffset (packet ++ rest) packet.length = some o ∧
      ∀ payload, Carries packet payload ↔
        ∃ offset, o = some offset ∧ offset ≤ packet.length ∧ payload = packet.drop offset := by
  have hin : ∀ i, i < packet.length → (packet ++ rest)[i]? = packet[i]? := fun i hi => List.getElem?_append_left hi
  obtain ⟨b0, hb0⟩ : ∃ b0, packet[0]? = some b0 := ⟨_, List.getElem?_eq_getElem (by omega)⟩
  have hrun : payloadOffset (packet ++ rest) packet.length =
      if b0 &&& 0x10 ≠ 0 then
        if packet.length < 12 + (b0 &&& 0x0f).toNat * 4 + 4 then some none
        else
          (packet ++ rest)[12 + (b0 &&& 0x0f).toNat * 4 + 2]?.bind fun hi =>
            (packet ++ rest)[12 + (b0 &&& 0x0f).toNat * 4 + 3]?.bind fun lo =>
              some (some (12 + (b0 &&& 0x0f).toNat * 4 + (4 + ofLe [lo, hi] * 4)))
      else some (some (12 + (b0 &&& 0x0f).toNat * 4)) := by
    unfold payloadOffset
    rw [hin 0 (by omega), hb0]
    rfl
  by_cases hext : b0 &&& 0x10 ≠ 0
  · by_cases hfit : packet.length < 12 + (b0 &&& 0x0f).toNat * 4 + 4
    · refine ⟨none, by rw [hrun, if_pos hext, if_pos hfit], ?_⟩
      intro payload
      rw [carries_extended hb0 hext rfl]
      constructor
      · rintro ⟨hi, lo, -, -, hle, -⟩
        omega
      · rintro ⟨offset, ho, -⟩
        cases ho
    · obtain ⟨hi, hhi⟩ : ∃ hi, packet[12 + (b0 &&& 0x0f).toNat * 4 + 2]? = some hi :=
        ⟨_, List.getElem?_eq_getElem (by omega)⟩
      obtain ⟨lo, hlo⟩ : ∃ lo, packet[12 + (b0 &&& 0x0f).toNat * 4 + 3]? = some lo :=
        ⟨_, List.getElem?_eq_getElem (by omega)⟩
      refine ⟨some (12 + (b0 &&& 0x0f).toNat * 4 + (4 + ofLe [lo, hi] * 4)), ?_, ?_⟩
      · rw [hrun, if_pos hext, if_neg hfit, hin _ (by omega), hin _ (by omega), hhi, hlo]
        rfl
      · intro payload
        rw [carries_extended hb0 hext rfl]
        constructor
        · rintro ⟨hi', lo', hhi', hlo', hle, rfl⟩
          rw [hhi] at hhi'
          rw [hlo] at hlo'
          cases hhi'
          cases hlo'
          exact ⟨_, rfl, hle, rfl⟩
        · rintro ⟨offset, ho, hle, rfl⟩
          obtain rfl := Option.some.inj ho
          exact ⟨hi, lo, hhi, hlo, hle, rfl⟩
  · refine ⟨some (12 + (b0 &&& 0x0f).toNat * 4), by rw [hrun, if_neg hext], ?_⟩
    intro payload
    rw [carries_plain hb0 hext]
    constructor
    · rintro ⟨hle, rfl⟩
      exact ⟨_, rfl, hle, rfl⟩
    · rintro ⟨offset, ho, hle, rfl⟩
      obtain rfl := Option.some.inj ho
      exact ⟨hle, rfl⟩

/-- A datagram that is longer than a header, of the type that was agreed on, and whole. -/
def Accepted (payloadType : UInt8) (packet payload : Bytes) : Prop :=
  12 < packet.length ∧ packet[1]?.map (· &&& 0x7f) = some payloadType ∧ Carries packet payload

theorem rtpPayload_eq {buf : Bytes} {n : ℕ} {b1 : UInt8} {o : Option ℕ} (hlong : ¬ n ≤ 12) (hb1 : buf[1]? = some b1)
    (ho : payloadOffset buf n = some o) :
    rtpPayload payloadType buf n =
      o.elim (some none) fun offset =>
        if n < offset then some none
        else if b1 &&& 0x7f ≠ payloadType then some none
        else (slice buf offset (n - offset)).map some := by
  unfold rtpPayload
  rw [if_neg hlong, hb1, ho]
  cases o with
  | none => rfl
  | some offset =>
    show (if n < offset then _ else _ : Option (Option Bytes)) = if n < offset then _ else _
    congr 1
    show (if b1 &&& 0x7f ≠ payloadType then _ else _ : Option (Option Bytes)) = _
    congr 1
    cases slice buf offset (n - offset) <;> rfl

/-- A datagram is skipped, or its payload is taken. -/
theorem rtpPayload_spec (payloadType : UInt8) (packet rest : Bytes) :
    ∃ o, rtpPayload payloadType (packet ++ rest) packet.length = some o ∧
      ∀ payload, o = some payload ↔ Accepted payloadType packet payload := by
  unfold Accepted
  by_cases h12 : packet.length ≤ 12
  · refine ⟨none, by rw [rtpPayload, if_pos h12]; rfl, ?_⟩
    intro payload
    constructor
    · intro h
      cases h
    · rintro ⟨h, -⟩
      omega
  · have hlong : 12 < packet.length := Nat.lt_of_not_le h12
    obtain ⟨b1, hb1⟩ : ∃ b1, packet[1]? = some b1 := ⟨_, List.getElem?_eq_getElem (by omega)⟩
    have hb1' : (packet ++ rest)[1]? = some b1 := by rw [List.getElem?_append_left (by omega), hb1]
    obtain ⟨o, ho, hcarries⟩ := @payloadOffset_spec packet rest hlong
    rw [rtpPayload_eq h12 hb1' ho, hb1]
    simp only [hcarries, Option.map_some, Option.some.injEq]
    cases o with
    | none => exact ⟨none, rfl, fun payload => by simp⟩
    | some offset =>
      rw [Option.elim_some]
      by_cases hfit : packet.length < offset
      · refine ⟨none, if_pos hfit, ?_⟩
        intro payload
        constructor
        · intro h
          cases h
        · rintro ⟨-, -, offset', h, hle, -⟩
          obtain rfl := Option.some.inj h
          omega
      · rw [if_neg hfit]
        by_cases hpt : b1 &&& 0x7f = payloadType
        · have hslice : slice (packet ++ rest) offset (packet.length - offset) = some (packet.drop offset) := by
            rw [slice_eq_some (by rw [List.length_append]; omega), List.drop_append_of_le_length (by omega)]
            congr 1
            exact List.take_left' List.length_drop
          refine ⟨some (packet.drop offset), by rw [if_neg (not_not.mpr hpt), hslice]; rfl, ?_⟩
          intro payload
          constructor
          · intro h
            cases h
            exact ⟨hlong, hpt, offset, rfl, by omega, rfl⟩
          · rintro ⟨-, -, offset', h, -, rfl⟩
            obtain rfl := Option.some.inj h
            rfl
        · refine ⟨none, if_pos hpt, ?_⟩
          intro payload
          constructor
          · intro h
            cases h
          · rintro ⟨-, h, -⟩
            exact absurd h hpt

/-- The branch of the loop for a datagram: samples are added behind those that wait for
the radio, and nothing else of the stream changes. -/
theorem onDatagram_spec (su : Setup E D) (t : Task E D) (source : String) (data : Bytes) :
    ∃ o, t.onDatagram su source data =
        some { t.recv source data with
          pcmFromSip := t.pcmFromSip ++ (o.getD []).map (decodeSample su.payloadType) } ∧
      ∀ payload, o = some payload ↔ Accepted su.payloadType (data.take rtpBufBytes) payload := by
  obtain ⟨o, ho, haccepted⟩ :=
    rtpPayload_spec su.payloadType (data.take rtpBufBytes) (t.rtpBuf.1.drop (data.take rtpBufBytes).length)
  refine ⟨o, ?_, haccepted⟩
  have hrun : t.onDatagram su source data =
      (rtpPayload su.payloadType (t.recv source data).rtpBuf.1 (data.take rtpBufBytes).length).bind fun o =>
        o.elim (some (t.recv source data)) fun payload =>
          some { t.recv source data with
            pcmFromSip := t.pcmFromSip ++ payload.map (decodeSample su.payloadType) } := by
    unfold Task.onDatagram
    apply congrArg (Option.bind _)
    funext o
    cases o <;> rfl
  have hbuf : (t.recv source data).rtpBuf.1 =
      data.take rtpBufBytes ++ t.rtpBuf.1.drop (data.take rtpBufBytes).length := rfl
  rw [hrun, hbuf, ho, Option.bind_some]
  cases o with
  | none =>
    show some (t.recv source data) = some { t.recv source data with pcmFromSip := t.pcmFromSip ++ [] }
    rw [List.append_nil]
    rfl
  | some payload => rfl

end Datagram

/-! ## The other branches -/

theorem not_isVoice_of_isDtmf {raw : Bytes} (h : isDtmf raw = true) : isVoice raw = false := by
  unfold isDtmf at h
  simp only [Bool.and_eq_true, beq_iff_eq] at h
  have hne : (raw[1]? == some frameTrafficChannel) = false := by
    rw [h.2]
    decide
  rw [isVoice, hne, Bool.and_false]

theorem length_of_isDtmf {raw : Bytes} (h : isDtmf raw = true) : 21 ≤ raw.length := by
  unfold isDtmf at h
  simp only [Bool.and_eq_true, decide_eq_true_eq] at h
  exact h.1.1

/-- Both frames of a voice message can be decoded. -/
theorem decodeVoice_some (acelp : Acelp E D) (decoder : D) {raw : Bytes} (h : isVoice raw = true) :
    ∃ r, decodeVoice acelp decoder raw = some r := by
  have hlen : 20 + steVoicePayloadBytes ≤ raw.length := by
    unfold isVoice at h
    simp only [Bool.and_eq_true, decide_eq_true_eq] at h
    exact h.1.1
  have hpayload : ((raw.drop 20).take steVoicePayloadBytes).length = steVoicePayloadBytes := by
    rw [List.length_take, List.length_drop]
    omega
  obtain ⟨sub1, sub2, hunpack, -⟩ := packSteVoicePayload_unpack hpayload
  simp only [decodeVoice, slice_eq_some hlen, Option.bind_eq_bind, Option.bind_some, hunpack]
  exact ⟨_, rfl⟩

theorem popFront_some {k : ℕ} {pcm : List Int16} (h : k ≤ pcm.length) :
    ∃ front : Vector Int16 k, popFront k pcm = some (front, pcm.drop k) ∧ front.toList = pcm.take k :=
  ⟨_, dif_pos h, rfl⟩

/-- Two coded frames always make a message. -/
theorem buildTrafficFrame_some (callId : Uuid) (sub1 sub2 : { coded : Bytes // coded.length = acelpCodedFrameBytes }) :
    ∃ packet, buildTrafficFrame callId sub1.1 sub2.1 = some packet := by
  rw [buildTrafficFrame, packSteVoicePayload_eq sub1.2 sub2.2]
  exact ⟨_, rfl⟩

theorem onDatagram_advances (su : Setup E D) (t : Task E D) (source : String) (data : Bytes) :
    ∃ t', t.onDatagram su source data = some t' ∧ Advances su t (.datagram source data) t' [] := by
  obtain ⟨o, ho, -⟩ := onDatagram_spec su t source data
  refine ⟨_, ho, ?_⟩
  apply Advances.quiet
  · rfl
  · rfl
  · intro h
    cases h
  · rfl
  · rfl
  · rfl
  · rfl
  · exact (Bool.and_true t.running).symm

theorem sendDtmfEvent_advances (su : Setup E D) (t : Task E D) {raw : Bytes} (hraw : isDtmf raw = true)
    (event : UInt8) :
    Advances su t (.message raw) (t.sendDtmfEvent su event) (dtmfPackets event t.seq t.timestamp su.ssrc) := by
  have hquiet : hear su.acelp t.decoder (.message raw) = (t.decoder, []) := if_neg (by simp [not_isVoice_of_isDtmf hraw])
  unfold Task.sendDtmfEvent
  rw [foldl_send_eq]
  constructor
  · exact sent_foldl
  · exact wire_foldl
  · exact id
  · rfl
  · exact sequenceNumber_dtmfPackets event t.seq t.timestamp su.ssrc
  · rw [hquiet]
  · rw [hquiet, audio_dtmfPackets, List.append_nil]
    rfl
  · exact (Bool.and_true t.running).symm

theorem onMessage_advances (su : Setup E D) (t : Task E D) (raw : Bytes) :
    ∃ t' packets, t.onMessage su raw = some t' ∧ Advances su t (.message raw) t' packets := by
  unfold Task.onMessage
  by_cases hdtmf : isDtmf raw = true
  · have hlen := length_of_isDtmf hdtmf
    have hquiet : hear su.acelp t.decoder (.message raw) = (t.decoder, []) :=
      if_neg (by simp [not_isVoice_of_isDtmf hdtmf])
    obtain ⟨digit, hdigit⟩ : ∃ digit, raw[20]? = some digit := ⟨_, List.getElem?_eq_getElem (by omega)⟩
    rw [if_pos hdtmf, hdigit]
    cases hevent : dtmfAsciiToEvent digit with
    | none =>
      refine ⟨t, [], by simp [hevent], ?_⟩
      exact Advances.quiet rfl rfl id rfl rfl rfl hquiet (Bool.and_true t.running).symm
    | some event => exact ⟨_, _, by simp [hevent], sendDtmfEvent_advances su t hdtmf event⟩
  · rw [if_neg hdtmf]
    by_cases hvoice : isVoice raw = true
    · obtain ⟨⟨decoder, samples⟩, hdecode⟩ := decodeVoice_some su.acelp t.decoder hvoice
      have hhear : hear su.acelp t.decoder (.message raw) = (decoder, samples) := by
        show (if isVoice raw = true then _ else _) = _
        rw [if_pos hvoice, hdecode]
        rfl
      rw [if_neg (by simp [hvoice]), hdecode]
      refine ⟨{ t with decoder, pcmFromBrew := t.pcmFromBrew ++ samples }, [], rfl, ?_⟩
      constructor
      · exact (List.append_nil _).symm
      · exact (List.append_nil _).symm
      · exact id
      · exact (UInt16.add_zero t.seq).symm
      · intro j packet h
        rw [List.getElem?_nil] at h
        cases h
      · rw [hhear]
      · rw [hhear]
        rfl
      · exact (Bool.and_true t.running).symm
    · have hquiet : hear su.acelp t.decoder (.message raw) = (t.decoder, []) := if_neg hvoice
      rw [if_pos (by simp [hvoice])]
      exact ⟨_, [], rfl, Advances.quiet rfl rfl id rfl rfl rfl hquiet (Bool.and_true t.running).symm⟩

theorem onAcelpTick_advances (su : Setup E D) (t : Task E D) :
    ∃ t', t.onAcelpTick su = some t' ∧ Advances su t .acelpTick t' [] := by
  unfold Task.onAcelpTick
  by_cases h : 2 * acelpPcmSamples ≤ t.pcmFromSip.length
  · have hrest : acelpPcmSamples ≤ (t.pcmFromSip.drop acelpPcmSamples).length := by
      rw [List.length_drop]
      omega
    obtain ⟨frame1, hpop1, -⟩ := @popFront_some acelpPcmSamples t.pcmFromSip (by omega)
    obtain ⟨frame2, hpop2, -⟩ := popFront_some hrest
    obtain ⟨packet, hbuild⟩ := buildTrafficFrame_some su.callId (su.acelp.encode t.encoder frame1).2
      (su.acelp.encode (su.acelp.encode t.encoder frame1).1 frame2).2
    rw [if_pos h]
    simp only [hpop1, hpop2, hbuild, Option.bind_eq_bind, Option.bind_some]
    exact ⟨_, rfl, Advances.quiet rfl rfl id rfl rfl rfl rfl (Bool.and_true t.running).symm⟩
  · rw [if_neg h]
    exact ⟨t, rfl, Advances.quiet rfl rfl id rfl rfl rfl rfl (Bool.and_true t.running).symm⟩

/-- The packet of a tick that finds samples enough: the first of them, coded. -/
def speechPacket (su : Setup E D) (t : Task E D) : Bytes :=
  rtpPacket (su.payloadType &&& 0x7f) t.seq t.timestamp su.ssrc
    ((t.pcmFromBrew.take rtpSamplesPerPacket).map (encodeSample su.payloadType))

/-- What a tick leaves that sends. -/
def ticked (t : Task E D) : Task E D :=
  { t with
    pcmFromBrew := t.pcmFromBrew.drop rtpSamplesPerPacket
    seq := t.seq + 1
    timestamp := t.timestamp + 160 }

/-- A tick that finds samples enough for a packet sends them. -/
theorem onRtpTick_sends (su : Setup E D) (h : rtpSamplesPerPacket ≤ t.pcmFromBrew.length) :
    t.onRtpTick su = some ((ticked t).send (speechPacket su t)) := by
  obtain ⟨samples, hpop, hsamples⟩ := popFront_some h
  rw [Task.onRtpTick, if_pos h]
  simp only [hpop, Option.bind_eq_bind, Option.bind_some, hsamples]
  rfl

/-- A tick that does not lets them wait. -/
theorem onRtpTick_waits (su : Setup E D) (h : ¬ rtpSamplesPerPacket ≤ t.pcmFromBrew.length) :
    t.onRtpTick su = some t := if_neg h

theorem length_coded (h : rtpSamplesPerPacket ≤ t.pcmFromBrew.length) :
    ((t.pcmFromBrew.take rtpSamplesPerPacket).map (encodeSample su.payloadType)).length = rtpSamplesPerPacket := by
  rw [List.length_map, List.length_take_of_le h]

theorem audio_speechPacket (h : rtpSamplesPerPacket ≤ t.pcmFromBrew.length) :
    audio [speechPacket su t] = (t.pcmFromBrew.take rtpSamplesPerPacket).map (encodeSample su.payloadType) :=
  audio_rtpPacket (length_coded h)

theorem onRtpTick_advances (su : Setup E D) (t : Task E D) :
    ∃ t' packets, t.onRtpTick su = some t' ∧ Advances su t .rtpTick t' packets := by
  by_cases h : rtpSamplesPerPacket ≤ t.pcmFromBrew.length
  · refine ⟨_, [speechPacket su t], onRtpTick_sends su h, ?_⟩
    constructor
    · rfl
    · show t.wire ++ _ = t.wire ++ _
      rw [List.flatMap_cons, List.flatMap_nil, List.append_nil]
      rfl
    · exact id
    · rfl
    · intro j packet hj
      cases j with
      | zero =>
        obtain rfl := Option.some.inj hj
        rw [speechPacket, sequenceNumber_rtpPacket]
        exact (UInt16.add_zero t.seq).symm
      | succ j => cases hj
    · rfl
    · -- The packet holds the first samples of the queue, coded one by one.
      show audio [speechPacket su t] ++ (t.pcmFromBrew.drop rtpSamplesPerPacket).map _ = (t.pcmFromBrew ++ []).map _
      rw [audio_speechPacket h, ← List.map_append, List.take_append_drop, List.append_nil]
    · exact (Bool.and_true t.running).symm
  · exact ⟨t, [], onRtpTick_waits su h, Advances.quiet rfl rfl id rfl rfl rfl rfl (Bool.and_true t.running).symm⟩

/-- Every turn of the loop goes through, and advances the stream. -/
theorem step_advances (su : Setup E D) (t : Task E D) (event : Event) :
    ∃ t' packets, t.step su event = some t' ∧ Advances su t event t' packets := by
  cases event with
  | datagram source data =>
    obtain ⟨t', h, hadv⟩ := onDatagram_advances su t source data
    exact ⟨t', [], h, hadv⟩
  | recvError => exact ⟨_, [], rfl, Advances.quiet rfl rfl id rfl rfl rfl rfl (Bool.and_false t.running).symm⟩
  | message raw => exact onMessage_advances su t raw
  | closed => exact ⟨_, [], rfl, Advances.quiet rfl rfl id rfl rfl rfl rfl (Bool.and_false t.running).symm⟩
  | acelpTick =>
    obtain ⟨t', h, hadv⟩ := onAcelpTick_advances su t
    exact ⟨t', [], h, hadv⟩
  | rtpTick => exact onRtpTick_advances su t
  | statsTick => exact ⟨t, [], rfl, Advances.quiet rfl rfl id rfl rfl rfl rfl (Bool.and_true t.running).symm⟩

/-! ## A whole run -/

/-- The packets handed to the leg are numbered by their places, and all that it sent on
since it knew its remote. -/
structure Sequenced (remote : Option String) (t : Task E D) : Prop where
  seq : t.seq = UInt16.ofNat t.sent.length
  numbered : ∀ i packet, t.sent[i]? = some packet → sequenceNumber packet = UInt16.ofNat i
  silent : t.remote = none → t.wire = []
  known : t.remote = none → remote = none
  sentOn : ∃ early, t.sent = early ++ t.wire.map Prod.snd ∧ (remote ≠ none → early = [])

theorem Advances.sequenced {event : Event} {packets : List Bytes} {remote : Option String}
    (h : Advances su t event t' packets) (ht : Sequenced remote t) : Sequenced remote t' := by
  constructor
  · rw [h.seq, h.sent, ht.seq, List.length_append, UInt16.ofNat_add]
  · intro i packet hi
    rw [h.sent] at hi
    by_cases hold : i < t.sent.length
    · rw [List.getElem?_append_left hold] at hi
      exact ht.numbered i packet hi
    · rw [List.getElem?_append_right (by omega)] at hi
      have hplace : i = t.sent.length + (i - t.sent.length) := by omega
      rw [h.numbered _ _ hi, ht.seq, ← UInt16.ofNat_add, ← hplace]
  · intro hnone
    have hbefore := h.remote hnone
    rw [h.wire, ht.silent hbefore, hbefore]
    simp
  · intro hnone
    exact ht.known (h.remote hnone)
  · obtain ⟨early, hsent, hearly⟩ := ht.sentOn
    cases hr : t.remote with
    | none =>
      -- Nothing has gone out so far, and nothing does now.
      refine ⟨early ++ packets, ?_, fun hne => absurd (ht.known hr) hne⟩
      rw [h.sent, hsent, h.wire, ht.silent hr, hr]
      simp
    | some address =>
      refine ⟨early, ?_, hearly⟩
      rw [h.sent, hsent, h.wire, hr, List.map_append, map_snd_sent, List.append_assoc]

theorem run_spec (su : Setup E D) (remote : Option String) (events : List Event) :
    ∀ t : Task E D, t.running = true → Sequenced remote t →
      ∃ t', t.run su events = some t' ∧ Sequenced remote t' ∧
        audio t'.sent ++ t'.pcmFromBrew.map (encodeSample su.payloadType) =
          audio t.sent ++ (t.pcmFromBrew ++ spoken su.acelp t.decoder events).map (encodeSample su.payloadType) ∧
        t'.running = !events.any Event.ends := by
  induction events with
  | nil =>
    intro t hrunning ht
    refine ⟨t, rfl, ht, ?_, hrunning⟩
    rw [spoken, List.append_nil]
  | cons event events ih =>
    intro t hrunning ht
    obtain ⟨t1, packets, hstep, hadv⟩ := step_advances su t event
    have ht1 := hadv.sequenced ht
    have hsamples : audio t1.sent ++ t1.pcmFromBrew.map (encodeSample su.payloadType) =
        audio t.sent ++ (t.pcmFromBrew ++ (hear su.acelp t.decoder event).2).map (encodeSample su.payloadType) := by
      rw [hadv.sent, audio_append, List.append_assoc, hadv.samples]
    have hrun1 : t.run su (event :: events) = t1.run su events := by
      rw [Task.run, if_pos hrunning, hstep]
      rfl
    cases hends : event.ends with
    | true =>
      have hstop : t1.running = false := by rw [hadv.running, hends, Bool.not_true, Bool.and_false]
      have hnothing : (hear su.acelp t.decoder event).2 = [] := by
        cases event <;> first | rfl | cases hends
      refine ⟨t1, ?_, ht1, ?_, ?_⟩
      · rw [hrun1]
        cases events with
        | nil => rfl
        | cons _ _ => rw [Task.run, if_neg (by simp [hstop])]
      · rw [hsamples, spoken, if_pos hends, hnothing]
      · rw [hstop, List.any_cons, hends, Bool.true_or, Bool.not_true]
    | false =>
      have hgo : t1.running = true := by rw [hadv.running, hends, hrunning]; rfl
      obtain ⟨t', hrun, ht', haudio, hruns⟩ := ih t1 hgo ht1
      refine ⟨t', by rw [hrun1, hrun], ht', ?_, ?_⟩
      · rw [haudio, spoken, if_neg (by simp [hends]), hadv.decoder, List.map_append, ← List.append_assoc, hsamples,
          ← List.append_assoc t.pcmFromBrew]
        simp only [List.map_append, List.append_assoc]
      · rw [hruns, List.any_cons, hends, Bool.false_or]

/-! ## Ticks -/

/-- Ticks send what waits, a packet's worth each, until too little is left for a packet. -/
theorem run_ticks (su : Setup E D) (n : ℕ) :
    ∀ t : Task E D, t.running = true → t.pcmFromBrew.length < (n + 1) * rtpSamplesPerPacket →
      ∃ t', t.run su (List.replicate n .rtpTick) = some t' ∧ t'.pcmFromBrew.length < rtpSamplesPerPacket ∧
        audio t'.sent ++ t'.pcmFromBrew.map (encodeSample su.payloadType) =
          audio t.sent ++ t.pcmFromBrew.map (encodeSample su.payloadType) := by
  induction n with
  | zero =>
    intro t _ hlen
    rw [Nat.zero_add, Nat.one_mul] at hlen
    exact ⟨t, rfl, hlen, rfl⟩
  | succ n ih =>
    intro t hrunning hlen
    have hrun : t.run su (List.replicate (n + 1) .rtpTick) =
        (t.onRtpTick su).bind fun t1 => t1.run su (List.replicate n .rtpTick) := by
      rw [List.replicate_succ, Task.run, if_pos hrunning]
      rfl
    by_cases h : rtpSamplesPerPacket ≤ t.pcmFromBrew.length
    · have hrest : ((ticked t).send (speechPacket su t)).pcmFromBrew.length < (n + 1) * rtpSamplesPerPacket := by
        show (t.pcmFromBrew.drop rtpSamplesPerPacket).length < _
        rw [List.length_drop]
        rw [Nat.add_mul (n + 1), Nat.one_mul] at hlen
        omega
      obtain ⟨t', hticks, hleft, haudio⟩ := ih ((ticked t).send (speechPacket su t)) hrunning hrest
      refine ⟨t', by rw [hrun, onRtpTick_sends su h, Option.bind_some, hticks], hleft, ?_⟩
      rw [haudio]
      show audio (t.sent ++ [speechPacket su t]) ++ (t.pcmFromBrew.drop rtpSamplesPerPacket).map _ = _
      rw [audio_append, audio_speechPacket h, List.append_assoc, ← List.map_append, List.take_append_drop]
    · have hfew : t.pcmFromBrew.length < (n + 1) * rtpSamplesPerPacket := by
        rw [Nat.add_mul, Nat.one_mul]
        omega
      obtain ⟨t', hticks, hleft, haudio⟩ := ih t hrunning hfew
      exact ⟨t', by rw [hrun, onRtpTick_waits su h, Option.bind_some, hticks], hleft, haudio⟩

theorem sequenced_spawn (su : Setup E D) (remote : Option String) :
    Sequenced remote (Task.spawn su remote) := by
  constructor
  · rfl
  · intro i packet h
    cases h
  · intro _
    rfl
  · exact id
  · exact ⟨[], rfl, fun _ => rfl⟩

/-- Over any run the packets are numbered consecutively, speech goes out sample by sample
in order, and every datagram is skipped or read to its end. A tick sends a packet as soon
as there are samples for one, so that ticks enough leave less than a packet unsent. -/
theorem transcoded_stream (su : Setup E D) (remote : Option String) (events : List Event) :
    ∃ t, (Task.spawn su remote).run su events = some t ∧
      (∀ i packet, t.sent[i]? = some packet → sequenceNumber packet = UInt16.ofNat i) ∧
      (∃ early, t.sent = early ++ t.wire.map Prod.snd ∧ (remote ≠ none → early = [])) ∧
      audio t.sent ++ t.pcmFromBrew.map (encodeSample su.payloadType) =
        (spoken su.acelp su.acelp.newDecoder events).map (encodeSample su.payloadType) ∧
      t.step su .rtpTick =
        some (if rtpSamplesPerPacket ≤ t.pcmFromBrew.length then (ticked t).send (speechPacket su t) else t) ∧
      (events.any Event.ends = false → ∀ n, t.pcmFromBrew.length < (n + 1) * rtpSamplesPerPacket →
        ∃ t', t.run su (List.replicate n .rtpTick) = some t' ∧ t'.pcmFromBrew.length < rtpSamplesPerPacket ∧
          audio t'.sent ++ t'.pcmFromBrew.map (encodeSample su.payloadType) =
            (spoken su.acelp su.acelp.newDecoder events).map (encodeSample su.payloadType)) ∧
      ∀ source data, ∃ o,
        t.step su (.datagram source data) =
          some { t.recv source data with
            pcmFromSip := t.pcmFromSip ++ (o.getD []).map (decodeSample su.payloadType) } ∧
        ∀ payload, o = some payload ↔ Accepted su.payloadType (data.take rtpBufBytes) payload := by
  obtain ⟨t, hrun, ht, haudio, hruns⟩ := run_spec su remote events _ rfl (sequenced_spawn su remote)
  refine ⟨t, hrun, ht.numbered, ht.sentOn, haudio, ?_, fun hends n hn => ?_, fun source data => ?_⟩
  · by_cases h : rtpSamplesPerPacket ≤ t.pcmFromBrew.length
    · rw [if_pos h]
      exact onRtpTick_sends su h
    · rw [if_neg h]
      exact onRtpTick_waits su h
  · rw [hends] at hruns
    obtain ⟨t', hticks, hleft, hsame⟩ := run_ticks su n t hruns hn
    exact ⟨t', hticks, hleft, hsame.trans haudio⟩
  · exact onDatagram_spec su t source data

/-- A call in silence. -/
def silence : Setup Unit Unit where
  acelp :=
    { newEncoder := ()
      newDecoder := ()
      encode := fun _ _ => ((), ⟨List.replicate acelpCodedFrameBytes 0, List.length_replicate⟩)
      decode := fun _ _ _ => ((), Vector.replicate acelpPcmSamples 0) }
  payloadType := 8
  callId := 20

/-- A message of speech, and a tone between two ticks. -/
def spokenWithTone : List Event :=
  [.message ([classFrame, frameTrafficChannel] ++ List.replicate (18 + steVoicePayloadBytes) 0), .rtpTick,
    .message (buildDtmfFrame 20 49), .rtpTick]

/-- A packet of speech, a tone and another packet of speech go out; a third tick sends the
last of the speech. -/
theorem transcoded_stream_spoken :
    ∃ t t', (Task.spawn silence (some "10.0.0.5:5004")).run silence spokenWithTone = some t ∧
      t.wire.map (fun x => sequenceNumber x.2) = [0, 1, 2, 3, 4] ∧ (audio t.sent).length = 320 ∧
      t.run silence [.rtpTick] = some t' ∧ t'.pcmFromBrew = [] ∧ (audio t'.sent).length = 480 := by
  obtain ⟨t, hrun, -, -, -, htick, hticks, -⟩ :=
    transcoded_stream silence (some "10.0.0.5:5004") spokenWithTone
  have hnow : ((Task.spawn silence (some "10.0.0.5:5004")).run silence spokenWithTone).map
      (fun t => (t.wire.map (fun x => sequenceNumber x.2), (audio t.sent).length, t.pcmFromBrew.length, t.running)) =
        some ([0, 1, 2, 3, 4], 320, 160, true) := by decide +kernel
  rw [hrun, Option.map_some, Option.some.injEq, Prod.mk.injEq, Prod.mk.injEq, Prod.mk.injEq] at hnow
  obtain ⟨hwire, hsent, hwaiting, hruns⟩ := hnow
  obtain ⟨t', hlast, -, hall⟩ := hticks (by decide) 1 (by rw [hwaiting]; decide)
  rw [if_pos (by rw [hwaiting]; decide)] at htick
  have hlast' : t.run silence [.rtpTick] = some ((ticked t).send (speechPacket silence t)) := by
    rw [Task.run, if_pos hruns, htick]
    rfl
  obtain rfl : t' = (ticked t).send (speechPacket silence t) := Option.some.inj (hlast.symm.trans hlast')
  have hempty : ((ticked t).send (speechPacket silence t)).pcmFromBrew = [] := by
    show t.pcmFromBrew.drop rtpSamplesPerPacket = []
    rw [List.drop_eq_nil_iff, hwaiting]
    decide
  refine ⟨t, _, hrun, hwire, hsent, hlast, hempty, ?_⟩
  rw [hempty, List.map_nil, List.append_nil] at hall
  rw [hall, List.length_map]
  decide +kernel

end BrewServer.Transcode
