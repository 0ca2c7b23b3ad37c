import BrewServer.Lib.Reader
import BrewServer.Voice

/-!
# The Brew codec

Every message the server builds is parsed back to what it was built from, and every byte
string is parsed to a message or an error, at a version no lower than its connection's.
-/

namespace BrewServer.Protocol

/-! ## Reading back -/

section Headers

variable (callState : UInt8) (id : Uuid) (payload : Bytes) (v : ConnVersion)

/-- The eighteen bytes ahead of a call-control payload. -/
theorem parseWithVersion_callControl :
    parseWithVersion ([classCallControl, callState] ++ id.asBytes ++ payload) v =
      (parseCallPayload ([classCallControl, callState] ++ id.asBytes ++ payload) callState payload v).map fun r =>
        r.map fun p => (.callControl { callState, identifier := id, payload := p.1 }, p.2) := by
  let data : Bytes := [classCallControl, callState] ++ id.asBytes ++ payload
  have hlen : data.length = 18 + payload.length := by
    simp only [data, List.length_append, List.length_cons, List.length_nil, Uuid.length_asBytes]
  have hid : slice data 2 16 = some id.asBytes := by
    have h := slice_field [classCallControl, callState] id.asBytes payload (o := 2) (n := 16) rfl (Uuid.length_asBytes id)
    rwa [← List.append_assoc] at h
  have hpayload : data.drop 18 = payload :=
    List.drop_left' (by simp only [List.length_append, List.length_cons, List.length_nil, Uuid.length_asBytes])
  have hshort : ¬ data.length < 2 := by omega
  have hshort' : ¬ data.length < 18 := by omega
  have hclass : data[0]? = some classCallControl := rfl
  have hstate : data[1]? = some callState := rfl
  change parseWithVersion data v = (parseCallPayload data callState payload v).map _
  simp only [parseWithVersion, parseCallControl, if_neg hshort, if_neg hshort', hclass, hstate, hid, hpayload,
    Uuid.fromBytes_asBytes, Option.bind_eq_bind, Option.bind_some, Option.pure_def]
  rw [if_neg (by decide), if_pos trivial]
  cases parseCallPayload data callState payload v with
  | none => rfl
  | some r => cases r <;> rfl

theorem parseWithVersion_frame (frameType : UInt8) (lengthBits : UInt16) (bytes : Bytes) :
    parseWithVersion ([classFrame, frameType] ++ id.asBytes ++ le16 lengthBits ++ bytes) v =
      some (.ok (.frame { frameType, identifier := id, lengthBits, data := bytes }, v)) := by
  let data : Bytes := [classFrame, frameType] ++ id.asBytes ++ le16 lengthBits ++ bytes
  have hhead : ([classFrame, frameType] ++ id.asBytes).length = 18 := by
    simp only [List.length_append, List.length_cons, List.length_nil, Uuid.length_asBytes]
  have hlen : data.length = 20 + bytes.length := by
    simp only [data, List.length_append, hhead, length_le16]
  have hid : slice data 2 16 = some id.asBytes := by
    have h := slice_field [classFrame, frameType] id.asBytes (le16 lengthBits ++ bytes) (o := 2) (n := 16) rfl
      (Uuid.length_asBytes id)
    rwa [← List.append_assoc, ← List.append_assoc] at h
  have hbits : u16At data 18 = some lengthBits := by
    have h := u16At_field ([classFrame, frameType] ++ id.asBytes) bytes lengthBits hhead
    rwa [← List.append_assoc] at h
  have hdata : data.drop 20 = bytes := List.drop_left' (by simp only [List.length_append, hhead, length_le16])
  have hshort : ¬ data.length < 2 := by omega
  have hshort' : ¬ data.length < 20 := by omega
  have hclass : data[0]? = some classFrame := rfl
  have htype : data[1]? = some frameType := rfl
  change parseWithVersion data v = _
  simp only [parseWithVersion, parseFrame, if_neg hshort, if_neg hshort', hclass, htype, hid, hbits, hdata,
    Uuid.fromBytes_asBytes, Option.bind_eq_bind, Option.bind_some, Option.pure_def]
  rw [if_neg (by decide), if_neg (by decide), if_pos trivial]
  rfl

end Headers

section Payloads

variable (data : Bytes) (v : ConnVersion)

theorem parseCallPayload_cause {callState : UInt8} (cause : UInt8)
    (h : callState = callGroupIdle ∨ callState = callSetupReject ∨ callState = callRelease) :
    parseCallPayload data callState [cause] v = some (.ok (.cause cause, v)) := by
  rcases h with rfl | rfl | rfl <;> rfl

theorem parseCallPayload_empty {callState : UInt8} (h : callState = callSetupAccept ∨ callState = callAlert) :
    parseCallPayload data callState [] v = some (.ok (.empty, v)) := by
  rcases h with rfl | rfl <;> rfl

theorem parseCallPayload_connectConfirm (payload : Bytes) :
    parseCallPayload data callConnectConfirm payload v = some (.ok (.raw payload, v)) := rfl

theorem parseCallPayload_shortTransfer (source destination : UInt32) :
    parseCallPayload data callShortTransfer (le32 source ++ (le32 destination ++ List.replicate 32 0)) v =
      some (.ok (.shortTransfer source destination, v)) := by
  have hsource : u32At (le32 source ++ (le32 destination ++ List.replicate 32 0)) 0 = some source :=
    u32At_field [] _ source rfl
  have hdest : u32At (le32 source ++ (le32 destination ++ List.replicate 32 0)) 4 = some destination :=
    u32At_field (le32 source) _ destination (length_le32 source)
  have hlen : ¬ (le32 source ++ (le32 destination ++ List.replicate 32 (0 : UInt8))).length < 8 := by
    simp only [List.length_append, length_le32]
    omega
  simp only [parseCallPayload, if_neg hlen, hsource, hdest]
  rfl

theorem parseGroupTx_build (source destination : UInt32) (priority : UInt8) :
    parseGroupTx (le32 source ++ (le32 destination ++ (priority :: 0 :: le16 0))) =
      some { source, destination, priority, access := 0, service := 0, mnemonic := none } := by
  have hsource : u32At (le32 source ++ (le32 destination ++ (priority :: 0 :: le16 0))) 0 = some source :=
    u32At_field [] _ source rfl
  have hdest : u32At (le32 source ++ (le32 destination ++ (priority :: 0 :: le16 0))) 4 = some destination :=
    u32At_field (le32 source) _ destination (length_le32 source)
  have hpriority : (le32 source ++ (le32 destination ++ (priority :: 0 :: le16 0)))[8]? = some priority := by
    rw [← List.append_assoc, List.getElem?_append_right (by simp)]
    simp
  have haccess : (le32 source ++ (le32 destination ++ (priority :: 0 :: le16 0)))[9]? = some 0 := by
    rw [← List.append_assoc, List.getElem?_append_right (by simp)]
    simp
  have hservice : u16At (le32 source ++ (le32 destination ++ (priority :: 0 :: le16 0))) 10 = some 0 := by
    have h := u16At_field (le32 source ++ le32 destination ++ [priority, 0]) [] 0 (o := 10) (by simp)
    simpa only [List.append_assoc, List.cons_append, List.nil_append, List.append_nil] using h
  have hlen : ¬ groupTxBaseLen < (le32 source ++ (le32 destination ++ (priority :: 0 :: le16 0))).length := by
    simp only [List.length_append, List.length_cons, length_le32, length_le16, groupTxBaseLen]
    omega
  simp only [parseGroupTx, if_neg hlen, hsource, hdest, hpriority, haccess, hservice]
  rfl

theorem parseCallPayload_groupTx (source destination : UInt32) (priority : UInt8) :
    parseCallPayload data callGroupTx (le32 source ++ (le32 destination ++ (priority :: 0 :: le16 0))) v =
      some (.ok (.groupTransmission { source, destination, priority, access := 0, service := 0, mnemonic := none },
        v)) := by
  have hlen : (le32 source ++ (le32 destination ++ (priority :: 0 :: le16 0))).length = groupTxBaseLen := by
    simp only [List.length_append, List.length_cons, length_le32, length_le16, groupTxBaseLen]
  simp only [parseCallPayload, hlen, if_neg (lt_irrefl groupTxBaseLen), parseGroupTx_build]
  rfl

/-- The payload of a call to or from the SIP side. -/
def circularPayload (source destination : UInt32) (priority : UInt8) : Bytes :=
  le32 source ++ (le32 destination ++ (List.replicate 32 0 ++ ([priority] ++ [0, 0, 1, 1, 0, 0, 0, 0, 0, 0])))

theorem buildCircularCall_eq (callState : UInt8) (id : Uuid) (source destination : UInt32) (priority : UInt8) :
    buildCircularCall callState id source destination priority =
      [classCallControl, callState] ++ id.asBytes ++ circularPayload source destination priority := by
  simp only [buildCircularCall, circularPayload, List.append_assoc]

theorem length_circularPayload (source destination : UInt32) (priority : UInt8) :
    (circularPayload source destination priority).length = circularCallBaseLen := by
  simp only [circularPayload, List.length_append, length_le32, List.length_replicate, List.length_cons, List.length_nil,
    circularCallBaseLen]

theorem parseCircularCall_build (source destination : UInt32) (priority : UInt8) (mnemonic : Option String) :
    parseCircularCall (circularPayload source destination priority) mnemonic =
      some { source, destination, number := "", priority, service := 0, mnemonic } := by
  let tail : Bytes := [priority] ++ [0, 0, 1, 1, 0, 0, 0, 0, 0, 0]
  have hhead : (le32 source ++ le32 destination).length = 8 := by simp
  have hnumhead : (le32 source ++ le32 destination ++ List.replicate 32 (0 : UInt8)).length = 40 := by simp
  have hsource : u32At (circularPayload source destination priority) 0 = some source := u32At_field [] _ source rfl
  have hdest : u32At (circularPayload source destination priority) 4 = some destination :=
    u32At_field (le32 source) _ destination (length_le32 source)
  have hnumber : slice (circularPayload source destination priority) 8 32 = some (List.replicate 32 0) := by
    have h := slice_field (le32 source ++ le32 destination) (List.replicate 32 0) tail (o := 8) (n := 32) hhead
      List.length_replicate
    rwa [List.append_assoc] at h
  have hsplit : circularPayload source destination priority =
      (le32 source ++ le32 destination ++ List.replicate 32 0) ++ tail := by
    simp only [circularPayload, tail, List.append_assoc]
  have hpriority : (circularPayload source destination priority)[40]? = some priority := by
    rw [hsplit, List.getElem?_append_right (by rw [hnumhead]), hnumhead]
    rfl
  have hservice : (circularPayload source destination priority)[41]? = some 0 := by
    rw [hsplit, List.getElem?_append_right (by rw [hnumhead]; omega), hnumhead]
    rfl
  simp only [parseCircularCall, hsource, hdest, hnumber, hpriority, hservice]
  rfl

theorem parseCallPayload_circular {callState : UInt8} (source destination : UInt32) (priority : UInt8)
    (h : callState = callSetupRequest ∨ callState = callConnectRequest) :
    parseCallPayload data callState (circularPayload source destination priority) v =
      some (.ok (.circularCall { source, destination, number := "", priority, service := 0, mnemonic := none }, v)) := by
  have hlen := length_circularPayload source destination priority
  rcases h with rfl | rfl
  · simp only [parseCallPayload, hlen, if_neg (lt_irrefl circularCallBaseLen), parseCircularCall_build]
    rfl
  · simp only [parseCallPayload, hlen, if_neg (lt_irrefl circularCallBaseLen), parseCircularCall_build]
    rfl

end Payloads

/-- A service message: its JSON ends at a NUL. -/
def buildService (serviceType : UInt8) (json : String) : Bytes := [classService, serviceType] ++ utf8Bytes json ++ [0]

/-- Only NUL has a zero byte. -/
theorem ne_zero_of_mem_encode {c : Char} (hc : c ≠ '\x00') : ∀ b ∈ String.utf8EncodeChar c, b ≠ 0 := by
  have hv : c.val.toNat ≠ 0 := by
    intro h
    refine hc (Char.ext ?_)
    exact UInt32.toNat_inj.mp h
  have hbyte : ∀ n, n < 256 → n ≠ 0 → UInt8.ofNat n ≠ 0 := by
    intro n hlt hne heq
    have h := congrArg UInt8.toNat heq
    simp only [UInt8.toNat_ofNat', UInt8.toNat_zero] at h
    omega
  intro b hb
  unfold String.utf8EncodeChar at hb
  dsimp only at hb
  split at hb
  · next h1 =>
    rw [List.mem_singleton] at hb
    rw [hb]
    exact hbyte _ (by omega) hv
  · split at hb
    · simp only [List.mem_cons, List.not_mem_nil, or_false] at hb
      rcases hb with rfl | rfl <;> exact hbyte _ (by omega) (by omega)
    · split at hb
      · simp only [List.mem_cons, List.not_mem_nil, or_false] at hb
        rcases hb with rfl | rfl | rfl <;> exact hbyte _ (by omega) (by omega)
      · simp only [List.mem_cons, List.not_mem_nil, or_false] at hb
        rcases hb with rfl | rfl | rfl | rfl <;> exact hbyte _ (by omega) (by omega)

theorem takeWhile_utf8Bytes {json : String} (h : '\x00' ∉ json.toList) :
    (utf8Bytes json ++ [0]).takeWhile (· != 0) = utf8Bytes json := by
  have hall : ∀ b ∈ utf8Bytes json, (b != 0) = true := by
    intro b hb
    obtain ⟨c, hc, hb⟩ := List.mem_flatMap.mp hb
    have hne : c ≠ '\x00' := fun heq => h (heq ▸ hc)
    exact bne_iff_ne.mpr (ne_zero_of_mem_encode hne b hb)
  rw [List.takeWhile_append_of_pos hall]
  exact List.append_nil _

theorem parseWithVersion_service (serviceType : UInt8) {json : String} (h : '\x00' ∉ json.toList) (v : ConnVersion) :
    parseWithVersion (buildService serviceType json) v = some (.ok (.service { serviceType, jsonData := json }, v)) := by
  have hlen : ¬ (buildService serviceType json).length < 2 := by
    simp only [buildService, List.length_append, List.length_cons, List.length_nil]
    omega
  have hclass : (buildService serviceType json)[0]? = some classService := rfl
  have htype : (buildService serviceType json)[1]? = some serviceType := rfl
  have htext : ((buildService serviceType json).drop 2).takeWhile (· != 0) = utf8Bytes json := takeWhile_utf8Bytes h
  simp only [parseWithVersion, parseService, if_neg hlen, hclass, htype, htext, fromUtf8_utf8Bytes, Option.bind_eq_bind,
    Option.bind_some, Option.pure_def]
  rfl

/-! ## Everything that is built -/

/-- The states whose payload is a cause. -/
inductive CauseState
  | groupIdle
  | setupReject
  | release
  deriving DecidableEq

def CauseState.byte : CauseState → UInt8
  | .groupIdle => callGroupIdle
  | .setupReject => callSetupReject
  | .release => callRelease

/-- The states without a payload. -/
inductive EmptyState
  | setupAccept
  | alert
  deriving DecidableEq

def EmptyState.byte : EmptyState → UInt8
  | .setupAccept => callSetupAccept
  | .alert => callAlert

/-- A coded speech frame. -/
abbrev CodedFrame := { sub : Bytes // sub.length = acelpCodedFrameBytes }

/-- JSON as it is written: a NUL in it is escaped. -/
abbrev Json := { text : String // '\x00' ∉ text.toList }

/-- What each builder is given. -/
inductive Outgoing
  | callCause (state : CauseState) (id : Uuid) (cause : UInt8)
  | callControlEmpty (state : EmptyState) (id : Uuid)
  | callConnectConfirm (id : Uuid) (grant permission : UInt8)
  | subscriber (msgType : UInt8) (issi : UInt32) (groups : List UInt32)
  | shortTransfer (id : Uuid) (source destination : UInt32)
  | sdsTransfer (id : Uuid) (lengthBits : UInt16) (data : Bytes)
  | circularSetup (id : Uuid) (source destination : UInt32) (priority : UInt8)
  | circularConnect (id : Uuid) (source destination : UInt32) (priority : UInt8)
  | groupTx (id : Uuid) (source destination : UInt32) (priority : UInt8)
  | traffic (id : Uuid) (sub1 sub2 : CodedFrame)
  | dtmf (id : Uuid) (digit : UInt8)
  | service (serviceType : UInt8) (json : Json)

namespace Outgoing

/-- The bytes of a message. -/
def build : Outgoing → Option Bytes
  | .callCause state id cause => some (buildCallCause state.byte id cause)
  | .callControlEmpty state id => some (buildCallControlEmpty state.byte id)
  | .callConnectConfirm id grant permission => some (buildCallConnectConfirm id grant permission)
  | .subscriber msgType issi groups => some (buildSubscriberMessage msgType issi groups)
  | .shortTransfer id source destination => some (buildShortTransfer id source destination)
  | .sdsTransfer id lengthBits data => some (buildSdsTransferFrame id lengthBits data)
  | .circularSetup id source destination priority => some (buildCircularCallSetup id source destination priority)
  | .circularConnect id source destination priority => some (buildCircularConnectRequest id source destination priority)
  | .groupTx id source destination priority => some (buildGroupTx id source destination priority)
  | .traffic id sub1 sub2 => buildTrafficFrame id sub1 sub2
  | .dtmf id digit => some (buildDtmfFrame id digit)
  | .service serviceType json => some (buildService serviceType json)

/-- The call-control message of a state, for one call. -/
def control (callState : UInt8) (identifier : Uuid) (payload : CallPayload) : BrewMessage :=
  .callControl { callState, identifier, payload }

/-- The message that is meant. -/
def message : Outgoing → Option BrewMessage
  | .callCause state id cause => some (control state.byte id (.cause cause))
  | .callControlEmpty state id => some (control state.byte id .empty)
  | .callConnectConfirm id grant permission => some (control Protocol.callConnectConfirm id (.raw [grant, permission]))
  | .subscriber msgType issi groups => some (.subscriber { msgType, issi, timestamp := 0, fraction := 0, groups })
  | .shortTransfer id source destination => some (control callShortTransfer id (.shortTransfer source destination))
  | .sdsTransfer id lengthBits data => some (.frame { frameType := frameSdsTransfer, identifier := id, lengthBits, data })
  | .circularSetup id source destination priority => some (control callSetupRequest id
      (.circularCall { source, destination, number := "", priority, service := 0, mnemonic := none }))
  | .circularConnect id source destination priority => some (control callConnectRequest id
      (.circularCall { source, destination, number := "", priority, service := 0, mnemonic := none }))
  | .groupTx id source destination priority => some (control callGroupTx id
      (.groupTransmission { source, destination, priority, access := 0, service := 0, mnemonic := none }))
  | .traffic id sub1 sub2 => (packSteVoicePayload sub1 sub2).map fun payload =>
      .frame { frameType := frameTrafficChannel, identifier := id, lengthBits := 288, data := payload }
  | .dtmf id digit => some (.frame { frameType := frameDtmf, identifier := id, lengthBits := 8, data := [digit] })
  | .service serviceType json => some (.service { serviceType, jsonData := json })

/-- What is built of a message is parsed back, at the version of the connection. -/
theorem parse_build (m : Outgoing) (v : ConnVersion) :
    ∃ raw msg, m.build = some raw ∧ m.message = some msg ∧ parseWithVersion raw v = some (.ok (msg, v)) := by
  cases m with
  | callCause state id cause =>
    refine ⟨_, _, rfl, rfl, ?_⟩
    rw [buildCallCause, parseWithVersion_callControl, parseCallPayload_cause _ _ _ (by cases state <;> simp [CauseState.byte])]
    rfl
  | callControlEmpty state id =>
    refine ⟨_, _, rfl, rfl, ?_⟩
    rw [buildCallControlEmpty, ← List.append_nil ([classCallControl, state.byte] ++ id.asBytes),
      parseWithVersion_callControl, parseCallPayload_empty _ _ (by cases state <;> simp [EmptyState.byte])]
    rfl
  | callConnectConfirm id grant permission =>
    refine ⟨_, _, rfl, rfl, ?_⟩
    rw [buildCallConnectConfirm, parseWithVersion_callControl, parseCallPayload_connectConfirm]
    rfl
  | subscriber msgType issi groups =>
    refine ⟨_, _, rfl, rfl, ?_⟩
    obtain ⟨d, hd⟩ := (asSubscriber_iff (v := v)).mp (asSubscriber_build msgType issi groups)
    have hlen : 2 ≤ (buildSubscriberMessage msgType issi groups).length := by
      simp only [buildSubscriberMessage, List.length_append, List.length_cons, List.length_nil]
      omega
    rw [parseWithVersion_of_subscriber rfl hlen] at hd ⊢
    obtain ⟨r, hr, hmap⟩ := Option.map_eq_some_iff.mp hd
    rw [hr]
    cases r with
    | error e => cases hmap
    | ok msg =>
      cases hmap
      rfl
  | shortTransfer id source destination =>
    refine ⟨_, _, rfl, rfl, ?_⟩
    rw [buildShortTransfer, List.append_assoc, List.append_assoc, parseWithVersion_callControl,
      parseCallPayload_shortTransfer]
    rfl
  | sdsTransfer id lengthBits data => exact ⟨_, _, rfl, rfl, parseWithVersion_frame ..⟩
  | circularSetup id source destination priority =>
    refine ⟨_, _, rfl, rfl, ?_⟩
    rw [buildCircularCallSetup, buildCircularCall_eq, parseWithVersion_callControl,
      parseCallPayload_circular _ _ _ _ _ (.inl rfl)]
    rfl
  | circularConnect id source destination priority =>
    refine ⟨_, _, rfl, rfl, ?_⟩
    rw [buildCircularConnectRequest, buildCircularCall_eq, parseWithVersion_callControl,
      parseCallPayload_circular _ _ _ _ _ (.inr rfl)]
    rfl
  | groupTx id source destination priority =>
    refine ⟨_, _, rfl, rfl, ?_⟩
    rw [buildGroupTx, ← List.append_assoc, parseWithVersion_callControl, parseCallPayload_groupTx]
    rfl
  | traffic id sub1 sub2 =>
    have hpack := packSteVoicePayload_eq sub1.2 sub2.2
    have hframe := parseWithVersion_frame id v frameTrafficChannel 288
      (0x00 :: packBitsMsb (bitBytes sub1 acelpCodedFrameBits ++ bitBytes sub2 acelpCodedFrameBits))
    refine ⟨_, _, ?_, ?_, hframe⟩
    · rw [build, buildTrafficFrame, hpack]
      rfl
    · rw [message, hpack]
      rfl
  | dtmf id digit => exact ⟨_, _, rfl, rfl, parseWithVersion_frame ..⟩
  | service serviceType json => exact ⟨_, _, rfl, rfl, parseWithVersion_service serviceType json.2 v⟩

end Outgoing

/-! ## Speech both ways -/

/-- The payload of a traffic frame. -/
abbrev StePayload := { payload : Bytes // payload.length = steVoicePayloadBytes }

/-- Two coded frames come back with the low seven bits of their last byte cleared, and a
payload with its header byte and its last six bits. -/
theorem steVoicePayload_round_trip :
    (∀ sub1 sub2 : CodedFrame, ∃ payload, packSteVoicePayload sub1 sub2 = some payload ∧
      payload.length = steVoicePayloadBytes ∧
      unpackSteVoicePayload payload = some (sub1.1.modify 17 (· &&& 0x80), sub2.1.modify 17 (· &&& 0x80))) ∧
    ∀ payload : StePayload, ∃ sub1 sub2 : CodedFrame, unpackSteVoicePayload payload = some (sub1.1, sub2.1) ∧
      packSteVoicePayload sub1 sub2 = some ((payload.1.set 0 0).modify 35 (· &&& 0xc0)) := by
  constructor
  · intro sub1 sub2
    rw [← clearPad_eq_modify sub1.2, ← clearPad_eq_modify sub2.2]
    exact unpackSteVoicePayload_pack sub1.2 sub2.2
  · intro payload
    obtain ⟨sub1, sub2, hunpack, h1, h2, hpack⟩ := packSteVoicePayload_unpack payload.2
    exact ⟨⟨sub1, h1⟩, ⟨sub2, h2⟩, hunpack, hpack⟩

/-! ## Every byte string -/

section Total

variable (data payload : Bytes) (v : ConnVersion)

theorem parseSubscriber_settles : Settles (fun _ => True) (parseSubscriber data) := by
  simp only [parseSubscriber, Option.bind_eq_bind, Option.pure_def]
  exact .check fun _ => .bind (getElem?_isSome (by omega)) fun _ _ => .bind (u32At_isSome (by omega)) fun _ _ =>
    .bind (u64At_isSome (by omega)) fun _ _ => .bind (u32At_isSome (by omega)) fun _ _ => .ok trivial

theorem parseFrame_settles : Settles (fun _ => True) (parseFrame data) := by
  simp only [parseFrame, Option.bind_eq_bind, Option.pure_def]
  exact .check fun _ => .bind (getElem?_isSome (by omega)) fun _ _ => .bind ⟨_, slice_eq_some (by omega)⟩ fun _ _ =>
    .bind (u16At_isSome (by omega)) fun _ _ => .ok trivial

theorem parseService_settles (h : 2 ≤ data.length) : Settles (fun _ => True) (parseService data) := by
  simp only [parseService, Option.bind_eq_bind, Option.pure_def]
  refine .bind (getElem?_isSome (by omega)) fun _ _ => ?_
  split
  · exact .error
  · exact .ok trivial

theorem parseGroupTx_isSome (h : groupTxBaseLen ≤ payload.length) : ∃ gt, parseGroupTx payload = some gt := by
  have hlen : 12 ≤ payload.length := h
  obtain ⟨source, hsource⟩ := @u32At_isSome payload 0 (by omega)
  obtain ⟨dest, hdest⟩ := @u32At_isSome payload 4 (by omega)
  obtain ⟨priority, hpriority⟩ := @getElem?_isSome payload 8 (by omega)
  obtain ⟨access, haccess⟩ := @getElem?_isSome payload 9 (by omega)
  obtain ⟨service, hservice⟩ := @u16At_isSome payload 10 (by omega)
  simp only [parseGroupTx, hsource, hdest, hpriority, haccess, hservice, Option.bind_eq_bind, Option.bind_some,
    Option.pure_def]
  exact ⟨_, rfl⟩

theorem parseCircularCall_isSome (h : circularCallBaseLen ≤ payload.length) (mnemonic : Option String) :
    ∃ c, parseCircularCall payload mnemonic = some c := by
  have hlen : 51 ≤ payload.length := h
  obtain ⟨source, hsource⟩ := @u32At_isSome payload 0 (by omega)
  obtain ⟨dest, hdest⟩ := @u32At_isSome payload 4 (by omega)
  have hnumber := @slice_eq_some payload 8 32 (by omega)
  obtain ⟨priority, hpriority⟩ := @getElem?_isSome payload 40 (by omega)
  obtain ⟨service, hservice⟩ := @getElem?_isSome payload 41 (by omega)
  simp only [parseCircularCall, hsource, hdest, hnumber, hpriority, hservice, Option.bind_eq_bind, Option.bind_some,
    Option.pure_def]
  exact ⟨_, rfl⟩

theorem asU8_le_v1 : v.asU8 ≤ ConnVersion.v1.asU8 := by cases v <;> decide

/-- A message shows its connection's version or a later one. -/
theorem asU8_le_ite (c : Prop) [Decidable c] : v.asU8 ≤ (if c then ConnVersion.v1 else v).asU8 := by
  split
  · exact asU8_le_v1 v
  · exact UInt8.le_refl _

theorem parseCallPayload_settles (callState : UInt8) :
    Settles (fun p => v.asU8 ≤ p.2.asU8) (parseCallPayload data callState payload v) := by
  simp only [parseCallPayload, Option.bind_eq_bind, Option.pure_def]
  refine .ite (fun _ => .check fun h => ?_) fun _ => .ite (fun _ => .check fun h => ?_) fun _ =>
    .ite (fun _ => .check fun h => ?_) fun _ => .ite (fun _ => .check fun h => ?_) fun _ =>
    .ite (fun _ => .ok (UInt8.le_refl _)) fun _ => .ite (fun _ => .check fun h => ?_) fun _ => .ok (UInt8.le_refl _)
  · exact .bind (parseGroupTx_isSome payload (Nat.not_lt.mp h)) fun _ _ => .ok (asU8_le_ite v _)
  · refine .bind (parseCircularCall_isSome payload (Nat.not_lt.mp h) _) fun _ _ => .ok ?_
    exact asU8_le_ite v _
  · exact .bind (parseCircularCall_isSome payload (Nat.not_lt.mp h) _) fun _ _ => .ok (UInt8.le_refl _)
  · have hpos : 0 < payload.length := by
      rw [List.isEmpty_iff] at h
      exact List.length_pos_of_ne_nil h
    exact .bind (getElem?_isSome hpos) fun _ _ => .ok (UInt8.le_refl _)
  · exact .bind (u32At_isSome (by omega)) fun _ _ => .bind (u32At_isSome (by omega)) fun _ _ => .ok (UInt8.le_refl _)

theorem parseCallControl_settles : Settles (fun p => v.asU8 ≤ p.2.asU8) (parseCallControl data v) := by
  simp only [parseCallControl, Option.bind_eq_bind, Option.pure_def]
  refine .check fun _ => .bind ⟨_, slice_eq_some (by omega)⟩ fun _ _ => .bind (getElem?_isSome (by omega)) fun st _ => ?_
  exact (parseCallPayload_settles data (data.drop 18) v st).andThen (fun _ => rfl) fun p hp => .ok hp

/-- Whatever comes is parsed to a message or refused, and never lowers the version of its
connection. -/
theorem parseWithVersion_settles : Settles (fun p => v.asU8 ≤ p.2.asU8) (parseWithVersion data v) := by
  have hmap : ∀ {p : Option (Except ParseError BrewMessage)}, Settles (fun _ => True) p →
      Settles (fun p : BrewMessage × ConnVersion => v.asU8 ≤ p.2.asU8)
        (p.bind fun m => some (m.map fun m => (m, v))) := fun h =>
    h.andThen (fun _ => rfl) fun _ _ => .ok (UInt8.le_refl _)
  simp only [parseWithVersion, Option.bind_eq_bind, Option.pure_def]
  refine .check fun hlen => .bind (getElem?_isSome (by omega)) fun c _ => ?_
  refine .ite (fun _ => hmap (parseSubscriber_settles data)) fun _ => .ite (fun _ => parseCallControl_settles data v) fun _ =>
    .ite (fun _ => hmap (parseFrame_settles data)) fun _ => .ite (fun _ => ?_) fun _ =>
    .ite (fun _ => hmap (parseService_settles data (by omega))) fun _ => .error
  exact .bind (getElem?_isSome (by omega)) fun _ _ => .ok (UInt8.le_refl _)

end Total

/-- What is built of a message is parsed back, its coded speech frames are unpacked again,
and the parser reads any bytes at all without leaving them, at a version no lower than
their connection's. -/
theorem parseWithVersion_inverts_build :
    (∀ (m : Outgoing) (v : ConnVersion), ∃ raw msg, m.build = some raw ∧ m.message = some msg ∧
      parseWithVersion raw v = some (.ok (msg, v))) ∧
    (∀ sub1 sub2 : CodedFrame, ∃ payload, packSteVoicePayload sub1 sub2 = some payload ∧
      payload.length = steVoicePayloadBytes ∧ unpackSteVoicePayload payload = some (clearPad sub1, clearPad sub2)) ∧
    (∀ sub : CodedFrame, (∀ i, acelpCodedFrameBits ≤ i → bitAt sub i = false) → clearPad sub = sub) ∧
    ∀ (data : Bytes) (v : ConnVersion), ∃ r, parseWithVersion data v = some r ∧
      ∀ msg d, r = .ok (msg, d) → v.asU8 ≤ d.asU8 := by
  refine ⟨Outgoing.parse_build, fun sub1 sub2 => unpackSteVoicePayload_pack sub1.2 sub2.2,
    fun sub hpad => clearPad_eq_self sub.2 hpad, fun data v => ?_⟩
  obtain ⟨r, hr, hok⟩ := parseWithVersion_settles data v
  exact ⟨r, hr, fun msg d h => hok (msg, d) h⟩

end BrewServer.Protocol
