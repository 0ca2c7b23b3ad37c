import BrewServer.Lib.Utf8

/-!
# Brew messages on the wire

Parsing returns `none` where the source would index past the end of the packet;
a refused packet is an `Except.error`.
-/

namespace BrewServer

/-- A 128-bit identifier, ordered as its bytes are. -/
abbrev Uuid := BitVec 128

namespace Uuid

def fromBytes (bs : Bytes) : Uuid := BitVec.ofNat 128 (ofLe bs.reverse)

def asBytes (u : Uuid) : Bytes := (toLe 16 u.toNat).reverse

@[simp] theorem length_asBytes (u : Uuid) : (asBytes u).length = 16 := by simp [asBytes]

theorem fromBytes_asBytes (u : Uuid) : fromBytes (asBytes u) = u := by
  have h : u.toNat < 256 ^ 16 := u.isLt
  rw [fromBytes, asBytes, List.reverse_reverse, ofLe_toLe, Nat.mod_eq_of_lt h, BitVec.ofNat_toNat,
    BitVec.setWidth_eq]

theorem asBytes_fromBytes {bs : Bytes} (h : bs.length = 16) : asBytes (fromBytes bs) = bs := by
  have hlt : ofLe bs.reverse < 2 ^ 128 := by
    have hl := ofLe_lt bs.reverse
    rw [List.length_reverse, h] at hl
    exact hl
  have hb := toLe_ofLe bs.reverse
  rw [List.length_reverse, h] at hb
  rw [asBytes, fromBytes, BitVec.toNat_ofNat, Nat.mod_eq_of_lt hlt, hb, List.reverse_reverse]

end Uuid

namespace Protocol

def classSubscriber : UInt8 := 0xf0
def classCallControl : UInt8 := 0xf1
def classFrame : UInt8 := 0xf2
def classError : UInt8 := 0xf3
def classService : UInt8 := 0xf4
def classFederation : UInt8 := 0xfe

def fedWithdraw : UInt8 := 0
def fedRoute : UInt8 := 1
def fedPrune : UInt8 := 2
def fedBtsHello : UInt8 := 3
def fedBts : UInt8 := 4
def fedMsPos : UInt8 := 5
def fedEmergency : UInt8 := 6

def subDeregister : UInt8 := 0
def subRegister : UInt8 := 1
def subReregister : UInt8 := 2
def subAffiliate : UInt8 := 8
def subDeaffiliate : UInt8 := 9

def callGroupTx : UInt8 := 2
def callGroupIdle : UInt8 := 3
def callSetupRequest : UInt8 := 4
def callSetupAccept : UInt8 := 5
def callSetupReject : UInt8 := 6
def callAlert : UInt8 := 7
def callConnectRequest : UInt8 := 8
def callConnectConfirm : UInt8 := 9
def callRelease : UInt8 := 10
def callShortTransfer : UInt8 := 11
def callSimplexGranted : UInt8 := 12
def callSimplexIdle : UInt8 := 13

def causeCalledPartyNotReachable : UInt8 := 3
def causeSwmiRequestedDisconnection : UInt8 := 14

def frameTrafficChannel : UInt8 := 0
def frameSdsTransfer : UInt8 := 1
def frameSdsReport : UInt8 := 2
def frameDtmf : UInt8 := 3

structure SubscriberMessage where
  msgType : UInt8
  issi : UInt32
  timestamp : UInt64
  fraction : UInt32
  groups : List UInt32
  deriving DecidableEq

structure GroupTransmission where
  source : UInt32
  destination : UInt32
  priority : UInt8
  access : UInt8
  service : UInt16
  mnemonic : Option String
  deriving DecidableEq

structure CircularCall where
  source : UInt32
  destination : UInt32
  number : String
  priority : UInt8
  service : UInt8
  mnemonic : Option String
  deriving DecidableEq

/-- `source(4) destination(4) number[32]` and eleven single-byte fields. -/
def circularCallBaseLen : Nat := 4 + 4 + 32 + 11
/-- `source(4) destination(4) priority(1) access(1) service(2)`. -/
def groupTxBaseLen : Nat := 4 + 4 + 1 + 1 + 2
def mnemonicFieldLen : Nat := 34

inductive ConnVersion
  | v0
  | v1
  deriving DecidableEq

def ConnVersion.asU8 : ConnVersion → UInt8
  | .v0 => 0
  | .v1 => 1

def ConnVersion.hasMnemonic (v : ConnVersion) : Bool := v == .v1

/-- `raw` as a connection that negotiated `version` may receive it. -/
def adaptToVersion (raw : Bytes) (version : ConnVersion) : Bytes :=
  if version.hasMnemonic || raw.length < 2 || raw[0]? != some classCallControl then raw
  else
    if raw[1]? = some callGroupTx then raw.take (18 + groupTxBaseLen)
    else if raw[1]? = some callSetupRequest then raw.take (18 + circularCallBaseLen)
    else raw

inductive CallPayload
  | groupTransmission (gt : GroupTransmission)
  | circularCall (c : CircularCall)
  | cause (c : UInt8)
  | empty
  | shortTransfer (source destination : UInt32)
  | raw (bytes : Bytes)
  deriving DecidableEq

structure CallControlMessage where
  callState : UInt8
  identifier : Uuid
  payload : CallPayload
  deriving DecidableEq

structure FrameMessage where
  frameType : UInt8
  identifier : Uuid
  lengthBits : UInt16
  data : Bytes
  deriving DecidableEq

structure ErrorMessage where
  errorType : UInt8
  data : Bytes
  deriving DecidableEq

structure ServiceMessage where
  serviceType : UInt8
  jsonData : String
  deriving DecidableEq

inductive BrewMessage
  | subscriber (m : SubscriberMessage)
  | callControl (m : CallControlMessage)
  | frame (m : FrameMessage)
  | error (m : ErrorMessage)
  | service (m : ServiceMessage)
  deriving DecidableEq

inductive ParseError
  | tooShort (bytes : Nat)
  | unknownClass (c : UInt8)
  | invalidUtf8
  deriving DecidableEq

/-- Septets, least significant bit first, from bit `bitPos` on. -/
def decode7bitFrom (data : Bytes) : Nat → Nat → List Char
  | 0, _ => []
  | n + 1, bitPos =>
    let byteIdx := bitPos / 8
    let bitOff := bitPos % 8
    match data[byteIdx]? with
    | none => []
    | some b =>
      let low := b.toNat >>> bitOff
      let value :=
        match data[byteIdx + 1]? with
        | some c => if 1 < bitOff then low ||| (c.toNat <<< (8 - bitOff)) else low
        | none => low
      Char.ofNat (value &&& 0x7f) :: decode7bitFrom data n (bitPos + 7)

def decode7bitPacked (data : Bytes) (lenBits : Nat) : List Char :=
  decode7bitFrom data (lenBits / 7) 0

def decodeMnemonic (field : Bytes) : Option String :=
  match field with
  | scheme :: lenByte :: text =>
    let lenBits := lenByte.toNat
    if lenBits = 0 then none
    else
      let decoded : List Char :=
        match scheme &&& 0x7f with
        | 0x00 => (text.take (lenBits / 8)).map fun b => Char.ofNat b.toNat
        | 0x01 => decode7bitPacked text lenBits
        | _ => (fromUtf8Lossy (text.take ((lenBits + 7) / 8))).toList
      let trimmed := (decoded.reverse.dropWhile fun c => c == '\x00' || c == ' ').reverse
      if trimmed.isEmpty then none else some (String.ofList trimmed)
  | _ => none

/-- The text of a fixed-width field up to its first NUL. -/
def asciiField (data : Bytes) : String := fromUtf8Lossy (data.takeWhile (· != 0))

def parseSubscriber (data : Bytes) : Option (Except ParseError BrewMessage) := do
  if data.length < 18 then return .error (.tooShort data.length)
  let msgType ← data[1]?
  let issi ← u32At data 2
  let timestamp ← u64At data 6
  let fraction ← u32At data 14
  return .ok (.subscriber { msgType, issi, timestamp, fraction, groups := u32s (data.drop 18) })

def parseGroupTx (payload : Bytes) : Option GroupTransmission := do
  let mnemonic :=
    if groupTxBaseLen < payload.length then
      (slice payload groupTxBaseLen mnemonicFieldLen <|> some (payload.drop groupTxBaseLen)).bind decodeMnemonic
    else none
  let source ← u32At payload 0
  let destination ← u32At payload 4
  let priority ← payload[8]?
  let access ← payload[9]?
  let service ← u16At payload 10
  return { source, destination, priority, access, service, mnemonic }

def parseCircularCall (payload : Bytes) (mnemonic : Option String) : Option CircularCall := do
  let source ← u32At payload 0
  let destination ← u32At payload 4
  let number ← slice payload 8 32
  let priority ← payload[40]?
  let service ← payload[41]?
  return { source, destination, number := asciiField number, priority, service, mnemonic }

/-- The payload of a call-control message and the version it shows. -/
def parseCallPayload (data : Bytes) (callState : UInt8) (payload : Bytes) (version : ConnVersion) :
    Option (Except ParseError (CallPayload × ConnVersion)) := do
  let tooShort := .error (.tooShort data.length)
  if callState = callGroupTx then
    if payload.length < groupTxBaseLen then return tooShort
    let gt ← parseGroupTx payload
    let detected := if groupTxBaseLen < payload.length then .v1 else version
    return .ok (.groupTransmission gt, detected)
  else if callState = callSetupRequest then
    if payload.length < circularCallBaseLen then return tooShort
    let hasTail := decide (circularCallBaseLen + mnemonicFieldLen ≤ payload.length)
    let mnemonic :=
      if hasTail then (slice payload circularCallBaseLen mnemonicFieldLen).bind decodeMnemonic else none
    let c ← parseCircularCall payload mnemonic
    return .ok (.circularCall c, if hasTail then .v1 else version)
  else if callState = callConnectRequest then
    if payload.length < circularCallBaseLen then return tooShort
    let c ← parseCircularCall payload none
    return .ok (.circularCall c, version)
  else if callState = callGroupIdle ∨ callState = callSetupReject ∨ callState = callRelease then
    if payload.isEmpty then return tooShort
    let cause ← payload[0]?
    return .ok (.cause cause, version)
  else if callState = callSetupAccept ∨ callState = callAlert then
    return .ok (.empty, version)
  else if callState = callShortTransfer then
    if payload.length < 8 then return tooShort
    let source ← u32At payload 0
    let destination ← u32At payload 4
    return .ok (.shortTransfer source destination, version)
  else
    return .ok (.raw payload, version)

def parseCallControl (data : Bytes) (version : ConnVersion) :
    Option (Except ParseError (BrewMessage × ConnVersion)) := do
  if data.length < 18 then return .error (.tooShort data.length)
  let id ← slice data 2 16
  let callState ← data[1]?
  match ← parseCallPayload data callState (data.drop 18) version with
  | .error e => return .error e
  | .ok (payload, detected) =>
    return .ok (.callControl { callState, identifier := Uuid.fromBytes id, payload }, detected)

def parseFrame (data : Bytes) : Option (Except ParseError BrewMessage) := do
  if data.length < 20 then return .error (.tooShort data.length)
  let frameType ← data[1]?
  let id ← slice data 2 16
  let lengthBits ← u16At data 18
  return .ok (.frame { frameType, identifier := Uuid.fromBytes id, lengthBits, data := data.drop 20 })

def parseService (data : Bytes) : Option (Except ParseError BrewMessage) := do
  let serviceType ← data[1]?
  match fromUtf8 ((data.drop 2).takeWhile (· != 0)) with
  | none => return .error .invalidUtf8
  | some jsonData => return .ok (.service { serviceType, jsonData })

/-- Parses a message in the context of its connection's version, and reports
the version the message shows. -/
def parseWithVersion (data : Bytes) (version : ConnVersion) :
    Option (Except ParseError (BrewMessage × ConnVersion)) := do
  if data.length < 2 then return .error (.tooShort data.length)
  let atVersion (m : Except ParseError BrewMessage) := m.map fun m => (m, version)
  let c ← data[0]?
  if c = classSubscriber then
    return atVersion (← parseSubscriber data)
  else if c = classCallControl then
    parseCallControl data version
  else if c = classFrame then
    return atVersion (← parseFrame data)
  else if c = classError then
    let errorType ← data[1]?
    return .ok (.error { errorType, data := data.drop 2 }, version)
  else if c = classService then
    return atVersion (← parseService data)
  else
    return .error (.unknownClass c)

theorem parseSubscriber_eq {data : Bytes} {m : BrewMessage} (h : parseSubscriber data = some (.ok m)) :
    ∃ msg, m = .subscriber msg := by
  unfold parseSubscriber at h
  split at h
  · cases h
  · simp only [Option.bind_eq_bind, Option.bind_eq_some_iff, Option.pure_def, Option.some.injEq, Except.ok.injEq] at h
    obtain ⟨t, -, i, -, ts, -, f, -, rfl⟩ := h
    exact ⟨_, rfl⟩

theorem parseCallControl_eq {data : Bytes} {v d : ConnVersion} {m : BrewMessage}
    (h : parseCallControl data v = some (.ok (m, d))) : ∃ cc, m = .callControl cc := by
  unfold parseCallControl at h
  split at h
  · cases h
  · simp only [Option.bind_eq_bind, Option.bind_eq_some_iff] at h
    obtain ⟨id, -, t, -, r, -, h⟩ := h
    split at h
    · cases h
    · cases h
      exact ⟨_, rfl⟩

theorem parseFrame_eq {data : Bytes} {m : BrewMessage} (h : parseFrame data = some (.ok m)) :
    ∃ f, m = .frame f := by
  unfold parseFrame at h
  split at h
  · cases h
  · simp only [Option.bind_eq_bind, Option.bind_eq_some_iff, Option.pure_def, Option.some.injEq, Except.ok.injEq] at h
    obtain ⟨t, -, i, -, ts, -, rfl⟩ := h
    exact ⟨_, rfl⟩

theorem parseService_eq {data : Bytes} {m : BrewMessage} (h : parseService data = some (.ok m)) :
    ∃ f, m = .service f := by
  unfold parseService at h
  simp only [Option.bind_eq_bind, Option.bind_eq_some_iff] at h
  obtain ⟨t, -, h⟩ := h
  split at h
  · cases h
  · cases h
    exact ⟨_, rfl⟩

/-- The first byte a message of each class has. -/
def classOf : BrewMessage → UInt8
  | .subscriber _ => classSubscriber
  | .callControl _ => classCallControl
  | .frame _ => classFrame
  | .error _ => classError
  | .service _ => classService

theorem head?_of_parse {data : Bytes} {v d : ConnVersion} {m : BrewMessage}
    (h : parseWithVersion data v = some (.ok (m, d))) : data.head? = some (classOf m) := by
  have hmap : ∀ {r : Except ParseError BrewMessage}, r.map (fun m => (m, v)) = .ok (m, d) → r = .ok m := by
    intro r hr
    cases r with
    | error e => cases hr
    | ok m' =>
      cases hr
      rfl
  unfold parseWithVersion at h
  split at h
  · cases h
  · simp only [Option.bind_eq_bind, Option.bind_eq_some_iff] at h
    obtain ⟨c, hc, h⟩ := h
    rw [List.head?_eq_getElem?, hc]
    split at h
    · next hcl =>
      simp only [Option.bind_eq_some_iff, Option.pure_def, Option.some.injEq] at h
      obtain ⟨r, hr, h⟩ := h
      obtain ⟨msg, rfl⟩ := parseSubscriber_eq (hr.trans (congrArg some (hmap h)))
      rw [hcl, classOf]
    · split at h
      · next hcl =>
        obtain ⟨cc, rfl⟩ := parseCallControl_eq h
        rw [hcl, classOf]
      · split at h
        · next hcl =>
          simp only [Option.bind_eq_some_iff, Option.pure_def, Option.some.injEq] at h
          obtain ⟨r, hr, h⟩ := h
          obtain ⟨msg, rfl⟩ := parseFrame_eq (hr.trans (congrArg some (hmap h)))
          rw [hcl, classOf]
        · split at h
          · next hcl =>
            simp only [Option.bind_eq_some_iff, Option.pure_def, Option.some.injEq] at h
            obtain ⟨e, he, h⟩ := h
            cases h
            rw [hcl, classOf]
          · split at h
            · next hcl =>
              simp only [Option.bind_eq_some_iff, Option.pure_def, Option.some.injEq] at h
              obtain ⟨r, hr, h⟩ := h
              obtain ⟨msg, rfl⟩ := parseService_eq (hr.trans (congrArg some (hmap h)))
              rw [hcl, classOf]
            · cases h

def buildCallCause (callState : UInt8) (id : Uuid) (cause : UInt8) : Bytes :=
  [classCallControl, callState] ++ id.asBytes ++ [cause]

def buildCallControlEmpty (callState : UInt8) (id : Uuid) : Bytes :=
  [classCallControl, callState] ++ id.asBytes

def buildCallConnectConfirm (id : Uuid) (grant permission : UInt8) : Bytes :=
  [classCallControl, callConnectConfirm] ++ id.asBytes ++ [grant, permission]

def buildSubscriberMessage (msgType : UInt8) (issi : UInt32) (groups : List UInt32) : Bytes :=
  [classSubscriber, msgType] ++ (le32 issi ++ (le64 0 ++ (le32 0 ++ groups.flatMap le32)))

/-- The SUB message that `raw` is, whatever its connection's version. -/
def asSubscriber (raw : Bytes) : Option SubscriberMessage :=
  match parseWithVersion raw .v0 with
  | some (.ok (.subscriber msg, _)) => some msg
  | _ => none

theorem parseWithVersion_of_subscriber {raw : Bytes} {v : ConnVersion} (h : raw.head? = some classSubscriber)
    (hlen : 2 ≤ raw.length) :
    parseWithVersion raw v = (parseSubscriber raw).map fun m => m.map fun m => (m, v) := by
  rw [List.head?_eq_getElem?] at h
  unfold parseWithVersion
  rw [if_neg (Nat.not_lt.mpr hlen), h]
  simp only [Option.bind_eq_bind, Option.bind_some, if_pos, Option.pure_def]
  cases parseSubscriber raw <;> rfl

/-- SUB messages read the same in every version. -/
theorem asSubscriber_iff {raw : Bytes} {v : ConnVersion} {msg : SubscriberMessage} :
    asSubscriber raw = some msg ↔ ∃ d, parseWithVersion raw v = some (.ok (.subscriber msg, d)) := by
  have hread : ∀ {v w d : ConnVersion}, parseWithVersion raw v = some (.ok (.subscriber msg, d)) →
      parseWithVersion raw w = some (.ok (.subscriber msg, w)) := by
    intro v w d h
    have hhead : raw.head? = some classSubscriber := head?_of_parse h
    have hlen : 2 ≤ raw.length := by
      by_contra hlt
      unfold parseWithVersion at h
      rw [if_pos (Nat.not_le.mp hlt)] at h
      cases h
    rw [parseWithVersion_of_subscriber hhead hlen] at h ⊢
    obtain ⟨m, hm, h⟩ := Option.map_eq_some_iff.mp h
    rw [hm]
    cases m with
    | error e => cases h
    | ok m =>
      cases h
      rfl
  unfold asSubscriber
  constructor
  · intro h
    split at h
    · next d hp =>
      cases h
      exact ⟨v, hread hp⟩
    · cases h
  · rintro ⟨d, h⟩
    rw [hread h]

theorem asSubscriber_build (t : UInt8) (issi : UInt32) (groups : List UInt32) :
    asSubscriber (buildSubscriberMessage t issi groups) =
      some { msgType := t, issi, timestamp := 0, fraction := 0, groups } := by
  have hlen : (buildSubscriberMessage t issi groups).length = 18 + 4 * groups.length := by
    simp only [buildSubscriberMessage, List.length_append, List.length_cons, List.length_nil, length_le32, length_le64,
      length_flatMap_le32]
    omega
  have hissi : u32At (buildSubscriberMessage t issi groups) 2 = some issi := u32At_field [classSubscriber, t] _ issi rfl
  have htime : u64At (buildSubscriberMessage t issi groups) 6 = some 0 := by
    have := u64At_field ([classSubscriber, t] ++ le32 issi) (le32 0 ++ groups.flatMap le32) 0 (o := 6) (by simp)
    rwa [List.append_assoc] at this
  have hsplit : buildSubscriberMessage t issi groups =
      ([classSubscriber, t] ++ le32 issi ++ le64 0) ++ (le32 0 ++ groups.flatMap le32) := by
    simp only [buildSubscriberMessage, List.append_assoc]
  have hfraction : u32At (buildSubscriberMessage t issi groups) 14 = some 0 := by
    rw [hsplit]
    exact u32At_field _ _ 0 (by simp)
  have hgroups : u32s ((buildSubscriberMessage t issi groups).drop 18) = groups := by
    have h18 : (([classSubscriber, t] ++ le32 issi ++ le64 0) ++ le32 0).length = 18 := by simp
    rw [hsplit, ← List.append_assoc, ← h18, List.drop_left, u32s_flatMap]
  have hparse : parseSubscriber (buildSubscriberMessage t issi groups) =
      some (.ok (.subscriber { msgType := t, issi, timestamp := 0, fraction := 0, groups })) := by
    have htype : (buildSubscriberMessage t issi groups)[1]? = some t := rfl
    unfold parseSubscriber
    rw [if_neg (by omega), htype, hissi, htime, hfraction, hgroups]
    rfl
  unfold asSubscriber
  rw [parseWithVersion_of_subscriber rfl (by omega), hparse]
  rfl

def buildShortTransfer (id : Uuid) (source destination : UInt32) : Bytes :=
  [classCallControl, callShortTransfer] ++ id.asBytes ++ le32 source ++ le32 destination ++
    List.replicate 32 0

def buildSdsTransferFrame (id : Uuid) (lengthBits : UInt16) (data : Bytes) : Bytes :=
  [classFrame, frameSdsTransfer] ++ id.asBytes ++ le16 lengthBits ++ data

def rawPeerPair : CallPayload → Option (UInt32 × UInt32)
  | .raw raw =>
    if raw.length < 8 then none
    else do
      let source ← u32At raw 0
      let destination ← u32At raw 4
      return (source, destination)
  | _ => none

/-- The message behind `buildCircularCallSetup` and `buildCircularConnectRequest`. -/
def buildCircularCall (callState : UInt8) (id : Uuid) (source destination : UInt32) (priority : UInt8) :
    Bytes :=
  [classCallControl, callState] ++ id.asBytes ++ le32 source ++ le32 destination ++
    List.replicate 32 0 ++ [priority] ++ [0, 0, 1, 1, 0, 0, 0, 0, 0, 0]

def buildCircularCallSetup := buildCircularCall callSetupRequest

def buildCircularConnectRequest := buildCircularCall callConnectRequest

def buildGroupTx (id : Uuid) (source destination : UInt32) (priority : UInt8) : Bytes :=
  [classCallControl, callGroupTx] ++
    (id.asBytes ++ (le32 source ++ (le32 destination ++ (priority :: 0 :: le16 0))))

end Protocol

end BrewServer
