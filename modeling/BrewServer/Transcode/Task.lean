import BrewServer.Transcode.G711
import BrewServer.Voice

/-!
# The transcoder of a bridged call

One task owns the SIP leg of a call: RTP datagrams and Brew frames come in, and two
tickers drain the samples between them. Audio and DTMF go out with one sequence of
numbers.
-/

namespace BrewServer.Transcode

open Protocol

def rtpSamplesPerPacket : ℕ := 160
def acelpPcmSamples : ℕ := 240
def rtpBufBytes : ℕ := 2048

/-- The speech codec: each side keeps a state of its own. -/
structure Acelp (E D : Type) where
  newEncoder : E
  newDecoder : D
  encode : E → Vector Int16 acelpPcmSamples → E × { coded : Bytes // coded.length = acelpCodedFrameBytes }
  decode : D → Bytes → Bool → D × Vector Int16 acelpPcmSamples

/-- What the select loop wakes up for. -/
inductive Event
  /-- A datagram on the leg, and where it came from. -/
  | datagram (source : String) (data : Bytes)
  | recvError
  /-- A message for the virtual client of the call. -/
  | message (raw : Bytes)
  | closed
  | acelpTick
  | rtpTick
  | statsTick

/-- The parameters of one task. -/
structure Setup (E D : Type) where
  acelp : Acelp E D
  payloadType : UInt8
  callId : Uuid

/-- The variables of the loop, and what it has handed on. -/
structure Task (E D : Type) where
  encoder : E
  decoder : D
  pcmFromSip : List Int16 := []
  pcmFromBrew : List Int16 := []
  seq : UInt16 := 0
  timestamp : UInt32 := 0
  rtpBuf : { buf : Bytes // buf.length = rtpBufBytes }
  /-- Where the leg sends to, once it knows. -/
  remote : Option String
  running : Bool := true
  /-- Packets handed to the leg. -/
  sent : List Bytes := []
  /-- Packets the leg has sent on. -/
  wire : List (String × Bytes) := []
  /-- Messages to every Brew target. -/
  toBrew : List Bytes := []
  control : List Bytes := []

variable {E D : Type}

/-! ## Samples and packets -/

def decodeSample (payloadType byte : UInt8) : Int16 :=
  if payloadType = 8 then G711.alawDecode byte else G711.ulawDecode byte

def encodeSample (payloadType : UInt8) (pcm : Int16) : UInt8 :=
  if payloadType = 8 then G711.alawEncode pcm else G711.ulawEncode pcm

def telephoneEventPt : UInt8 := 101

def dtmfAsciiToEvent (digit : UInt8) : Option UInt8 :=
  if 48 ≤ digit ∧ digit ≤ 57 then some (digit - 48)
  else if digit = 42 then some 10
  else if digit = 35 then some 11
  else if 65 ≤ digit ∧ digit ≤ 68 then some (12 + (digit - 65))
  else if 97 ≤ digit ∧ digit ≤ 100 then some (12 + (digit - 97))
  else none

/-- A number in `k` bytes, most significant first. -/
def toBe (k n : ℕ) : Bytes := (toLe k n).reverse

def Setup.ssrc (su : Setup E D) : UInt32 := UInt32.ofNat su.callId.toNat

/-- Version 2, without padding, extension or sources. -/
def rtpPacket (second : UInt8) (seq : UInt16) (timestamp ssrc : UInt32) (payload : Bytes) : Bytes :=
  [0x80, second] ++ toBe 2 seq.toNat ++ toBe 4 timestamp.toNat ++ toBe 4 ssrc.toNat ++ payload

/-- The packets of one tone: its start and its end, told twice. -/
def dtmfPackets (event : UInt8) (startSeq : UInt16) (ts ssrc : UInt32) : List Bytes :=
  let volume : UInt8 := 10
  let build (seq : UInt16) (ends : Bool) : Bytes :=
    let marker : UInt8 := if seq = startSeq then 0x80 else 0x00
    rtpPacket (marker ||| (telephoneEventPt &&& 0x7f)) seq ts ssrc
      ([event, (if ends then 0x80 else 0) ||| volume] ++ toBe 2 1600)
  [build startSeq false, build (startSeq + 1) true, build (startSeq + 2) true]

/-! ## The branches of the loop -/

namespace Task

/-- `RtpLeg::send`: nothing goes out before the peer is known. -/
def send (t : Task E D) (packet : Bytes) : Task E D :=
  { t with
    sent := t.sent ++ [packet]
    wire := t.wire ++ (t.remote.toList.map fun remote => (remote, packet)) }

/-- `RtpLeg::recv`: the sender becomes the remote, and what the buffer has no room for is
lost. -/
def recv (t : Task E D) (source : String) (data : Bytes) : Task E D :=
  { t with
    remote := some source
    rtpBuf :=
      ⟨data.take rtpBufBytes ++ t.rtpBuf.1.drop (data.take rtpBufBytes).length, by
        have h := t.rtpBuf.2
        rw [List.length_append, List.length_drop, h, List.length_take]
        omega⟩ }

end Task

/-- Where the payload of the first `n` bytes starts: behind the twelve bytes of the header,
the sources and the extension. `none` inside is a datagram to skip, outside an index past
the end of the buffer. -/
def payloadOffset (rtpBuf : Bytes) (n : ℕ) : Option (Option ℕ) := do
  let b0 ← rtpBuf[0]?
  let cc := (b0 &&& 0x0f).toNat
  let hasExt := b0 &&& 0x10 ≠ 0
  let offset := 12 + cc * 4
  if hasExt then
    if n < offset + 4 then return none
    let hi ← rtpBuf[offset + 2]?
    let lo ← rtpBuf[offset + 3]?
    let extWords := ofLe [lo, hi]
    return some (offset + (4 + extWords * 4))
  else return some offset

/-- The G.711 bytes of what was received, `none` inside for a datagram to skip. -/
def rtpPayload (payloadType : UInt8) (rtpBuf : Bytes) (n : ℕ) : Option (Option Bytes) := do
  if n ≤ 12 then return none
  let b1 ← rtpBuf[1]?
  let pt := b1 &&& 0x7f
  match ← payloadOffset rtpBuf n with
  | none => return none
  | some offset =>
    if n < offset then return none
    if pt ≠ payloadType then return none
    let payload ← slice rtpBuf offset (n - offset)
    return some payload

def isDtmf (raw : Bytes) : Bool :=
  decide (21 ≤ raw.length) && raw[0]? == some classFrame && raw[1]? == some frameDtmf

/-- Anything else is a message for the call's control. -/
def isVoice (raw : Bytes) : Bool :=
  decide (20 + steVoicePayloadBytes ≤ raw.length) && raw[0]? == some classFrame && raw[1]? == some frameTrafficChannel

/-- Both speech frames of a payload. -/
def decodeVoice (acelp : Acelp E D) (decoder : D) (raw : Bytes) : Option (D × List Int16) := do
  let payload ← slice raw 20 steVoicePayloadBytes
  let (sub1, sub2) ← unpackSteVoicePayload payload
  let first := acelp.decode decoder sub1 false
  let second := acelp.decode first.1 sub2 false
  return (second.1, first.2.toList ++ second.2.toList)

/-- The first `k` samples, and the rest. -/
def popFront (k : ℕ) (pcm : List Int16) : Option (Vector Int16 k × List Int16) :=
  if h : k ≤ pcm.length then some (⟨(pcm.take k).toArray, by simp [h]⟩, pcm.drop k) else none

namespace Task

def onDatagram (su : Setup E D) (t : Task E D) (source : String) (data : Bytes) : Option (Task E D) := do
  let t := t.recv source data
  match ← rtpPayload su.payloadType t.rtpBuf.1 (data.take rtpBufBytes).length with
  | none => return t
  | some payload => return { t with pcmFromSip := t.pcmFromSip ++ payload.map (decodeSample su.payloadType) }

/-- A tone takes three numbers of the sequence. -/
def sendDtmfEvent (su : Setup E D) (t : Task E D) (event : UInt8) : Task E D :=
  { (dtmfPackets event t.seq t.timestamp su.ssrc).foldl send t with seq := t.seq + 3 }

def onMessage (su : Setup E D) (t : Task E D) (raw : Bytes) : Option (Task E D) :=
  if isDtmf raw then do
    let digit ← raw[20]?
    match dtmfAsciiToEvent digit with
    | some event => return t.sendDtmfEvent su event
    | none => return t
  else if !isVoice raw then some { t with control := t.control ++ [raw] }
  else do
    let (decoder, samples) ← decodeVoice su.acelp t.decoder raw
    return { t with decoder, pcmFromBrew := t.pcmFromBrew ++ samples }

/-- One message of two speech frames a tick. -/
def onAcelpTick (su : Setup E D) (t : Task E D) : Option (Task E D) :=
  if 2 * acelpPcmSamples ≤ t.pcmFromSip.length then do
    let (frame1, pcmFromSip) ← popFront acelpPcmSamples t.pcmFromSip
    let (frame2, pcmFromSip) ← popFront acelpPcmSamples pcmFromSip
    let first := su.acelp.encode t.encoder frame1
    let second := su.acelp.encode first.1 frame2
    let packet ← buildTrafficFrame su.callId first.2.1 second.2.1
    return { t with encoder := second.1, pcmFromSip, toBrew := t.toBrew ++ [packet] }
  else some t

/-- One packet a tick. -/
def onRtpTick (su : Setup E D) (t : Task E D) : Option (Task E D) :=
  if rtpSamplesPerPacket ≤ t.pcmFromBrew.length then do
    let (samples, pcmFromBrew) ← popFront rtpSamplesPerPacket t.pcmFromBrew
    let rtp := rtpPacket (su.payloadType &&& 0x7f) t.seq t.timestamp su.ssrc
      (samples.toList.map (encodeSample su.payloadType))
    return { t with pcmFromBrew, seq := t.seq + 1, timestamp := t.timestamp + 160 }.send rtp
  else some t

/-- One turn of the loop, `none` where it would index past the end of something. -/
def step (su : Setup E D) (t : Task E D) : Event → Option (Task E D)
  | .datagram source data => t.onDatagram su source data
  | .recvError => some { t with running := false }
  | .message raw => t.onMessage su raw
  | .closed => some { t with running := false }
  | .acelpTick => t.onAcelpTick su
  | .rtpTick => t.onRtpTick su
  | .statsTick => some t

/-- The loop, until an event ends it. -/
def run (su : Setup E D) (t : Task E D) : List Event → Option (Task E D)
  | [] => some t
  | event :: events => if t.running then (t.step su event).bind fun t => t.run su events else some t

/-- A task as it is spawned, for a leg that may know its remote already. -/
def spawn (su : Setup E D) (remote : Option String) : Task E D :=
  { encoder := su.acelp.newEncoder
    decoder := su.acelp.newDecoder
    rtpBuf := ⟨List.replicate rtpBufBytes 0, List.length_replicate⟩
    remote }

end Task

end BrewServer.Transcode
