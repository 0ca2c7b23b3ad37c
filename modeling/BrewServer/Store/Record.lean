import BrewServer.Lib.Codec
import BrewServer.Protocol

/-!
# Stored records

One persisted event, and what the store relies on from `bincode`, with the
layout that does it: fixed width integers, counted strings, a four-byte variant.
-/

namespace BrewServer.Storage

/-- A string whose length is a `u64`. -/
abbrev Text := { s : String // s.utf8ByteSize < 256 ^ 8 }

structure CallRecord where
  uuid : Uuid
  kind : Text
  source : UInt32
  destination : UInt32
  priority : UInt8
  startedAtMs : UInt64
  endedAtMs : Option UInt64
  voiceFrames : UInt64
  deriving DecidableEq

structure SdsRecord where
  uuid : Uuid
  source : UInt32
  destination : UInt32
  atMs : UInt64
  reports : UInt32
  deriving DecidableEq

/-- A telemetry SDS log entry, tagged with the reporting station. -/
structure SdsTelemetryRecord where
  bts : Text
  atMs : UInt64
  direction : Text
  sourceIssi : UInt32
  destIssi : UInt32
  isGroup : Bool
  protocolId : UInt8
  text : Text
  deriving DecidableEq

/-- One persisted event, appended in the order it occurred. -/
inductive StoredRecord
  /-- A completed call. -/
  | call (r : CallRecord)
  /-- An SDS transfer. -/
  | sds (r : SdsRecord)
  /-- A delivery report for a previously stored SDS. -/
  | sdsReport (uuid : Uuid)
  /-- An SDS log entry observed on a telemetry channel. -/
  | sdsTelemetry (r : SdsTelemetryRecord)
  deriving DecidableEq

/-- What the store relies on: a record has one encoding, reading takes it off the
front and leaves the rest, and a delivery report is its variant and a counted
byte string. -/
structure Bincode where
  serialize : StoredRecord → Bytes
  deserialize : Bytes → Option StoredRecord
  law : ∀ (bs : Bytes) (r : StoredRecord), deserialize bs = some r ↔ serialize r <+: bs
  report : ∀ u : Uuid, serialize (.sdsReport u) = toLe 4 2 ++ (toLe 8 16 ++ Uuid.asBytes u)

theorem Bincode.deserialize_serialize (B : Bincode) (r : StoredRecord) : B.deserialize (B.serialize r) = some r :=
  (B.law _ _).mpr (List.prefix_refl _)

/-- A record whose body fits the length prefix of a frame. -/
abbrev Bincode.Stored (B : Bincode) := { r : StoredRecord // (B.serialize r).length < 256 ^ 4 }

namespace Layout

open Codec

def u8 : Codec UInt8 :=
  (nat 1).iso
    { toFun := fun n => UInt8.ofNat n.1
      invFun := fun x => ⟨x.toNat, x.toNat_lt⟩
      left_inv := fun n => by
        apply Subtype.ext
        have h := n.2
        simp only [UInt8.toNat_ofNat']
        omega
      right_inv := fun x => UInt8.ofNat_toNat }

def u32 : Codec UInt32 :=
  (nat 4).iso
    { toFun := fun n => UInt32.ofNat n.1
      invFun := fun x => ⟨x.toNat, x.toNat_lt⟩
      left_inv := fun n => by
        apply Subtype.ext
        have h := n.2
        simp only [UInt32.toNat_ofNat']
        omega
      right_inv := fun x => UInt32.ofNat_toNat }

def u64 : Codec UInt64 :=
  (nat 8).iso
    { toFun := fun n => UInt64.ofNat n.1
      invFun := fun x => ⟨x.toNat, x.toNat_lt⟩
      left_inv := fun n => by
        apply Subtype.ext
        have h := n.2
        simp only [UInt64.toNat_ofNat']
        omega
      right_inv := fun x => UInt64.ofNat_toNat }

def text : Codec Text :=
  (counted 8).view
    (fun bs => if h : (ByteArray.mk bs.1.toArray).IsValidUTF8 then some ⟨⟨⟨bs.1.toArray⟩, h⟩, bs.2⟩ else none)
    (fun s => ⟨s.1.toByteArray.data.toList, s.2⟩)
    fun bs s => by
      constructor
      · intro h
        split at h
        · cases h
          rfl
        · cases h
      · rintro rfl
        rw [dif_pos s.1.isValidUTF8]

def uuid : Codec Uuid :=
  (counted 8).view (fun bs => if bs.1.length = 16 then some (Uuid.fromBytes bs.1) else none)
    (fun u => ⟨Uuid.asBytes u, by rw [Uuid.length_asBytes]; decide⟩)
    fun bs u => by
      constructor
      · intro h
        split at h
        · next hl =>
          cases h
          exact Subtype.ext (Uuid.asBytes_fromBytes hl).symm
        · cases h
      · rintro rfl
        rw [if_pos (Uuid.length_asBytes u), Uuid.fromBytes_asBytes]

def callRecord : Codec CallRecord :=
  (uuid.pair (text.pair (u32.pair (u32.pair (u8.pair (u64.pair (u64.option.pair u64))))))).iso
    { toFun := fun ⟨uuid, kind, source, destination, priority, startedAtMs, endedAtMs, voiceFrames⟩ =>
        { uuid, kind, source, destination, priority, startedAtMs, endedAtMs, voiceFrames }
      invFun := fun r =>
        (r.uuid, r.kind, r.source, r.destination, r.priority, r.startedAtMs, r.endedAtMs, r.voiceFrames)
      left_inv := fun _ => rfl
      right_inv := fun _ => rfl }

def sdsRecord : Codec SdsRecord :=
  (uuid.pair (u32.pair (u32.pair (u64.pair u32)))).iso
    { toFun := fun ⟨uuid, source, destination, atMs, reports⟩ => { uuid, source, destination, atMs, reports }
      invFun := fun r => (r.uuid, r.source, r.destination, r.atMs, r.reports)
      left_inv := fun _ => rfl
      right_inv := fun _ => rfl }

def sdsTelemetryRecord : Codec SdsTelemetryRecord :=
  (text.pair (u64.pair (text.pair (u32.pair (u32.pair (bool.pair (u8.pair text))))))).iso
    { toFun := fun ⟨bts, atMs, direction, sourceIssi, destIssi, isGroup, protocolId, text⟩ =>
        { bts, atMs, direction, sourceIssi, destIssi, isGroup, protocolId, text }
      invFun := fun r =>
        (r.bts, r.atMs, r.direction, r.sourceIssi, r.destIssi, r.isGroup, r.protocolId, r.text)
      left_inv := fun _ => rfl
      right_inv := fun _ => rfl }

/-- The variants of a record, in the order they are declared. -/
def variant : Codec (Fin 4) :=
  u32.view (fun x => if h : x.toNat < 4 then some ⟨x.toNat, h⟩ else none) (fun i => UInt32.ofNat i.1)
    fun x i => by
      constructor
      · intro h
        split at h
        · cases h
          exact UInt32.ofNat_toNat.symm
        · cases h
      · rintro rfl
        have hi : (UInt32.ofNat i.1).toNat = i.1 := by
          have h := i.2
          rw [UInt32.toNat_ofNat']
          omega
        rw [dif_pos (hi.trans_lt i.2)]
        exact congrArg some (Fin.ext hi)

def Payload : Fin 4 → Type
  | 0 => CallRecord
  | 1 => SdsRecord
  | 2 => Uuid
  | 3 => SdsTelemetryRecord

def payload : ∀ i, Codec (Payload i)
  | 0 => callRecord
  | 1 => sdsRecord
  | 2 => uuid
  | 3 => sdsTelemetryRecord

def storedRecord : Codec StoredRecord :=
  (variant.dep payload).iso
    { toFun := fun p => match p with
        | ⟨0, r⟩ => .call r
        | ⟨1, r⟩ => .sds r
        | ⟨2, u⟩ => .sdsReport u
        | ⟨3, r⟩ => .sdsTelemetry r
      invFun := fun r => match r with
        | .call r => ⟨0, r⟩
        | .sds r => ⟨1, r⟩
        | .sdsReport u => ⟨2, u⟩
        | .sdsTelemetry r => ⟨3, r⟩
      left_inv := fun p => match p with
        | ⟨0, _⟩ => rfl
        | ⟨1, _⟩ => rfl
        | ⟨2, _⟩ => rfl
        | ⟨3, _⟩ => rfl
      right_inv := fun r => by cases r <;> rfl }

/-- The layout that meets the store's needs. -/
def bincode : Bincode where
  serialize := storedRecord.encode
  deserialize := storedRecord.read
  law bs r := storedRecord.read_eq_some bs r
  report u := by
    change toLe 4 (UInt32.ofNat 2).toNat ++ (toLe 8 (Uuid.asBytes u).length ++ Uuid.asBytes u) = _
    rw [Uuid.length_asBytes]
    rfl

end Layout

end BrewServer.Storage
