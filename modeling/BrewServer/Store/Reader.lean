import BrewServer.Lib.Shape
import BrewServer.Store.Log

/-!
# The standalone reader

The history tool declares the record types a second time and walks the frames itself,
decoding each one before it looks for the next.
-/

namespace BrewServer

open Frames

/-! ## The server's declarations -/

namespace Storage

def callRecord : Declared CallRecord where
  shape :=
    .record "CallRecord" <| .field "uuid" .uuid <| .field "kind" .string <| .field "source" .u32 <|
      .field "destination" .u32 <| .field "priority" .u8 <| .field "started_at_ms" .u64 <|
      .field "ended_at_ms" (.option .u64) <| .field "voice_frames" .u64 .endOfFields
  equiv :=
    { toFun := fun ⟨uuid, kind, source, destination, priority, startedAtMs, endedAtMs, voiceFrames, ()⟩ =>
        { uuid, kind, source, destination, priority, startedAtMs, endedAtMs, voiceFrames }
      invFun := fun r =>
        (r.uuid, r.kind, r.source, r.destination, r.priority, r.startedAtMs, r.endedAtMs, r.voiceFrames, ())
      left_inv := fun _ => rfl
      right_inv := fun _ => rfl }

def sdsRecord : Declared SdsRecord where
  shape :=
    .record "SdsRecord" <| .field "uuid" .uuid <| .field "source" .u32 <| .field "destination" .u32 <|
      .field "at_ms" .u64 <| .field "reports" .u32 .endOfFields
  equiv :=
    { toFun := fun ⟨uuid, source, destination, atMs, reports, ()⟩ => { uuid, source, destination, atMs, reports }
      invFun := fun r => (r.uuid, r.source, r.destination, r.atMs, r.reports, ())
      left_inv := fun _ => rfl
      right_inv := fun _ => rfl }

def sdsTelemetryRecord : Declared SdsTelemetryRecord where
  shape :=
    .record "SdsTelemetryRecord" <| .field "bts" .string <| .field "at_ms" .u64 <| .field "direction" .string <|
      .field "source_issi" .u32 <| .field "dest_issi" .u32 <| .field "is_group" .bool <|
      .field "protocol_id" .u8 <| .field "text" .string .endOfFields
  equiv :=
    { toFun := fun ⟨bts, atMs, direction, sourceIssi, destIssi, isGroup, protocolId, text, ()⟩ =>
        { bts, atMs, direction, sourceIssi, destIssi, isGroup, protocolId, text }
      invFun := fun r =>
        (r.bts, r.atMs, r.direction, r.sourceIssi, r.destIssi, r.isGroup, r.protocolId, r.text, ())
      left_inv := fun _ => rfl
      right_inv := fun _ => rfl }

def storedRecord : Declared StoredRecord where
  shape :=
    .choice "StoredRecord" <| .variant "Call" callRecord.shape <| .variant "Sds" sdsRecord.shape <|
      .variant "SdsReport" (.field "uuid" .uuid .endOfFields) <|
      .variant "SdsTelemetry" sdsTelemetryRecord.shape .endOfVariants
  equiv :=
    { toFun := fun
        | .inl r => .call (callRecord.equiv r)
        | .inr (.inl r) => .sds (sdsRecord.equiv r)
        | .inr (.inr (.inl (uuid, ()))) => .sdsReport uuid
        | .inr (.inr (.inr (.inl r))) => .sdsTelemetry (sdsTelemetryRecord.equiv r)
      invFun := fun
        | .call r => .inl (callRecord.equiv.symm r)
        | .sds r => .inr (.inl (sdsRecord.equiv.symm r))
        | .sdsReport uuid => .inr (.inr (.inl (uuid, ())))
        | .sdsTelemetry r => .inr (.inr (.inr (.inl (sdsTelemetryRecord.equiv.symm r))))
      left_inv := fun
        | .inl _ => rfl
        | .inr (.inl _) => rfl
        | .inr (.inr (.inl (_, ()))) => rfl
        | .inr (.inr (.inr (.inl _))) => rfl
      right_inv := fun
        | .call _ => rfl
        | .sds _ => rfl
        | .sdsReport _ => rfl
        | .sdsTelemetry _ => rfl }

end Storage

/-! ## The tool's own declarations -/

namespace BrewHistory

open Storage (Text)

structure CallRecord where
  uuid : Uuid
  kind : Text
  source : UInt32
  destination : UInt32
  priority : UInt8
  startedAtMs : UInt64
  endedAtMs : Option UInt64
  voiceFrames : UInt64
  deriving DecidableEq

structure SdsRecord where
  uuid : Uuid
  source : UInt32
  destination : UInt32
  atMs : UInt64
  reports : UInt32
  deriving DecidableEq

structure SdsTelemetryRecord where
  bts : Text
  atMs : UInt64
  direction : Text
  sourceIssi : UInt32
  destIssi : UInt32
  isGroup : Bool
  protocolId : UInt8
  text : Text
  deriving DecidableEq

inductive StoredRecord
  | call (r : CallRecord)
  | sds (r : SdsRecord)
  | sdsReport (uuid : Uuid)
  | sdsTelemetry (r : SdsTelemetryRecord)
  deriving DecidableEq

def callRecord : Declared CallRecord where
  shape :=
    .record "CallRecord" <| .field "uuid" .uuid <| .field "kind" .string <| .field "source" .u32 <|
      .field "destination" .u32 <| .field "priority" .u8 <| .field "started_at_ms" .u64 <|
      .field "ended_at_ms" (.option .u64) <| .field "voice_frames" .u64 .endOfFields
  equiv :=
    { toFun := fun ⟨uuid, kind, source, destination, priority, startedAtMs, endedAtMs, voiceFrames, ()⟩ =>
        { uuid, kind, source, destination, priority, startedAtMs, endedAtMs, voiceFrames }
      invFun := fun r =>
        (r.uuid, r.kind, r.source, r.destination, r.priority, r.startedAtMs, r.endedAtMs, r.voiceFrames, ())
      left_inv := fun _ => rfl
      right_inv := fun _ => rfl }

def sdsRecord : Declared SdsRecord where
  shape :=
    .record "SdsRecord" <| .field "uuid" .uuid <| .field "source" .u32 <| .field "destination" .u32 <|
      .field "at_ms" .u64 <| .field "reports" .u32 .endOfFields
  equiv :=
    { toFun := fun ⟨uuid, source, destination, atMs, reports, ()⟩ => { uuid, source, destination, atMs, reports }
      invFun := fun r => (r.uuid, r.source, r.destination, r.atMs, r.reports, ())
      left_inv := fun _ => rfl
      right_inv := fun _ => rfl }

def sdsTelemetryRecord : Declared SdsTelemetryRecord where
  shape :=
    .record "SdsTelemetryRecord" <| .field "bts" .string <| .field "at_ms" .u64 <| .field "direction" .string <|
      .field "source_issi" .u32 <| .field "dest_issi" .u32 <| .field "is_group" .bool <|
      .field "protocol_id" .u8 <| .field "text" .string .endOfFields
  equiv :=
    { toFun := fun ⟨bts, atMs, direction, sourceIssi, destIssi, isGroup, protocolId, text, ()⟩ =>
        { bts, atMs, direction, sourceIssi, destIssi, isGroup, protocolId, text }
      invFun := fun r =>
        (r.bts, r.atMs, r.direction, r.sourceIssi, r.destIssi, r.isGroup, r.protocolId, r.text, ())
      left_inv := fun _ => rfl
      right_inv := fun _ => rfl }

def storedRecord : Declared StoredRecord where
  shape :=
    .choice "StoredRecord" <| .variant "Call" callRecord.shape <| .variant "Sds" sdsRecord.shape <|
      .variant "SdsReport" (.field "uuid" .uuid .endOfFields) <|
      .variant "SdsTelemetry" sdsTelemetryRecord.shape .endOfVariants
  equiv :=
    { toFun := fun
        | .inl r => .call (callRecord.equiv r)
        | .inr (.inl r) => .sds (sdsRecord.equiv r)
        | .inr (.inr (.inl (uuid, ()))) => .sdsReport uuid
        | .inr (.inr (.inr (.inl r))) => .sdsTelemetry (sdsTelemetryRecord.equiv r)
      invFun := fun
        | .call r => .inl (callRecord.equiv.symm r)
        | .sds r => .inr (.inl (sdsRecord.equiv.symm r))
        | .sdsReport uuid => .inr (.inr (.inl (uuid, ())))
        | .sdsTelemetry r => .inr (.inr (.inr (.inl (sdsTelemetryRecord.equiv.symm r))))
      left_inv := fun
        | .inl _ => rfl
        | .inr (.inl _) => rfl
        | .inr (.inr (.inl (_, ()))) => rfl
        | .inr (.inr (.inr (.inl _))) => rfl
      right_inv := fun
        | .call _ => rfl
        | .sds _ => rfl
        | .sdsReport _ => rfl
        | .sdsTelemetry _ => rfl }

/-- The loop over a file from byte `pos`, with what it has read so far. -/
def replayLoop {α : Type} (deserialize : Bytes → Option α) (buf : Bytes) : ℕ → ℕ → List α → List α
  | 0, _, out => out
  | n + 1, pos, out =>
    if pos + 4 ≤ buf.length then
      let len := ofLe ((buf.drop pos).take 4)
      let start := pos + 4
      if buf.length < start + len then out
      else
        match deserialize ((buf.drop start).take len) with
        | some rec_ => replayLoop deserialize buf n (start + len) (out ++ [rec_])
        | none => out
    else out

/-- The tool's own replay. A round takes at least the four bytes of a length. -/
def replay {α : Type} (deserialize : Bytes → Option α) (buf : Bytes) : List α :=
  replayLoop deserialize buf buf.length 0 []

/-! ## The two agree -/

section Loop

variable {α : Type} {deserialize : Bytes → Option α} {buf : Bytes} {pos : ℕ}

theorem hasFrame_drop :
    HasFrame (buf.drop pos) ↔ pos + 4 ≤ buf.length ∧ pos + 4 + ofLe ((buf.drop pos).take 4) ≤ buf.length := by
  unfold HasFrame frameLength
  rw [List.length_drop]
  omega

/-- One round of the loop: a frame is read, or the loop is over. -/
theorem replayLoop_succ (n : ℕ) (out : List α) :
    replayLoop deserialize buf (n + 1) pos out =
      if HasFrame (buf.drop pos) then
        match deserialize ((buf.drop (pos + 4)).take (frameLength (buf.drop pos))) with
        | some rec_ => replayLoop deserialize buf n (pos + 4 + frameLength (buf.drop pos)) (out ++ [rec_])
        | none => out
      else out := by
  rw [replayLoop]
  by_cases h4 : pos + 4 ≤ buf.length
  · by_cases hlen : buf.length < pos + 4 + frameLength (buf.drop pos)
    · have hno : ¬ HasFrame (buf.drop pos) := fun h => absurd (hasFrame_drop.mp h).2 (Nat.not_le_of_lt hlen)
      rw [if_pos h4, if_neg hno]
      exact if_pos hlen
    · have hyes : HasFrame (buf.drop pos) := hasFrame_drop.mpr ⟨h4, Nat.le_of_not_lt hlen⟩
      rw [if_pos h4, if_pos hyes]
      exact if_neg hlen
  · have hno : ¬ HasFrame (buf.drop pos) := fun h => h4 (hasFrame_drop.mp h).1
    rw [if_neg h4, if_neg hno]

/-- From any place on the loop adds the records of the frames that are left. -/
theorem replayLoop_eq (n : ℕ) (out : List α) (hn : buf.length - pos ≤ n) :
    replayLoop deserialize buf n pos out = out ++ Storage.replayOf deserialize (buf.drop pos) := by
  induction n generalizing pos out with
  | zero =>
    have hnil : buf.drop pos = [] := List.drop_eq_nil_of_le (by omega)
    rw [hnil, Storage.replayOf, splitFrames_none not_hasFrame_nil]
    exact (List.append_nil out).symm
  | succ n ih =>
    rw [replayLoop_succ]
    by_cases h : HasFrame (buf.drop pos)
    · obtain ⟨h4, -⟩ := hasFrame_drop.mp h
      rw [if_pos h, Storage.replayOf, splitFrames_some h, List.drop_drop, List.drop_drop, ← Nat.add_assoc]
      unfold Storage.recordsOf
      cases hrec : deserialize ((buf.drop (pos + 4)).take (frameLength (buf.drop pos))) with
      | none => exact (List.append_nil out).symm
      | some rec_ =>
        have hrest := @ih (pos + 4 + frameLength (buf.drop pos)) (out ++ [rec_]) (by omega)
        show replayLoop deserialize buf n _ _ = out ++ rec_ :: _
        rw [hrest, List.append_assoc]
        rfl
    · rw [if_neg h, Storage.replayOf, splitFrames_none h]
      exact (List.append_nil out).symm

theorem replay_eq_replayOf : replay deserialize buf = Storage.replayOf deserialize buf := by
  unfold replay
  rw [replayLoop_eq _ _ (by omega), List.drop_zero, List.nil_append]

end Loop

/-- Reading through a map of the records gives the mapped records. -/
theorem replayOf_map {α β : Type} {f : Bytes → Option α} {g : Bytes → Option β} {m : α → β}
    (h : ∀ body, g body = (f body).map m) (buf : Bytes) :
    Storage.replayOf g buf = (Storage.replayOf f buf).map m := by
  unfold Storage.replayOf
  induction (splitFrames buf).1 with
  | nil => rfl
  | cons body bodies ih =>
    unfold Storage.recordsOf
    rw [h]
    cases f body with
    | none => rfl
    | some r =>
      show m r :: _ = m r :: _
      rw [ih]

def CallRecord.mirror (r : Storage.CallRecord) : CallRecord :=
  { uuid := r.uuid, kind := r.kind, source := r.source, destination := r.destination, priority := r.priority,
    startedAtMs := r.startedAtMs, endedAtMs := r.endedAtMs, voiceFrames := r.voiceFrames }

def SdsRecord.mirror (r : Storage.SdsRecord) : SdsRecord :=
  { uuid := r.uuid, source := r.source, destination := r.destination, atMs := r.atMs, reports := r.reports }

def SdsTelemetryRecord.mirror (r : Storage.SdsTelemetryRecord) : SdsTelemetryRecord :=
  { bts := r.bts, atMs := r.atMs, direction := r.direction, sourceIssi := r.sourceIssi, destIssi := r.destIssi,
    isGroup := r.isGroup, protocolId := r.protocolId, text := r.text }

/-- The tool's record with the same fields. -/
def StoredRecord.mirror : Storage.StoredRecord → StoredRecord
  | .call r => .call (CallRecord.mirror r)
  | .sds r => .sds (SdsRecord.mirror r)
  | .sdsReport uuid => .sdsReport uuid
  | .sdsTelemetry r => .sdsTelemetry (SdsTelemetryRecord.mirror r)

/-- Both declare the same structure. -/
theorem shape_storedRecord : Storage.storedRecord.shape = storedRecord.shape := rfl

/-- What the structure has in common is every field of every variant. -/
theorem convert_storedRecord (r : Storage.StoredRecord) :
    Storage.storedRecord.convert storedRecord shape_storedRecord r = StoredRecord.mirror r := by
  cases r with
  | call r => rfl
  | sds r => rfl
  | sdsReport uuid => rfl
  | sdsTelemetry r => rfl

/-- On every log the tool shows the records the server replays, field by field and in
order, for any format that goes by the structure of the type. -/
theorem replay_mirrors (bincode : Format) (buf : Bytes) :
    replay (storedRecord.deserialize bincode) buf =
      (Storage.replayOf (Storage.storedRecord.deserialize bincode) buf).map StoredRecord.mirror := by
  have hread : ∀ body, storedRecord.deserialize bincode body =
      (Storage.storedRecord.deserialize bincode body).map StoredRecord.mirror := by
    intro body
    rw [Declared.deserialize_convert Storage.storedRecord storedRecord shape_storedRecord]
    have hmirror : Storage.storedRecord.convert storedRecord shape_storedRecord = StoredRecord.mirror :=
      funext convert_storedRecord
    rw [hmirror]
  rw [replay_eq_replayOf]
  exact replayOf_map hread buf

end BrewHistory

end BrewServer
