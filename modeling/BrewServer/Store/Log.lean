import BrewServer.Lib.Frames
import BrewServer.Store.Record
import Mathlib.Data.Finset.Image

/-!
# The append-only log

A file of framed records, with the content hashes of every record in it.
-/

namespace BrewServer.Storage

open Frames

/-- FNV-1a over a record's serialized body. -/
def bodyHash (body : Bytes) : UInt64 :=
  body.foldl (fun h b => (h ^^^ b.toUInt64) * 0x00000100000001b3) 0xcbf29ce484222325

/-- An open log: its file, and the hashes of the records it knows. -/
structure Store where
  file : Bytes
  known : Finset UInt64

def hashes (bodies : List Bytes) : Finset UInt64 := (bodies.map bodyHash).toFinset

namespace Store

/-- Opens the log for appending. -/
def «open» (file : Bytes) : Store := { file, known := hashes (splitFrames file).1 }

def appendBody (s : Store) (body : Bytes) : Store :=
  { file := s.file ++ (toLe 4 body.length ++ body), known := insert (bodyHash body) s.known }

/-- Appends one record. -/
def append (B : Bincode) (s : Store) (r : StoredRecord) : Store := s.appendBody (B.serialize r)

/-- Appends a record body from the peer, unless it is already in the log; `none`
is the error of a body that does not decode. -/
def appendReplicated (B : Bincode) (s : Store) (body : Bytes) : Option (Store × Option StoredRecord) :=
  if bodyHash body ∈ s.known then some (s, none)
  else (B.deserialize body).map fun r => (s.appendBody body, some r)

/-- Up to `max` bytes of complete frames from `offset`: where they start, the
frames, and where they end. -/
def readFrames (s : Store) (offset max : ℕ) : ℕ × Bytes × ℕ :=
  let start := if s.file.length < offset then 0 else offset
  let buf := (s.file.drop start).take max
  let used := (splitFrames buf).2
  -- A single record larger than `max` is read on its own.
  if (splitFrames buf).1 = [] ∧ 4 ≤ buf.length ∧ start + (4 + frameLength buf) ≤ s.file.length then
    (start, (s.file.drop start).take (4 + frameLength buf), start + (4 + frameLength buf))
  else (start, buf.take used, start + used)

end Store

/-- The records of the bodies up to the first that does not decode. -/
def recordsOf {α : Type} (deserialize : Bytes → Option α) : List Bytes → List α
  | [] => []
  | body :: bodies =>
    match deserialize body with
    | some r => r :: recordsOf deserialize bodies
    | none => []

/-- Every complete record of a log, whatever reads one record. -/
def replayOf {α : Type} (deserialize : Bytes → Option α) (file : Bytes) : List α :=
  recordsOf deserialize (splitFrames file).1

/-- What a store reads of its log when it is opened. -/
def replay (B : Bincode) (file : Bytes) : List StoredRecord := replayOf B.deserialize file

/-- The log of some records. -/
def log (B : Bincode) (rs : List B.Stored) : Bytes := frames (rs.map fun r => B.serialize r.1)

/-- Appends the records in order. -/
def Store.appendAll (B : Bincode) (s : Store) (rs : List B.Stored) : Store :=
  rs.foldl (fun s r => s.append B r.1) s

section Append

variable {B : Bincode} {s : Store} {rs : List B.Stored}

theorem log_cons (r : B.Stored) (rs : List B.Stored) : log B (r :: rs) = frame (B.serialize r.1) ++ log B rs := rfl

theorem log_singleton (r : B.Stored) : log B [r] = frame (B.serialize r.1) := List.append_nil _

theorem log_append (rs rs' : List B.Stored) : log B (rs ++ rs') = log B rs ++ log B rs' := by
  rw [log, List.map_append, frames_append]
  rfl

theorem framable_stored (rs : List B.Stored) : Framable (rs.map fun r => B.serialize r.1) := by
  intro body hb
  obtain ⟨r, -, rfl⟩ := List.mem_map.mp hb
  exact r.2

theorem file_append (r : StoredRecord) : (s.append B r).file = s.file ++ frame (B.serialize r) := rfl

theorem file_appendAll : (s.appendAll B rs).file = s.file ++ log B rs := by
  induction rs generalizing s with
  | nil => exact (List.append_nil _).symm
  | cons r rs ih =>
    change ((s.append B r.1).appendAll B rs).file = s.file ++ (frame (B.serialize r.1) ++ log B rs)
    rw [ih, file_append, List.append_assoc]

theorem recordsOf_append (rs : List B.Stored) (bodies : List Bytes) :
    recordsOf B.deserialize (rs.map (fun r => B.serialize r.1) ++ bodies) =
      rs.map Subtype.val ++ recordsOf B.deserialize bodies := by
  induction rs with
  | nil => rfl
  | cons r rs ih =>
    rw [List.map_cons, List.cons_append, recordsOf, B.deserialize_serialize]
    dsimp only
    rw [ih]
    rfl

/-- Replaying a log gives its records, then whatever follows them. -/
theorem replay_append (rs : List B.Stored) (tail : Bytes) :
    replay B (log B rs ++ tail) = rs.map Subtype.val ++ replay B tail := by
  rw [replay, replayOf, log, splitFrames_frames (framable_stored rs), recordsOf_append, replay, replayOf]

theorem replay_log (rs : List B.Stored) : replay B (log B rs) = rs.map Subtype.val := by
  have h := replay_append rs []
  have hnil : replay B [] = [] := by rw [replay, replayOf, splitFrames_none not_hasFrame_nil, recordsOf]
  rw [List.append_nil, hnil, List.append_nil] at h
  exact h

end Append

/-! ## Reading from an offset -/

/-- Where a read from an offset starts. -/
def startOf (s : Store) (off : ℕ) : ℕ := if s.file.length < off then 0 else off

section Read

variable {s : Store} {off : ℕ} {bodies : List Bytes} {rest : Bytes}

theorem startOf_le : startOf s off ≤ s.file.length := by
  unfold startOf
  split
  · exact Nat.zero_le _
  · omega

/-- A read gives the next records: as many as fit a batch, or a single larger one. -/
theorem readFrames_frames (hb : Framable bodies) (hr : ¬ HasFrame rest)
    (hdrop : s.file.drop (startOf s off) = frames bodies ++ rest) {max : ℕ} (hmax : 4 ≤ max) :
    ∃ zs ws : List Bytes, bodies = zs ++ ws ∧ (bodies ≠ [] → zs ≠ []) ∧
      s.readFrames off max = (startOf s off, frames zs, startOf s off + (frames zs).length) ∧
      ((frames zs).length ≤ max ∨ ∃ z, zs = [z]) := by
  obtain ⟨zs, ws, hsplit, hle, hread, hfirst⟩ := splitFrames_cut hb hr max
  have hstart : (if s.file.length < off then 0 else off) = startOf s off := rfl
  have hlen := congrArg List.length hdrop
  rw [List.length_drop, List.length_append] at hlen
  have hin := @startOf_le s off
  have htake : ((frames bodies ++ rest).take max).take (frames zs).length = frames zs := by
    rw [List.take_take, Nat.min_eq_left hle, hsplit, frames_append, List.append_assoc, List.take_left]
  unfold Store.readFrames
  dsimp only
  rw [hstart, hdrop, hread]
  dsimp only
  cases bodies with
  | nil =>
    obtain ⟨rfl, rfl⟩ := List.nil_eq_append_iff.mp hsplit
    refine ⟨[], [], rfl, fun h => absurd rfl h, ?_, .inl (Nat.zero_le _)⟩
    rw [if_neg, htake]
    rintro ⟨-, h4, hfit⟩
    rw [frames_nil, List.nil_append] at h4 hfit
    -- A frame that fits the file would be a frame of what is left of it.
    have hcount := frameLength_append (rest.take max) (rest.drop max) h4
    rw [List.take_append_drop] at hcount
    have hlong := List.length_take_le' max rest
    rw [frames_nil, List.length_nil] at hlen
    exact hr ⟨by omega, by omega⟩
  | cons body bodies =>
    by_cases hz : zs = []
    · subst hz
      have hlong : max < (frame body).length := hfirst rfl body rfl
      have hbuf : ((frames (body :: bodies) ++ rest).take max).length = max := by
        rw [List.length_take, frames_cons, List.length_append, List.length_append]
        omega
      have hcount : frameLength ((frames (body :: bodies) ++ rest).take max) = body.length := by
        have hf := frameLength_frame hb.cons.1 (frames bodies ++ rest)
        rw [← List.append_assoc, ← frames_cons, ← List.take_append_drop max (frames (body :: bodies) ++ rest),
          frameLength_append _ _ (by omega)] at hf
        exact hf
      rw [frames_cons, List.length_append, length_frame] at hlen
      refine ⟨[body], bodies, rfl, fun _ => List.cons_ne_nil _ _, ?_, .inr ⟨body, rfl⟩⟩
      rw [if_pos ⟨rfl, by omega, by rw [hcount]; omega⟩, hcount, frames_cons, List.append_assoc, ← length_frame,
        List.take_left, frames_cons, frames_nil, List.append_nil]
    · refine ⟨zs, ws, hsplit, fun _ => hz, ?_, .inl hle⟩
      rw [if_neg fun h => hz h.1, htake]

end Read

end BrewServer.Storage
