import BrewServer.Store.Log

/-!
# Recovery after a crash

Opening a log leaves a torn tail where it is, and the next record is written
behind it.
-/

namespace BrewServer.Storage

open Frames

/-- What a crash in the middle of an append leaves of a frame. -/
def Torn (B : Bincode) (tail : Bytes) : Prop :=
  ∃ r : B.Stored, tail <+: frame (B.serialize r.1) ∧ tail ≠ frame (B.serialize r.1)

/-- Every sequence of records appended from now on is replayed after the old ones. -/
def Recovers (B : Bincode) (old : List B.Stored) (tail : Bytes) : Prop :=
  ∀ rs : List B.Stored,
    replay B ((Store.open (log B old ++ tail)).appendAll B rs).file = (old ++ rs).map Subtype.val

section Recovery

variable {B : Bincode} {old rs : List B.Stored} {tail : Bytes}

theorem replay_reopened :
    replay B ((Store.open (log B old ++ tail)).appendAll B rs).file =
      old.map Subtype.val ++ replay B (tail ++ log B rs) := by
  rw [file_appendAll]
  change replay B (log B old ++ tail ++ log B rs) = _
  rw [List.append_assoc, replay_append]

theorem recovers_of_clean : Recovers B old [] := by
  intro rs
  rw [replay_reopened, List.nil_append, replay_log, List.map_append]

/-- No record's body starts another one's. -/
theorem serialize_prefix {r s : StoredRecord} (h : B.serialize r <+: B.serialize s) : r = s := by
  have hr : B.deserialize (B.serialize s) = some r := (B.law _ _).mpr h
  rw [B.deserialize_serialize] at hr
  exact (Option.some.inj hr).symm

/-- What a replay starts with stands behind a length prefix. -/
theorem replay_cons {buf : Bytes} {r : StoredRecord} {later : List StoredRecord}
    (h : replay B buf = r :: later) : HasFrame buf ∧ B.serialize r <+: buf.drop 4 := by
  by_cases hf : HasFrame buf
  · refine ⟨hf, ?_⟩
    rw [replay, replayOf, splitFrames_some hf, recordsOf] at h
    split at h
    · next hd =>
      cases h
      exact ((B.law _ _).mp hd).trans (List.take_prefix _ _)
    · cases h
  · rw [replay, replayOf, splitFrames_none hf, recordsOf] at h
    cases h

/-- The body of a delivery report for the SDS numbered 1. -/
def markBody : Bytes := toLe 4 2 ++ (toLe 8 16 ++ Uuid.asBytes 1)

theorem serialize_mark (B : Bincode) : B.serialize (.sdsReport 1) = markBody := B.report 1

/-- A delivery report, as any layout stores it. -/
def mark (B : Bincode) : B.Stored := ⟨.sdsReport 1, by rw [serialize_mark]; decide⟩

theorem getElem?_markBody : markBody[27]? = some 1 := by decide

/-- No byte that can take the place of the last one equals it. -/
theorem getElem?_frame_mark : ∀ i < 28, (frame markBody)[i]? ≠ some 1 := by decide

/-- Less than a length prefix takes its high bytes from the next frame. -/
theorem not_hasFrame_short (h : tail.length < 4) (hne : tail ≠ []) : ¬ HasFrame (tail ++ frame markBody) := by
  have hmark : frame markBody = 28 :: 0 :: 0 :: 0 :: markBody := by decide
  have hlen : markBody.length = 28 := by decide
  have h28 : (28 : UInt8).toNat = 28 := rfl
  rintro ⟨-, hfit⟩
  rw [hmark] at hfit
  match tail, h with
  | [], _ => exact hne rfl
  | [a], _ =>
    simp only [frameLength, List.cons_append, List.nil_append, List.take_succ_cons, List.take_zero, ofLe,
      List.length_cons, hlen] at hfit
    omega
  | [a, b], _ =>
    simp only [frameLength, List.cons_append, List.nil_append, List.take_succ_cons, List.take_zero, ofLe,
      List.length_cons, hlen] at hfit
    omega
  | [a, b, c], _ =>
    simp only [frameLength, List.cons_append, List.nil_append, List.take_succ_cons, List.take_zero, ofLe,
      List.length_cons, hlen] at hfit
    omega

/-- Behind a torn tail a delivery report is not found. -/
theorem not_prefix_of_torn (ht : Torn B tail) (h4 : 4 ≤ tail.length) :
    ¬ markBody <+: (tail ++ frame markBody).drop 4 := by
  obtain ⟨r, hp, hne⟩ := ht
  intro hm
  have hlen : markBody.length = 28 := by decide
  have hcut : tail.drop 4 <+: B.serialize r.1 := by
    obtain ⟨rest, hr⟩ := hp
    refine ⟨rest, ?_⟩
    rw [← List.drop_append_of_le_length h4, hr, frame, List.drop_left' (length_toLe 4 _)]
  have hshort : (tail.drop 4).length < (B.serialize r.1).length := by
    have hle := hp.length_le
    rw [length_frame] at hle
    have hlt : tail.length ≠ 4 + (B.serialize r.1).length := by
      rw [← length_frame]
      exact fun h => hne (hp.eq_of_length h)
    rw [List.length_drop]
    omega
  rw [List.drop_append_of_le_length h4] at hm
  by_cases hk : 28 ≤ (tail.drop 4).length
  · have hpre : markBody <+: tail.drop 4 :=
      List.prefix_of_prefix_length_le hm (List.prefix_append _ _) (by rw [hlen]; exact hk)
    have heq : StoredRecord.sdsReport 1 = r.1 := by
      apply serialize_prefix (B := B)
      rw [serialize_mark]
      exact hpre.trans hcut
    rw [← heq, serialize_mark, hlen] at hshort
    omega
  · obtain ⟨rest, hr⟩ := hm
    have hget : (markBody ++ rest)[27]? = some 1 := by
      rw [List.getElem?_append_left (by rw [hlen]; decide)]
      exact getElem?_markBody
    rw [hr, List.getElem?_append_right (by omega)] at hget
    exact getElem?_frame_mark _ (by omega) hget

theorem not_recovers_of_torn (ht : Torn B tail) (hne : tail ≠ []) : ¬ Recovers B old tail := by
  intro h
  have hone := h [mark B]
  rw [replay_reopened, List.map_append, List.append_cancel_left_eq] at hone
  obtain ⟨hf, hp⟩ := replay_cons hone
  have hlog : log B [mark B] = frame markBody := by
    change frame (B.serialize (.sdsReport 1)) ++ [] = frame markBody
    rw [serialize_mark, List.append_nil]
  rw [hlog] at hf hp
  rw [show (mark B).1 = StoredRecord.sdsReport 1 from rfl, serialize_mark] at hp
  by_cases h4 : 4 ≤ tail.length
  · exact not_prefix_of_torn ht h4 hp
  · exact not_hasFrame_short (by omega) hne hf

end Recovery

/-- A log recovers exactly when no torn tail was left. -/
theorem recovers_iff (B : Bincode) (old : List B.Stored) (tail : Bytes) (ht : Torn B tail) :
    Recovers B old tail ↔ tail = [] := by
  constructor
  · intro h
    by_contra hne
    exact not_recovers_of_torn ht hne h
  · rintro rfl
    exact recovers_of_clean

theorem torn_nil (B : Bincode) : Torn B [] := by
  refine ⟨mark B, List.nil_prefix, ?_⟩
  intro h
  have hl := congrArg List.length h
  rw [length_frame, List.length_nil] at hl
  omega

/-- A log that was closed after a delivery report. -/
theorem recovers_report : Recovers Layout.bincode [mark Layout.bincode] [] :=
  (recovers_iff Layout.bincode [mark Layout.bincode] [] (torn_nil Layout.bincode)).mpr rfl

/-- A crash after the first byte of a length prefix: the report appended next is
lost. -/
theorem not_recovers_torn :
    Torn Layout.bincode [28] ∧
      replay Layout.bincode
        ((Store.open (log Layout.bincode [] ++ [28])).appendAll Layout.bincode [mark Layout.bincode]).file = [] ∧
      ¬ Recovers Layout.bincode [] [28] := by
  have hfile : ((Store.open (log Layout.bincode [] ++ [28])).appendAll Layout.bincode
      [mark Layout.bincode]).file = [28] ++ frame markBody := by
    rw [file_appendAll]
    change [28] ++ (frame (Layout.bincode.serialize (.sdsReport 1)) ++ []) = [28] ++ frame markBody
    rw [serialize_mark, List.append_nil]
  have hlost : replay Layout.bincode ([28] ++ frame markBody) = [] := by
    rw [replay, replayOf, splitFrames_none (not_hasFrame_short (by decide) (by decide)), recordsOf]
  refine ⟨⟨mark Layout.bincode, ?_⟩, by rw [hfile, hlost], fun h => ?_⟩
  · change [28] <+: frame (Layout.bincode.serialize (.sdsReport 1)) ∧
      [28] ≠ frame (Layout.bincode.serialize (.sdsReport 1))
    rw [serialize_mark]
    decide
  · have hone := h [mark Layout.bincode]
    rw [hfile, hlost] at hone
    cases hone

end BrewServer.Storage
