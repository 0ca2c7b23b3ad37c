import BrewServer.Ha.Serve

/-!
# Streaming the log

The history loop reads the log from its start, each time from where the last read
ended, until a read gives no frames.
-/

namespace BrewServer.Ha

open Frames Storage

/-- The reads of the loop from an offset on, each with where it starts and ends;
`none` when it has not stopped after `fuel` of them. -/
def reads (s : Store) (max : ℕ) : ℕ → ℕ → Option (List (ℕ × Bytes × ℕ))
  | 0, _ => none
  | fuel + 1, off =>
    let r := s.readFrames off max
    if r.2.1 = [] then some [] else (reads s max fuel r.2.2).map (r :: ·)

/-- The records of some reads. -/
def bodiesOf (rs : List (ℕ × Bytes × ℕ)) : List Bytes := rs.flatMap fun r => (splitFrames r.2.1).1

/-- Less than a whole frame. -/
def TornFrame (tail : Bytes) : Prop :=
  ∃ body : Bytes, body.length < 256 ^ 4 ∧ tail <+: frame body ∧ tail ≠ frame body

section Stream

variable {s : Store} {max off : ℕ} {bodies : List Bytes} {rest tail : Bytes}

theorem frames_ne_nil (h : bodies ≠ []) : frames bodies ≠ [] := by
  obtain ⟨body, bodies, rfl⟩ := List.exists_cons_of_ne_nil h
  intro hnil
  have hlen := congrArg List.length hnil
  rw [frames_cons, List.length_append, length_frame, List.length_nil] at hlen
  omega

/-- What is left of a log from the offset on is read record by record. -/
theorem reads_frames (hmax : 4 ≤ max) (hb : Framable bodies) (hr : ¬ HasFrame rest)
    (hdrop : s.file.drop (startOf s off) = frames bodies ++ rest) :
    ∃ rs, (∀ fuel, bodies.length < fuel → reads s max fuel off = some rs) ∧ bodiesOf rs = bodies ∧
      rs.flatMap (fun r => r.2.1) = frames bodies := by
  induction hn : bodies.length using Nat.strong_induction_on generalizing bodies off with
  | _ n ih =>
    obtain ⟨zs, ws, hsplit, hne, hread, -⟩ := readFrames_frames hb hr hdrop hmax
    by_cases hz : zs = []
    · have hnil : bodies = [] := by
        by_contra hbodies
        exact hne hbodies hz
      subst hz hnil
      refine ⟨[], ?_, rfl, rfl⟩
      intro fuel hfuel
      obtain ⟨k, rfl⟩ := Nat.exists_eq_add_of_lt hfuel
      rw [reads, hread]
      exact if_pos frames_nil
    · obtain ⟨hstart, hnext⟩ := startOf_add hdrop hsplit
      have hzs : Framable zs := fun b hbz => hb b (hsplit ▸ List.mem_append_left _ hbz)
      have hws : Framable ws := fun b hbw => hb b (hsplit ▸ List.mem_append_right _ hbw)
      have hpos := List.length_pos_iff.mpr hz
      have hlen : n = zs.length + ws.length := by rw [← hn, hsplit, List.length_append]
      obtain ⟨rs, hrs, hbodies, hbytes⟩ := ih ws.length (by omega) hws (by rw [hstart]; exact hnext) rfl
      refine ⟨(startOf s off, frames zs, startOf s off + (frames zs).length) :: rs, ?_, ?_, ?_⟩
      · intro fuel hfuel
        obtain ⟨k, rfl⟩ := Nat.exists_eq_add_of_lt hfuel
        rw [reads, hread]
        dsimp only
        rw [if_neg (frames_ne_nil hz), hrs (n + k) (by omega)]
        rfl
      · show (splitFrames (frames zs)).1 ++ bodiesOf rs = bodies
        rw [splitFrames_all hzs, hbodies, hsplit]
      · show frames zs ++ rs.flatMap (fun r => r.2.1) = frames bodies
        rw [hbytes, hsplit, frames_append]

theorem not_hasFrame_torn (h : TornFrame tail) : ¬ HasFrame tail := by
  obtain ⟨body, hlen, hprefix, hne⟩ := h
  exact not_hasFrame_of_cut hlen hprefix hne

/-- Records before a torn tail are read back, and counted. -/
theorem splitFrames_torn (hb : Framable bodies) (ht : TornFrame tail) :
    splitFrames (frames bodies ++ tail) = (bodies, (frames bodies).length) := by
  rw [splitFrames_frames hb, splitFrames_none (not_hasFrame_torn ht)]
  simp

/-- The loop stops, and has read exactly the complete records of the log, each once and
in order, whatever the batch. -/
theorem reads_complete (s : Store) (max : ℕ) (hmax : 4 ≤ max) :
    (∃ rs, (∀ fuel, (splitFrames s.file).1.length < fuel → reads s max fuel 0 = some rs) ∧
      bodiesOf rs = (splitFrames s.file).1 ∧
      rs.flatMap (fun r => r.2.1) = s.file.take (splitFrames s.file).2) ∧
    ∀ (bodies : List Bytes) (tail : Bytes), Framable bodies → TornFrame tail →
      splitFrames (frames bodies ++ tail) = (bodies, (frames bodies).length) := by
  constructor
  · obtain ⟨bodies, rest, hb, hr, hfile⟩ := exists_frames s.file
    have hdrop : s.file.drop (startOf s 0) = frames bodies ++ rest := by
      rw [startOf, if_neg (Nat.not_lt_zero _), List.drop_zero, hfile]
    have hsplit : splitFrames s.file = (bodies, (frames bodies).length) := by
      rw [hfile, splitFrames_frames hb, splitFrames_none hr]
      simp
    obtain ⟨rs, hrs, hbodies, hbytes⟩ := reads_frames hmax hb hr hdrop
    rw [hsplit]
    refine ⟨rs, hrs, hbodies, ?_⟩
    rw [hbytes, hfile, List.take_left]
  · intro bodies tail hb ht
    exact splitFrames_torn hb ht

/-- A log of two reports and a torn one, read by the smallest batch. -/
theorem reads_two :
    ∃ rs, reads ⟨frames [[1], [2, 3]] ++ [9, 0], ∅⟩ 4 3 0 = some rs ∧ bodiesOf rs = [[1], [2, 3]] := by
  obtain ⟨⟨rs, hrs, hbodies, -⟩, -⟩ := reads_complete ⟨frames [[1], [2, 3]] ++ [9, 0], ∅⟩ 4 (by decide)
  exact ⟨rs, hrs 3 (by decide), hbodies.trans (by decide)⟩

end Stream

end BrewServer.Ha
