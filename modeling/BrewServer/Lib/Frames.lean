import BrewServer.Lib.LeBytes

/-!
# Length-prefixed frames

A frame is a four-byte little-endian length and that many bytes. Splitting
stops at the first frame that is not all there.
-/

namespace BrewServer.Frames

/-- A framed body. -/
def frame (body : Bytes) : Bytes := toLe 4 body.length ++ body

/-- The frames of a list of bodies, one after the other. -/
def frames (bodies : List Bytes) : Bytes := bodies.flatMap frame

/-- Bodies a length prefix can count. -/
def Framable (bodies : List Bytes) : Prop := ∀ body ∈ bodies, body.length < 256 ^ 4

/-- The length prefix at the front. -/
def frameLength (buf : Bytes) : ℕ := ofLe (buf.take 4)

/-- A whole frame stands at the front. -/
def HasFrame (buf : Bytes) : Prop := 4 ≤ buf.length ∧ 4 + frameLength buf ≤ buf.length

instance (buf : Bytes) : Decidable (HasFrame buf) := by unfold HasFrame; infer_instance

/-- At most `n` frames, and how many bytes they covered. -/
def splitLoop : ℕ → Bytes → List Bytes × ℕ
  | 0, _ => ([], 0)
  | n + 1, buf =>
    if HasFrame buf then
      let len := frameLength buf
      let rest := splitLoop n (buf.drop (4 + len))
      ((buf.drop 4).take len :: rest.1, 4 + len + rest.2)
    else ([], 0)

/-- The bodies at the front, and how many bytes they covered. -/
def splitFrames (buf : Bytes) : List Bytes × ℕ := splitLoop buf.length buf

@[simp] theorem frames_nil : frames [] = [] := rfl

@[simp] theorem frames_cons (body : Bytes) (bodies : List Bytes) :
    frames (body :: bodies) = frame body ++ frames bodies := rfl

@[simp] theorem frames_append (xs ys : List Bytes) : frames (xs ++ ys) = frames xs ++ frames ys :=
  List.flatMap_append

@[simp] theorem length_frame (body : Bytes) : (frame body).length = 4 + body.length := by
  rw [frame, List.length_append, length_toLe]

theorem Framable.cons {body : Bytes} {bodies : List Bytes} (h : Framable (body :: bodies)) :
    body.length < 256 ^ 4 ∧ Framable bodies :=
  ⟨h body List.mem_cons_self, fun b hb => h b (List.mem_cons_of_mem _ hb)⟩

theorem frameLength_append (buf rest : Bytes) (h : 4 ≤ buf.length) :
    frameLength (buf ++ rest) = frameLength buf := by
  rw [frameLength, frameLength, List.take_append_of_le_length h]

theorem frameLength_frame {body : Bytes} (h : body.length < 256 ^ 4) (rest : Bytes) :
    frameLength (frame body ++ rest) = body.length := by
  rw [frameLength, frame, List.append_assoc, List.take_left' (length_toLe 4 _), ofLe_toLe, Nat.mod_eq_of_lt h]

theorem hasFrame_frame {body : Bytes} (h : body.length < 256 ^ 4) (rest : Bytes) :
    HasFrame (frame body ++ rest) := by
  unfold HasFrame
  rw [frameLength_frame h, List.length_append, length_frame]
  omega

theorem splitLoop_none (n : ℕ) {buf : Bytes} (h : ¬ HasFrame buf) : splitLoop n buf = ([], 0) := by
  cases n with
  | zero => rfl
  | succ n => rw [splitLoop, if_neg h]

/-- More rounds than bytes change nothing. -/
theorem splitLoop_fuel {n m : ℕ} {buf : Bytes} (hn : buf.length ≤ n) (hm : buf.length ≤ m) :
    splitLoop n buf = splitLoop m buf := by
  induction n generalizing m buf with
  | zero =>
    have hnot : ¬ HasFrame buf := fun h => by have := h.1; omega
    rw [splitLoop_none 0 hnot, splitLoop_none m hnot]
  | succ n ih =>
    by_cases h : HasFrame buf
    · obtain ⟨m, rfl⟩ : ∃ k, m = k + 1 := ⟨m - 1, by have := h.1; omega⟩
      have hd : (buf.drop (4 + frameLength buf)).length = buf.length - (4 + frameLength buf) := List.length_drop
      have hlen := h.1
      have hrest : splitLoop n (buf.drop (4 + frameLength buf)) = splitLoop m (buf.drop (4 + frameLength buf)) :=
        ih (by rw [hd]; omega) (by rw [hd]; omega)
      rw [splitLoop, splitLoop, if_pos h, if_pos h]
      dsimp only
      rw [hrest]
    · rw [splitLoop_none _ h, splitLoop_none _ h]

theorem splitFrames_none {buf : Bytes} (h : ¬ HasFrame buf) : splitFrames buf = ([], 0) := splitLoop_none _ h

/-- One frame is taken off the front. -/
theorem splitFrames_some {buf : Bytes} (h : HasFrame buf) :
    splitFrames buf =
      ((buf.drop 4).take (frameLength buf) :: (splitFrames (buf.drop (4 + frameLength buf))).1,
        4 + frameLength buf + (splitFrames (buf.drop (4 + frameLength buf))).2) := by
  have hlen := h.1
  obtain ⟨n, hn⟩ : ∃ n, buf.length = n + 1 := ⟨buf.length - 1, by omega⟩
  have hd : (buf.drop (4 + frameLength buf)).length ≤ n := by
    rw [List.length_drop]
    omega
  rw [splitFrames, hn, splitLoop, if_pos h]
  dsimp only
  rw [splitLoop_fuel hd (le_refl (buf.drop (4 + frameLength buf)).length)]
  rfl

theorem splitFrames_frame {body : Bytes} (h : body.length < 256 ^ 4) (rest : Bytes) :
    splitFrames (frame body ++ rest) =
      (body :: (splitFrames rest).1, (frame body).length + (splitFrames rest).2) := by
  have hd : (frame body ++ rest).drop 4 = body ++ rest := by
    rw [frame, List.append_assoc, List.drop_left' (length_toLe 4 _)]
  have hr : (frame body ++ rest).drop (4 + body.length) = rest := by
    rw [← length_frame, List.drop_left]
  rw [splitFrames_some (hasFrame_frame h rest), frameLength_frame h, hd, hr, List.take_left, length_frame]

/-- Whole frames are read back, and what follows them is split on its own. -/
theorem splitFrames_frames {bodies : List Bytes} (h : Framable bodies) (rest : Bytes) :
    splitFrames (frames bodies ++ rest) =
      (bodies ++ (splitFrames rest).1, (frames bodies).length + (splitFrames rest).2) := by
  induction bodies with
  | nil => simp
  | cons body bodies ih =>
    rw [frames_cons, List.append_assoc, splitFrames_frame h.cons.1, ih h.cons.2, List.cons_append, List.length_append,
      Nat.add_assoc]

theorem not_hasFrame_nil : ¬ HasFrame [] := fun h => by
  have hlen := h.1
  simp at hlen

theorem splitFrames_all {bodies : List Bytes} (h : Framable bodies) :
    splitFrames (frames bodies) = (bodies, (frames bodies).length) := by
  have hs := splitFrames_frames h []
  rw [splitFrames_none not_hasFrame_nil] at hs
  simpa using hs

/-- A cut frame is no frame. -/
theorem not_hasFrame_of_cut {body cut : Bytes} (h : body.length < 256 ^ 4) (hp : cut <+: frame body)
    (hne : cut ≠ frame body) : ¬ HasFrame cut := by
  obtain ⟨rest, hr⟩ := hp
  rintro ⟨h4, hfit⟩
  have hlen : cut.length + rest.length = 4 + body.length := by
    rw [← length_frame, ← hr, List.length_append]
  have hcount : frameLength cut = body.length := by
    have hf := frameLength_frame h []
    rw [List.append_nil, ← hr, frameLength_append _ _ h4] at hf
    exact hf
  have hnil : rest = [] := List.eq_nil_of_length_eq_zero (by omega)
  rw [hnil, List.append_nil] at hr
  exact hne hr

/-- Any buffer is whole frames and what follows the last of them. -/
theorem exists_frames (buf : Bytes) :
    ∃ (bodies : List Bytes) (rest : Bytes), Framable bodies ∧ ¬ HasFrame rest ∧ buf = frames bodies ++ rest := by
  induction hn : buf.length using Nat.strong_induction_on generalizing buf with
  | _ n ih =>
    by_cases h : HasFrame buf
    · obtain ⟨h4, hfit⟩ := h
      have hlt : (buf.drop (4 + frameLength buf)).length < n := by
        rw [List.length_drop]
        omega
      obtain ⟨bodies, rest, hbodies, hrest, hcut⟩ := ih _ hlt _ rfl
      have htake : (buf.take 4).length = 4 := List.length_take_of_le h4
      have hbody : ((buf.drop 4).take (frameLength buf)).length = frameLength buf := by
        rw [List.length_take, List.length_drop]
        omega
      have hsmall : frameLength buf < 256 ^ 4 := htake ▸ ofLe_lt (buf.take 4)
      have hcount : toLe 4 (frameLength buf) = buf.take 4 := by
        have hle := toLe_ofLe (buf.take 4)
        rwa [htake] at hle
      refine ⟨(buf.drop 4).take (frameLength buf) :: bodies, rest, fun b hb => ?_, hrest, ?_⟩
      · rcases List.mem_cons.mp hb with rfl | hb
        · rw [hbody]
          exact hsmall
        · exact hbodies b hb
      · rw [frames_cons, List.append_assoc, ← hcut, frame, hbody, hcount, List.append_assoc, ← List.drop_drop,
          List.take_append_drop, List.take_append_drop]
    · exact ⟨[], buf, fun b hb => absurd hb List.not_mem_nil, h, rfl⟩

/-- There are no more frames than bytes. -/
theorem length_le_frames (bodies : List Bytes) : bodies.length ≤ (frames bodies).length := by
  induction bodies with
  | nil => exact le_refl 0
  | cons body bodies ih =>
    rw [frames_cons, List.length_append, length_frame, List.length_cons]
    omega

theorem HasFrame.of_take {buf : Bytes} {n : ℕ} (h : HasFrame (buf.take n)) : HasFrame buf := by
  obtain ⟨h4, hfit⟩ := h
  have hle : (buf.take n).length ≤ buf.length := List.length_take_le' n buf
  have hcount : frameLength buf = frameLength (buf.take n) := by
    have hf := frameLength_append (buf.take n) (buf.drop n) h4
    rwa [List.take_append_drop] at hf
  exact ⟨h4.trans hle, by omega⟩

/-- The front of a buffer holds its first frames, and cuts the next one. -/
theorem splitFrames_cut {bodies : List Bytes} {rest : Bytes} (hb : Framable bodies) (hr : ¬ HasFrame rest) (max : ℕ) :
    ∃ zs ws : List Bytes, bodies = zs ++ ws ∧ (frames zs).length ≤ max ∧
      splitFrames ((frames bodies ++ rest).take max) = (zs, (frames zs).length) ∧
      (zs = [] → ∀ body ∈ bodies.head?, max < (frame body).length) := by
  induction bodies generalizing max with
  | nil =>
    refine ⟨[], [], rfl, Nat.zero_le _, ?_, fun _ body h => absurd h (Option.not_mem_none body)⟩
    rw [frames_nil, List.nil_append, splitFrames_none fun h => hr h.of_take]
    rfl
  | cons body bodies ih =>
    by_cases hm : (frame body).length ≤ max
    · obtain ⟨zs, ws, hsplit, hle, hread, -⟩ := ih hb.cons.2 (max - (frame body).length)
      refine ⟨body :: zs, ws, by rw [hsplit, List.cons_append], ?_, ?_, fun h => absurd h (List.cons_ne_nil _ _)⟩
      · rw [frames_cons, List.length_append]
        omega
      · rw [frames_cons, List.append_assoc, List.take_append, List.take_of_length_le hm, splitFrames_frame hb.cons.1,
          hread, frames_cons, List.length_append]
    · refine ⟨[], body :: bodies, rfl, Nat.zero_le _, ?_, fun _ b h => ?_⟩
      · refine splitFrames_none (not_hasFrame_of_cut hb.cons.1 ?_ fun he => hm ?_)
        · rw [frames_cons, List.append_assoc, List.take_append_of_le_length (by omega)]
          exact List.take_prefix _ _
        · rw [← he]
          exact List.length_take_le _ _
      · cases h
        omega

end BrewServer.Frames
