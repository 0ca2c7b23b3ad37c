import BrewServer.Store.Log
import Mathlib.Data.List.Nodup

/-!
# Log replication

The Standby node pulls the peer's log in batches and appends the records it
does not hold. A log that went back and forth is copied once.
-/

namespace BrewServer.Storage

open Frames

/-- One message of the peer's log: how much is read, and whether either store
was reopened before. -/
structure Batch where
  max : ℕ
  fits : 4 ≤ max
  reopenSource : Bool
  reopenTarget : Bool

/-- The two stores, and how far the source has been read. -/
structure Pull where
  source : Store
  target : Store
  offset : ℕ

def Store.reopened (s : Store) (again : Bool) : Store := if again then Store.open s.file else s

/-- A body that does not decode is skipped. -/
def Store.ingest (B : Bincode) (s : Store) (bodies : List Bytes) : Store :=
  bodies.foldl (fun s body => ((s.appendReplicated B body).map Prod.fst).getD s) s

/-- Reads batches until there is nothing more to read. -/
def Pull.run (B : Bincode) : List Batch → Pull → Pull
  | [], p => p
  | b :: bs, p =>
    let source := p.source.reopened b.reopenSource
    let target := p.target.reopened b.reopenTarget
    let (_, frames, offset) := source.readFrames p.offset b.max
    if frames = [] then { source, target, offset }
    else Pull.run B bs { source, target := target.ingest B (splitFrames frames).1, offset }

/-- Pulls the source's log from its beginning. -/
def pull (B : Bincode) (bs : List Batch) (source target : Store) : Pull :=
  Pull.run B bs { source, target, offset := 0 }

/-- What is new in `rs` to a log that holds `held`: each record once, in order. -/
def missing {α : Type} [DecidableEq α] : List α → List α → List α
  | _, [] => []
  | held, r :: rs => if r ∈ held then missing held rs else r :: missing (held ++ [r]) rs

section Missing

variable {α : Type} [DecidableEq α] {held xs ys : List α} {r : α}

theorem missing_append : missing held (xs ++ ys) = missing held xs ++ missing (held ++ missing held xs) ys := by
  induction xs generalizing held with
  | nil => rw [List.nil_append, missing, List.append_nil, List.nil_append]
  | cons x xs ih =>
    rw [List.cons_append, missing, missing]
    split
    · exact ih
    · rw [ih, List.append_assoc, List.singleton_append, List.cons_append]

theorem mem_missing : r ∈ missing held xs ↔ r ∈ xs ∧ r ∉ held := by
  induction xs generalizing held with
  | nil => simp [missing]
  | cons x xs ih =>
    rw [missing]
    split
    · next hx =>
      rw [ih, List.mem_cons]
      constructor
      · exact fun h => ⟨.inr h.1, h.2⟩
      · rintro ⟨rfl | h, hn⟩
        · exact absurd hx hn
        · exact ⟨h, hn⟩
    · next hx =>
      rw [List.mem_cons, ih, List.mem_cons, List.mem_append, List.mem_singleton]
      constructor
      · rintro (rfl | ⟨h, hn⟩)
        · exact ⟨.inl rfl, hx⟩
        · exact ⟨.inr h, fun hc => hn (.inl hc)⟩
      · rintro ⟨rfl | h, hn⟩
        · exact .inl rfl
        · by_cases he : r = x
          · exact .inl he
          · exact .inr ⟨h, fun hc => hc.elim hn he⟩

theorem nodup_missing : (missing held xs).Nodup := by
  induction xs generalizing held with
  | nil => exact List.nodup_nil
  | cons x xs ih =>
    rw [missing]
    split
    · exact ih
    · refine List.nodup_cons.mpr ⟨fun hx => ?_, ih⟩
      exact (mem_missing.mp hx).2 (List.mem_append_right _ (List.mem_singleton.mpr rfl))

theorem missing_sublist : (missing held xs).Sublist xs := by
  induction xs generalizing held with
  | nil => exact List.Sublist.slnil
  | cons x xs ih =>
    rw [missing]
    split
    · exact ih.cons x
    · exact ih.cons_cons x

theorem missing_of_subset (h : ∀ r ∈ xs, r ∈ held) : missing held xs = [] := by
  rw [List.eq_nil_iff_forall_not_mem]
  intro r hr
  have hm := mem_missing.mp hr
  exact hm.2 (h r hm.1)

end Missing

section Holds

variable {B : Bincode}

def bodies (rs : List B.Stored) : List Bytes := rs.map fun r => B.serialize r.1

/-- A store whose log is exactly these records. -/
structure Holds (s : Store) (rs : List B.Stored) : Prop where
  file : s.file = log B rs
  known : s.known = hashes (bodies rs)

/-- Different bodies have different hashes. -/
def CollisionFree (bodies : List Bytes) : Prop := ∀ x ∈ bodies, ∀ y ∈ bodies, bodyHash x = bodyHash y → x = y

instance (bodies : List Bytes) : Decidable (CollisionFree bodies) := by unfold CollisionFree; infer_instance

variable {s : Store} {rs held : List B.Stored} {r : B.Stored}

theorem holds_open (rs : List B.Stored) : Holds (Store.open (log B rs)) rs := by
  refine ⟨rfl, ?_⟩
  change hashes (splitFrames (frames (rs.map fun r => B.serialize r.1))).1 = hashes (bodies rs)
  rw [splitFrames_all (framable_stored rs)]
  rfl

theorem Holds.reopened (h : Holds s rs) (again : Bool) : Holds (s.reopened again) rs := by
  unfold Store.reopened
  split
  · rw [h.file]
    exact holds_open rs
  · exact h

theorem Holds.append (h : Holds s rs) (r : B.Stored) : Holds (s.append B r.1) (rs ++ [r]) := by
  constructor
  · rw [file_append, h.file, log_append, log_singleton]
  · change insert (bodyHash (B.serialize r.1)) s.known = hashes (bodies (rs ++ [r]))
    rw [h.known, hashes, hashes, bodies, bodies, List.map_append, List.map_append, List.toFinset_append,
      Finset.insert_eq, Finset.union_comm]
    rfl

theorem serialize_injective (B : Bincode) : Function.Injective B.serialize := by
  intro r s h
  have hr := B.deserialize_serialize r
  rw [h, B.deserialize_serialize] at hr
  exact (Option.some.inj hr).symm

/-- A hash that is known is the hash of a record in the log. -/
theorem Holds.mem_known (h : Holds s held) (hfree : CollisionFree (bodies (r :: held))) :
    bodyHash (B.serialize r.1) ∈ s.known ↔ r ∈ held := by
  rw [h.known, hashes, List.mem_toFinset, List.mem_map]
  constructor
  · rintro ⟨body, hb, he⟩
    have hbr : body = B.serialize r.1 :=
      hfree body (List.mem_cons_of_mem _ hb) (B.serialize r.1) List.mem_cons_self he
    obtain ⟨r', hr', hs⟩ := List.mem_map.mp hb
    have hrr : r' = r := Subtype.ext (serialize_injective B (hs.trans hbr))
    exact hrr ▸ hr'
  · exact fun hr => ⟨_, List.mem_map.mpr ⟨r, hr, rfl⟩, rfl⟩

theorem CollisionFree.mono {xs ys : List Bytes} (h : CollisionFree ys) (hs : ∀ x ∈ xs, x ∈ ys) : CollisionFree xs :=
  fun x hx y hy => h x (hs x hx) y (hs y hy)

theorem CollisionFree.of_subset {xs ys : List B.Stored} (h : CollisionFree (bodies ys)) (hs : ∀ r ∈ xs, r ∈ ys) :
    CollisionFree (bodies xs) := by
  refine h.mono fun x hx => ?_
  obtain ⟨r, hr, rfl⟩ := List.mem_map.mp hx
  exact List.mem_map.mpr ⟨r, hs r hr, rfl⟩

/-- What is already there is not written again, and what is new is. -/
theorem Holds.ingest (h : Holds s held) (hfree : CollisionFree (bodies (held ++ rs))) :
    Holds (s.ingest B (bodies rs)) (held ++ missing held rs) := by
  induction rs generalizing s held with
  | nil =>
    rw [missing, List.append_nil]
    exact h
  | cons r rs ih =>
    have hmem := h.mem_known (hfree.of_subset fun x hx => by
      rcases List.mem_cons.mp hx with rfl | hx
      · exact List.mem_append_right _ List.mem_cons_self
      · exact List.mem_append_left _ hx)
    change Holds (Store.ingest B (((s.appendReplicated B (B.serialize r.1)).map Prod.fst).getD s) (bodies rs)) _
    rw [missing, Store.appendReplicated]
    by_cases hr : r ∈ held
    · rw [if_pos hr, if_pos (hmem.mpr hr)]
      refine ih h (hfree.of_subset fun x hx => ?_)
      rcases List.mem_append.mp hx with hx | hx
      · exact List.mem_append_left _ hx
      · exact List.mem_append_right _ (List.mem_cons_of_mem _ hx)
    · rw [if_neg hr, if_neg (fun hc => hr (hmem.mp hc)), B.deserialize_serialize]
      have hstep : Holds (s.append B r.1) (held ++ [r]) := h.append r
      have hrest := ih hstep (hfree.of_subset fun x hx => by
        rw [List.append_assoc, List.singleton_append] at hx
        exact hx)
      rw [List.append_assoc, List.singleton_append] at hrest
      exact hrest

end Holds

section Read

variable {B : Bincode}

/-- A read from a record boundary gives whole records, and at least one while
there are any. -/
theorem readFrames_log {s : Store} {xs ys : List B.Stored} (hs : s.file = log B (xs ++ ys)) {max : ℕ}
    (hmax : 4 ≤ max) :
    ∃ zs ws : List B.Stored, ys = zs ++ ws ∧ (ys ≠ [] → zs ≠ []) ∧
      s.readFrames (log B xs).length max = ((log B xs).length, log B zs, (log B (xs ++ zs)).length) := by
  have hstart : startOf s (log B xs).length = (log B xs).length := by
    refine if_neg (Nat.not_lt.mpr ?_)
    rw [hs, log_append, List.length_append]
    exact Nat.le_add_right _ _
  have hdrop : s.file.drop (startOf s (log B xs).length) = frames (bodies ys) ++ [] := by
    rw [hstart, hs, log_append, List.drop_left, List.append_nil]
    rfl
  obtain ⟨bz, bw, hsplit, hprogress, hread, -⟩ := readFrames_frames (framable_stored ys) not_hasFrame_nil hdrop hmax
  obtain ⟨zs, ws, rfl, rfl, rfl⟩ := List.map_eq_append_iff.mp hsplit
  refine ⟨zs, ws, rfl, fun hne hz => ?_, ?_⟩
  · exact hprogress (fun h => hne (List.map_eq_nil_iff.mp h)) (by rw [hz]; rfl)
  · rw [hread, hstart, log_append, List.length_append]
    rfl

end Read

section Pull

variable {B : Bincode} {xs ys held : List B.Stored} {p : Pull}

/-- A pull that has read `xs` reads the rest, one record or more a batch. -/
theorem run_reads (bs : List Batch) (hsource : Holds p.source (xs ++ ys)) (htarget : Holds p.target (held ++ missing held xs))
    (hoffset : p.offset = (log B xs).length) (hfree : CollisionFree (bodies (held ++ (xs ++ ys))))
    (hlen : ys.length ≤ bs.length) :
    Holds (p.run B bs).source (xs ++ ys) ∧ Holds (p.run B bs).target (held ++ missing held (xs ++ ys)) ∧
      (p.run B bs).offset = (log B (xs ++ ys)).length := by
  induction bs generalizing p xs ys with
  | nil =>
    have hnil : ys = [] := List.eq_nil_of_length_eq_zero (Nat.le_zero.mp hlen)
    subst hnil
    rw [List.append_nil] at hsource ⊢
    exact ⟨hsource, htarget, hoffset⟩
  | cons b bs ih =>
    have hs := hsource.reopened b.reopenSource
    have ht := htarget.reopened b.reopenTarget
    obtain ⟨zs, ws, rfl, hprogress, hread⟩ := readFrames_log hs.file b.fits
    rw [Pull.run]
    dsimp only
    rw [hoffset, hread]
    dsimp only
    by_cases hz : zs = []
    · subst hz
      have hws : ws = [] := by
        by_contra hne
        exact hprogress hne rfl
      subst hws
      rw [if_pos (show log B [] = [] from rfl)]
      simp only [List.append_nil] at hs ⊢
      exact ⟨hs, ht, trivial⟩
    · have hne : log B zs ≠ [] := by
        intro he
        have hl := congrArg List.length he
        obtain ⟨z, zs', rfl⟩ := List.exists_cons_of_ne_nil hz
        rw [log_cons, List.length_append, length_frame, List.length_nil] at hl
        omega
      rw [if_neg hne, log, splitFrames_all (framable_stored zs)]
      have hnew : Holds ((p.target.reopened b.reopenTarget).ingest B (bodies zs)) (held ++ missing held (xs ++ zs)) := by
        rw [missing_append, ← List.append_assoc]
        refine ht.ingest (hfree.of_subset fun r hr => ?_)
        have hsub : missing held xs ⊆ xs := missing_sublist.subset
        rw [List.mem_append, List.mem_append] at hr
        rw [List.mem_append, List.mem_append, List.mem_append]
        rcases hr with (hr | hr) | hr
        · exact .inl hr
        · exact .inr (.inl (hsub hr))
        · exact .inr (.inr (.inl hr))
      rw [← List.append_assoc xs zs ws] at hs hfree ⊢
      refine ih (p := ⟨_, _, _⟩) hs hnew rfl hfree ?_
      have hz' := List.length_pos_iff.mpr hz
      rw [List.length_append, List.length_cons] at hlen
      omega

/-- A pull of a whole log, in enough batches. -/
theorem pull_reads {source target : Store} {rs : List B.Stored} (bs : List Batch) (hs : Holds source rs)
    (ht : Holds target held) (hfree : CollisionFree (bodies (held ++ rs))) (hlen : rs.length ≤ bs.length) :
    Holds (pull B bs source target).source rs ∧ Holds (pull B bs source target).target (held ++ missing held rs) ∧
      (pull B bs source target).offset = (log B rs).length := by
  have hnone : Holds target (held ++ missing held []) := by
    rw [missing, List.append_nil]
    exact ht
  exact @run_reads B [] rs held _ bs hs hnone rfl hfree hlen

end Pull

/-- Pulling a log that is held already changes nothing. -/
theorem pull_held {B : Bincode} {source target : Store} {rs held : List B.Stored} (bs : List Batch)
    (hs : Holds source rs) (ht : Holds target held) (hfree : CollisionFree (bodies held))
    (hsub : ∀ r ∈ rs, r ∈ held) (hlen : rs.length ≤ bs.length) :
    (pull B bs source target).target.file = target.file := by
  have hall : CollisionFree (bodies (held ++ rs)) := hfree.of_subset fun r hr => by
    rcases List.mem_append.mp hr with hr | hr
    · exact hr
    · exact hsub r hr
  have hread := (pull_reads bs hs ht hall hlen).2.1
  rw [hread.file, ht.file, missing_of_subset hsub, List.append_nil]

/-- Pulling all of B's log into A appends B's records that A did not hold, once
each and in B's order. Pulling it again adds nothing, nor does pulling A back
into B and then B into A. -/
theorem replication (B : Bincode) (a b : Store) (ra rb : List B.Stored) (ha : Holds a ra) (hb : Holds b rb)
    (hfree : CollisionFree (bodies (ra ++ rb))) (bs : List Batch) (hbs : rb.length ≤ bs.length) :
    (pull B bs b a).offset = b.file.length ∧ (pull B bs b a).source.file = b.file ∧
      (∃ new : List B.Stored, new = missing ra rb ∧ new.Sublist rb ∧ new.Nodup ∧
        (∀ r, r ∈ new ↔ r ∈ rb ∧ r ∉ ra) ∧ (pull B bs b a).target.file = a.file ++ log B new) ∧
      (∀ bs' : List Batch, rb.length ≤ bs'.length →
        (pull B bs' (pull B bs b a).source (pull B bs b a).target).target.file = (pull B bs b a).target.file) ∧
      ∀ bs' bs'' : List Batch, ra.length + rb.length ≤ bs'.length → ra.length + rb.length ≤ bs''.length →
        (pull B bs'' (pull B bs' (pull B bs b a).target (pull B bs b a).source).target
          (pull B bs' (pull B bs b a).target (pull B bs b a).source).source).target.file =
          (pull B bs b a).target.file := by
  obtain ⟨hsource, htarget, hoffset⟩ := pull_reads bs hb ha hfree hbs
  have hunion : ∀ r ∈ ra ++ missing ra rb, r ∈ ra ++ rb := fun r hr => by
    rcases List.mem_append.mp hr with hr | hr
    · exact List.mem_append_left _ hr
    · exact List.mem_append_right _ (mem_missing.mp hr).1
  have hcover : ∀ r ∈ ra ++ rb, r ∈ ra ++ missing ra rb := fun r hr => by
    by_cases hra : r ∈ ra
    · exact List.mem_append_left _ hra
    · exact List.mem_append_right _ (mem_missing.mpr ⟨(List.mem_append.mp hr).resolve_left hra, hra⟩)
  refine ⟨by rw [hoffset, hb.file], by rw [hsource.file, hb.file], ?_, fun bs' hbs' => ?_, fun bs' bs'' h' h'' => ?_⟩
  · refine ⟨missing ra rb, rfl, missing_sublist, nodup_missing, fun r => mem_missing, ?_⟩
    rw [htarget.file, ha.file, log_append]
  · exact pull_held bs' hsource htarget (hfree.of_subset hunion)
      (fun r hr => hcover r (List.mem_append_right _ hr)) hbs'
  · have hnew : (missing ra rb).length ≤ rb.length := missing_sublist.length_le
    have hback : CollisionFree (bodies (rb ++ (ra ++ missing ra rb))) := hfree.of_subset fun r hr => by
      rcases List.mem_append.mp hr with hr | hr
      · exact List.mem_append_right _ hr
      · exact hunion r hr
    obtain ⟨hsa, htb, -⟩ := pull_reads bs' htarget hsource hback (by rw [List.length_append]; omega)
    have hfile : (pull B bs' (pull B bs b a).target (pull B bs b a).source).source.file = (pull B bs b a).target.file := by
      rw [hsa.file, htarget.file]
    have hlen : (rb ++ missing rb (ra ++ missing ra rb)).length ≤ bs''.length := by
      have hnone : missing (rb ++ missing rb ra) (missing ra rb) = [] :=
        missing_of_subset fun r hr => List.mem_append_left _ (mem_missing.mp hr).1
      have hle : (missing rb ra).length ≤ ra.length := missing_sublist.length_le
      rw [missing_append, hnone, List.append_nil, List.length_append]
      omega
    have hheld : ∀ r ∈ rb ++ missing rb (ra ++ missing ra rb), r ∈ ra ++ missing ra rb := fun r hr => by
      rcases List.mem_append.mp hr with hr | hr
      · exact hcover r (List.mem_append_right _ hr)
      · exact (mem_missing.mp hr).1
    exact (pull_held bs'' htb hsa (hfree.of_subset hunion) hheld hlen).trans hfile

/-- The batches of a pull: a few bytes at a time, with stores reopened. -/
def small : Batch := { max := 4, fits := le_refl 4, reopenSource := true, reopenTarget := false }

/-- The report numbered `n`. -/
def reportOf (n : ℕ) : Layout.bincode.Stored :=
  ⟨.sdsReport n, by rw [Layout.bincode.report, List.length_append, List.length_append, length_toLe, length_toLe,
    Uuid.length_asBytes]; decide⟩

/-- A holds one report, and B another one before it. -/
theorem replication_reports :
    (pull Layout.bincode [small, small] (Store.open (log Layout.bincode [reportOf 2, reportOf 1]))
      (Store.open (log Layout.bincode [reportOf 1]))).target.file =
      log Layout.bincode [reportOf 1] ++ log Layout.bincode [reportOf 2] := by
  have hfree : CollisionFree (bodies ([reportOf 1] ++ [reportOf 2, reportOf 1])) := by decide +kernel
  have hnew : missing [reportOf 1] [reportOf 2, reportOf 1] = [reportOf 2] := by decide +kernel
  obtain ⟨-, -, ⟨new, rfl, -, -, -, hfile⟩, -⟩ :=
    replication Layout.bincode (Store.open (log Layout.bincode [reportOf 1]))
      (Store.open (log Layout.bincode [reportOf 2, reportOf 1])) [reportOf 1] [reportOf 2, reportOf 1]
      (holds_open _) (holds_open _) hfree [small, small] (le_refl 2)
  rw [hfile, hnew]
  rfl

end BrewServer.Storage
