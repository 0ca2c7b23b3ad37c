import BrewServer.Sms.Queue

/-!
# Nothing is lost in the queue

Each call appends a message, changes one in place, or removes some for a reason
of its own.
-/

namespace BrewServer.Sms

open Fedroute SmsFile

section Place

variable {α : Type} {l : List α} {i : ℕ} {m : α}

/-- An element in its place. -/
theorem exists_split (h : l[i]? = some m) : ∃ xs ys : List α, l = xs ++ m :: ys ∧ xs.length = i := by
  obtain ⟨hi, rfl⟩ := List.getElem?_eq_some_iff.mp h
  exact ⟨l.take i, l.drop (i + 1), by rw [List.getElem_cons_drop hi, List.take_append_drop],
    List.length_take_of_le hi.le⟩

theorem set_split (xs ys : List α) (a : α) : (xs ++ m :: ys).set xs.length a = xs ++ a :: ys := by
  rw [List.set_append_right _ _ (le_refl _), Nat.sub_self, List.set_cons_zero]

theorem modify_split (xs ys : List α) (f : α → α) : (xs ++ m :: ys).modify xs.length f = xs ++ f m :: ys := by
  rw [List.modify_eq_take_cons_drop (by simp)]
  simp

theorem eraseIdx_split (xs ys : List α) : (xs ++ m :: ys).eraseIdx xs.length = xs ++ ys := by
  rw [List.eraseIdx_append_of_length_le (le_refl _), Nat.sub_self, List.eraseIdx_cons_zero]

end Place

section Sorted

variable (cfg : SmsCenterConfig) (now : UInt64)

/-- Freed, and past its time. -/
def Expired (m : StoredSms) : Bool := (free cfg now m).inFlight.isNone && m.expiresAtMs ≤ now

/-- Freed, in time, and out of attempts. -/
def Failed (m : StoredSms) : Bool :=
  !Expired cfg now m && (free cfg now m).inFlight.isNone && 0 < cfg.maxAttempts && cfg.maxAttempts ≤ m.attempts

def Kept (m : StoredSms) : Bool := !Expired cfg now m && !Failed cfg now m

variable {cfg now} {m : StoredSms} {ms : List StoredSms}

/-- What identifies a message and what it carries. -/
def StoredSms.body (m : StoredSms) : Uuid × UInt32 × UInt32 × UInt16 × Bytes × UInt64 × UInt64 :=
  (m.id, m.sourceIssi, m.destination, m.lengthBits, m.data, m.storedAtMs, m.expiresAtMs)

theorem free_eq (m : StoredSms) : free cfg now m = m ∨ free cfg now m = { m with inFlight := none } := by
  unfold free
  split
  · exact .inr rfl
  · exact .inl rfl

theorem body_free : (free cfg now m).body = m.body := by
  rcases @free_eq cfg now m with h | h
  · rw [h]
  · rw [h]
    rfl

theorem attempts_free : (free cfg now m).attempts = m.attempts := by
  rcases @free_eq cfg now m with h | h
  all_goals rw [h]

theorem expiresAtMs_free : (free cfg now m).expiresAtMs = m.expiresAtMs := congrArg (fun b => b.2.2.2.2.2.2) body_free

theorem destination_free : (free cfg now m).destination = m.destination := by
  rcases @free_eq cfg now m with h | h
  all_goals rw [h]

/-- Freeing only clears the mark. -/
theorem inFlight_free {u : Uuid} (h : (free cfg now m).inFlight = some u) : m.inFlight = some u := by
  rcases @free_eq cfg now m with he | he
  all_goals rw [he] at h
  · exact h
  · cases h

theorem sortOut_eq (out : SweepResult) (m : StoredSms) :
    sortOut cfg now out m =
      if Expired cfg now m then { out with expired := out.expired ++ [free cfg now m] }
      else if Failed cfg now m then { out with failed := out.failed ++ [free cfg now m] }
      else { out with kept := out.kept ++ [free cfg now m] } := by
  unfold sortOut Failed
  dsimp only
  rw [expiresAtMs_free, attempts_free]
  change (if Expired cfg now m = true then _ else _) = _
  by_cases he : Expired cfg now m = true
  · rw [if_pos he, if_pos he]
  · have hb : Expired cfg now m = false := Bool.eq_false_iff.mpr he
    rw [if_neg he, if_neg he, hb]
    simp only [Bool.not_false, Bool.true_and]

theorem expired_iff : Expired cfg now m = true ↔ (free cfg now m).inFlight = none ∧ m.expiresAtMs ≤ now := by
  rw [Expired, Bool.and_eq_true, Option.isNone_iff_eq_none, decide_eq_true_eq]

theorem failed_iff : Failed cfg now m = true ↔
    (free cfg now m).inFlight = none ∧ now < m.expiresAtMs ∧ 0 < cfg.maxAttempts ∧ cfg.maxAttempts ≤ m.attempts := by
  simp only [Failed, Bool.and_eq_true, Bool.not_eq_true', Option.isNone_iff_eq_none, decide_eq_true_eq]
  constructor
  · rintro ⟨⟨⟨hin, hfree⟩, hpos⟩, hout⟩
    refine ⟨hfree, UInt64.not_le.mp fun hle => ?_, hpos, hout⟩
    rw [expired_iff.mpr ⟨hfree, hle⟩] at hin
    cases hin
  · rintro ⟨hfree, hlt, hpos, hout⟩
    refine ⟨⟨⟨Bool.eq_false_iff.mpr fun he => ?_, hfree⟩, hpos⟩, hout⟩
    exact UInt64.not_le.mpr hlt (expired_iff.mp he).2

/-- What is kept is under way, or in time and not out of attempts. -/
theorem kept_iff : Kept cfg now m = true ↔
    ((free cfg now m).inFlight = none → now < m.expiresAtMs ∧ (0 < cfg.maxAttempts → m.attempts < cfg.maxAttempts)) := by
  rw [Kept, Bool.and_eq_true, Bool.not_eq_true', Bool.not_eq_true', Bool.eq_false_iff, Bool.eq_false_iff, ne_eq, ne_eq,
    expired_iff, failed_iff]
  constructor
  · rintro ⟨hin, hleft⟩ hfree
    have hlt : now < m.expiresAtMs := UInt64.not_le.mp fun hle => hin ⟨hfree, hle⟩
    exact ⟨hlt, fun hpos => UInt32.not_le.mp fun hout => hleft ⟨hfree, hlt, hpos, hout⟩⟩
  · intro h
    refine ⟨fun hin => UInt64.not_le.mpr (h hin.1).1 hin.2, fun hout => ?_⟩
    exact UInt32.not_le.mpr ((h hout.1).2 hout.2.2.1) hout.2.2.2

theorem expired_or_failed (h : Kept cfg now m = false) : Expired cfg now m = true ∨ Failed cfg now m = true := by
  cases he : Expired cfg now m with
  | true => exact .inl rfl
  | false =>
    cases hf : Failed cfg now m with
    | true => exact .inr rfl
    | false => simp [Kept, he, hf] at h

/-- The three parts of a sweep. -/
theorem foldl_sortOut (out : SweepResult) :
    ms.foldl (sortOut cfg now) out =
      { kept := out.kept ++ (ms.filter (Kept cfg now)).map (free cfg now)
        expired := out.expired ++ (ms.filter (Expired cfg now)).map (free cfg now)
        failed := out.failed ++ (ms.filter (Failed cfg now)).map (free cfg now) } := by
  induction ms generalizing out with
  | nil => simp
  | cons m ms ih =>
    rw [List.foldl_cons, ih, sortOut_eq]
    by_cases he : Expired cfg now m = true
    · have hf : Failed cfg now m = false := by simp [Failed, he]
      have hk : Kept cfg now m = false := by simp [Kept, he]
      simp [he, hf, hk]
    · have he' : Expired cfg now m = false := Bool.eq_false_iff.mpr he
      by_cases hf : Failed cfg now m = true
      · have hk : Kept cfg now m = false := by simp [Kept, hf]
        simp [he', hf, hk]
      · have hf' : Failed cfg now m = false := Bool.eq_false_iff.mpr hf
        have hk : Kept cfg now m = true := by simp [Kept, he', hf']
        simp [he', hf', hk]

theorem sweep_parts (d : SmsFile) (h : cfg.enabled = true) :
    d.sweep cfg now =
      ({ d with messages := (d.messages.filter (Kept cfg now)).map (free cfg now) },
        { kept := (d.messages.filter (Kept cfg now)).map (free cfg now)
          expired := (d.messages.filter (Expired cfg now)).map (free cfg now)
          failed := (d.messages.filter (Failed cfg now)).map (free cfg now) }) := by
  rw [SmsFile.sweep, if_neg (by rw [h]; exact nofun), foldl_sortOut]
  rfl

/-- Every message is in one of the three parts. -/
theorem parts_perm (ms : List StoredSms) :
    (ms.filter (Kept cfg now) ++ (ms.filter (Expired cfg now) ++ ms.filter (Failed cfg now))).Perm ms := by
  induction ms with
  | nil => exact List.Perm.refl _
  | cons m ms ih =>
    by_cases he : Expired cfg now m = true
    · have hf : Failed cfg now m = false := by simp [Failed, he]
      have hk : Kept cfg now m = false := by simp [Kept, he]
      rw [List.filter_cons_of_neg (by simp [hk]), List.filter_cons_of_pos he, List.filter_cons_of_neg (by simp [hf])]
      exact List.perm_middle.trans (ih.cons m)
    · have he' : Expired cfg now m = false := Bool.eq_false_iff.mpr he
      by_cases hf : Failed cfg now m = true
      · have hk : Kept cfg now m = false := by simp [Kept, hf]
        rw [List.filter_cons_of_neg (by simp [hk]), List.filter_cons_of_neg he, List.filter_cons_of_pos hf,
          ← List.append_assoc]
        refine List.perm_middle.trans ((List.Perm.of_eq ?_).trans (ih.cons m))
        rw [List.append_assoc]
      · have hf' : Failed cfg now m = false := Bool.eq_false_iff.mpr hf
        have hk : Kept cfg now m = true := by simp [Kept, he', hf']
        rw [List.filter_cons_of_pos hk, List.filter_cons_of_neg he, List.filter_cons_of_neg hf]
        exact ih.cons m

end Sorted

/-- What a call does to the messages. -/
inductive QueueStep (cfg : SmsCenterConfig) (ms : List StoredSms) : Op → List StoredSms → Prop
  | same {op : Op} : QueueStep cfg ms op ms
  | stored {id : Uuid} {source destination : UInt32} {lengthBits : UInt16} {data : Bytes} {now : UInt64}
      {m : StoredSms} (on : cfg.enabled = true) (target : m.destination = destination)
      (perDest : (ms.countP fun m => m.destination = destination) < cfg.maxMessagesPerDestination)
      (total : ms.length < cfg.maxMessagesTotal) (new : m.inFlight = none ∧ m.attempts = 0) (own : m.id = id) :
      QueueStep cfg ms (.store id source destination lengthBits data now) (ms ++ [m])
  | taken {issi : UInt32} {force : Bool} {now : UInt64} {uuid : Uuid} {xs ys : List StoredSms} {m : StoredSms}
      (split : ms = xs ++ m :: ys) (due : m.inFlight = none) :
      QueueStep cfg ms (.takeNextDue issi force now uuid) (xs ++ attempt uuid now m :: ys)
  | released {uuid : Uuid} {xs ys : List StoredSms} {m : StoredSms} (split : ms = xs ++ m :: ys)
      (own : m.inFlight = some uuid) : QueueStep cfg ms (.release uuid) (xs ++ giveBack m :: ys)
  | reported {uuid : Uuid} {xs ys : List StoredSms} {m : StoredSms} (split : ms = xs ++ m :: ys)
      (own : m.inFlight = some uuid) : QueueStep cfg ms (.onReport uuid) (xs ++ ys)
  | swept {now : UInt64} (on : cfg.enabled = true) :
      QueueStep cfg ms (.sweep now) ((ms.filter (Kept cfg now)).map (free cfg now))
  | deleted {id : Uuid} : QueueStep cfg ms (.delete id) (ms.filter fun m => m.id ≠ id)

section Step

variable {cfg : SmsCenterConfig} {d : SmsFile}

theorem attemptOf_some {uuid : Uuid} {i : ℕ} (h : attemptOf d uuid = some i) :
    ∃ m, d.messages[i]? = some m ∧ m.inFlight = some uuid := by
  obtain ⟨hi, hp, -⟩ := List.findIdx?_eq_some_iff_getElem.mp h
  exact ⟨d.messages[i], List.getElem?_eq_getElem hi, by simpa using hp⟩

theorem oldestDue_some {issi : UInt32} {force : Bool} {now : UInt64} {i : ℕ}
    (h : oldestDue cfg d issi force now = some i) :
    ∃ m, d.messages[i]? = some m ∧ isDue cfg issi force now m = true := by
  obtain ⟨⟨m, j⟩, hm, rfl⟩ := Option.map_eq_some_iff.mp h
  obtain ⟨hmem, hdue⟩ := List.mem_filter.mp (List.argmin_mem hm)
  exact ⟨m, List.mem_zipIdx_iff_getElem?.mp hmem, hdue⟩

theorem isDue_waiting {issi : UInt32} {force : Bool} {now : UInt64} {m : StoredSms}
    (h : isDue cfg issi force now m = true) : m.inFlight = none := by
  simp only [isDue, Bool.and_eq_true, Option.isNone_iff_eq_none] at h
  exact h.1.1.2

/-- The message a call takes, in its place. -/
theorem takeNextDue_some {issi : UInt32} {force : Bool} {now : UInt64} {uuid : Uuid} {d' : SmsFile} {t : StoredSms}
    (h : d.takeNextDue cfg issi force now uuid = some (d', t)) :
    ∃ (m : StoredSms) (xs ys : List StoredSms), d.messages = xs ++ m :: ys ∧ isDue cfg issi force now m = true ∧
      t = attempt uuid now m ∧ d' = { d with messages := xs ++ attempt uuid now m :: ys } := by
  unfold SmsFile.takeNextDue at h
  split at h
  · cases h
  · obtain ⟨i, hi, hm⟩ := Option.bind_eq_some_iff.mp h
    obtain ⟨m, hget, hdue⟩ := oldestDue_some hi
    rw [hget, Option.map_some] at hm
    obtain ⟨rfl, rfl⟩ := Prod.mk.inj (Option.some.inj hm)
    obtain ⟨xs, ys, hsplit, rfl⟩ := exists_split hget
    refine ⟨m, xs, ys, hsplit, hdue, rfl, ?_⟩
    rw [hsplit, set_split]

theorem onReport_cases (uuid : Uuid) :
    (d.onReport uuid = d ∧ ∀ m ∈ d.messages, m.inFlight ≠ some uuid) ∨
      ∃ (m : StoredSms) (xs ys : List StoredSms), d.messages = xs ++ m :: ys ∧ m.inFlight = some uuid ∧
        d.onReport uuid = { d with messages := xs ++ ys } := by
  unfold SmsFile.onReport
  cases h : attemptOf d uuid with
  | none =>
    refine .inl ⟨rfl, fun m hm hf => ?_⟩
    have hnot := List.findIdx?_eq_none_iff.mp h m hm
    simp [hf] at hnot
  | some i =>
    obtain ⟨m, hget, hown⟩ := attemptOf_some h
    obtain ⟨xs, ys, hsplit, rfl⟩ := exists_split hget
    refine .inr ⟨m, xs, ys, hsplit, hown, ?_⟩
    dsimp only
    rw [hsplit, eraseIdx_split]

theorem queueStep_store {id : Uuid} {source destination : UInt32} {lengthBits : UInt16} {data : Bytes}
    {now : UInt64} :
    QueueStep cfg d.messages (.store id source destination lengthBits data now)
      (d.store cfg id source destination lengthBits data now).1.messages := by
  unfold SmsFile.store
  split
  · exact .same
  · next hon =>
    split
    · exact .same
    · split
      · exact .same
      · split
        · exact .same
        · split
          · exact .same
          · dsimp only
            split
            · exact .same
            · next hfull =>
              rw [not_or, not_le, not_le] at hfull
              exact .stored (by simpa using hon) rfl hfull.1 hfull.2 ⟨rfl, rfl⟩ rfl

theorem queueStep (op : Op) : QueueStep cfg d.messages op (d.apply cfg op).messages := by
  cases op with
  | store id source destination lengthBits data now => exact queueStep_store
  | takeNextDue issi force now uuid =>
    rw [SmsFile.apply]
    cases h : d.takeNextDue cfg issi force now uuid with
    | none => exact .same
    | some r =>
      obtain ⟨m, xs, ys, hsplit, hdue, -, hd⟩ := takeNextDue_some h
      rw [Option.map_some, Option.getD_some, hd]
      exact .taken hsplit (isDue_waiting hdue)
  | release uuid =>
    rw [SmsFile.apply, SmsFile.release]
    cases h : attemptOf d uuid with
    | none => exact .same
    | some i =>
      obtain ⟨m, hget, hown⟩ := attemptOf_some h
      obtain ⟨xs, ys, hsplit, rfl⟩ := exists_split hget
      dsimp only
      rw [hsplit, modify_split]
      exact .released rfl hown
  | onReport uuid =>
    rw [SmsFile.apply]
    rcases onReport_cases (d := d) uuid with ⟨h, -⟩ | ⟨m, xs, ys, hsplit, hown, h⟩
    · rw [h]
      exact .same
    · rw [h]
      exact .reported hsplit hown
  | sweep now =>
    rw [SmsFile.apply]
    cases hon : cfg.enabled with
    | false =>
      rw [SmsFile.sweep, if_pos (by rw [hon]; rfl)]
      exact .same
    | true =>
      rw [sweep_parts d hon]
      exact .swept hon
  | delete id => exact .deleted

end Step

/-- Within its limits, with every attempt of its own and none over the limit. -/
structure Sound (cfg : SmsCenterConfig) (ms : List StoredSms) : Prop where
  idle : cfg.enabled = false → ms = []
  total : ms.length ≤ cfg.maxMessagesTotal
  perDest : ∀ dest : UInt32, (ms.countP fun m => m.destination = dest) ≤ cfg.maxMessagesPerDestination
  distinct : (ms.filterMap StoredSms.inFlight).Nodup
  bounded : ∀ m ∈ ms, 0 < cfg.maxAttempts → m.attempts ≤ cfg.maxAttempts
  /-- A message that waits has an attempt left. -/
  waiting : ∀ m ∈ ms, 0 < cfg.maxAttempts → m.inFlight = none → m.attempts < cfg.maxAttempts

section Invariant

variable {cfg : SmsCenterConfig} {ms ms' : List StoredSms} {op : Op}

/-- Removing messages keeps the queue sound. -/
theorem Sound.sublist (h : Sound cfg ms) (hs : ms'.Sublist ms) : Sound cfg ms' where
  idle hoff := List.sublist_nil.mp (h.idle hoff ▸ hs)
  total := hs.length_le.trans h.total
  perDest dest := hs.countP_le.trans (h.perDest dest)
  distinct := h.distinct.sublist (hs.filterMap _)
  bounded m hm := h.bounded m (hs.subset hm)
  waiting m hm := h.waiting m (hs.subset hm)

theorem Sound.stored (h : Sound cfg ms) {m : StoredSms} (on : cfg.enabled = true)
    (perDest : (ms.countP fun x => x.destination = m.destination) < cfg.maxMessagesPerDestination)
    (total : ms.length < cfg.maxMessagesTotal) (hf : m.inFlight = none) (ha : m.attempts = 0) :
    Sound cfg (ms ++ [m]) where
  idle hoff := by rw [on] at hoff; cases hoff
  total := by
    rw [List.length_append, List.length_singleton]
    exact total
  perDest dest := by
    rw [List.countP_append, List.countP_singleton]
    by_cases hd : m.destination = dest
    · subst hd
      simp only [decide_true, if_true]
      exact perDest
    · simp only [hd, decide_false, Bool.false_eq_true, if_false, Nat.add_zero]
      exact h.perDest dest
  distinct := by
    rw [List.filterMap_append, List.filterMap_cons_none hf, List.filterMap_nil, List.append_nil]
    exact h.distinct
  bounded x hx hpos := by
    rcases List.mem_append.mp hx with hx | hx
    · exact h.bounded x hx hpos
    · rw [List.mem_singleton.mp hx, ha]
      exact UInt32.le_of_lt hpos
  waiting x hx hpos hw := by
    rcases List.mem_append.mp hx with hx | hx
    · exact h.waiting x hx hpos hw
    · rw [List.mem_singleton.mp hx, ha]
      exact hpos

/-- Changing one message in place keeps the queue sound. -/
theorem Sound.replaced {xs ys : List StoredSms} {m m' : StoredSms} (h : Sound cfg (xs ++ m :: ys))
    (hd : m'.destination = m.destination)
    (hf : ∀ u, m'.inFlight = some u → m.inFlight = some u ∨ u ∉ (xs ++ m :: ys).filterMap StoredSms.inFlight)
    (hb : 0 < cfg.maxAttempts → m'.attempts ≤ cfg.maxAttempts)
    (hw : 0 < cfg.maxAttempts → m'.inFlight = none → m'.attempts < cfg.maxAttempts) :
    Sound cfg (xs ++ m' :: ys) where
  idle hoff := by
    have hnil := h.idle hoff
    cases xs <;> cases hnil
  total := by
    have ht := h.total
    simp only [List.length_append, List.length_cons] at ht ⊢
    exact ht
  perDest dest := by
    have hp := h.perDest dest
    simp only [List.countP_append, List.countP_cons, hd] at hp ⊢
    exact hp
  distinct := by
    have hn := h.distinct
    have hrest : ((xs ++ ys).filterMap StoredSms.inFlight).Nodup :=
      hn.sublist ((List.sublist_append_right [m] ys).append_left xs |>.filterMap _)
    cases hu : m'.inFlight with
    | none =>
      rw [List.filterMap_append, List.filterMap_cons_none hu, ← List.filterMap_append]
      exact hrest
    | some u =>
      have hnot : u ∉ (xs ++ ys).filterMap StoredSms.inFlight := by
        rcases hf u hu with hm | hm
        · rw [List.filterMap_append, List.filterMap_cons_some hm] at hn
          have hmid := List.perm_middle.nodup_iff.mp hn
          rw [← List.filterMap_append] at hmid
          exact (List.nodup_cons.mp hmid).1
        · intro hc
          exact hm (((List.sublist_append_right [m] ys).append_left xs |>.filterMap _).subset hc)
      rw [List.filterMap_append, List.filterMap_cons_some hu]
      rw [List.filterMap_append] at hnot hrest
      exact List.perm_middle.nodup_iff.mpr (List.nodup_cons.mpr ⟨hnot, hrest⟩)
  bounded x hx hpos := by
    rcases List.mem_append.mp hx with hx | hx
    · exact h.bounded x (List.mem_append_left _ hx) hpos
    · rcases List.mem_cons.mp hx with rfl | hx
      · exact hb hpos
      · exact h.bounded x (List.mem_append_right _ (List.mem_cons_of_mem _ hx)) hpos
  waiting x hx hpos hn := by
    rcases List.mem_append.mp hx with hx | hx
    · exact h.waiting x (List.mem_append_left _ hx) hpos hn
    · rcases List.mem_cons.mp hx with rfl | hx
      · exact hw hpos hn
      · exact h.waiting x (List.mem_append_right _ (List.mem_cons_of_mem _ hx)) hpos hn

theorem attempts_lt_toNat {a b : UInt32} (h : a < b) : (a + 1).toNat = a.toNat + 1 := by
  have hb := b.toNat_lt
  rw [UInt32.lt_iff_toNat_lt] at h
  rw [UInt32.toNat_add]
  change (a.toNat + 1) % 2 ^ 32 = a.toNat + 1
  omega

theorem Sound.taken {xs ys : List StoredSms} {m : StoredSms} {uuid : Uuid} {now : UInt64}
    (h : Sound cfg (xs ++ m :: ys)) (hm : m.inFlight = none)
    (hfresh : uuid ∉ (xs ++ m :: ys).filterMap StoredSms.inFlight) : Sound cfg (xs ++ attempt uuid now m :: ys) := by
  have hmem : m ∈ xs ++ m :: ys := List.mem_append_right _ List.mem_cons_self
  refine h.replaced rfl (fun u hu => ?_) (fun hpos => ?_) (fun _ hn => nomatch hn)
  · cases hu
    exact .inr hfresh
  · have hlt := h.waiting m hmem hpos hm
    change m.attempts + 1 ≤ cfg.maxAttempts
    rw [UInt32.le_iff_toNat_le, attempts_lt_toNat hlt]
    exact UInt32.lt_iff_toNat_lt.mp hlt

theorem Sound.released {xs ys : List StoredSms} {m : StoredSms} (h : Sound cfg (xs ++ m :: ys)) :
    Sound cfg (xs ++ giveBack m :: ys) := by
  have hmem : m ∈ xs ++ m :: ys := List.mem_append_right _ List.mem_cons_self
  have hlt : 0 < cfg.maxAttempts → (giveBack m).attempts < cfg.maxAttempts := fun hpos => by
    change (if m.attempts = 0 then 0 else m.attempts - 1) < cfg.maxAttempts
    have hb := UInt32.le_iff_toNat_le.mp (h.bounded m hmem hpos)
    split
    · exact hpos
    · next hne =>
      have hne' : m.attempts.toNat ≠ 0 := fun hc => hne (UInt32.toNat_inj.mp hc)
      have hone : (1 : UInt32) ≤ m.attempts := by
        rw [UInt32.le_iff_toNat_le]
        exact Nat.one_le_iff_ne_zero.mpr hne'
      rw [UInt32.lt_iff_toNat_lt, UInt32.toNat_sub_of_le _ _ hone]
      change m.attempts.toNat - 1 < cfg.maxAttempts.toNat
      omega
  exact h.replaced rfl (fun _ hu => nomatch hu) (fun hpos => UInt32.le_of_lt (hlt hpos)) fun hpos _ => hlt hpos

theorem filterMap_free_sublist {now : UInt64} (ms : List StoredSms) :
    ((ms.map (free cfg now)).filterMap StoredSms.inFlight).Sublist (ms.filterMap StoredSms.inFlight) := by
  induction ms with
  | nil => exact List.Sublist.slnil
  | cons m ms ih =>
    rw [List.map_cons]
    cases hu : (free cfg now m).inFlight with
    | none =>
      rw [List.filterMap_cons_none hu]
      exact ih.trans ((List.sublist_cons_self m ms).filterMap _)
    | some u =>
      rw [List.filterMap_cons_some hu, List.filterMap_cons_some (inFlight_free hu)]
      exact ih.cons_cons u

theorem Sound.swept (h : Sound cfg ms) {now : UInt64} :
    Sound cfg ((ms.filter (Kept cfg now)).map (free cfg now)) := by
  have hs : Sound cfg (ms.filter (Kept cfg now)) := h.sublist List.filter_sublist
  constructor
  · intro hoff
    rw [hs.idle hoff, List.map_nil]
  · rw [List.length_map]
    exact hs.total
  · intro dest
    rw [List.countP_map]
    have hp := hs.perDest dest
    simp only [Function.comp_def, destination_free]
    exact hp
  · exact hs.distinct.sublist (filterMap_free_sublist _)
  · intro m hm hpos
    obtain ⟨x, hx, rfl⟩ := List.mem_map.mp hm
    rw [attempts_free]
    exact hs.bounded x hx hpos
  · intro m hm hpos hw
    obtain ⟨x, hx, rfl⟩ := List.mem_map.mp hm
    have hk := (List.mem_filter.mp hx).2
    rw [attempts_free]
    by_contra hle
    rw [UInt32.not_lt] at hle
    simp [Kept, Failed, hw, hpos, hle] at hk

/-- Every call keeps the queue sound. -/
theorem Sound.step (h : Sound cfg ms) (hfresh : ∀ issi force now uuid, op = .takeNextDue issi force now uuid →
    uuid ∉ ms.filterMap StoredSms.inFlight) (hs : QueueStep cfg ms op ms') : Sound cfg ms' := by
  cases hs with
  | same => exact h
  | stored on target perDest total new own =>
    subst target
    exact h.stored on perDest total new.1 new.2
  | taken split due =>
    subst split
    exact h.taken due (hfresh _ _ _ _ rfl)
  | released split own =>
    subst split
    exact h.released
  | reported split own =>
    subst split
    exact h.sublist ((List.sublist_cons_self _ _).append_left _)
  | swept on => exact h.swept
  | deleted => exact h.sublist List.filter_sublist

end Invariant

/-- Why a message may leave the queue in a call. -/
def Leaves (cfg : SmsCenterConfig) (m : StoredSms) : Op → Prop
  | .onReport uuid => m.inFlight = some uuid
  | .sweep now =>
    (free cfg now m).inFlight = none ∧
      (m.expiresAtMs ≤ now ∨ (0 < cfg.maxAttempts ∧ cfg.maxAttempts ≤ m.attempts))
  | .delete id => m.id = id
  | _ => False

/-- The message a call adds, if it adds one. -/
def added (cfg : SmsCenterConfig) (d : SmsFile) : Op → List StoredSms
  | .store id source destination lengthBits data now =>
    match (d.store cfg id source destination lengthBits data now).2 with
    | .stored m => [m]
    | _ => []
  | _ => []

/-- The messages before a call and the one it adds are those after it and those
that left, each for a reason. -/
def Conserves (cfg : SmsCenterConfig) (d : SmsFile) (op : Op) : Prop :=
  ∃ gone : List StoredSms, gone.Sublist d.messages ∧ (∀ m ∈ gone, Leaves cfg m op) ∧
    (((d.apply cfg op).messages ++ gone).map StoredSms.body).Perm ((d.messages ++ added cfg d op).map StoredSms.body)

/-- A sweep splits the queue: what it keeps stays in order, everything is in one of the
parts, freed or as it was, and each part says why its messages are in it. -/
def Splits (cfg : SmsCenterConfig) (d : SmsFile) (now : UInt64) : Prop :=
  (d.sweep cfg now).1.messages = (d.sweep cfg now).2.kept ∧
    (d.sweep cfg now).2.kept.Sublist (d.messages.map (free cfg now)) ∧
    ((d.sweep cfg now).2.kept ++ ((d.sweep cfg now).2.expired ++ (d.sweep cfg now).2.failed)).Perm
      (d.messages.map (free cfg now)) ∧
    (∀ m ∈ (d.sweep cfg now).2.expired, m.inFlight = none ∧ m.expiresAtMs ≤ now) ∧
    (∀ m ∈ (d.sweep cfg now).2.failed,
      m.inFlight = none ∧ now < m.expiresAtMs ∧ 0 < cfg.maxAttempts ∧ cfg.maxAttempts ≤ m.attempts) ∧
    ∀ m ∈ (d.sweep cfg now).2.kept,
      m.inFlight = none → now < m.expiresAtMs ∧ (0 < cfg.maxAttempts → m.attempts < cfg.maxAttempts)

section Conserved

variable {cfg : SmsCenterConfig} {d : SmsFile} {ms ms' : List StoredSms} {op : Op} {now : UInt64}

/-- A call that adds nothing keeps or removes what is there. -/
theorem QueueStep.conserves (hs : QueueStep cfg ms op ms')
    (hstore : ∀ id source destination lengthBits data now, op ≠ .store id source destination lengthBits data now) :
    ∃ gone : List StoredSms, gone.Sublist ms ∧ (∀ m ∈ gone, Leaves cfg m op) ∧
      ((ms' ++ gone).map StoredSms.body).Perm (ms.map StoredSms.body) := by
  cases hs with
  | same => exact ⟨[], List.nil_sublist _, nofun, by rw [List.append_nil]⟩
  | stored => exact absurd rfl (hstore _ _ _ _ _ _)
  | @taken _ _ _ _ xs ys m split due =>
    subst split
    refine ⟨[], List.nil_sublist _, nofun, ?_⟩
    rw [List.append_nil, List.map_append, List.map_append]
    exact List.Perm.refl _
  | @released _ xs ys m split own =>
    subst split
    refine ⟨[], List.nil_sublist _, nofun, ?_⟩
    rw [List.append_nil, List.map_append, List.map_append]
    exact List.Perm.refl _
  | @reported uuid xs ys m split own =>
    subst split
    refine ⟨[m], ?_, fun x hx => ?_, ?_⟩
    · exact List.singleton_sublist.mpr (List.mem_append_right _ List.mem_cons_self)
    · rw [List.mem_singleton.mp hx]
      exact own
    · refine List.Perm.map _ ?_
      rw [List.append_assoc]
      exact (List.perm_append_comm).append_left xs
  | @swept now on =>
    refine ⟨ms.filter (fun m => !Kept cfg now m), List.filter_sublist, fun m hm => ?_, ?_⟩
    · have hk : Kept cfg now m = false := by simpa using (List.mem_filter.mp hm).2
      change (free cfg now m).inFlight = none ∧ _
      rcases expired_or_failed hk with he | hf
      · obtain ⟨hfree, hle⟩ := expired_iff.mp he
        exact ⟨hfree, .inl hle⟩
      · obtain ⟨hfree, -, hpos, hout⟩ := failed_iff.mp hf
        exact ⟨hfree, .inr ⟨hpos, hout⟩⟩
    · have hbody : (StoredSms.body ∘ free cfg now) = StoredSms.body := funext fun m => body_free
      rw [List.map_append, List.map_map, hbody, ← List.map_append]
      exact (List.filter_append_perm _ ms).map _
  | @deleted id =>
    refine ⟨ms.filter (fun m => !decide (m.id ≠ id)), List.filter_sublist, fun m hm => ?_, ?_⟩
    · change m.id = id
      simpa using (List.mem_filter.mp hm).2
    · exact (List.filter_append_perm _ ms).map _

theorem conserves_store {id : Uuid} {source destination : UInt32} {lengthBits : UInt16} {data : Bytes}
    {now : UInt64} : Conserves cfg d (.store id source destination lengthBits data now) := by
  refine ⟨[], List.nil_sublist _, nofun, ?_⟩
  rw [List.append_nil, SmsFile.apply, added]
  unfold SmsFile.store
  split
  · rw [List.append_nil]
  · split
    · rw [List.append_nil]
    · split
      · rw [List.append_nil]
      · split
        · rw [List.append_nil]
        · split
          · rw [List.append_nil]
          · dsimp only
            split
            · rw [List.append_nil]
            · exact List.Perm.refl _

theorem conserves (op : Op) : Conserves cfg d op := by
  have hother (h : ∀ id source destination lengthBits data now,
      op ≠ .store id source destination lengthBits data now) (hadd : added cfg d op = []) : Conserves cfg d op := by
    unfold Conserves
    rw [hadd, List.append_nil]
    exact (queueStep op).conserves h
  cases op with
  | store id source destination lengthBits data now => exact conserves_store
  | takeNextDue => exact hother nofun rfl
  | release => exact hother nofun rfl
  | onReport => exact hother nofun rfl
  | sweep => exact hother nofun rfl
  | delete => exact hother nofun rfl

/-- What holds of the messages of a part as they were holds of them as they are put there. -/
theorem forall_mem_part {p : StoredSms → Bool} {P : Option Uuid → UInt64 → UInt32 → Prop}
    (h : ∀ m : StoredSms, p m = true → P (free cfg now m).inFlight m.expiresAtMs m.attempts) :
    ∀ m ∈ (ms.filter p).map (free cfg now), P m.inFlight m.expiresAtMs m.attempts := by
  intro m hm
  obtain ⟨m, hmem, rfl⟩ := List.mem_map.mp hm
  rw [expiresAtMs_free, attempts_free]
  exact h m (List.mem_filter.mp hmem).2

theorem splits (h : Sound cfg d.messages) (now : UInt64) : Splits cfg d now := by
  unfold Splits
  cases hon : cfg.enabled with
  | false =>
    have hsweep : d.sweep cfg now = (d, { kept := d.messages }) := by rw [SmsFile.sweep, if_pos (by rw [hon]; rfl)]
    rw [hsweep, h.idle hon]
    exact ⟨rfl, List.nil_sublist _, List.Perm.refl _, nofun, nofun, nofun⟩
  | true =>
    rw [sweep_parts d hon]
    refine ⟨rfl, List.filter_sublist.map _, ?_, ?_, ?_, ?_⟩
    · rw [← List.map_append, ← List.map_append]
      exact (parts_perm d.messages).map _
    · exact @forall_mem_part cfg _ _ _ (fun attempt expires _ => attempt = none ∧ expires ≤ now)
        fun m hm => expired_iff.mp hm
    · exact @forall_mem_part cfg _ _ _
        (fun attempt expires attempts =>
          attempt = none ∧ now < expires ∧ 0 < cfg.maxAttempts ∧ cfg.maxAttempts ≤ attempts)
        fun m hm => failed_iff.mp hm
    · exact @forall_mem_part cfg _ _ _
        (fun attempt expires attempts =>
          attempt = none → now < expires ∧ (0 < cfg.maxAttempts → attempts < cfg.maxAttempts))
        fun m hm => kept_iff.mp hm

end Conserved

/-- Queues reached from an empty one by any calls, with fresh delivery uuids. -/
def Reachable (cfg : SmsCenterConfig) (d : SmsFile) : Prop :=
  Reach ({} : SmsFile) (fun d op => op.Fresh d) (fun d op => d.apply cfg op) d

theorem sound_of_reach {cfg : SmsCenterConfig} {d : SmsFile} (h : Reachable cfg d) : Sound cfg d.messages := by
  have h0 : Sound cfg ({} : SmsFile).messages :=
    ⟨fun _ => rfl, Nat.zero_le _, fun _ => Nat.zero_le _, List.nodup_nil, nofun, nofun⟩
  refine Reach.invariant (P := fun d => Sound cfg d.messages) h0 (fun d op hd hfresh => ?_) h
  refine hd.step (fun issi force now uuid he => ?_) (queueStep op)
  subst he
  exact hfresh

/-- The limits hold, attempts in flight are distinct and within their number, a
sweep splits the queue exactly, and a message leaves only for a reason. -/
theorem conserved_of_reach {cfg : SmsCenterConfig} {d : SmsFile} (h : Reachable cfg d) :
    d.messages.length ≤ cfg.maxMessagesTotal ∧
      (∀ dest : UInt32, (d.messages.countP fun m => m.destination = dest) ≤ cfg.maxMessagesPerDestination) ∧
      d.inFlight.Nodup ∧ (0 < cfg.maxAttempts → ∀ m ∈ d.messages, m.attempts ≤ cfg.maxAttempts) ∧
      (∀ now : UInt64, Splits cfg d now) ∧ ∀ op : Op, Conserves cfg d op := by
  have hs := sound_of_reach h
  exact ⟨hs.total, hs.perDest, hs.distinct, fun hpos m hm => hs.bounded m hm hpos, splits hs, conserves⟩

/-- One message, in flight. -/
def queued : SmsFile :=
  (({} : SmsFile).apply {} (.store 1 1001 2002 16 [0x02, 0x01] 1000)).apply {} (.takeNextDue 2002 true 5000 7)

theorem conserved_queued :
    queued.inFlight = [7] ∧ queued.messages.length ≤ 5000 ∧ Conserves {} queued (.onReport 7) := by
  have h1 : Reachable {} (({} : SmsFile).apply {} (.store 1 1001 2002 16 [0x02, 0x01] 1000)) :=
    Reach.step .init (show Op.Fresh _ (.store 1 1001 2002 16 [0x02, 0x01] 1000) from trivial)
  have hfresh : Op.Fresh (({} : SmsFile).apply {} (.store 1 1001 2002 16 [0x02, 0x01] 1000))
      (.takeNextDue 2002 true 5000 7) := by decide
  have hr : Reachable {} queued := Reach.step h1 hfresh
  have hc := conserved_of_reach hr
  exact ⟨by decide, hc.1, hc.2.2.2.2.2 (.onReport 7)⟩

end BrewServer.Sms
