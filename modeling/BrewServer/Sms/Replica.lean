import BrewServer.Sms.Conservation

/-!
# The queue on the standby

A call on the queue holds its lock, changes it and counts the revision up. The
loop that serves the standby reads the revision without the lock, exports the
queue under it, and remembers the revision it read.
-/

namespace BrewServer.Sms

open Fedroute SmsFile

/-- One call that may change the queue or the known ISSIs. -/
inductive Mutation
  | noteKnown (issi : UInt32)
  | op (op : Op)
  /-- `import` of another node's queue. -/
  | imported (file : SmsFile)

namespace SmsFile

variable (cfg : SmsCenterConfig)

def mutate (d : SmsFile) : Mutation → SmsFile
  | .noteKnown issi => d.noteKnown cfg issi
  | .op op => d.apply cfg op
  | .imported file => file

/-- The sweep frees this attempt. -/
def isFreed (now : UInt64) (m : StoredSms) : Bool :=
  m.inFlight.isSome && elapsed now (saturatingMul cfg.ackTimeoutSeconds 1000) m.lastAttemptMs

/-- Whether the call ends in `persist`. -/
def persists (d : SmsFile) : Mutation → Bool
  | .noteKnown issi => cfg.enabled && !d.knownIssis.contains issi
  | .op (.store id sourceIssi destination lengthBits data now) =>
    match (d.store cfg id sourceIssi destination lengthBits data now).2 with
    | .stored _ => true
    | _ => false
  | .op (.takeNextDue issi force now uuid) => (d.takeNextDue cfg issi force now uuid).isSome
  | .op (.release uuid) => (d.attemptOf uuid).isSome
  | .op (.onReport uuid) => (d.attemptOf uuid).isSome
  | .op (.sweep now) => cfg.enabled && d.messages.any fun m => isFreed cfg now m || Expired cfg now m || Failed cfg now m
  | .op (.delete id) => decide ((d.delete id).messages.length ≠ d.messages.length)
  | .imported _ => true

variable {cfg} {d : SmsFile}

theorem noteKnown_of_contains {issi : UInt32} (h : d.persists cfg (.noteKnown issi) = false) :
    d.noteKnown cfg issi = d := by
  unfold SmsFile.noteKnown
  split
  · next hon =>
    rw [SmsFile.persists, hon, Bool.true_and, Bool.not_eq_false'] at h
    have hmem : issi ∈ d.knownIssis := Std.ExtTreeSet.contains_iff_mem.mp h
    have hset : d.knownIssis.insert issi = d.knownIssis :=
      FinSet.ext fun k => ⟨fun hk => (FinSet.mem_insert.mp hk).elim (fun e => e ▸ hmem) id,
        fun hk => FinSet.mem_insert.mpr (.inr hk)⟩
    rw [hset]
  · rfl

theorem store_or_stored (id : Uuid) (source destination : UInt32) (lengthBits : UInt16) (data : Bytes) (now : UInt64) :
    (d.store cfg id source destination lengthBits data now).1 = d ∨
      ∃ m, (d.store cfg id source destination lengthBits data now).2 = .stored m := by
  unfold SmsFile.store
  split
  · exact .inl rfl
  · split
    · exact .inl rfl
    · split
      · exact .inl rfl
      · split
        · exact .inl rfl
        · split
          · exact .inl rfl
          · dsimp only
            split
            · exact .inl rfl
            · exact .inr ⟨_, rfl⟩

theorem store_of_not_stored {id : Uuid} {source destination : UInt32} {lengthBits : UInt16} {data : Bytes}
    {now : UInt64} (h : d.persists cfg (.op (.store id source destination lengthBits data now)) = false) :
    (d.store cfg id source destination lengthBits data now).1 = d := by
  rcases @store_or_stored cfg d id source destination lengthBits data now with hsame | ⟨m, hm⟩
  · exact hsame
  · rw [SmsFile.persists, hm] at h
    cases h

/-- A sweep that frees nothing and drops nothing keeps the queue. -/
theorem sweep_of_untouched {now : UInt64} (h : d.persists cfg (.op (.sweep now)) = false) :
    (d.sweep cfg now).1 = d := by
  by_cases hon : cfg.enabled = true
  · rw [SmsFile.persists, hon, Bool.true_and, List.any_eq_false] at h
    have hkept : ∀ m ∈ d.messages, Kept cfg now m = true := fun m hm => by
      have hm := h m hm
      simp only [Bool.or_eq_true, not_or, Bool.not_eq_true] at hm
      rw [Kept, hm.1.2, hm.2]
      rfl
    have hfree : ∀ m ∈ d.messages, free cfg now m = m := fun m hm => by
      have hm := h m hm
      simp only [Bool.or_eq_true, not_or] at hm
      exact if_neg hm.1.1
    rw [sweep_parts d hon]
    have hall : (d.messages.filter (Kept cfg now)).map (free cfg now) = d.messages := by
      rw [List.filter_eq_self.mpr hkept]
      exact (List.map_congr_left hfree).trans (List.map_id _)
    dsimp only
    rw [hall]
  · rw [SmsFile.sweep, if_pos (by rw [Bool.not_eq_true] at hon; rw [hon]; rfl)]

/-- Every call that changes the queue counts the revision up. -/
theorem mutate_of_not_persists {m : Mutation} (h : d.persists cfg m = false) : d.mutate cfg m = d := by
  cases m with
  | noteKnown issi => exact noteKnown_of_contains h
  | imported file => cases h
  | op op =>
    cases op with
    | store id source destination lengthBits data now => exact store_of_not_stored h
    | takeNextDue issi force now uuid =>
      have hnone : d.takeNextDue cfg issi force now uuid = none :=
        Option.isNone_iff_eq_none.mp (Option.isSome_eq_false_iff.mp h)
      rw [SmsFile.mutate, SmsFile.apply, hnone]
      rfl
    | release uuid =>
      have hnone : d.attemptOf uuid = none := Option.isNone_iff_eq_none.mp (Option.isSome_eq_false_iff.mp h)
      rw [SmsFile.mutate, SmsFile.apply, SmsFile.release, hnone]
    | onReport uuid =>
      have hnone : d.attemptOf uuid = none := Option.isNone_iff_eq_none.mp (Option.isSome_eq_false_iff.mp h)
      rw [SmsFile.mutate, SmsFile.apply, SmsFile.onReport, hnone]
    | sweep now => exact sweep_of_untouched h
    | delete id =>
      have hlen : (d.delete id).messages.length = d.messages.length := not_not.mp (of_decide_eq_false h)
      have hsame : (d.messages.filter fun m => m.id ≠ id) = d.messages := List.filter_sublist.eq_of_length hlen
      rw [SmsFile.mutate, SmsFile.apply, SmsFile.delete, hsame]

end SmsFile

/-! ## Calls and serving loops -/

/-- Where a call that holds the lock stands. -/
inductive Section
  /-- The queue is changed and the revision is still to be counted up. -/
  | changed
  | counted

/-- Where an iteration of a serving loop stands. `at_` tells which change the
revision it read is the count of. -/
inductive Stage
  | polling
  | differs (rev : UInt64) (at_ : ℕ)
  | exported (rev : UInt64) (at_ : ℕ) (file : SmsFile)
  | sent (rev : UInt64) (at_ : ℕ)

/-- The loop of one connection. -/
structure Loop where
  wantSms : Bool
  smsRev : UInt64 := 0
  stage : Stage := .polling
  /-- The last snapshot sent. -/
  sent : Option SmsFile := none
  /-- The change that `smsRev` is the count of. -/
  readAt : ℕ := 0

structure Feed where
  data : SmsFile
  revision : UInt64 := 1
  lock : Option Section := none
  loops : FinMap ℕ Loop := ∅
  /-- The revision as it would be if it never wrapped. -/
  changes : ℕ := 1

inductive Move
  | call (m : Mutation)
  /-- `fetch_add` in `persist`. -/
  | count
  | unlock
  | connect (id : ℕ) (wantSms : Bool)
  | read (id : ℕ)
  | export (id : ℕ)
  | send (id : ℕ)
  | remember (id : ℕ)
  /-- A send fails, or the node is no longer active. -/
  | drop (id : ℕ)

namespace Feed

def setLoop (w : Feed) (id : ℕ) (l : Loop) : Feed := { w with loops := w.loops.insert id l }

/-- One step; a step that cannot be taken changes nothing. -/
def next (cfg : SmsCenterConfig) (w : Feed) : Move → Feed
  | .call m =>
    match w.lock with
    | none =>
      { w with
        data := w.data.mutate cfg m
        lock := some (if w.data.persists cfg m then .changed else .counted) }
    | some _ => w
  | .count =>
    match w.lock with
    | some .changed => { w with revision := w.revision + 1, changes := w.changes + 1, lock := some .counted }
    | _ => w
  | .unlock =>
    match w.lock with
    | some .counted => { w with lock := none }
    | _ => w
  | .connect id wantSms => w.setLoop id { wantSms }
  | .drop id => { w with loops := w.loops.erase id }
  | .read id =>
    match w.loops[id]? with
    | some l =>
      match l.stage with
      | .polling =>
        if l.wantSms && cfg.enabled && w.revision ≠ l.smsRev then
          w.setLoop id { l with stage := .differs w.revision w.changes }
        else w
      | _ => w
    | none => w
  | .export id =>
    match w.loops[id]? with
    | some l =>
      match l.stage, w.lock with
      | .differs rev at_, none => w.setLoop id { l with stage := .exported rev at_ w.data }
      | _, _ => w
    | none => w
  | .send id =>
    match w.loops[id]? with
    | some l =>
      match l.stage with
      | .exported rev at_ file => w.setLoop id { l with stage := .sent rev at_, sent := some file }
      | _ => w
    | none => w
  | .remember id =>
    match w.loops[id]? with
    | some l =>
      match l.stage with
      | .sent rev at_ => w.setLoop id { l with stage := .polling, smsRev := rev, readAt := at_ }
      | _ => w
    | none => w

/-- What was taken no earlier than at change `n` is current unless a change came since. -/
structure Copy (w : Feed) (n : ℕ) (file : Option SmsFile) : Prop where
  le : n ≤ w.changes
  current : n = w.changes → w.lock ≠ some .changed → file = some w.data

end Feed

/-- What a loop remembers, and what it is about to remember. -/
structure Loop.Sound (w : Feed) (l : Loop) : Prop where
  remembered : l.smsRev = UInt64.ofNat l.readAt
  polling : l.stage = .polling → w.Copy l.readAt l.sent
  differs : ∀ rev n, l.stage = .differs rev n → rev = UInt64.ofNat n ∧ n ≤ w.changes
  exported : ∀ rev n file, l.stage = .exported rev n file → rev = UInt64.ofNat n ∧ w.Copy n (some file)
  sent : ∀ rev n, l.stage = .sent rev n → rev = UInt64.ofNat n ∧ w.Copy n l.sent

namespace Feed

structure Sound (w : Feed) : Prop where
  revision : w.revision = UInt64.ofNat w.changes
  started : 1 ≤ w.changes
  loops : ∀ (id : ℕ) (l : Loop), w.loops[id]? = some l → l.Sound w

/-- As long as nothing is counted, what is unlocked is what it was. -/
structure Later (w w' : Feed) : Prop where
  le : w.changes ≤ w'.changes
  same : w'.changes = w.changes → w'.lock ≠ some .changed → w.lock ≠ some .changed ∧ w'.data = w.data

end Feed

section Steps

variable {cfg : SmsCenterConfig} {w w' : Feed} {n : ℕ} {file : Option SmsFile} {l : Loop} {id : ℕ}

theorem Feed.Copy.later (h : w.Copy n file) (hl : w.Later w') : w'.Copy n file where
  le := h.le.trans hl.le
  current hn hlock := by
    have hsame : w'.changes = w.changes := le_antisymm (hn ▸ h.le) hl.le
    obtain ⟨hw, hdata⟩ := hl.same hsame hlock
    rw [hdata]
    exact h.current (hn.trans hsame) hw

theorem Loop.Sound.later (h : l.Sound w) (hl : w.Later w') : l.Sound w' where
  remembered := h.remembered
  polling hs := (h.polling hs).later hl
  differs rev n hs := (h.differs rev n hs).imp_right fun hle => hle.trans hl.le
  exported rev n file hs := (h.exported rev n file hs).imp_right fun hc => hc.later hl
  sent rev n hs := (h.sent rev n hs).imp_right fun hc => hc.later hl

namespace Feed

/-- A step of a call. -/
theorem Sound.later (h : w.Sound) (hl : w.Later w') (hloops : w'.loops = w.loops)
    (hrev : w'.revision = UInt64.ofNat w'.changes) : w'.Sound where
  revision := hrev
  started := h.started.trans hl.le
  loops i k hk := by
    rw [hloops] at hk
    exact (h.loops i k hk).later hl

/-- A step of a loop. -/
theorem Sound.setLoop (h : w.Sound) (hl : l.Sound w) : (w.setLoop id l).Sound where
  revision := h.revision
  started := h.started
  loops i k hk := by
    have hkw : k.Sound w := by
      rw [Feed.setLoop, FinMap.getElem?_insert] at hk
      split at hk
      · exact Option.some.inj hk ▸ hl
      · exact h.loops i k hk
    exact hkw.later ⟨le_refl _, fun _ hlock => ⟨hlock, rfl⟩⟩

theorem Sound.drop (h : w.Sound) : Feed.Sound { w with loops := w.loops.erase id } where
  revision := h.revision
  started := h.started
  loops i k hk := by
    have hkw : k.Sound w := by
      rw [FinMap.getElem?_erase] at hk
      split at hk
      · cases hk
      · exact h.loops i k hk
    exact hkw.later ⟨le_refl _, fun _ hlock => ⟨hlock, rfl⟩⟩

theorem sound_connect (h : w.Sound) (wantSms : Bool) : Loop.Sound w { wantSms } where
  remembered := rfl
  polling _ := ⟨Nat.zero_le _, fun hn _ => absurd hn (Nat.ne_of_lt h.started)⟩
  differs _ _ hs := by cases hs
  exported _ _ _ hs := by cases hs
  sent _ _ hs := by cases hs

/-- The revision that is read is the count of the last change. -/
theorem Sound.read (h : w.Sound) (hl : l.Sound w) :
    Loop.Sound w { l with stage := .differs w.revision w.changes } where
  remembered := hl.remembered
  polling hs := by cases hs
  differs rev n hs := by
    cases hs
    exact ⟨h.revision, le_refl _⟩
  exported _ _ _ hs := by cases hs
  sent _ _ hs := by cases hs

/-- The export comes after the read. -/
theorem sound_export {rev : UInt64} (hl : l.Sound w) (hs : l.stage = .differs rev n) :
    Loop.Sound w { l with stage := .exported rev n w.data } where
  remembered := hl.remembered
  polling hs := by cases hs
  differs _ _ hs := by cases hs
  exported rev' n' file hs' := by
    cases hs'
    obtain ⟨hrev, hle⟩ := hl.differs rev n hs
    exact ⟨hrev, hle, fun _ _ => rfl⟩
  sent _ _ hs := by cases hs

theorem sound_send {rev : UInt64} {file : SmsFile} (hl : l.Sound w) (hs : l.stage = .exported rev n file) :
    Loop.Sound w { l with stage := .sent rev n, sent := some file } where
  remembered := hl.remembered
  polling hs := by cases hs
  differs _ _ hs := by cases hs
  exported _ _ _ hs := by cases hs
  sent rev' n' hs' := by
    cases hs'
    exact hl.exported rev n file hs

theorem sound_remember {rev : UInt64} (hl : l.Sound w) (hs : l.stage = .sent rev n) :
    Loop.Sound w { l with stage := .polling, smsRev := rev, readAt := n } where
  remembered := (hl.sent rev n hs).1
  polling _ := (hl.sent rev n hs).2
  differs _ _ hs := by cases hs
  exported _ _ _ hs := by cases hs
  sent _ _ hs := by cases hs

/-- A call that takes the lock: it will count, or it changes nothing. -/
theorem later_call (m : Mutation) (hlock : w.lock = none) :
    w.Later (w.next cfg (.call m)) := by
  rw [Feed.next, hlock]
  refine ⟨le_refl _, fun _ hl => ⟨fun hc => ?_, ?_⟩⟩
  · rw [hlock] at hc
    cases hc
  · refine SmsFile.mutate_of_not_persists (Bool.eq_false_iff.mpr fun hp => hl ?_)
    dsimp only
    rw [if_pos hp]

theorem Sound.next (h : w.Sound) (e : Move) : (w.next cfg e).Sound := by
  cases e with
  | call m =>
    cases hlock : w.lock with
    | none =>
      refine h.later (later_call m hlock) ?_ ?_
      · rw [Feed.next, hlock]
      · rw [Feed.next, hlock]
        exact h.revision
    | some s =>
      rw [Feed.next, hlock]
      exact h
  | count =>
    rw [Feed.next]
    split
    · refine h.later ⟨Nat.le_succ _, fun hc => absurd hc (Nat.succ_ne_self _)⟩ rfl ?_
      dsimp only
      rw [h.revision, UInt64.ofNat_add]
      rfl
    · exact h
  | unlock =>
    rw [Feed.next]
    split
    · next hlock =>
      refine h.later ⟨le_refl _, fun _ _ => ⟨?_, rfl⟩⟩ rfl h.revision
      rw [hlock]
      exact fun hs => by cases hs
    · exact h
  | connect id wantSms => exact h.setLoop (sound_connect h wantSms)
  | drop id => exact h.drop
  | read id =>
    rw [Feed.next]
    split
    · next l hl =>
      split
      · split
        · exact h.setLoop (h.read (h.loops id l hl))
        · exact h
      · exact h
    · exact h
  | «export» id =>
    rw [Feed.next]
    split
    · next l hl =>
      split
      · next hs _ => exact h.setLoop (sound_export (h.loops id l hl) hs)
      · exact h
    · exact h
  | send id =>
    rw [Feed.next]
    split
    · next l hl =>
      split
      · next hs => exact h.setLoop (sound_send (h.loops id l hl) hs)
      · exact h
    · exact h
  | remember id =>
    rw [Feed.next]
    split
    · next l hl =>
      split
      · next hs => exact h.setLoop (sound_remember (h.loops id l hl) hs)
      · exact h
    · exact h

theorem sound_init (data : SmsFile) : Feed.Sound { data } where
  revision := rfl
  started := le_refl 1
  loops i k hk := by
    rw [show (∅ : FinMap ℕ Loop)[i]? = none from Std.ExtTreeMap.getElem?_empty] at hk
    cases hk

end Feed

end Steps

/-- States of any interleaving of calls and serving loops. -/
abbrev Interleaved (cfg : SmsCenterConfig) (data : SmsFile) (w : Feed) : Prop :=
  Reach { data } (fun _ _ => True) (Feed.next cfg) w

/-- When no call and no iteration is under way and a loop remembers the current
revision, the last snapshot it sent is the queue, unless the revision has gone
round since it was read. -/
theorem sent_of_revision {cfg : SmsCenterConfig} {data : SmsFile} {w : Feed} (h : Interleaved cfg data w) {id : ℕ}
    {l : Loop} (hl : w.loops[id]? = some l) (hlock : w.lock = none) (hidle : l.stage = .polling)
    (hrev : l.smsRev = w.revision) (hround : w.changes < l.readAt + 2 ^ 64) : l.sent = some w.data := by
  have hw : w.Sound := h.invariant (Feed.sound_init data) fun w e hw _ => hw.next e
  have hsound : l.Sound w := hw.loops id l hl
  have hcopy : w.Copy l.readAt l.sent := hsound.polling hidle
  rw [hsound.remembered, hw.revision] at hrev
  have hmod : l.readAt % 2 ^ 64 = w.changes % 2 ^ 64 := by
    have h := congrArg UInt64.toNat hrev
    rwa [UInt64.toNat_ofNat', UInt64.toNat_ofNat'] at h
  have hle := hcopy.le
  refine hcopy.current (by omega) ?_
  rw [hlock]
  exact fun hs => by cases hs

/-- One ISSI registers, and the loop sends the queue twice. -/
theorem sent_of_revision_twice :
    let round := [Move.read 1, .export 1, .send 1, .remember 1]
    let es := [Move.connect 1 true] ++ round ++ [.call (.noteKnown 1001), .count, .unlock] ++ round
    let w := es.foldl (Feed.next {}) { data := {} }
    ∃ l, w.loops[1]? = some l ∧ l.smsRev = 2 ∧ l.sent = some w.data := by
  refine ⟨_, rfl, rfl, ?_⟩
  exact @sent_of_revision {} {} _ (.of_list _ .init (by decide +kernel)) 1 _ rfl rfl rfl rfl (by decide +kernel)

/-! ### The revision goes round -/

/-- An import of `file` that is done `n` times. -/
def importsOf (w : Feed) (file : SmsFile) (n : ℕ) : Feed :=
  { w with data := file, revision := w.revision + UInt64.ofNat n, changes := w.changes + n }

theorem reach_imports {cfg : SmsCenterConfig} {data file : SmsFile} {w : Feed} (h : Interleaved cfg data w)
    (hlock : w.lock = none) (hdata : w.data = file) (n : ℕ) : Interleaved cfg data (importsOf w file n) := by
  induction n with
  | zero =>
    have hsame : importsOf w file 0 = w := by
      obtain ⟨d, r, lk, ls, c⟩ := w
      obtain rfl : d = file := hdata
      simp [importsOf]
    rw [hsame]
    exact h
  | succ n ih =>
    have hstep : [Move.call (.imported file), .count, .unlock].foldl (Feed.next cfg) (importsOf w file n) =
        importsOf w file (n + 1) := by
      obtain ⟨d, r, lk, ls, c⟩ := w
      obtain rfl : lk = none := hlock
      simp [importsOf, Feed.next, SmsFile.mutate, SmsFile.persists, UInt64.ofNat_add, Nat.add_assoc, UInt64.add_assoc]
    rw [← hstep]
    exact .step (e := .unlock) (.step (e := .count) (.step (e := .call (.imported file)) ih trivial) trivial) trivial

/-- A snapshot is sent, then the queue is replaced once for every revision. -/
theorem stale_after_wrap :
    ¬ ∀ (w : Feed) (id : ℕ) (l : Loop), Interleaved {} { knownIssis := FinSet.ofList [1001] } w →
      w.loops[id]? = some l → w.lock = none → l.stage = .polling → l.smsRev = w.revision → l.sent = some w.data := by
  intro h
  have hrun : Interleaved {} { knownIssis := FinSet.ofList [1001] } _ :=
    .of_list [.connect 1 true, .read 1, .export 1, .send 1, .remember 1, .call (.imported {}), .count, .unlock] .init
      (by decide +kernel)
  have hround := reach_imports hrun rfl rfl (2 ^ 64 - 1)
  have hsent := h _ 1 _ hround rfl rfl rfl (by decide +kernel)
  have hissis := congrArg (fun f => f.map fun f => f.knownIssis.toList) hsent
  revert hissis
  decide +kernel

end BrewServer.Sms
