import BrewServer.Fedroute.Adverts

/-!
# The sequence numbers of a server's own adverts

A sequence number comes from the clock and from the entry kept for the key. A
withdrawal removes that entry, so what comes after it has only the clock.
-/

namespace BrewServer.Fedroute

open Protocol

/-! ## One key -/

/-- What the last advert for a key left at its origin. -/
inductive Standing
  | unheard
  | held (seq : UInt64)
  | withdrawn (seq : UInt64)

/-- An operation on a key that the origin does not turn away. -/
inductive Change
  | advertise (nowMs : UInt64)
  | withdraw (nowMs : UInt64)

namespace Standing

/-- What the origin's table keeps of it. -/
def kept : Standing → Option UInt64
  | .held seq => some seq
  | .unheard | .withdrawn _ => none

/-- The number of the last advert. -/
def last : Standing → Option UInt64
  | .unheard => none
  | .held seq | .withdrawn seq => some seq

/-- The number of the advert a change sends; a withdrawal of nothing sends none. -/
def issue (st : Standing) : Change → Option UInt64
  | .advertise nowMs => some (nextSeq st.kept nowMs)
  | .withdraw nowMs => st.kept.map fun seq => nextSeq (some seq) nowMs

def after (st : Standing) : Change → Standing
  | .advertise nowMs => .held (nextSeq st.kept nowMs)
  | .withdraw nowMs =>
    match st with
    | .held seq => .withdrawn (nextSeq (some seq) nowMs)
    | st => st

/-- The entry kept is below the largest number; after a withdrawal the clock is
past the number of that withdrawal. -/
def Ahead : Standing → Change → Prop
  | .unheard, _ => True
  | .held seq, _ => seq < u64Max
  | .withdrawn seq, .advertise nowMs => seq < nowMs
  | .withdrawn _, .withdraw _ => True

def issued (st : Standing) : List Change → List UInt64
  | [] => []
  | c :: cs => (st.issue c).toList ++ (st.after c).issued cs

def AlwaysAhead (st : Standing) : List Change → Prop
  | [] => True
  | c :: cs => st.Ahead c ∧ (st.after c).AlwaysAhead cs

instance : (st : Standing) → (c : Change) → Decidable (st.Ahead c)
  | .unheard, _ => isTrue trivial
  | .held seq, _ => inferInstanceAs (Decidable (seq < u64Max))
  | .withdrawn seq, .advertise nowMs => inferInstanceAs (Decidable (seq < nowMs))
  | .withdrawn _, .withdraw _ => isTrue trivial

instance decidableAlwaysAhead (st : Standing) : (cs : List Change) → Decidable (st.AlwaysAhead cs)
  | [] => isTrue trivial
  | c :: cs =>
    have := decidableAlwaysAhead (st.after c) cs
    inferInstanceAs (Decidable (st.Ahead c ∧ (st.after c).AlwaysAhead cs))

/-- Every number is above those before it, the last advert's included. -/
def Rising (st : Standing) (cs : List Change) : Prop := (st.last.toList ++ st.issued cs).Pairwise (· < ·)

variable {st : Standing} {c : Change} {cs : List Change}

theorem lt_nextSeq_held {seq nowMs : UInt64} : seq < nextSeq (some seq) nowMs ↔ seq < u64Max := by
  have hmax : u64Max.toNat = 2 ^ 64 - 1 := rfl
  have h1 : (1 : UInt64).toNat = 1 := rfl
  have hlt := nowMs.toNat_lt
  have hseq := seq.toNat_lt
  rw [UInt64.lt_iff_toNat_lt, UInt64.lt_iff_toNat_lt, nextSeq, toNat_maxU64, toNat_satAdd, Option.getD_some, h1]
  -- at the largest number neither the clock nor the next number is above it
  omega

theorem lt_nextSeq_none {seq nowMs : UInt64} (h : 0 < seq) : seq < nextSeq none nowMs ↔ seq < nowMs := by
  have h0 : (0 : UInt64).toNat = 0 := rfl
  have h1 : (1 : UInt64).toNat = 1 := rfl
  have hpos := UInt64.lt_iff_toNat_lt.mp h
  rw [UInt64.lt_iff_toNat_lt, UInt64.lt_iff_toNat_lt, nextSeq, toNat_maxU64, toNat_satAdd, Option.getD_none, h0, h1]
  omega

theorem nextSeq_pos (held : Option UInt64) (nowMs : UInt64) : 0 < nextSeq held nowMs := by
  have h0 : (0 : UInt64).toNat = 0 := rfl
  have h1 : (1 : UInt64).toNat = 1 := rfl
  rw [UInt64.lt_iff_toNat_lt, nextSeq, toNat_maxU64, toNat_satAdd, h0, h1]
  omega

/-- No number handed out is zero. -/
def Numbered (st : Standing) : Prop := ∀ seq ∈ st.last, 0 < seq

theorem numbered_after (h : st.Numbered) : (st.after c).Numbered := by
  intro seq hseq
  cases c with
  | advertise nowMs =>
    obtain rfl : _ = seq := Option.some.inj hseq
    exact nextSeq_pos _ _
  | withdraw nowMs =>
    cases st with
    | unheard => cases hseq
    | held old =>
      obtain rfl : _ = seq := Option.some.inj hseq
      exact nextSeq_pos _ _
    | withdrawn old => exact h seq hseq

/-- One change: the number it hands out is above the last one exactly when the
origin is ahead, and becomes the last one. -/
theorem issue_spec (h : st.Numbered) :
    ((∀ p ∈ st.last, ∀ n ∈ st.issue c, p < n) ↔ st.Ahead c) ∧
      (st.after c).last = (st.issue c).or st.last := by
  cases st with
  | unheard => cases c <;> simp [issue, last, Ahead, after, kept]
  | held seq => cases c <;> simp [issue, last, Ahead, after, kept, lt_nextSeq_held]
  | withdrawn seq =>
    have hpos : 0 < seq := h seq rfl
    cases c <;> simp [issue, last, Ahead, after, kept, lt_nextSeq_none hpos]

theorem rising_cons (h : st.Numbered) : st.Rising (c :: cs) ↔ st.Ahead c ∧ (st.after c).Rising cs := by
  obtain ⟨hahead, hlast⟩ := @issue_spec st c h
  rw [Rising, Rising, ← hahead, hlast, issued]
  cases hp : st.last with
  | none => cases hn : st.issue c <;> simp
  | some p =>
    cases hn : st.issue c with
    | none => simp
    | some n =>
      simp only [Option.toList_some, List.singleton_append, Option.mem_some_iff, forall_eq', Option.some_or,
        List.pairwise_cons, List.mem_cons]
      constructor
      · rintro ⟨hp, hn⟩
        exact ⟨hp n (.inl rfl), hn⟩
      · rintro ⟨hpn, hn⟩
        refine ⟨fun m hm => ?_, hn⟩
        rcases hm with rfl | hm
        · exact hpn
        · exact UInt64.lt_trans hpn (hn.1 m hm)

/-- A run's numbers rise exactly when the origin is ahead at every change. -/
theorem rising_iff (h : st.Numbered) : st.Rising cs ↔ st.AlwaysAhead cs := by
  induction cs generalizing st with
  | nil => cases hl : st.last <;> simp [Rising, AlwaysAhead, issued, hl]
  | cons c cs ih => rw [rising_cons h, AlwaysAhead, ih (numbered_after h)]

end Standing

/-! ## The operations of an origin -/

/-- A server's operations on its own adverts. -/
inductive LocalOp
  | bts (nowMs : UInt64) (key name : String) (lat lon : F64) (online : Bool)
  | emergency (nowMs : UInt64) (issi : UInt32) (dest : Option UInt32) (station : String) (active : Bool)

namespace LocalOp

def run (s : Inner) : LocalOp → Inner × Sends
  | .bts nowMs key name lat lon online => advertiseBts s nowMs key name lat lon online
  | .emergency nowMs issi dest station active => advertiseEmergency s nowMs issi dest station active

/-- The Basestation advert an operation relays. -/
def btsAdvert (s : Inner) : LocalOp → Option BtsAdvert
  | .bts nowMs key name lat lon online =>
    if (if online then validPosition lat lon else decide (key ∈ s.fed.btsLocal)) then
      some { key, name, lat, lon, online, seq := nextSeq ((s.fed.btsLocal[key]?).map (·.seq)) nowMs, path := [] }
    else none
  | .emergency .. => none

/-- The emergency advert an operation relays. -/
def emAdvert (s : Inner) : LocalOp → Option EmAdvert
  | .emergency nowMs issi dest station active =>
    if active || decide (issi ∈ s.fed.emLocal) then
      some { issi, dest, bts := station, active, seq := nextSeq ((s.fed.emLocal[issi]?).map (·.seq)) nowMs, path := [] }
    else none
  | .bts .. => none

/-- An operation sends its advert to the links and nothing else. -/
theorem run_sends (s : Inner) (op : LocalOp) :
    (op.run s).2 = (op.btsAdvert s).elim [] (relayBts (op.run s).1 none) ++
      (op.emAdvert s).elim [] (relayEm (op.run s).1 none) := by
  cases op with
  | bts nowMs key name lat lon online =>
    cases online with
    | true => by_cases h : validPosition lat lon <;> simp [run, advertiseBts, btsAdvert, emAdvert, h, nextSeq]
    | false => by_cases h : key ∈ s.fed.btsLocal <;> simp [run, advertiseBts, btsAdvert, emAdvert, h, nextSeq]
  | emergency nowMs issi dest station active =>
    cases active with
    | true => simp [run, advertiseEmergency, btsAdvert, emAdvert, nextSeq]
    | false => by_cases h : issi ∈ s.fed.emLocal <;> simp [run, advertiseEmergency, btsAdvert, emAdvert, h, nextSeq]

/-- What an operation asks of a Basestation key. -/
def btsChange (k : String) : LocalOp → Option Change
  | .bts nowMs key _ lat lon online =>
    if key ≠ k then none
    else if online then if validPosition lat lon then some (.advertise nowMs) else none
    else some (.withdraw nowMs)
  | .emergency .. => none

/-- What an operation asks of an ISSI's alarm. -/
def emChange (k : UInt32) : LocalOp → Option Change
  | .emergency nowMs issi _ _ active =>
    if issi ≠ k then none else if active then some (.advertise nowMs) else some (.withdraw nowMs)
  | .bts .. => none

end LocalOp

/-- The Basestation adverts for one key that a run of operations sends. -/
def btsAdverts (k : String) (s : Inner) : List LocalOp → List BtsAdvert
  | [] => []
  | op :: ops => ((op.btsAdvert s).filter (·.key = k)).toList ++ btsAdverts k (op.run s).1 ops

/-- The emergency adverts for one ISSI that a run of operations sends. -/
def emAdverts (k : UInt32) (s : Inner) : List LocalOp → List EmAdvert
  | [] => []
  | op :: ops => ((op.emAdvert s).filter (·.issi = k)).toList ++ emAdverts k (op.run s).1 ops

section OneKey

variable {s : Inner} {op : LocalOp} {k : String} {i : UInt32} {st : Standing}

def heldBts (s : Inner) (k : String) : Option UInt64 := (s.fed.btsLocal[k]?).map (·.seq)

def heldEm (s : Inner) (k : UInt32) : Option UInt64 := (s.fed.emLocal[k]?).map (·.seq)

/-- Withdrawing what is not held changes nothing. -/
theorem Standing.withdraw_none {nowMs : UInt64} (h : st.kept = none) :
    st.issue (.withdraw nowMs) = none ∧ st.after (.withdraw nowMs) = st := by
  cases st with
  | unheard => exact ⟨rfl, rfl⟩
  | held seq => cases h
  | withdrawn seq => exact ⟨rfl, rfl⟩

theorem Standing.withdraw_some {nowMs seq : UInt64} (h : st.kept = some seq) :
    st.issue (.withdraw nowMs) = some (nextSeq (some seq) nowMs) ∧ (st.after (.withdraw nowMs)).kept = none := by
  cases st with
  | unheard => cases h
  | held old => exact ⟨congrArg (fun held => some (nextSeq held nowMs)) h, rfl⟩
  | withdrawn old => cases h

/-- An operation moves a Basestation key as its change says. -/
theorem btsStep (h : heldBts s k = st.kept) :
    ((op.btsAdvert s).filter (·.key = k)).map (·.seq) = (op.btsChange k).bind st.issue ∧
      heldBts (op.run s).1 k = ((op.btsChange k).elim st st.after).kept := by
  cases op with
  | emergency nowMs issi dest station active =>
    have hsame : heldBts (LocalOp.run s (.emergency nowMs issi dest station active)).1 k = heldBts s k := by
      simp only [LocalOp.run, advertiseEmergency, heldBts]
      split
      · rfl
      · split <;> rfl
    exact ⟨rfl, hsame.trans h⟩
  | bts nowMs key name lat lon online =>
    by_cases hk : key = k
    · subst hk
      rw [heldBts] at h
      cases online with
      | true =>
        by_cases hv : validPosition lat lon = true
        · simp [LocalOp.btsAdvert, LocalOp.btsChange, LocalOp.run, advertiseBts, heldBts, hv, h, Standing.issue,
            Standing.after, Standing.kept, nextSeq]
        · simp [LocalOp.btsAdvert, LocalOp.btsChange, LocalOp.run, advertiseBts, heldBts, hv, h]
      | false =>
        by_cases hm : key ∈ s.fed.btsLocal
        · obtain ⟨b, hb⟩ := FinMap.mem_iff.mp hm
          rw [hb] at h
          obtain ⟨hissue, hafter⟩ := @Standing.withdraw_some st nowMs _ h.symm
          obtain rfl : s.fed.btsLocal[key] = b := by simpa [hm] using hb
          simp [LocalOp.btsAdvert, LocalOp.btsChange, LocalOp.run, advertiseBts, heldBts, hm, hissue, hafter, nextSeq]
        · have hnone : s.fed.btsLocal[key]? = none := by simpa using hm
          rw [hnone] at h
          obtain ⟨hissue, hafter⟩ := @Standing.withdraw_none st nowMs h.symm
          simp [LocalOp.btsAdvert, LocalOp.btsChange, LocalOp.run, advertiseBts, heldBts, hm, hissue, hafter, ← h]
    · have hother : heldBts (LocalOp.run s (.bts nowMs key name lat lon online)).1 k = heldBts s k := by
        simp only [LocalOp.run, advertiseBts, heldBts]
        split
        · split
          · rfl
          · rw [FinMap.getElem?_insert, if_neg hk]
        · split
          · rfl
          · rw [FinMap.getElem?_erase, if_neg hk]
      have hchange : LocalOp.btsChange k (.bts nowMs key name lat lon online) = none := if_pos hk
      rw [hchange, hother, h]
      refine ⟨?_, rfl⟩
      rw [LocalOp.btsAdvert]
      split <;> simp [hk]

/-- An operation moves an ISSI's alarm as its change says. -/
theorem emStep (h : heldEm s i = st.kept) :
    ((op.emAdvert s).filter (·.issi = i)).map (·.seq) = (op.emChange i).bind st.issue ∧
      heldEm (op.run s).1 i = ((op.emChange i).elim st st.after).kept := by
  cases op with
  | bts nowMs key name lat lon online =>
    have hsame : heldEm (LocalOp.run s (.bts nowMs key name lat lon online)).1 i = heldEm s i := by
      simp only [LocalOp.run, advertiseBts, heldEm]
      split
      · split <;> rfl
      · split <;> rfl
    exact ⟨rfl, hsame.trans h⟩
  | emergency nowMs issi dest station active =>
    by_cases hi : issi = i
    · subst hi
      rw [heldEm] at h
      cases active with
      | true =>
        simp [LocalOp.emAdvert, LocalOp.emChange, LocalOp.run, advertiseEmergency, heldEm, h, Standing.issue,
          Standing.after, Standing.kept, nextSeq]
      | false =>
        by_cases hm : issi ∈ s.fed.emLocal
        · obtain ⟨e, he⟩ := FinMap.mem_iff.mp hm
          rw [he] at h
          obtain ⟨hissue, hafter⟩ := @Standing.withdraw_some st nowMs _ h.symm
          obtain rfl : s.fed.emLocal[issi] = e := by simpa [hm] using he
          simp [LocalOp.emAdvert, LocalOp.emChange, LocalOp.run, advertiseEmergency, heldEm, hm, hissue, hafter,
            nextSeq]
        · have hnone : s.fed.emLocal[issi]? = none := by simpa using hm
          rw [hnone] at h
          obtain ⟨hissue, hafter⟩ := @Standing.withdraw_none st nowMs h.symm
          simp [LocalOp.emAdvert, LocalOp.emChange, LocalOp.run, advertiseEmergency, heldEm, hm, hissue, hafter, ← h]
    · have hother : heldEm (LocalOp.run s (.emergency nowMs issi dest station active)).1 i = heldEm s i := by
        simp only [LocalOp.run, advertiseEmergency, heldEm]
        split
        · rw [FinMap.getElem?_insert, if_neg hi]
        · split
          · rfl
          · rw [FinMap.getElem?_erase, if_neg hi]
      have hchange : LocalOp.emChange i (.emergency nowMs issi dest station active) = none := if_pos hi
      rw [hchange, hother, h]
      refine ⟨?_, rfl⟩
      rw [LocalOp.emAdvert]
      split <;> simp [hi]

/-- The numbers of a key's adverts are those its changes hand out. -/
theorem btsAdverts_issued (ops : List LocalOp) : ∀ {s : Inner} {st : Standing}, heldBts s k = st.kept →
    (btsAdverts k s ops).map (·.seq) = st.issued (ops.filterMap (LocalOp.btsChange k)) := by
  induction ops with
  | nil => intro s st _; rfl
  | cons op ops ih =>
    intro s st h
    obtain ⟨hseq, hheld⟩ := @btsStep s op _ _ h
    rw [btsAdverts, List.map_append, ih hheld, ← Option.toList_map, hseq, List.filterMap_cons]
    cases hc : op.btsChange k with
    | none => rfl
    | some c => rfl

theorem emAdverts_issued (ops : List LocalOp) : ∀ {s : Inner} {st : Standing}, heldEm s i = st.kept →
    (emAdverts i s ops).map (·.seq) = st.issued (ops.filterMap (LocalOp.emChange i)) := by
  induction ops with
  | nil => intro s st _; rfl
  | cons op ops ih =>
    intro s st h
    obtain ⟨hseq, hheld⟩ := @emStep s op _ _ h
    rw [emAdverts, List.map_append, ih hheld, ← Option.toList_map, hseq, List.filterMap_cons]
    cases hc : op.emChange i with
    | none => rfl
    | some c => rfl

end OneKey

/-! ## The peers -/

/-- `b` has a higher number than `a`, and a peer that holds `a` takes `b` in its
place, whichever way it comes. -/
structure BtsRenews (a b : BtsAdvert) : Prop where
  rises : a.seq < b.seq
  taken (peer : Inner) (nowMs : UInt64) (link : ClientId) (path : List UInt64) (origin : UInt64) (old : RemoteBts) :
    path.getLast? = some origin → fromSelf peer path = false → peer.fed.btsRemote[(origin, a.key)]? = some old →
    old.seq = a.seq →
    ((acceptBts peer nowMs link { b with path }).1.fed.btsRemote[(origin, b.key)]?).map (fun e => (e.seq, e.online)) =
      some (b.seq, b.online)

structure EmRenews (a b : EmAdvert) : Prop where
  rises : a.seq < b.seq
  taken (peer : Inner) (nowMs : UInt64) (link : ClientId) (path : List UInt64) (origin : UInt64) (old : RemoteEm) :
    path.getLast? = some origin → fromSelf peer path = false → peer.fed.emRemote[(origin, a.issi)]? = some old →
    old.seq = a.seq →
    ((acceptEm peer nowMs link { b with path }).1.fed.emRemote[(origin, b.issi)]?).map (fun e => (e.seq, e.active)) =
      some (b.seq, b.active)

theorem btsRenews_of_lt {a b : BtsAdvert} (hk : a.key = b.key)
    (hv : b.online = true → validPosition b.lat b.lon = true) (h : a.seq < b.seq) : BtsRenews a b := by
  refine ⟨h, ?_⟩
  intro peer nowMs link path origin old hpath hself hold hseq
  have hpos : (b.online && !validPosition b.lat b.lon) = false := by
    cases ho : b.online with
    | true => simp [hv ho]
    | false => rfl
  have hnew : ((peer.fed.btsRemote[(origin, b.key)]?).any (b.seq ≤ ·.seq)) = false := by
    rw [← hk, hold, Option.any_some, hseq]
    exact decide_eq_false (UInt64.not_le.mpr h)
  simp only [acceptBts, hpath, hself, hpos, hnew, Bool.false_eq_true, if_false]
  rw [FinMap.getElem?_insert, if_pos rfl]
  rfl

theorem emRenews_of_lt {a b : EmAdvert} (hk : a.issi = b.issi) (h : a.seq < b.seq) : EmRenews a b := by
  refine ⟨h, ?_⟩
  intro peer nowMs link path origin old hpath hself hold hseq
  have hnew : ((peer.fed.emRemote[(origin, b.issi)]?).any (b.seq ≤ ·.seq)) = false := by
    rw [← hk, hold, Option.any_some, hseq]
    exact decide_eq_false (UInt64.not_le.mpr h)
  simp only [acceptEm, hpath, hself, hnew, Bool.false_eq_true, if_false]
  rw [FinMap.getElem?_insert, if_pos rfl]
  rfl

theorem mem_btsAdverts {k : String} {a : BtsAdvert} (ops : List LocalOp) : ∀ {s : Inner}, a ∈ btsAdverts k s ops →
    a.key = k ∧ (a.online = true → validPosition a.lat a.lon = true) := by
  induction ops with
  | nil => intro s h; cases h
  | cons op ops ih =>
    intro s h
    rw [btsAdverts, List.mem_append] at h
    rcases h with h | h
    · obtain ⟨ha, hk⟩ := Option.filter_eq_some_iff.mp (Option.mem_toList.mp h)
      refine ⟨by simpa using hk, ?_⟩
      intro ho
      cases op with
      | emergency => cases ha
      | bts nowMs key name lat lon online =>
        cases online with
        | true =>
          by_cases hv : validPosition lat lon = true
          · simp only [LocalOp.btsAdvert, hv, if_true, Option.some.injEq] at ha
            rw [← ha]
            exact hv
          · simp [LocalOp.btsAdvert, hv] at ha
        | false =>
          by_cases hm : key ∈ s.fed.btsLocal
          · simp only [LocalOp.btsAdvert, hm, Bool.false_eq_true, if_false, decide_true, if_true,
              Option.some.injEq] at ha
            rw [← ha] at ho
            cases ho
          · simp [LocalOp.btsAdvert, hm] at ha
    · exact ih h

theorem mem_emAdverts {i : UInt32} {a : EmAdvert} (ops : List LocalOp) : ∀ {s : Inner}, a ∈ emAdverts i s ops →
    a.issi = i := by
  induction ops with
  | nil => intro s h; cases h
  | cons op ops ih =>
    intro s h
    rw [emAdverts, List.mem_append] at h
    rcases h with h | h
    · simpa using (Option.filter_eq_some_iff.mp (Option.mem_toList.mp h)).2
    · exact ih h

/-! ## A run of an origin -/

theorem btsAdverts_renew_iff {s : Inner} {k : String} (h : k ∉ s.fed.btsLocal) (ops : List LocalOp) :
    (btsAdverts k s ops).Pairwise BtsRenews ↔
      Standing.unheard.AlwaysAhead (ops.filterMap (LocalOp.btsChange k)) := by
  have hkept : heldBts s k = Standing.unheard.kept := by simp [heldBts, h, Standing.kept]
  have hrise := @Standing.rising_iff .unheard (ops.filterMap (LocalOp.btsChange k)) (by intro _ h; cases h)
  rw [← hrise, Standing.Rising, ← btsAdverts_issued ops hkept, Standing.last, Option.toList_none, List.nil_append,
    List.pairwise_map]
  constructor
  · exact List.Pairwise.imp fun h => h.rises
  · intro hp
    refine hp.imp_of_mem ?_
    intro a b ha hb hlt
    obtain ⟨hbk, hv⟩ := mem_btsAdverts ops hb
    exact btsRenews_of_lt ((mem_btsAdverts ops ha).1.trans hbk.symm) hv hlt

theorem emAdverts_renew_iff {s : Inner} {i : UInt32} (h : i ∉ s.fed.emLocal) (ops : List LocalOp) :
    (emAdverts i s ops).Pairwise EmRenews ↔
      Standing.unheard.AlwaysAhead (ops.filterMap (LocalOp.emChange i)) := by
  have hkept : heldEm s i = Standing.unheard.kept := by simp [heldEm, h, Standing.kept]
  have hrise := @Standing.rising_iff .unheard (ops.filterMap (LocalOp.emChange i)) (by intro _ h; cases h)
  rw [← hrise, Standing.Rising, ← emAdverts_issued ops hkept, Standing.last, Option.toList_none, List.nil_append,
    List.pairwise_map]
  constructor
  · exact List.Pairwise.imp fun h => h.rises
  · intro hp
    refine hp.imp_of_mem ?_
    intro a b ha hb hlt
    exact emRenews_of_lt ((mem_emAdverts ops ha).trans (mem_emAdverts ops hb).symm) hlt

/-- The adverts of an origin for each Basestation key and each ISSI supersede one
another in the order they are sent exactly when the origin is ahead at every
operation on it. -/
theorem adverts_renew_iff (s : Inner) (ops : List LocalOp) :
    (∀ k : String, k ∉ s.fed.btsLocal → ((btsAdverts k s ops).Pairwise BtsRenews ↔
      Standing.unheard.AlwaysAhead (ops.filterMap (LocalOp.btsChange k)))) ∧
    (∀ i : UInt32, i ∉ s.fed.emLocal → ((emAdverts i s ops).Pairwise EmRenews ↔
      Standing.unheard.AlwaysAhead (ops.filterMap (LocalOp.emChange i)))) :=
  ⟨fun _ h => btsAdverts_renew_iff h ops, fun _ h => emAdverts_renew_iff h ops⟩

/-- An alarm that comes up, is cleared and comes up again as the clock moves on. -/
def raisedAgain (nowMs : UInt64) : List LocalOp :=
  [.emergency 1000 4013 none "bts2" true, .emergency 2000 4013 none "" false,
    .emergency nowMs 4013 none "bts2" true]

theorem adverts_renew_raisedAgain : (emAdverts 4013 (Inner.empty 1) (raisedAgain 3000)).Pairwise EmRenews :=
  ((adverts_renew_iff (Inner.empty 1) (raisedAgain 3000)).2 4013 (by decide)).mpr (by decide)

/-- The same within the millisecond of its clearing: the second alarm has the
number of the clearing, and a peer that saw that drops it. -/
theorem adverts_stale_raisedAgain : ¬ (emAdverts 4013 (Inner.empty 1) (raisedAgain 2000)).Pairwise EmRenews := by
  intro h
  have hseq := h.imp fun h => h.rises
  revert hseq
  decide +kernel

end BrewServer.Fedroute
