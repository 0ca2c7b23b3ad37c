import Mathlib.Data.List.Infix
import BrewServer.Station.Sessions

/-!
# The roaming kick

What becomes of the kick that a registration starts, and to which Basestation a
`KickMs` goes, over the log of a run.
-/

namespace BrewServer.Station

/-- The Basestation of an ISSI's latest handled registration. -/
def latest (log : List Entry) (issi : UInt32) : Option String :=
  log.foldl (fun last e =>
    match e with
    | .registered issi' bts => if issi' = issi then some bts else last
    | _ => last) none

section Log

variable {log es pre : List Entry} {issi : UInt32} {e : Entry}

theorem latest_concat_registered {issi' : UInt32} {bts : String} :
    latest (log ++ [.registered issi' bts]) issi = if issi' = issi then some bts else latest log issi := by
  rw [latest, List.foldl_append]
  rfl

theorem latest_append (h : ∀ e ∈ es, ∀ bts, e ≠ .registered issi bts) :
    latest (log ++ es) issi = latest log issi := by
  induction es using List.reverseRecOn with
  | nil => rw [List.append_nil]
  | append_singleton es e ih =>
    have hes := ih fun e' he' => h e' (List.mem_append_left _ he')
    have he := h e (List.mem_append_right _ List.mem_cons_self)
    rw [← hes, ← List.append_assoc, latest, List.foldl_append]
    cases e with
    | registered issi' bts => exact if_neg fun (heq : issi' = issi) => he bts (heq ▸ rfl)
    | took | due | tried | kicked => rfl

/-- An ISSI that got to a Basestation registered there. -/
theorem registered_of_latest {bts : String} (hbefore : latest log issi ≠ some bts)
    (hafter : latest (log ++ es) issi = some bts) : .registered issi bts ∈ es := by
  by_contra hno
  induction es using List.reverseRecOn with
  | nil =>
    rw [List.append_nil] at hafter
    exact hbefore hafter
  | append_singleton es e ih =>
    refine ih ?_ fun hmem => hno (List.mem_append_left _ hmem)
    rw [← hafter, ← List.append_assoc]
    cases e with
    | registered issi' bts' =>
      rw [latest_concat_registered]
      split
      · next heq =>
        rw [← List.append_assoc, latest_concat_registered, if_pos heq] at hafter
        cases hafter
        exact absurd (List.mem_append_right es (heq ▸ List.mem_cons_self)) hno
      · rfl
    | took | due | tried | kicked => exact (latest_append (by simp)).symm

theorem prefix_append_iff (h : e ∉ es) : pre ++ [e] <+: log ++ es ↔ pre ++ [e] <+: log := by
  induction es using List.reverseRecOn with
  | nil => rw [List.append_nil]
  | append_singleton es e' ih =>
    rw [← List.append_assoc, List.prefix_concat_iff, ih fun hmem => h (List.mem_append_left _ hmem)]
    refine or_iff_right fun heq => h ?_
    rw [List.singleton_inj.mp (List.append_inj' heq rfl).2]
    exact List.mem_append_right _ List.mem_cons_self

end Log

/-- A kick that may go to a Basestation: the radio was not back when the kick fell
due, or it is not there now. -/
def Excused (log : List Entry) (n : ℕ) (issi : UInt32) (bts : String) : Prop :=
  latest log issi = some bts →
    ∃ before after, log = before ++ .due n :: after ∧ latest before issi ≠ some bts ∧ .registered issi bts ∈ after

/-- The ISSI's latest registration was back on the Basestation when the kick fell
due. -/
def BackAtDue (log : List Entry) (n : ℕ) (issi : UInt32) (bts : String) : Prop :=
  ∃ pre, pre ++ [.due n] <+: log ∧ latest pre issi = some bts

/-- What became of the kick of a Basestation an ISSI was taken away from. -/
def Settled (s : Stations) (n : ℕ) (issi : UInt32) (bts : String) : Prop :=
  (∃ k, s.kicks[n]? = some k ∧ k.issi = issi ∧ k.old = bts) ∨ .kicked n issi bts ∈ s.log ∨
    BackAtDue s.log n issi bts ∨ .tried n false ∈ s.log

structure Stations.Sound (s : Stations) : Prop where
  latest : ∀ issi : UInt32, s.lastRegistration[issi]? = latest s.log issi
  numbered : ∀ (n : ℕ) (k : Kick), s.kicks[n]? = some k → n < s.nextKick
  checked : ∀ (n : ℕ) (k : Kick), s.kicks[n]? = some k → k.checked = true →
    ∃ pre, pre ++ [.due n] <+: s.log ∧ Station.latest pre k.issi ≠ some k.old
  excused : ∀ (n : ℕ) (issi : UInt32) (bts : String) (pre : List Entry),
    pre ++ [.kicked n issi bts] <+: s.log → Excused pre n issi bts
  settled : ∀ (n : ℕ) (issi : UInt32) (bts : String), .took n issi bts ∈ s.log → Settled s n issi bts

section Taking

variable {t : SessionTable ConnId String TelemetryBts} {nowMs : UInt64} {issi : UInt32} {id : String}

theorem roam_not_registered {b : TelemetryBts} :
    (b.roam nowMs issi id).registrations.contains issi = false := by
  change (b.registrations.erase issi).contains issi = false
  rw [Bool.eq_false_iff]
  intro hc
  exact (FinSet.mem_erase.mp hc).1 rfl

/-- A registration takes the ISSI away from just the Basestations it starts kicks
for. -/
theorem lost_takeRoamed {g : String → TelemetryBts → TelemetryBts}
    (hown : ∀ b, (g id b).registrations.contains issi = true) (hother : ∀ id' b, id' ≠ id → g id' b = b) :
    lost t (takeRoamed (t.amend g) nowMs issi id).1 issi = (takeRoamed (t.amend g) nowMs issi id).2 := by
  have hlist : (t.amend g).entries.toList = t.entries.toList.map fun e => (e.1, e.2.1, g e.1 e.2.2) :=
    Std.ExtTreeMap.toList_map
  unfold lost takeRoamed
  dsimp only
  rw [hlist, ← Std.ExtTreeMap.map_fst_toList_eq_keys, List.filter_map, List.filter_map, List.map_map]
  refine congrArg (List.map Prod.fst) (List.filter_congr ?_)
  rintro ⟨k, c, b⟩ hmem
  have hget := FinMap.mem_toList.mp hmem
  simp only [Function.comp_apply, lists, SessionTable.amend, FinMap.getElem?_map, hget, Option.map_some,
    Option.any_some, leaves]
  by_cases hk : k = id
  · subst hk
    simp [hown b]
  · rw [hother k b hk]
    by_cases hc : b.registrations.contains issi = true
    · simp [hk, hc, roam_not_registered]
    · simp [hc]

variable {s : Stations} {event : TelemetryEvent}

/-- An event either leaves the kicks and the registrations, or is a registration
that starts a kick for each Basestation it takes the ISSI away from. -/
theorem handleEvent_cases :
    (∃ telemetry, handleEvent true s nowMs id event = { s with telemetry }) ∨
      ∃ issi olds telemetry, handleEvent true s nowMs id event = { startKicks s issi olds with
        telemetry
        lastRegistration := s.lastRegistration.insert issi id
        log := s.log ++ [.registered issi id] ++ (olds.zipIdx s.nextKick).map fun e => .took e.2 issi e.1 } := by
  unfold handleEvent
  split
  · exact .inl ⟨s.telemetry, rfl⟩
  · split
    · next issi =>
      let g : String → TelemetryBts → TelemetryBts := fun id' b =>
        if id' = id then TelemetryBts.apply true nowMs { b with lastEventAtMs := nowMs } (.msRegistration issi) else b
      have hown : ∀ b, (g id b).registrations.contains issi = true := by
        intro b
        dsimp only [g]
        rw [if_pos rfl]
        exact FinSet.mem_insert.mpr (.inl rfl)
      have hlost := @lost_takeRoamed s.telemetry nowMs issi id g hown fun id' b hne => if_neg hne
      refine .inr ⟨issi, (takeRoamed (s.telemetry.amend g) nowMs issi id).2,
        (takeRoamed (s.telemetry.amend g) nowMs issi id).1, ?_⟩
      dsimp only
      rw [if_pos rfl, hlost]
    · exact .inl ⟨_, rfl⟩

end Taking

section Kicks

variable {s : Stations} {issi : UInt32} {olds : List String} {n : ℕ}

theorem getElem?_foldl_kicks (m : ℕ) (kicks : FinMap ℕ Kick) (hfree : ∀ n, m ≤ n → kicks[n]? = none) :
    ((olds.zipIdx m).foldl (fun kicks e => kicks.insert e.2 { issi, old := e.1 }) kicks)[n]? =
      if n < m then kicks[n]? else (olds[n - m]?).map fun old => { issi, old } := by
  induction olds generalizing m kicks with
  | nil =>
    rw [List.zipIdx_nil, List.foldl_nil]
    split
    · rfl
    · next hn => exact hfree n (Nat.le_of_not_lt hn)
  | cons old olds ih =>
    have hfree' : ∀ n, m + 1 ≤ n → (kicks.insert m { issi, old })[n]? = none := by
      intro n hn
      rw [FinMap.getElem?_insert, if_neg (by omega)]
      exact hfree n (by omega)
    rw [List.zipIdx_cons, List.foldl_cons, ih (m + 1) _ hfree', FinMap.getElem?_insert]
    rcases lt_trichotomy n m with hn | rfl | hn
    · rw [if_pos (by omega), if_neg (by omega), if_pos hn]
    · rw [if_pos (by omega), if_pos rfl, if_neg (by omega), Nat.sub_self]
      rfl
    · rw [if_neg (by omega), if_neg (by omega), show n - m = n - (m + 1) + 1 by omega]
      rfl

variable (h : s.Sound)
include h

theorem Stations.Sound.getElem?_startKicks :
    (startKicks s issi olds).kicks[n]? =
      if n < s.nextKick then s.kicks[n]? else (olds[n - s.nextKick]?).map fun old => { issi, old } := by
  refine getElem?_foldl_kicks s.nextKick s.kicks fun n hn => ?_
  cases hk : s.kicks[n]? with
  | none => rfl
  | some k => exact absurd (h.numbered n k hk) (Nat.not_lt.mpr hn)

/-- Every entry settled before stays settled while its kick and the log do. -/
theorem Stations.Sound.settled_of {s' : Stations} {bts : String} (hmem : .took n issi bts ∈ s.log)
    (hlog : s.log <+: s'.log) (hkick : ∀ k, s.kicks[n]? = some k → s'.kicks[n]? = some k) :
    Settled s' n issi bts := by
  obtain ⟨k, hk, hissi, hold⟩ | hkicked | ⟨pre, hpre, hback⟩ | htried := h.settled n issi bts hmem
  · exact .inl ⟨k, hkick k hk, hissi, hold⟩
  · exact .inr (.inl (hlog.subset hkicked))
  · exact .inr (.inr (.inl ⟨pre, hpre.trans hlog, hback⟩))
  · exact .inr (.inr (.inr (hlog.subset htried)))

theorem Stations.Sound.handleEvent (nowMs : UInt64) (id : String) (event : TelemetryEvent) :
    (Station.handleEvent true s nowMs id event).Sound := by
  obtain ⟨telemetry, heq⟩ | ⟨issi, olds, telemetry, heq⟩ := @handleEvent_cases nowMs id s event
  · rw [heq]
    exact ⟨h.latest, h.numbered, h.checked, h.excused, h.settled⟩
  rw [heq]
  have htook : ∀ e ∈ (olds.zipIdx s.nextKick).map fun e => Entry.took e.2 issi e.1, ∃ n bts, e = .took n issi bts := by
    intro e he
    obtain ⟨⟨bts, n⟩, -, rfl⟩ := List.mem_map.mp he
    exact ⟨n, bts, rfl⟩
  refine ⟨fun issi' => ?_, fun n k hk => ?_, fun n k hk hc => ?_, fun n issi' bts pre hpre => ?_,
    fun n issi' bts hmem => ?_⟩
  · dsimp only
    rw [latest_append, latest_concat_registered, FinMap.getElem?_insert, h.latest issi']
    intro e he bts hreg
    obtain ⟨n, bts', rfl⟩ := htook e he
    cases hreg
  · dsimp only at hk
    rw [h.getElem?_startKicks] at hk
    change n < s.nextKick + olds.length
    split at hk
    · omega
    · obtain ⟨old, hold, -⟩ := Option.map_eq_some_iff.mp hk
      obtain ⟨hlt, -⟩ := List.getElem?_eq_some_iff.mp hold
      omega
  · dsimp only at hk ⊢
    rw [h.getElem?_startKicks] at hk
    split at hk
    · obtain ⟨pre, hpre, hlatest⟩ := h.checked n k hk hc
      exact ⟨pre, hpre.trans ((List.prefix_append _ _).trans (List.prefix_append _ _)), hlatest⟩
    · obtain ⟨old, -, rfl⟩ := Option.map_eq_some_iff.mp hk
      cases hc
  · rw [prefix_append_iff, prefix_append_iff (by simp)] at hpre
    · exact h.excused n issi' bts pre hpre
    · intro hmem
      obtain ⟨n', bts', heq⟩ := htook _ hmem
      cases heq
  · dsimp only at hmem
    rw [List.mem_append, List.mem_append, List.mem_singleton] at hmem
    obtain (hold | hnew) | hnew := hmem
    · refine h.settled_of hold ((List.prefix_append _ _).trans (List.prefix_append _ _)) fun k hk => ?_
      dsimp only
      rw [h.getElem?_startKicks, if_pos (h.numbered n k hk), hk]
    · cases hnew
    · obtain ⟨⟨old, n'⟩, he, hnew⟩ := List.mem_map.mp hnew
      cases hnew
      obtain ⟨hle, hget⟩ := List.mk_mem_zipIdx_iff_le_and_getElem?_sub.mp he
      refine .inl ⟨{ issi, old }, ?_, rfl, rfl⟩
      rw [h.getElem?_startKicks, if_neg (Nat.not_lt.mpr hle), hget]
      rfl

theorem Stations.Sound.checkKick (n : ℕ) : (Station.checkKick s n).Sound := by
  unfold Station.checkKick
  split
  · exact h
  next k hk =>
  split
  · exact h
  · have hlog : s.log <+: s.log ++ [.due n] := List.prefix_append _ _
    have hkept : ∀ (n' : ℕ) (k' : Kick), (if s.lastRegistration[k.issi]? = some k.old then s.kicks.erase n
        else s.kicks.insert n { k with checked := true })[n']? = some k' →
        (n' = n ∧ k' = { k with checked := true } ∧ s.lastRegistration[k.issi]? ≠ some k.old) ∨
          s.kicks[n']? = some k' := by
      intro n' k' hk'
      split at hk'
      · rw [FinMap.getElem?_erase] at hk'
        split at hk'
        · cases hk'
        · exact .inr hk'
      · next hne =>
        rw [FinMap.getElem?_insert] at hk'
        split at hk'
        · next hn =>
          cases hk'
          exact .inl ⟨hn.symm, rfl, hne⟩
        · exact .inr hk'
    refine ⟨fun issi => ?_, fun n' k' hk' => ?_, fun n' k' hk' hc => ?_, fun n' issi bts pre hpre => ?_,
      fun n' issi bts hmem => ?_⟩
    · rw [latest_append (by simp)]
      exact h.latest issi
    · obtain ⟨rfl, -, -⟩ | hk' := hkept n' k' hk'
      · exact h.numbered n' k hk
      · exact h.numbered n' k' hk'
    · obtain ⟨rfl, rfl, hne⟩ | hk' := hkept n' k' hk'
      · rw [h.latest] at hne
        exact ⟨s.log, List.prefix_rfl, hne⟩
      · obtain ⟨pre, hpre, hlatest⟩ := h.checked n' k' hk' hc
        exact ⟨pre, hpre.trans hlog, hlatest⟩
    · rw [prefix_append_iff (by simp)] at hpre
      exact h.excused n' issi bts pre hpre
    · dsimp only at hmem
      rw [List.mem_append, List.mem_singleton] at hmem
      obtain hold | hnew := hmem
      · by_cases hn : n' = n
        · subst hn
          obtain ⟨k', hk', rfl, rfl⟩ | hsent | ⟨pre, hpre, hback⟩ | htried := h.settled n' issi bts hold
          · cases hk.symm.trans hk'
            by_cases hback : s.lastRegistration[k.issi]? = some k.old
            · exact .inr (.inr (.inl ⟨s.log, List.prefix_rfl, (h.latest k.issi).symm.trans hback⟩))
            · refine .inl ⟨{ k with checked := true }, ?_, rfl, rfl⟩
              dsimp only
              rw [if_neg hback, FinMap.getElem?_insert, if_pos rfl]
          · exact .inr (.inl (hlog.subset hsent))
          · exact .inr (.inr (.inl ⟨pre, hpre.trans hlog, hback⟩))
          · exact .inr (.inr (.inr (hlog.subset htried)))
        · refine h.settled_of hold hlog fun k' hk' => ?_
          dsimp only
          split
          · rw [FinMap.getElem?_erase, if_neg (Ne.symm hn), hk']
          · rw [FinMap.getElem?_insert, if_neg (Ne.symm hn), hk']
      · cases hnew

omit h in
theorem sendKick_queued (s : Stations) (n : ℕ) (k : Kick) : (sendKick s.control n k).2 = takesFrames s k.old := by
  unfold sendKick takesFrames
  cases s.control.entries[k.old]? <;> rfl

theorem Stations.Sound.finishKick (n : ℕ) : (Station.finishKick s n).Sound := by
  unfold Station.finishKick
  split
  · exact h
  next k hk =>
  split
  · exact h
  next hc =>
  rw [Bool.not_eq_true', Bool.not_eq_false] at hc
  generalize hsend : sendKick s.control n k = sent
  obtain ⟨control, queued⟩ := sent
  dsimp only
  have hqueued : queued = takesFrames s k.old := by rw [← sendKick_queued, hsend]
  obtain ⟨due, hdue, hnot⟩ := h.checked n k hk hc
  have hgone : ∀ (n' : ℕ) (k' : Kick), (s.kicks.erase n)[n']? = some k' → s.kicks[n']? = some k' := by
    intro n' k' hk'
    rw [FinMap.getElem?_erase] at hk'
    split at hk'
    · cases hk'
    · exact hk'
  have hlog : s.log <+: s.log ++ [.tried n (takesFrames s k.old)] ++ if queued then [.kicked n k.issi k.old] else [] :=
    (List.prefix_append _ _).trans (List.prefix_append _ _)
  have hlatest : ∀ issi, Station.latest (s.log ++ [.tried n (takesFrames s k.old)]) issi = Station.latest s.log issi :=
    fun issi => latest_append (by simp)
  refine ⟨fun issi => ?_, fun n' k' hk' => h.numbered n' k' (hgone n' k' hk'), fun n' k' hk' hc' => ?_,
    fun n' issi bts pre hpre => ?_, fun n' issi bts hall => ?_⟩
  · dsimp only
    rw [latest_append, hlatest]
    · exact h.latest issi
    · cases queued <;> simp
  · obtain ⟨pre, hpre, hnot'⟩ := h.checked n' k' (hgone n' k' hk') hc'
    exact ⟨pre, hpre.trans hlog, hnot'⟩
  · dsimp only at hpre
    have hold : pre ++ [.kicked n' issi bts] <+: s.log ++ [.tried n (takesFrames s k.old)] → Excused pre n' issi bts := by
      intro hpre
      rw [prefix_append_iff (by simp)] at hpre
      exact h.excused n' issi bts pre hpre
    cases queued with
    | false =>
      rw [if_neg Bool.false_ne_true, List.append_nil] at hpre
      exact hold hpre
    | true =>
      rw [if_pos rfl, List.prefix_concat_iff] at hpre
      obtain heq | hpre := hpre
      · -- The new entry: the kick was found in order when it fell due.
        obtain ⟨rfl, hentry⟩ := List.append_inj' heq rfl
        cases hentry
        intro hback
        obtain ⟨after, hafter⟩ := hdue
        rw [← hafter, List.append_assoc] at hback ⊢
        have hbefore : Station.latest (due ++ [.due n]) k.issi ≠ some k.old := by
          rw [latest_append (by simp)]
          exact hnot
        exact ⟨due, _, by simp, hnot, registered_of_latest hbefore hback⟩
      · exact hold hpre
  · have hmem : .took n' issi bts ∈ s.log := by
      dsimp only at hall
      rw [List.mem_append, List.mem_append] at hall
      obtain (hold | hnew) | hnew := hall
      · exact hold
      · simp at hnew
      · cases queued <;> simp at hnew
    by_cases hn : n' = n
    · subst hn
      obtain ⟨k', hk', rfl, rfl⟩ | hsent | ⟨pre, hpre, hback⟩ | htried := h.settled n' issi bts hmem
      · cases hk.symm.trans hk'
        cases hq : queued with
        | true => exact .inr (.inl (List.mem_append_right _ List.mem_cons_self))
        | false =>
          refine .inr (.inr (.inr (List.mem_append_left _ (List.mem_append_right _ ?_))))
          rw [← hqueued, hq]
          exact List.mem_cons_self
      · exact .inr (.inl (hlog.subset hsent))
      · exact .inr (.inr (.inl ⟨pre, hpre.trans hlog, hback⟩))
      · exact .inr (.inr (.inr (hlog.subset htried)))
    · refine h.settled_of hmem hlog fun k' hk' => ?_
      dsimp only
      rw [FinMap.getElem?_erase, if_neg (Ne.symm hn), hk']

end Kicks

theorem sound_start : Stations.Sound {} := by
  refine ⟨fun issi => Std.ExtTreeMap.getElem?_empty, fun n k hk => ?_, fun n k hk => ?_, fun n issi bts pre hpre => ?_,
    fun n issi bts hmem => ?_⟩
  · cases Std.ExtTreeMap.getElem?_empty.symm.trans hk
  · cases Std.ExtTreeMap.getElem?_empty.symm.trans hk
  · cases List.eq_nil_of_prefix_nil hpre |> List.append_ne_nil_of_right_ne_nil pre (List.cons_ne_nil _ _)
  · cases hmem

theorem Stations.Sound.next {s : Stations} (h : s.Sound) (x : Step) : (s.next true x).Sound := by
  cases x with
  | telemetryEvent conn nowMs event =>
    rw [Stations.next]
    split
    · exact h
    · exact h.handleEvent nowMs _ event
  | kickResponse conn issi =>
    rw [Stations.next]
    split
    · exact h
    · exact ⟨h.latest, h.numbered, h.checked, h.excused, h.settled⟩
  | kickDue n => exact h.checkKick n
  | kickSend n => exact h.finishKick n
  | telemetryOpen | telemetryClose | controlOpen | writerStops | controlClose =>
    exact ⟨h.latest, h.numbered, h.checked, h.excused, h.settled⟩

/-- In every run, a `KickMs` goes to the Basestation of the ISSI's latest
registration only if the radio registered back there after the kick fell due,
having been elsewhere then; and a kick of a Basestation an ISSI was taken away
from is on its way, was sent, found the radio back, or found no session there that
takes frames. -/
theorem kicks_sound (xs : List Step) :
    (∀ (n : ℕ) (issi : UInt32) (bts : String) (pre : List Entry),
      pre ++ [.kicked n issi bts] <+: (xs.foldl (Stations.next true) {}).log → Excused pre n issi bts) ∧
    ∀ (n : ℕ) (issi : UInt32) (bts : String), .took n issi bts ∈ (xs.foldl (Stations.next true) {}).log →
      Settled (xs.foldl (Stations.next true) {}) n issi bts := by
  have hsound : (xs.foldl (Stations.next true) {}).Sound :=
    foldl_invariant sound_start (fun _ x hs (_ : True) => hs.next x) (fun _ _ _ _ => trivial) xs List.prefix_rfl
  exact ⟨hsound.excused, hsound.settled⟩

/-- Two Basestations, the first with a control session, and a radio that moves from
the first to the second. -/
def moved : List Step :=
  [.telemetryOpen 1 "bts1" none 0, .telemetryOpen 2 "bts2" none 0, .telemetryEvent 1 10 (.msRegistration 2001),
    .telemetryEvent 2 20 (.msRegistration 2001)]

/-- The radio registers back between the check and the send. -/
def kickedBack : List Step :=
  moved ++ [.controlOpen 3 "bts1", .kickDue 0, .telemetryEvent 1 30 (.msRegistration 2001), .kickSend 0]

/-- A kick can throw a radio off the Basestation it is on, and one without a
control session gets none. -/
theorem not_kicks_sound :
    (¬ ∀ (xs : List Step) (n : ℕ) (issi : UInt32) (bts : String) (pre : List Entry),
      pre ++ [.kicked n issi bts] <+: (xs.foldl (Stations.next true) {}).log → latest pre issi ≠ some bts) ∧
    ¬ ∀ (xs : List Step) (n : ℕ) (issi : UInt32) (bts : String),
      .took n issi bts ∈ (xs.foldl (Stations.next true) {}).log → (xs.foldl (Stations.next true) {}).kicks[n]? = none →
      .kicked n issi bts ∈ (xs.foldl (Stations.next true) {}).log ∨
        BackAtDue (xs.foldl (Stations.next true) {}).log n issi bts := by
  constructor
  · intro hall
    exact hall kickedBack 0 2001 "bts1" [.registered 2001 "bts1", .registered 2001 "bts2", .took 0 2001 "bts1", .due 0,
      .registered 2001 "bts1", .took 1 2001 "bts2", .tried 0 true] (by decide +kernel) (by decide +kernel)
  · intro hall
    have hlog : ((moved ++ [Step.kickDue 0, .kickSend 0]).foldl (Stations.next true) {}).log =
        [.registered 2001 "bts1", .registered 2001 "bts2", .took 0 2001 "bts1", .due 0, .tried 0 false] := by
      decide +kernel
    have hsent := hall (moved ++ [.kickDue 0, .kickSend 0]) 0 2001 "bts1" (by decide +kernel) (by decide +kernel)
    rw [hlog] at hsent
    obtain hsent | ⟨pre, hpre, hback⟩ := hsent
    · revert hsent
      decide
    · have hnever : ∀ pre ∈ [Entry.registered 2001 "bts1", .registered 2001 "bts2", .took 0 2001 "bts1", .due 0,
          .tried 0 false].inits, pre ++ [.due 0] <+: [Entry.registered 2001 "bts1", .registered 2001 "bts2",
          .took 0 2001 "bts1", .due 0, .tried 0 false] → latest pre 2001 ≠ some "bts1" := by
        decide +kernel
      exact hnever pre ((List.mem_inits _ _).mpr ((List.prefix_append _ _).trans hpre)) hpre hback

end BrewServer.Station
