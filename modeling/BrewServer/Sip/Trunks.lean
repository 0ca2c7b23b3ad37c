import Mathlib.Algebra.Ring.Nat
import BrewServer.Lib.FinMap
import BrewServer.Lib.Transition

/-!
# Calls and trunks of the SIP side

The call table of the SIP side and the counters it keeps beside it, one for each
trunk. A counter is stepped when a call starts and when it ends.
-/

namespace BrewServer.Sip

inductive TrunkStatus
  | up
  | registering
  | failed
  | down
  deriving DecidableEq

structure TrunkState where
  name : String
  direction : String
  remoteHost : String
  status : TrunkStatus
  peerAddr : Option String
  lastEventMs : UInt64
  detail : String
  activeCalls : UInt32
  deriving DecidableEq

/-- What a leg of a call ends on. -/
inductive LegEndpoint
  | sipExtension (aor : String)
  | sipTrunk (trunk number : String)
  | brewPrivate (issi : UInt32)
  | brewGroup (gssi : UInt32)
  | sipExternal (uri : String)

structure SipCall where
  callId : String
  «from» : LegEndpoint
  «to» : LegEndpoint
  startedAtMs : UInt64
  answeredAtMs : Option UInt64
  state : String
  rtpAPort : Option UInt16
  rtpBPort : Option UInt16

/-- The tables of the SIP side, the registrations left out. The clocks of a
call's relay legs are known by number. -/
structure SipState where
  trunks : FinMap String TrunkState
  calls : FinMap String SipCall := ∅
  media : FinMap String (List ℕ) := ∅
  totalCalls : UInt64 := 0

/-- Steps the counter of the trunk an endpoint is on. -/
def stepCount (f : UInt32 → UInt32) (trunks : FinMap String TrunkState) : LegEndpoint → FinMap String TrunkState
  | .sipTrunk trunk _ => trunks.modify trunk fun t => { t with activeCalls := f t.activeCalls }
  | _ => trunks

/-- `u32::saturating_sub(1)`. -/
def lessOne (n : UInt32) : UInt32 := if n = 0 then 0 else n - 1

/-- `+= 1` of a release build. -/
def plusOne (n : UInt32) : UInt32 := n + 1

def SipState.startCall (s : SipState) (call : SipCall) : SipState :=
  { s with
    totalCalls := s.totalCalls + 1
    trunks := [call.from, call.«to»].foldl (stepCount plusOne) s.trunks
    calls := s.calls.insert call.callId call }

def SipState.answerCall (s : SipState) (nowMs : UInt64) (callId : String) : SipState :=
  { s with calls := s.calls.modify callId fun c => { c with answeredAtMs := some nowMs, state := "answered" } }

def SipState.setCallRtp (s : SipState) (callId : String) (a b : Option UInt16) : SipState :=
  { s with calls := s.calls.modify callId fun c =>
      { c with rtpAPort := a <|> c.rtpAPort, rtpBPort := b <|> c.rtpBPort } }

def SipState.trackMedia (s : SipState) (callId : String) (activity : ℕ) : SipState :=
  { s with media := s.media.insert callId ((s.media[callId]?).getD [] ++ [activity]) }

def SipState.endCall (s : SipState) (callId : String) : SipState :=
  let s := { s with media := s.media.erase callId }
  match s.calls[callId]? with
  | none => s
  | some c => { s with
      calls := s.calls.erase callId
      trunks := [c.from, c.«to»].foldl (stepCount lessOne) s.trunks }

def SipState.updateTrunkStatus (s : SipState) (nowMs : UInt64) (name : String) (status : TrunkStatus) (detail : String)
    (peerAddr : Option String) : SipState :=
  { s with trunks := s.trunks.modify name fun t =>
      { t with status, detail, lastEventMs := nowMs, peerAddr := peerAddr <|> t.peerAddr } }

/-- What happens to the tables once the trunks are set up. -/
inductive SipStep
  | startCall (call : SipCall)
  | answerCall (nowMs : UInt64) (callId : String)
  | setCallRtp (callId : String) (a b : Option UInt16)
  | trackMedia (callId : String) (activity : ℕ)
  | endCall (callId : String)
  | updateTrunkStatus (nowMs : UInt64) (name : String) (status : TrunkStatus) (detail : String)
      (peerAddr : Option String)

def SipState.next (s : SipState) : SipStep → SipState
  | .startCall call => s.startCall call
  | .answerCall nowMs callId => s.answerCall nowMs callId
  | .setCallRtp callId a b => s.setCallRtp callId a b
  | .trackMedia callId activity => s.trackMedia callId activity
  | .endCall callId => s.endCall callId
  | .updateTrunkStatus nowMs name status detail peerAddr => s.updateTrunkStatus nowMs name status detail peerAddr

/-- The trunks as the configuration seeds them, no call on any. -/
def SipState.seeded (trunks : FinMap String TrunkState) : SipState :=
  { trunks := trunks.map fun _ t => { t with activeCalls := 0 } }

/-! ## The counters -/

def LegEndpoint.onTrunk (name : String) : LegEndpoint → Bool
  | .sipTrunk trunk _ => trunk == name
  | _ => false

/-- Whether a call names a trunk on either side. -/
def SipCall.names (call : SipCall) (name : String) : Bool := call.from.onTrunk name || call.«to».onTrunk name

/-- Whether a call has a trunk on both sides. -/
def SipCall.loops (call : SipCall) (name : String) : Bool := call.from.onTrunk name && call.«to».onTrunk name

/-- The calls in the table that name a trunk. -/
def SipState.callsOn (s : SipState) (name : String) : ℕ := s.calls.toList.countP fun e => e.2.names name

/-- Every trunk's counter is the number of calls in the table that name it. -/
def SipState.Counted (s : SipState) : Prop :=
  ∀ (name : String) (t : TrunkState), s.trunks[name]? = some t → t.activeCalls.toNat = s.callsOn name

/-- A step that keeps the counters: a start whose Call-ID is not that of a call
on a known trunk, that has no known trunk on both sides, and that is not the
2^32nd call of its trunk. -/
def SipStep.Countable (s : SipState) : SipStep → Prop
  | .startCall call => ∀ (name : String) (t : TrunkState), s.trunks[name]? = some t →
      (s.calls[call.callId]?).all (fun c => !c.names name) = true ∧ call.loops name = false ∧
        (call.names name = true → t.activeCalls.toNat + 1 < 2 ^ 32)
  | _ => True

section Counters

variable {s : SipState} {call : SipCall} {callId name : String} {trunks : FinMap String TrunkState} {f : UInt32 → UInt32}

/-- How far a call steps the counter of a trunk. -/
def SipCall.stepped (call : SipCall) (name : String) (f : UInt32 → UInt32) (n : UInt32) : UInt32 :=
  if call.loops name then f (f n) else if call.names name then f n else n

theorem getElem?_stepCount {ep : LegEndpoint} :
    (stepCount f trunks ep)[name]? =
      if ep.onTrunk name then (trunks[name]?).map fun t => { t with activeCalls := f t.activeCalls }
      else trunks[name]? := by
  cases ep with
  | sipTrunk trunk number =>
    rw [stepCount, FinMap.getElem?_modify]
    simp only [LegEndpoint.onTrunk, beq_iff_eq]
  | sipExtension | brewPrivate | brewGroup | sipExternal => rfl

theorem getElem?_stepBoth :
    ([call.from, call.«to»].foldl (stepCount f) trunks)[name]? =
      (trunks[name]?).map fun t => { t with activeCalls := call.stepped name f t.activeCalls } := by
  rw [List.foldl_cons, List.foldl_cons, List.foldl_nil, getElem?_stepCount, getElem?_stepCount]
  unfold SipCall.stepped SipCall.loops SipCall.names
  cases call.from.onTrunk name <;> cases call.«to».onTrunk name <;> cases trunks[name]? <;> rfl

theorem callsOn_erase {c : SipCall} (h : s.calls[callId]? = some c) :
    (s.calls.erase callId).toList.countP (fun e => e.2.names name) + (if c.names name then 1 else 0) =
      s.callsOn name := by
  rw [SipState.callsOn, (FinMap.perm_toList_of_getElem? h).countP_eq, List.countP_cons]

theorem callsOn_startCall :
    (s.startCall call).callsOn name + (if (s.calls[call.callId]?).any (·.names name) then 1 else 0) =
      s.callsOn name + (if call.names name then 1 else 0) := by
  have hinsert : (s.startCall call).callsOn name =
      (s.calls.erase call.callId).toList.countP (fun e => e.2.names name) + (if call.names name then 1 else 0) := by
    change (s.calls.insert call.callId call).toList.countP (fun e => e.2.names name) = _
    rw [FinMap.perm_toList_insert.countP_eq, List.countP_cons]
  cases hold : s.calls[call.callId]? with
  | none =>
    have hsame : s.calls.erase call.callId = s.calls := by
      refine FinMap.ext fun k => ?_
      rw [FinMap.getElem?_erase]
      split
      · next hk => rw [← hk, hold]
      · rfl
    rw [hinsert, hsame]
    rfl
  | some c =>
    rw [hinsert, Option.any_some, ← callsOn_erase hold]
    omega

theorem toNat_plusOne (n : UInt32) : (plusOne n).toNat = (n.toNat + 1) % 2 ^ 32 := UInt32.toNat_add n 1

theorem toNat_lessOne (n : UInt32) : (lessOne n).toNat = n.toNat - 1 := by
  unfold lessOne
  split
  · next h => rw [h]; rfl
  · next h =>
    have hpos : 1 ≤ n := by
      rw [UInt32.le_iff_toNat_le]
      have hne : n.toNat ≠ 0 := fun h0 => h (UInt32.toNat_inj.mp h0)
      change 1 ≤ n.toNat
      omega
    exact UInt32.toNat_sub_of_le n 1 hpos

/-- The counters are right, and no call in the table has a known trunk on both
sides. -/
structure SipState.Sound (s : SipState) : Prop where
  counted : s.Counted
  single : ∀ (callId : String) (c : SipCall), s.calls[callId]? = some c → ∀ name ∈ s.trunks, c.loops name = false

theorem names_of_loops (h : call.loops name = true) : call.names name = true := by
  rw [SipCall.loops, Bool.and_eq_true] at h
  rw [SipCall.names, h.1, Bool.true_or]

theorem stepped_of_not_loops {n : UInt32} (h : call.loops name = false) :
    call.stepped name f n = if call.names name then f n else n := by
  rw [SipCall.stepped, h, if_neg Bool.false_ne_true]

theorem SipState.Sound.modifyCalls (h : s.Sound) {g : SipCall → SipCall}
    (hg : ∀ c, (g c).from = c.from ∧ (g c).«to» = c.«to») :
    SipState.Sound { s with calls := s.calls.modify callId g } := by
  have hnames : ∀ (c : SipCall) (name : String), (g c).names name = c.names name := by
    intro c name
    rw [SipCall.names, SipCall.names, (hg c).1, (hg c).2]
  have hcalls : ∀ name : String, (s.calls.modify callId g).toList.countP (fun e => e.2.names name) = s.callsOn name := by
    intro name
    cases hc : s.calls[callId]? with
    | none =>
      have hsame : s.calls.modify callId g = s.calls := by
        refine FinMap.ext fun k => ?_
        rw [FinMap.getElem?_modify]
        split
        · next hk => rw [← hk, hc, Option.map_none]
        · rfl
      rw [hsame]
      rfl
    | some c =>
      have hinsert : s.calls.modify callId g = s.calls.insert callId (g c) := by
        refine FinMap.ext fun k => ?_
        rw [FinMap.getElem?_modify, FinMap.getElem?_insert]
        split
        · next hk => rw [← hk, hc, Option.map_some]
        · rfl
      rw [hinsert, FinMap.perm_toList_insert.countP_eq, List.countP_cons, hnames c name]
      exact callsOn_erase hc
  refine ⟨fun name t ht => (h.counted name t ht).trans (hcalls name).symm, fun k c hk name hname => ?_⟩
  change (s.calls.modify callId g)[k]? = some c at hk
  rw [FinMap.getElem?_modify] at hk
  split at hk
  · obtain ⟨c', hc', rfl⟩ := Option.map_eq_some_iff.mp hk
    rw [SipCall.loops, (hg c').1, (hg c').2]
    exact h.single k c' hc' name hname
  · exact h.single k c hk name hname

theorem SipState.Sound.modifyTrunks (h : s.Sound) {trunk : String} {g : TrunkState → TrunkState}
    (hg : ∀ t, (g t).activeCalls = t.activeCalls) :
    SipState.Sound { s with trunks := s.trunks.modify trunk g } := by
  refine ⟨fun name t ht => ?_, fun k c hk name hname => ?_⟩
  · change (s.trunks.modify trunk g)[name]? = some t at ht
    rw [FinMap.getElem?_modify] at ht
    split at ht
    · obtain ⟨t', ht', rfl⟩ := Option.map_eq_some_iff.mp ht
      rw [hg]
      exact h.counted name t' ht'
    · exact h.counted name t ht
  · exact h.single k c hk name (Std.ExtTreeMap.mem_modify.mp hname)

/-- The counter of a trunk after a start is right exactly where the start is
countable. -/
theorem startCall_counts (h : s.Sound) {t : TrunkState} (ht : s.trunks[name]? = some t) :
    (call.stepped name plusOne t.activeCalls).toNat = (s.startCall call).callsOn name ↔
      (s.calls[call.callId]?).all (fun c => !c.names name) = true ∧ call.loops name = false ∧
        (call.names name = true → t.activeCalls.toNat + 1 < 2 ^ 32) := by
  have hn := h.counted name t ht
  have hlt := t.activeCalls.toNat_lt
  have hcount := @callsOn_startCall s call name
  have hold : (s.calls[call.callId]?).all (fun c => !c.names name) =
      !(s.calls[call.callId]?).any (·.names name) := by
    cases s.calls[call.callId]? <;> rfl
  have hpos : (s.calls[call.callId]?).any (·.names name) = true → 1 ≤ s.callsOn name := by
    intro hany
    cases hc : s.calls[call.callId]? with
    | none =>
      rw [hc] at hany
      cases hany
    | some c =>
      rw [hc, Option.any_some] at hany
      rw [← callsOn_erase hc, if_pos hany]
      omega
  rw [hold]
  unfold SipCall.stepped
  cases hloops : call.loops name with
  | true =>
    rw [names_of_loops hloops] at hcount
    rw [if_pos rfl, toNat_plusOne, toNat_plusOne]
    cases hany : (s.calls[call.callId]?).any (·.names name) <;> simp [hany] at hcount hpos ⊢ <;> omega
  | false =>
    rw [if_neg Bool.false_ne_true]
    cases hnames : call.names name with
    | true =>
      rw [if_pos rfl, toNat_plusOne]
      cases hany : (s.calls[call.callId]?).any (·.names name) <;> simp [hany, hnames] at hcount hpos ⊢ <;> omega
    | false =>
      rw [if_neg Bool.false_ne_true]
      cases hany : (s.calls[call.callId]?).any (·.names name) <;> simp [hany, hnames] at hcount hpos ⊢ <;> omega

theorem counted_startCall_iff (h : s.Sound) : (s.startCall call).Counted ↔ (SipStep.startCall call).Countable s := by
  constructor
  · intro hcounted name t ht
    refine (startCall_counts h ht).mp (hcounted name { t with activeCalls := call.stepped name plusOne t.activeCalls } ?_)
    change ([call.from, call.«to»].foldl (stepCount plusOne) s.trunks)[name]? = _
    rw [getElem?_stepBoth, ht, Option.map_some]
  · intro hstep name t' ht'
    change ([call.from, call.«to»].foldl (stepCount plusOne) s.trunks)[name]? = some t' at ht'
    rw [getElem?_stepBoth] at ht'
    obtain ⟨t, ht, rfl⟩ := Option.map_eq_some_iff.mp ht'
    exact (startCall_counts h ht).mpr (hstep name t ht)

theorem mem_stepBoth : name ∈ [call.from, call.«to»].foldl (stepCount f) trunks ↔ name ∈ trunks := by
  simp only [Std.ExtTreeMap.mem_iff_isSome_getElem?, getElem?_stepBoth, Option.isSome_map]

theorem SipState.Sound.startCall (h : s.Sound) (hstep : (SipStep.startCall call).Countable s) :
    (s.startCall call).Sound := by
  refine ⟨(counted_startCall_iff h).mpr hstep, fun k c hk name hname => ?_⟩
  have hname' : name ∈ s.trunks := mem_stepBoth.mp hname
  change (s.calls.insert call.callId call)[k]? = some c at hk
  rw [FinMap.getElem?_insert] at hk
  split at hk
  · cases hk
    obtain ⟨t, ht⟩ := FinMap.mem_iff.mp hname'
    exact (hstep name t ht).2.1
  · exact h.single k c hk name hname'

theorem SipState.Sound.endCall (h : s.Sound) : (s.endCall callId).Sound := by
  unfold SipState.endCall
  dsimp only
  cases hc : s.calls[callId]? with
  | none => exact ⟨h.counted, h.single⟩
  | some c =>
    refine ⟨fun name t' ht' => ?_, fun k c' hk name hname => ?_⟩
    · change ([c.from, c.«to»].foldl (stepCount lessOne) s.trunks)[name]? = some t' at ht'
      rw [getElem?_stepBoth] at ht'
      obtain ⟨t, ht, rfl⟩ := Option.map_eq_some_iff.mp ht'
      have hn := h.counted name t ht
      have herase := @callsOn_erase s callId name c hc
      have hsingle := h.single callId c hc name (FinMap.mem_of_getElem? ht)
      change (c.stepped name lessOne t.activeCalls).toNat = (s.calls.erase callId).toList.countP (fun e => e.2.names name)
      rw [stepped_of_not_loops hsingle]
      cases hnames : c.names name with
      | true =>
        rw [hnames, if_pos rfl] at herase
        rw [if_pos rfl, toNat_lessOne]
        omega
      | false =>
        rw [hnames, if_neg Bool.false_ne_true] at herase
        rw [if_neg Bool.false_ne_true]
        omega
    · change (s.calls.erase callId)[k]? = some c' at hk
      rw [FinMap.getElem?_erase] at hk
      split at hk
      · cases hk
      · exact h.single k c' hk name (mem_stepBoth.mp hname)

theorem SipState.Sound.next (h : s.Sound) {x : SipStep} (hx : x.Countable s) : (s.next x).Sound := by
  cases x with
  | startCall call => exact h.startCall hx
  | answerCall nowMs callId => exact h.modifyCalls fun _ => ⟨rfl, rfl⟩
  | setCallRtp callId a b => exact h.modifyCalls fun _ => ⟨rfl, rfl⟩
  | trackMedia callId activity => exact ⟨h.counted, h.single⟩
  | endCall callId => exact h.endCall
  | updateTrunkStatus nowMs name status detail peerAddr => exact h.modifyTrunks fun _ => rfl

/-- A step keeps the counters right exactly where it is countable. -/
theorem counted_next_iff (h : s.Sound) {x : SipStep} : (s.next x).Counted ↔ x.Countable s := by
  refine ⟨fun hcounted => ?_, fun hx => (h.next hx).counted⟩
  cases x with
  | startCall call => exact (counted_startCall_iff h).mp hcounted
  | answerCall | setCallRtp | trackMedia | endCall | updateTrunkStatus => trivial

theorem sound_seeded (trunks : FinMap String TrunkState) : (SipState.seeded trunks).Sound := by
  refine ⟨fun name t ht => ?_, fun k c hk => ?_⟩
  · change (trunks.map fun _ t => { t with activeCalls := 0 })[name]? = some t at ht
    rw [FinMap.getElem?_map] at ht
    obtain ⟨t', -, rfl⟩ := Option.map_eq_some_iff.mp ht
    rfl
  · change (∅ : FinMap String SipCall)[k]? = some c at hk
    rw [Std.ExtTreeMap.getElem?_empty] at hk
    cases hk

/-- The counters are right throughout a run exactly where every step of it is
countable. -/
theorem counted_run_iff (trunks : FinMap String TrunkState) (xs : List SipStep) :
    (∀ pre, pre <+: xs → (pre.foldl SipState.next (.seeded trunks)).Counted) ↔
      ∀ pre x, pre ++ [x] <+: xs → x.Countable (pre.foldl SipState.next (.seeded trunks)) :=
  foldl_iff (sound_seeded trunks) (fun _ hs => hs.counted) (fun _ _ hs hx => hs.next hx)
    fun _ _ hs => counted_next_iff hs

end Counters

/-- A call from an extension out over the trunk "pbx". -/
def outOverPbx : SipCall :=
  ⟨"c1", .sipExtension "1001", .sipTrunk "pbx" "5551234", 0, none, "routing", none, none⟩

/-- The trunk "pbx" alone. -/
def onePbx : FinMap String TrunkState :=
  (∅ : FinMap String TrunkState).insert "pbx" ⟨"pbx", "outbound", "pbx:5060", .down, none, 0, "provisioned", 0⟩

/-- A retransmitted INVITE starts its call again: one call, counted twice. -/
theorem not_counted_run : ¬ ∀ (trunks : FinMap String TrunkState) (xs : List SipStep),
    (xs.foldl SipState.next (.seeded trunks)).Counted := by
  intro hall
  have h := hall onePbx [.startCall outOverPbx, .startCall outOverPbx] "pbx"
    ⟨"pbx", "outbound", "pbx:5060", .down, none, 0, "provisioned", 2⟩ (by decide +kernel)
  have hone : SipState.callsOn ([SipStep.startCall outOverPbx, .startCall outOverPbx].foldl SipState.next
      (.seeded onePbx)) "pbx" = 1 := by
    decide +kernel
  rw [hone] at h
  cases h

end BrewServer.Sip
