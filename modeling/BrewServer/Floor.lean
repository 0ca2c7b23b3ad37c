import BrewServer.Calls

/-!
# The floor of a group

`group_floor` names the call that holds a group. With one call per group, every
live group call is the one its group names. The other direction, that a name
leads to a call of its own group, needs call ids that are not used again.
-/

namespace BrewServer

open Protocol Fedroute Router Sip

/-- Every live group call is the one the floor of its destination names. -/
def FloorHeld (s : Inner) : Prop :=
  ∀ (id : Uuid) (call : ActiveCall), s.calls[id]? = some call → call.kind = .group →
    s.groupFloor[call.destination]? = some id

/-- A live call named by the floor of a group is a group call to it. -/
def PointerSound (s : Inner) : Prop :=
  ∀ (g : UInt32) (id : Uuid) (call : ActiveCall), s.groupFloor[g]? = some id → s.calls[id]? = some call →
    call.kind = .group ∧ call.destination = g

/-- Events other than an INVITE from the SIP side. -/
def Event.NoInvite : Event → Prop
  | .sipPrivate .. | .sipGroup .. => False
  | _ => True

instance (ev : Event) : Decidable ev.NoInvite :=
  match ev with
  | .sipPrivate .. | .sipGroup .. => isFalse id
  | .packet .. | .connect .. | .disconnect _ | .alarm _ | .sweep _ | .smsDeliver .. | .advertiseBts ..
  | .advertiseEmergency .. | .sipEnd _ => isTrue trivial

/-- What an event does to the calls and the floors. -/
inductive EventCalls (cfg : Config) (a : AppState) (ev : Event) (s' : Inner) : Prop
  | same (calls : s'.calls = a.inner.calls) (floor : s'.groupFloor = a.inner.groupFloor)
  | continues (h : Continues a.inner s')
  | packet {env : Env} {source : ClientId} {raw : Bytes} {mid : Inner} (event : ev = .packet env source raw)
      (step : CallStep cfg env a.inner source raw mid) (after : Continues mid s')

theorem eventCalls (cfg : Config) (a : AppState) {ev : Event} (h : ev.NoInvite) :
    EventCalls cfg a ev (a.next cfg ev).inner := by
  have hrouted : ev.Routed → Continues a.inner (routeEvent cfg a.inner ev).inner →
      EventCalls cfg a ev (a.next cfg ev).inner := by
    intro hr hc
    rw [AppState.next, a.run_routed cfg hr]
    exact .continues (hc.trans (continues_settle a _))
  cases ev with
  | connect id client neighbour console =>
    have hr : (Event.connect id client neighbour console).Routed := trivial
    rw [AppState.next, a.run_routed cfg hr]
    refine .same ?_ ?_
    all_goals
      rw [settle, routeEvent]
      unfold openSession attachClient
      cases neighbour <;> cases console <;> rfl
  | packet env source raw =>
    have hr : (Event.packet env source raw).Routed := trivial
    rw [AppState.next, a.run_routed cfg hr]
    exact .packet rfl callStep_routePacket (continues_settle a _)
  | disconnect id => exact hrouted trivial continues_cleanupClient
  | alarm issi => exact hrouted trivial continues_emergencyRaised
  | sweep env =>
    rw [AppState.next, a.run_sweep cfg env]
    exact .continues (continues_sweep cfg env a)
  | smsDeliver env id src dest lengthBits data => exact hrouted trivial continues_deliverStored
  | advertiseBts nowMs key name lat lon online => exact hrouted trivial fedOnly_advertiseBts.continues
  | advertiseEmergency nowMs issi dest bts active => exact hrouted trivial fedOnly_advertiseEmergency.continues
  | sipPrivate env callId issi v id rtpPort => exact h.elim
  | sipGroup env callId g v id rtpPort => exact h.elim
  | sipEnd callId =>
    rw [AppState.next, a.run_sipEnd cfg callId]
    exact .continues (continues_teardown a callId)

section Held

variable {cfg : Config} {env : Env} {s s' : Inner} {source : ClientId} {id : Uuid} {raw : Bytes}

theorem FloorHeld.congr (h : FloorHeld s) (hc : s'.calls = s.calls) (hf : s'.groupFloor = s.groupFloor) :
    FloorHeld s' := by
  unfold FloorHeld
  rw [hc, hf]
  exact h

theorem FloorHeld.continues (h : FloorHeld s) (hc : Continues s s') : FloorHeld s' := by
  intro id call' hcall' hk
  obtain ⟨call, hcall, hk', hd, -⟩ := hc.calls id call' hcall'
  refine hc.kept id call' hcall' hk ?_
  rw [hd]
  exact h id call hcall (hk'.symm.trans hk)

/-- Whoever held the floor of the transmission's group has gone. -/
theorem FloorHeld.freeFloor (h : FloorHeld s) (hcfg : cfg.allowMultipleCallsPerGroup = false)
    {gt : GroupTransmission} {other : Uuid} {call : ActiveCall}
    (hcall : (freeFloor cfg s id gt).calls[other]? = some call) (hk : call.kind = .group)
    (hd : call.destination = gt.destination) : other = id := by
  by_contra hne
  have hlive : s.calls[other]? = some call := by
    unfold BrewServer.freeFloor at hcall
    split at hcall
    · next existingId existing _ =>
      change (s.calls.erase existingId)[other]? = some call at hcall
      rw [FinMap.getElem?_erase] at hcall
      split at hcall
      · cases hcall
      · exact hcall
    · exact hcall
  have hfloor : s.groupFloor[gt.destination]? = some other := hd ▸ h other call hlive hk
  have hholder : floorHolder cfg s id gt = some (other, call) := by
    unfold floorHolder
    rw [hcfg, hfloor]
    simp [hne, hlive]
  rw [BrewServer.freeFloor, hholder] at hcall
  change (s.calls.erase other)[other]? = some call at hcall
  rw [FinMap.getElem?_erase, if_pos rfl] at hcall
  cases hcall

theorem FloorHeld.installGroupTx (h : FloorHeld s) {gt : GroupTransmission}
    (hfree : ∀ (other : Uuid) (call : ActiveCall), s.calls[other]? = some call → call.kind = .group →
      call.destination = gt.destination → other = id) :
    FloorHeld (installGroupTx cfg env s source id gt raw).1 := by
  intro other call hcall hk
  change (s.calls.insert id _)[other]? = some call at hcall
  change (s.groupFloor.insert gt.destination id)[call.destination]? = some other
  rw [FinMap.getElem?_insert] at hcall ⊢
  split at hcall
  · next hid =>
    cases hcall
    rw [if_pos rfl, hid]
  · next hid =>
    rw [if_neg, h other call hcall hk]
    exact fun hd => hid (hfree other call hcall hk hd.symm).symm

theorem FloorHeld.setUp {call : ActiveCall} (h : FloorHeld s) (hset : SetUp env s s' source id call) :
    FloorHeld s' := by
  intro other c hc hk
  rw [hset.calls, FinMap.getElem?_insert] at hc
  rw [hset.floor]
  split at hc
  · cases hc
    rw [hset.kind] at hk
    cases hk
  · exact h other c hc hk

theorem FloorHeld.callStep (h : FloorHeld s) (hcfg : cfg.allowMultipleCallsPerGroup = false)
    (hstep : CallStep cfg env s source raw s') : FloorHeld s' := by
  cases hstep with
  | continues hc => exact h.continues hc
  | group before continues arrives state payload accepted opened =>
    have ht := h.continues continues
    rw [opened]
    exact (ht.continues continues_freeFloor).installGroupTx fun other call hc hk hd => ht.freeFloor hcfg hc hk hd
  | setup before continues arrives state payload accepted opened => exact (h.continues continues).setUp opened

end Held

/-- With one call per group, a live group call is the one its destination's
floor names, so a group has one at most. -/
theorem floorHeld_of_reach {cfg : Config} (hcfg : cfg.allowMultipleCallsPerGroup = false) {selfId : UInt64}
    {a : AppState} (h : Reach (AppState.start selfId) (fun _ ev => ev.NoInvite) (AppState.next cfg) a) :
    (∀ (id : Uuid) (call : ActiveCall), a.inner.calls[id]? = some call → call.kind = .group →
        a.inner.groupFloor[call.destination]? = some id) ∧
      ∀ (id id' : Uuid) (call call' : ActiveCall), a.inner.calls[id]? = some call →
        a.inner.calls[id']? = some call' → call.kind = .group → call'.kind = .group →
        call.destination = call'.destination → id = id' := by
  have hheld : FloorHeld a.inner := by
    refine h.invariant (P := fun a => FloorHeld a.inner) (fun id call hc => ?_) fun a ev hinv hev => ?_
    · rw [AppState.start, Inner.empty, Std.ExtTreeMap.getElem?_empty] at hc
      cases hc
    · cases eventCalls cfg a hev with
      | same hc hf => exact hinv.congr hc hf
      | continues hc => exact hinv.continues hc
      | packet event step after => exact (hinv.callStep hcfg step).continues after
  refine ⟨hheld, fun id id' call call' hc hc' hk hk' hd => ?_⟩
  have hfloor := hheld id call hc hk
  rw [hd, hheld id' call' hc' hk'] at hfloor
  exact (Option.some.inj hfloor).symm

/-- A client talks on an empty group and holds its floor. -/
theorem floorHeld_talker :
    ((((AppState.start 9).next {} (.connect 1 (.accepted .terminal) none false)).next {}
      (.packet (.plain 5) 1 (buildGroupTx 3 7 91 0))).inner.groupFloor[(91 : UInt32)]?) = some 3 := by
  have hconnect : Event.NoInvite (.connect 1 (.accepted .terminal) none false) := trivial
  have htalk : Event.NoInvite (.packet (.plain 5) 1 (buildGroupTx 3 7 91 0)) := trivial
  exact (floorHeld_of_reach rfl (.step (.step .init hconnect) htalk)).1 3
    ⟨.group, 1, 7, 91, 0, ∅, 0, 5⟩ (by decide +kernel) rfl

section Pointer

variable {cfg : Config} {env : Env} {s s' : Inner} {source : ClientId} {id : Uuid} {raw : Bytes}

/-- Whether the floor of a group other than `g` names `id`. -/
def namedElsewhere (s : Inner) (id : Uuid) (g : Option UInt32) : Bool :=
  s.groupFloor.toList.any fun e => decide (e.2 = id) && decide (some e.1 ≠ g)

theorem namedElsewhere_eq_false {g : Option UInt32} (h : namedElsewhere s id g = false) {g' : UInt32}
    (hf : s.groupFloor[g']? = some id) : some g' = g := by
  by_contra hne
  rw [namedElsewhere, List.any_eq_false] at h
  have := h (g', id) (FinMap.mem_toList.mpr hf)
  simp [hne] at this

/-- Whether a packet opens a call under an id that the floor of some other group
names. -/
def reusesName (cfg : Config) (env : Env) (s : Inner) (source : ClientId) (raw : Bytes) : Bool :=
  match arriving env s source raw with
  | none => false
  | some (t, cc) =>
    if cc.callState = callGroupTx then
      match cc.payload with
      | .groupTransmission gt =>
        acceptsGroupTx cfg env t source cc.identifier gt && namedElsewhere t cc.identifier (some gt.destination)
      | _ => false
    else if cc.callState = callSetupRequest then
      match setupRequest cc.payload with
      | some req => acceptsSetup env t source cc.identifier req && namedElsewhere t cc.identifier none
      | none => false
    else false

/-- No packet opens a call under an id that the floor of some other group names. -/
def Event.NamesFresh (cfg : Config) (a : AppState) : Event → Prop
  | .packet env source raw => reusesName cfg env a.inner source raw = false
  | _ => True

instance (cfg : Config) (a : AppState) (ev : Event) : Decidable (ev.NamesFresh cfg a) :=
  match ev with
  | .packet env source raw => inferInstanceAs (Decidable (reusesName cfg env a.inner source raw = false))
  | .connect .. | .disconnect _ | .alarm _ | .sweep _ | .smsDeliver .. | .advertiseBts .. | .advertiseEmergency ..
  | .sipPrivate .. | .sipGroup .. | .sipEnd _ => isTrue trivial

theorem PointerSound.congr (h : PointerSound s) (hc : s'.calls = s.calls) (hf : s'.groupFloor = s.groupFloor) :
    PointerSound s' := by
  unfold PointerSound
  rw [hc, hf]
  exact h

theorem PointerSound.continues (h : PointerSound s) (hc : Continues s s') : PointerSound s' := by
  intro g id call' hf hcall'
  obtain ⟨call, hcall, hk, hd, -⟩ := hc.calls id call' hcall'
  rw [hk, hd]
  exact h g id call (hc.floor g id hf) hcall

theorem PointerSound.installGroupTx (h : PointerSound s) {gt : GroupTransmission}
    (hnamed : ∀ g : UInt32, s.groupFloor[g]? = some id → g = gt.destination) :
    PointerSound (installGroupTx cfg env s source id gt raw).1 := by
  intro g other call hf hc
  change (s.groupFloor.insert gt.destination id)[g]? = some other at hf
  change (s.calls.insert id _)[other]? = some call at hc
  rw [FinMap.getElem?_insert] at hf hc
  split at hc
  · next hid =>
    cases hc
    refine ⟨rfl, ?_⟩
    split at hf
    · next hg => exact hg
    · exact (hnamed g (hid ▸ hf)).symm
  · next hid =>
    split at hf
    · exact absurd (Option.some.inj hf) hid
    · exact h g other call hf hc

theorem PointerSound.setUp {call : ActiveCall} (h : PointerSound s) (hset : SetUp env s s' source id call)
    (hnamed : ∀ g : UInt32, s.groupFloor[g]? ≠ some id) : PointerSound s' := by
  intro g other c hf hc
  rw [hset.floor] at hf
  rw [hset.calls, FinMap.getElem?_insert] at hc
  split at hc
  · next hid => exact absurd (hid ▸ hf) (hnamed g)
  · exact h g other c hf hc

theorem PointerSound.callStep (h : PointerSound s) (hfresh : reusesName cfg env s source raw = false)
    (hstep : CallStep cfg env s source raw s') : PointerSound s' := by
  cases hstep with
  | continues hc => exact h.continues hc
  | @group t cc gt before continues arrives state payload accepted opened =>
    rw [reusesName, arrives] at hfresh
    dsimp only at hfresh
    rw [if_pos state, payload] at hfresh
    dsimp only at hfresh
    rw [accepted, Bool.true_and] at hfresh
    rw [opened]
    refine ((h.continues continues).continues continues_freeFloor).installGroupTx fun g hf => ?_
    exact Option.some.inj (namedElsewhere_eq_false hfresh (continues_freeFloor.floor g cc.identifier hf))
  | @setup t cc req call before continues arrives state payload accepted opened =>
    rw [reusesName, arrives] at hfresh
    dsimp only at hfresh
    rw [if_neg (by rw [state]; decide), if_pos state, payload] at hfresh
    dsimp only at hfresh
    rw [accepted, Bool.true_and] at hfresh
    refine (h.continues continues).setUp opened fun g hf => ?_
    cases namedElsewhere_eq_false hfresh hf

end Pointer

/-- As long as no call is opened under an id another group's floor names, a floor
leads to a call of its own group, and arbitration is against such a call only. -/
theorem pointerSound_of_reach {cfg : Config} {selfId : UInt64} {a : AppState}
    (h : Reach (AppState.start selfId) (fun a ev => ev.NoInvite ∧ ev.NamesFresh cfg a) (AppState.next cfg) a) :
    (∀ (g : UInt32) (id : Uuid) (call : ActiveCall), a.inner.groupFloor[g]? = some id →
        a.inner.calls[id]? = some call → call.kind = .group ∧ call.destination = g) ∧
      ∀ (id existingId : Uuid) (gt : GroupTransmission) (existing : ActiveCall),
        floorHolder cfg a.inner id gt = some (existingId, existing) →
        a.inner.calls[existingId]? = some existing ∧ existing.kind = .group ∧
          existing.destination = gt.destination := by
  have hsound : PointerSound a.inner := by
    refine h.invariant (P := fun a => PointerSound a.inner) (fun g id call hf => ?_) fun a ev hinv hev => ?_
    · rw [AppState.start, Inner.empty, Std.ExtTreeMap.getElem?_empty] at hf
      cases hf
    · cases eventCalls cfg a hev.1 with
      | same hc hf => exact hinv.congr hc hf
      | continues hc => exact hinv.continues hc
      | packet event step after =>
        subst event
        exact (hinv.callStep hev.2 step).continues after
  refine ⟨hsound, fun id existingId gt existing hholder => ?_⟩
  unfold floorHolder at hholder
  split at hholder
  · cases hholder
  · split at hholder
    · cases hholder
    · next other hfloor =>
      split at hholder
      · cases hholder
      · obtain ⟨call, hcall, heq⟩ := Option.map_eq_some_iff.mp hholder
        cases heq
        exact ⟨hcall, hsound gt.destination existingId existing hfloor hcall⟩

/-- The id of a call that is taken up again for another group stays the name of
the first group's floor. -/
theorem not_pointerSound :
    ¬ ∀ (cfg : Config) (selfId : UInt64) (a : AppState),
      Reach (AppState.start selfId) (fun _ ev => ev.NoInvite) (AppState.next cfg) a →
      ∀ (g : UInt32) (id : Uuid) (call : ActiveCall), a.inner.groupFloor[g]? = some id →
        a.inner.calls[id]? = some call → call.kind = .group ∧ call.destination = g := by
  intro hall
  have hconnect : Event.NoInvite (.connect 1 (.accepted .terminal) none false) := trivial
  have hfirst : Event.NoInvite (.packet (.plain 5) 1 (buildGroupTx 3 7 91 0)) := trivial
  have hagain : Event.NoInvite (.packet (.plain 6) 1 (buildGroupTx 3 7 92 0)) := trivial
  have h := hall {} 9 _ (.step (.step (.step .init hconnect) hfirst) hagain) 91 3
    ⟨.group, 1, 7, 92, 0, ∅, 0, 6⟩ (by decide +kernel) (by decide +kernel)
  exact absurd h.2 (by decide)

/-- Two groups under two ids: the floor of the second leads to a call of its own. -/
theorem pointerSound_two_groups :
    let a := (((AppState.start 9).next {} (.connect 1 (.accepted .terminal) none false)).next {}
      (.packet (.plain 5) 1 (buildGroupTx 3 7 91 0))).next {} (.packet (.plain 6) 1 (buildGroupTx 4 7 92 0))
    (a.inner.calls[(4 : Uuid)]?).map (·.kind) = some .group ∧ (a.inner.calls[(4 : Uuid)]?).map (·.destination) = some 92 := by
  intro a
  have hrun : Reach (AppState.start 9) (fun a ev => ev.NoInvite ∧ ev.NamesFresh {} a) (AppState.next {}) a :=
    .step (.step (.step .init (by decide +kernel)) (by decide +kernel)) (by decide +kernel)
  have hcall : a.inner.calls[(4 : Uuid)]? = some ⟨.group, 1, 7, 92, 0, ∅, 0, 6⟩ := by decide +kernel
  obtain ⟨hk, hd⟩ := (pointerSound_of_reach hrun).1 92 4 _ (by decide +kernel) hcall
  rw [hcall]
  exact ⟨congrArg some hk, congrArg some hd⟩

end BrewServer
