import BrewServer.Floor

/-!
# A talker held back by the blacklist

A group transmission of a blacklisted ISSI opens no call. Its frames are stopped
by that alone, so a call that is live under its uuid lets them through.
-/

namespace BrewServer

open Protocol Fedroute Router Sip

/-- The group transmission a packet carries, the call it names and the tables it
is handled on. -/
def groupTxOf (env : Env) (s : Inner) (source : ClientId) (raw : Bytes) : Option (Inner × Uuid × GroupTransmission) :=
  (arriving env s source raw).bind fun (t, cc) =>
    match cc.payload with
    | .groupTransmission gt => if cc.callState = callGroupTx then some (t, cc.identifier, gt) else none
    | _ => none

/-- Whether a group transmission is dropped for its talker: blacklisted, and no
emergency call. -/
def heldBack (env : Env) (gt : GroupTransmission) : Bool :=
  env.blocked gt.source && !isEmergencyCall env gt.source gt.priority

/-- A server, and the connections whose last group transmission on a uuid was
held back, none having been accepted on it since. -/
structure Silence where
  app : AppState
  muted : List (ClientId × Uuid)
  deriving DecidableEq

namespace Silence

def start (selfId : UInt64) : Silence := { app := .start selfId, muted := [] }

/-- Whose frames are held back after an event. -/
def mutedAfter (cfg : Config) (w : Silence) : Event → List (ClientId × Uuid)
  | .packet env source raw =>
    match groupTxOf env w.app.inner source raw with
    | some (t, id, gt) =>
      if heldBack env gt then (source, id) :: w.muted
      else if acceptsGroupTx cfg env t source id gt then w.muted.filter fun e => e.2 ≠ id
      else w.muted
    | none => w.muted
  | _ => w.muted

def next (cfg : Config) (w : Silence) (ev : Event) : Silence :=
  { app := w.app.next cfg ev, muted := w.mutedAfter cfg ev }

end Silence

/-- The parties of the private call a setup request opens. -/
def setupParties (env : Env) (s : Inner) (source : ClientId) (req : SetupRequest) : List ClientId :=
  source :: match s.subscribers[req.destination]? with
    | some sub => [sub.clientId]
    | none => match env.sip with
      | .placed _ v => [v]
      | _ => []

/-- The private call a packet opens: its uuid and its parties. -/
def opensPrivate (env : Env) (s : Inner) (source : ClientId) (raw : Bytes) : Option (Uuid × List ClientId) :=
  (arriving env s source raw).bind fun (t, cc) =>
    match setupRequest cc.payload with
    | some req =>
      if cc.callState = callSetupRequest ∧ acceptsSetup env t source cc.identifier req then
        some (cc.identifier, setupParties env t source req)
      else none
    | none => none

/-- A transmission is held back only where its connection has no live call under
that uuid to speak on, and until one is accepted on the uuid no private or SIP
call is opened under it that has the connection as a party. -/
def Event.Mutes (w : Silence) : Event → Prop
  | .packet env source raw =>
    (∀ m ∈ groupTxOf env w.app.inner source raw, heldBack env m.2.2 = true →
      ∀ call ∈ w.app.inner.calls[m.2.1]?, mayInject call source = false) ∧
    ∀ o ∈ opensPrivate env w.app.inner source raw, ∀ e ∈ w.muted, e.2 = o.1 → e.1 ∉ o.2
  | .sipPrivate _ _ issi virtualClient brewCallId _ =>
    ∀ e ∈ w.muted, e.2 = brewCallId → e.1 ≠ virtualClient ∧
      ∀ sub ∈ w.app.inner.subscribers[issi]?, e.1 ≠ sub.clientId
  | .sipGroup _ _ _ virtualClient brewCallId _ => ∀ e ∈ w.muted, e.2 = brewCallId → e.1 ≠ virtualClient
  | _ => True

instance (w : Silence) (ev : Event) : Decidable (ev.Mutes w) :=
  match ev with
  | .packet env source raw =>
    have hheld : ∀ m : Inner × Uuid × GroupTransmission, Decidable (heldBack env m.2.2 = true →
        ∀ call ∈ w.app.inner.calls[m.2.1]?, mayInject call source = false) := fun m =>
      have : Decidable (∀ call ∈ w.app.inner.calls[m.2.1]?, mayInject call source = false) :=
        Option.decidableForallMem _
      inferInstance
    have : Decidable (∀ m ∈ groupTxOf env w.app.inner source raw, heldBack env m.2.2 = true →
        ∀ call ∈ w.app.inner.calls[m.2.1]?, mayInject call source = false) :=
      @Option.decidableForallMem _ _ hheld _
    have : Decidable (∀ o ∈ opensPrivate env w.app.inner source raw, ∀ e ∈ w.muted, e.2 = o.1 → e.1 ∉ o.2) :=
      @Option.decidableForallMem _ _ (fun _ => @List.decidableBAll _ _ (fun _ => inferInstance) w.muted) _
    inferInstanceAs (Decidable (_ ∧ _))
  | .sipPrivate _ _ issi virtualClient brewCallId _ =>
    have hfar : ∀ e : ClientId × Uuid, Decidable (∀ sub ∈ w.app.inner.subscribers[issi]?, e.1 ≠ sub.clientId) :=
      fun _ => Option.decidableForallMem _
    @List.decidableBAll _ (fun e : ClientId × Uuid => e.2 = brewCallId → e.1 ≠ virtualClient ∧
      ∀ sub ∈ w.app.inner.subscribers[issi]?, e.1 ≠ sub.clientId)
      (fun e => have := hfar e; inferInstance) w.muted
  | .sipGroup _ _ _ virtualClient brewCallId _ =>
    @List.decidableBAll _ (fun e : ClientId × Uuid => e.2 = brewCallId → e.1 ≠ virtualClient) (fun _ => inferInstance) w.muted
  | .connect .. | .disconnect _ | .alarm _ | .sweep _ | .smsDeliver .. | .advertiseBts .. | .advertiseEmergency ..
  | .sipEnd _ => isTrue trivial

section Speakers

variable {cfg : Config} {env : Env} {s s' t : Inner} {source c : ClientId} {id : Uuid} {raw : Bytes}

/-- `c` has no live call under `id` to speak on. -/
def Mute (s : Inner) (c : ClientId) (id : Uuid) : Prop := ∀ call ∈ s.calls[id]?, mayInject call c = false

theorem mayInject_eq_false {call : ActiveCall} :
    mayInject call c = false ↔ call.owner ≠ c ∧ (call.kind = .«private» → c ∉ call.peers) := by
  rw [mayInject]
  cases call.kind with
  | group => simp
  | «private» =>
    rw [Bool.or_eq_false_iff, beq_eq_false_iff_ne, Bool.eq_false_iff, ne_eq, Std.ExtTreeSet.contains_iff_mem, and_comm]
    simp

/-- Calls that go on get no new speakers. -/
theorem Mute.continues (h : Mute s c id) (hc : Continues s s') : Mute s' c id := by
  intro call' hcall'
  obtain ⟨call, hcall, hkind, -, howner, -, hpeers⟩ := hc.calls id call' hcall'
  obtain ⟨hne, hpeer⟩ := mayInject_eq_false.mp (h call hcall)
  refine mayInject_eq_false.mpr ⟨howner ▸ hne, ?_⟩
  intro hprivate hmem
  rcases hpeers c hmem with hm | ⟨hgroup, -⟩
  · exact hpeer (hkind ▸ hprivate) hm
  · have hboth : CallKind.group = .«private» := hgroup.symm.trans (hkind.symm.trans hprivate)
    cases hboth

theorem Mute.insert {other : Uuid} {call : ActiveCall} (h : Mute s c id)
    (hcalls : s'.calls = s.calls.insert other call) (hnew : other = id → mayInject call c = false) : Mute s' c id := by
  intro call' hcall'
  rw [hcalls, FinMap.getElem?_insert] at hcall'
  split at hcall'
  · next hid =>
    obtain rfl : call = call' := Option.some.inj hcall'
    exact hnew hid
  · exact h call' hcall'

theorem Mute.of_calls (h : Mute s c id) (hcalls : s'.calls = s.calls) : Mute s' c id := by
  unfold Mute
  rw [hcalls]
  exact h

theorem mayInject_opened {call : ActiveCall} {far : ClientId} (howner : call.owner ≠ c)
    (hpeers : call.peers = FinSet.ofList [far]) (hfar : c ≠ far) : mayInject call c = false := by
  refine mayInject_eq_false.mpr ⟨howner, fun _ hm => ?_⟩
  rw [hpeers, FinSet.mem_ofList, List.mem_singleton] at hm
  exact hfar hm

/-- A setup opens a call for its parties only. -/
theorem Mute.handlePrivateSetup {k : Uuid} {payload : CallPayload} (h : Mute s c id)
    (hopens : ∀ req, setupRequest payload = some req → acceptsSetup env s source k req = true → k = id →
      c ∉ setupParties env s source req) :
    Mute (handlePrivateSetup env s source k payload raw).inner c id := by
  cases hreq : setupRequest payload with
  | none =>
    simp only [Router.handlePrivateSetup, hreq]
    exact h
  | some req =>
    by_cases hdup : (s.isPeer source && isDuplicate s k req.source source env.now) = true
    · simp only [Router.handlePrivateSetup, hreq, hdup, if_true]
      exact h
    · have hnoted : Mute (noteCall s k req.source source env.now) c id := h.of_calls rfl
      by_cases hbarred : barred env req = true
      · simp only [Router.handlePrivateSetup, hreq, hdup, hbarred, if_true]
        exact hnoted
      · rw [Bool.not_eq_true] at hdup hbarred
        cases hsub : s.subscribers[req.destination]? with
        | some sub =>
          by_cases hsame : sub.clientId = source
          · simp only [Router.handlePrivateSetup, hreq, hdup, hbarred, hsub, if_pos hsame, Bool.false_eq_true, if_false]
            exact hnoted
          · simp only [Router.handlePrivateSetup, hreq, hdup, hbarred, hsub, if_neg hsame, Bool.false_eq_true, if_false]
            refine hnoted.insert rfl fun hk => ?_
            have hacc : acceptsSetup env s source k req = true := by
              simp only [acceptsSetup, hdup, hbarred, hsub, Bool.not_false, Bool.true_and]
              exact bne_iff_ne.mpr hsame
            have hout := hopens req hreq hacc hk
            rw [setupParties, hsub, List.mem_cons, List.mem_singleton, not_or] at hout
            exact mayInject_opened (Ne.symm hout.1) rfl hout.2
        | none =>
          simp only [Router.handlePrivateSetup, hreq, hdup, hbarred, hsub, offerToSip, Bool.false_eq_true, if_false]
          cases hsip : env.sip with
          | noRoute => exact hnoted
          | noRtpPort => exact hnoted
          | placed callId v =>
            refine hnoted.insert rfl fun hk => ?_
            have hacc : acceptsSetup env s source k req = true := by
              simp only [acceptsSetup, hdup, hbarred, hsub, hsip, Bool.not_false, Bool.true_and]
              rfl
            have hout := hopens req hreq hacc hk
            rw [setupParties, hsub, hsip, List.mem_cons, List.mem_singleton, not_or] at hout
            exact mayInject_opened (Ne.symm hout.1) rfl hout.2

theorem routePacket_arriving {cc : CallControlMessage} (h : arriving env s source raw = some (t, cc)) :
    routePacket cfg env s source raw = callControl cfg env t source cc raw := by
  unfold arriving at h
  split at h
  · cases h
  · next hfed =>
    split at h
    · next d hparse =>
      obtain ⟨rfl, rfl⟩ := Prod.mk.inj (Option.some.inj h)
      simp only [routePacket, if_neg hfed, hparse]
      rfl
    · cases h

/-- A packet gives `c` no call under `id` to speak on, unless it is a transmission
accepted on `id` or sets up a private call under it with `c` as a party. -/
theorem Mute.routePacket (h : Mute s c id)
    (hgroup : ∀ t gt, groupTxOf env s source raw = some (t, id, gt) → acceptsGroupTx cfg env t source id gt = false)
    (hprivate : ∀ o ∈ opensPrivate env s source raw, o.1 = id → c ∉ o.2) :
    Mute (routePacket cfg env s source raw).inner c id := by
  have hstep : CallStep cfg env s source raw (Router.routePacket cfg env s source raw).inner := callStep_routePacket
  cases hstep with
  | continues hc => exact h.continues hc
  | @group t cc gt before continues arrives state payload accepted opened =>
    have hne : cc.identifier ≠ id := by
      rintro rfl
      have hof : groupTxOf env s source raw = some (t, cc.identifier, gt) := by
        rw [groupTxOf, arrives, Option.bind_some]
        simp only [payload, if_pos state]
      rw [hgroup t gt hof] at accepted
      cases accepted
    have hfreed : Mute (freeFloor cfg t cc.identifier gt) c id := (h.continues continues).continues continues_freeFloor
    rw [opened]
    exact hfreed.insert rfl fun hid => absurd hid hne
  | @setup t cc req call before continues arrives state payload accepted opened =>
    have hroute : (Router.routePacket cfg env s source raw).inner =
        (Router.handlePrivateSetup env t source cc.identifier cc.payload raw).inner := by
      rw [routePacket_arriving arrives, callControl, state]
      rfl
    rw [hroute]
    refine (h.continues continues).handlePrivateSetup fun req' hreq hacc hid => ?_
    refine hprivate (cc.identifier, setupParties env t source req') ?_ hid
    rw [opensPrivate, arrives, Option.mem_def, Option.bind_some]
    simp only [hreq, state, hacc, and_self, if_true]

/-- A voice or DTMF frame of a connection that may not speak goes nowhere. -/
theorem routePacket_mute {f : FrameMessage} {d : ConnVersion} (h : Mute s source f.identifier)
    (hparse : parseWithVersion raw (clientVersion s source) = some (.ok (.frame f, d)))
    (hframe : f.frameType = frameTrafficChannel ∨ f.frameType = frameDtmf) :
    (Router.routePacket cfg env s source raw).sends = [] ∧ (Router.routePacket cfg env s source raw).ended = [] := by
  have hfed : raw.head? ≠ some classFederation := by
    have hne : classFrame ≠ classFederation := by decide
    rw [head?_of_parse hparse]
    exact fun h => hne (Option.some.inj h)
  have hversion : clientVersion (purgeEphemeral env s) source = clientVersion s source := rfl
  have hcalls : (promoteClientVersion (purgeEphemeral env s) source d).calls = s.calls := by
    unfold promoteClientVersion
    split <;> rfl
  have hroute : Router.routePacket cfg env s source raw =
      routeCallFrame env (promoteClientVersion (purgeEphemeral env s) source d) source f.identifier raw := by
    simp only [Router.routePacket, hversion, hparse, if_neg hfed, dispatch, frame]
    rcases hframe with h | h <;> rw [h] <;> rfl
  rw [hroute, routeCallFrame]
  cases hlive : (promoteClientVersion (purgeEphemeral env s) source d).calls[f.identifier]? with
  | none => exact ⟨rfl, rfl⟩
  | some call =>
    rw [hcalls] at hlive
    simp only [h call hlive, Bool.false_eq_true, if_false]
    exact ⟨trivial, trivial⟩

theorem Mute.sipToBrewPrivate {a : AppState} {callId : String} {issi : UInt32} {v : ClientId} {k : Uuid}
    {rtpPort : Bool} (h : Mute a.inner c id)
    (hnew : k = id → c ≠ v ∧ ∀ sub ∈ a.inner.subscribers[issi]?, c ≠ sub.clientId) :
    Mute (sipToBrewPrivate env a callId issi v k rtpPort).1.inner c id := by
  unfold Sip.sipToBrewPrivate
  split
  · exact h
  · split
    · exact h
    · next sub hsub =>
      split
      · exact h
      · refine h.insert rfl fun hk => ?_
        obtain ⟨hv, hfar⟩ := hnew hk
        exact mayInject_opened hv.symm rfl (hfar sub hsub)

theorem Mute.sipToBrewGroup {a : AppState} {callId : String} {g : UInt32} {v : ClientId} {k : Uuid} {rtpPort : Bool}
    (h : Mute a.inner c id) (hnew : k = id → c ≠ v) :
    Mute (sipToBrewGroup cfg env a callId g v k rtpPort).1.inner c id := by
  unfold Sip.sipToBrewGroup
  split
  · exact h
  · split
    · exact h
    · refine h.insert rfl fun hk => ?_
      refine mayInject_eq_false.mpr ⟨(hnew hk).symm, fun hprivate => ?_⟩
      cases hprivate

end Speakers

namespace Silence

variable {cfg : Config} {w : Silence} {ev : Event}

/-- Whoever is held back has no live call under the uuid to speak on. -/
def Kept (w : Silence) : Prop := ∀ e ∈ w.muted, Mute w.app.inner e.1 e.2

/-- A group transmission opens no private call. -/
theorem opensPrivate_of_groupTx {env : Env} {s : Inner} {source : ClientId} {raw : Bytes} {m : Inner × Uuid × GroupTransmission}
    (h : groupTxOf env s source raw = some m) : opensPrivate env s source raw = none := by
  obtain ⟨⟨t, cc⟩, harrives, hm⟩ := Option.bind_eq_some_iff.mp h
  rw [opensPrivate, harrives, Option.bind_some]
  dsimp only at hm ⊢
  split at hm
  · split at hm
    · next hstate =>
      have hne : cc.callState ≠ callSetupRequest := by rw [hstate]; decide
      split
      · rw [if_neg fun h => hne h.1]
      · rfl
    · cases hm
  · cases hm

/-- A packet after which `e` is muted finds it so, or holds its transmission back. -/
theorem kept_packet {env : Env} {source : ClientId} {raw : Bytes} (h : w.Kept) (hok : (Event.packet env source raw).Mutes w)
    {e : ClientId × Uuid} (he : e ∈ w.mutedAfter cfg (.packet env source raw)) :
    Mute (w.app.next cfg (.packet env source raw)).inner e.1 e.2 := by
  obtain ⟨hheld, hopens⟩ := hok
  have hr : (Event.packet env source raw).Routed := trivial
  rw [AppState.next, w.app.run_routed cfg hr]
  refine Mute.continues (s := (Router.routePacket cfg env w.app.inner source raw).inner) ?_ (continues_settle w.app _)
  rw [mutedAfter] at he
  cases hgt : groupTxOf env w.app.inner source raw with
  | none =>
    simp only [hgt] at he
    refine (h e he).routePacket (fun t gt hof => ?_) fun o ho hid => hopens o ho e he hid.symm
    rw [hgt] at hof
    cases hof
  | some m =>
    obtain ⟨t, id, gt⟩ := m
    simp only [hgt] at he
    have hnone := opensPrivate_of_groupTx hgt
    have hprivate : ∀ o ∈ opensPrivate env w.app.inner source raw, o.1 = e.2 → e.1 ∉ o.2 := by
      intro o ho
      rw [hnone] at ho
      cases ho
    cases hback : heldBack env gt with
    | true =>
      rw [if_pos hback] at he
      have hbefore : Mute w.app.inner e.1 e.2 := by
        rcases List.mem_cons.mp he with rfl | he
        · exact hheld (t, id, gt) hgt hback
        · exact h e he
      refine hbefore.routePacket (fun t' gt' hof => ?_) hprivate
      rw [hgt] at hof
      obtain ⟨rfl, hrest⟩ := Prod.mk.inj (Option.some.inj hof)
      obtain ⟨-, rfl⟩ := Prod.mk.inj hrest
      rw [acceptsGroupTx, show (env.blocked gt.source && !isEmergencyCall env gt.source gt.priority) = true from hback]
      rfl
    | false =>
      rw [hback] at he
      by_cases hacc : acceptsGroupTx cfg env t source id gt = true
      · -- an accepted transmission unmutes its uuid
        simp only [hacc, Bool.false_eq_true, if_false, if_true, List.mem_filter, decide_eq_true_eq] at he
        refine (h e he.1).routePacket (fun t' gt' hof => ?_) hprivate
        rw [hgt] at hof
        obtain ⟨rfl, hrest⟩ := Prod.mk.inj (Option.some.inj hof)
        exact absurd (Prod.mk.inj hrest).1.symm he.2
      · rw [Bool.not_eq_true] at hacc
        simp only [hacc, Bool.false_eq_true, if_false] at he
        refine (h e he).routePacket (fun t' gt' hof => ?_) hprivate
        rw [hgt] at hof
        obtain ⟨rfl, hrest⟩ := Prod.mk.inj (Option.some.inj hof)
        obtain ⟨rfl, rfl⟩ := Prod.mk.inj hrest
        exact hacc

theorem Kept.next (h : w.Kept) (hok : ev.Mutes w) : (w.next cfg ev).Kept := by
  intro e he
  change Mute (w.app.next cfg ev).inner e.1 e.2
  change e ∈ w.mutedAfter cfg ev at he
  -- every other event leaves the muted as they are
  have hcalls : ev.NoInvite → (∀ env source raw, ev ≠ .packet env source raw) → e ∈ w.muted →
      Mute (w.app.next cfg ev).inner e.1 e.2 := by
    intro hinvite hpacket hmem
    rcases eventCalls cfg w.app hinvite with ⟨hsame, -⟩ | hc | ⟨rfl, -, -⟩
    · exact (h e hmem).of_calls hsame
    · exact (h e hmem).continues hc
    · exact absurd rfl (hpacket _ _ _)
  cases ev with
  | packet env source raw => exact kept_packet h hok he
  | sipPrivate env callId issi v k rtpPort =>
    have hrun : w.app.run cfg (.sipPrivate env callId issi v k rtpPort) =
        sipToBrewPrivate env w.app callId issi v k rtpPort := rfl
    rw [AppState.next, hrun]
    exact (h e he).sipToBrewPrivate fun hk => hok e he hk.symm
  | sipGroup env callId g v k rtpPort =>
    have hrun : w.app.run cfg (.sipGroup env callId g v k rtpPort) =
        sipToBrewGroup cfg env w.app callId g v k rtpPort := rfl
    rw [AppState.next, hrun]
    exact (h e he).sipToBrewGroup fun hk => hok e he hk.symm
  | _ => exact hcalls trivial (fun _ _ _ h => by cases h) he

/-- In every run in which each event mutes, no frame of a connection whose group
transmission was held back is passed on, until a transmission is accepted on
its uuid. -/
theorem silent_of_reach {cfg : Config} {selfId : UInt64} {w : Silence}
    (h : Reach (Silence.start selfId) (fun w ev => ev.Mutes w) (Silence.next cfg) w) :
    ∀ e ∈ w.muted, ∀ (env : Env) (raw : Bytes) (f : FrameMessage) (d : ConnVersion),
      parseWithVersion raw (clientVersion w.app.inner e.1) = some (.ok (.frame f, d)) → f.identifier = e.2 →
      f.frameType = frameTrafficChannel ∨ f.frameType = frameDtmf →
      w.app.sent cfg (.packet env e.1 raw) = [] := by
  have hkept : w.Kept := h.invariant (fun _ he => absurd he List.not_mem_nil) fun _ _ hk hok => hk.next hok
  intro e he env raw f d hparse hid htype
  have hmute : Mute w.app.inner e.1 f.identifier := hid ▸ hkept e he
  have hsilent : (Router.routePacket cfg env w.app.inner e.1 raw).sends = [] ∧
      (Router.routePacket cfg env w.app.inner e.1 raw).ended = [] := routePacket_mute hmute hparse htype
  obtain ⟨hsends, hended⟩ := hsilent
  have hr : (Event.packet env e.1 raw).Routed := trivial
  rw [AppState.sent, w.app.run_routed cfg hr]
  change (settle w.app (Router.routePacket cfg env w.app.inner e.1 raw)).2 = []
  rw [settle, hended, List.foldl_nil, hsends]

/-- An outside in which ISSI 8 is blacklisted. -/
def barsEight (nowMs : UInt64) : Env := { Env.plain nowMs with blocked := fun issi => issi == 8 }

def voiceOf (id : Uuid) : Bytes := [classFrame, frameTrafficChannel] ++ id.asBytes ++ [0, 0, 17]

/-- The blacklisted radio keys up first. -/
theorem silent_barred :
    let w := (((Silence.start 9).next {} (.connect 1 (.accepted .basestation) none false)).next {}
      (.connect 2 (.accepted .basestation) none false)).next {} (.packet (barsEight 5) 1 (buildGroupTx 3 8 91 0))
    (1, 3) ∈ w.muted ∧ w.app.sent {} (.packet (barsEight 6) 1 (voiceOf 3)) = [] := by
  intro w
  have hrun : Reach (Silence.start 9) (fun w ev => ev.Mutes w) (Silence.next {}) w :=
    .step (.step (.step .init (by decide +kernel)) (by decide +kernel)) (by decide +kernel)
  have hmuted : (1, 3) ∈ w.muted := by decide +kernel
  exact ⟨hmuted, silent_of_reach hrun (1, 3) hmuted (barsEight 6) (voiceOf 3)
    { frameType := frameTrafficChannel, identifier := 3, lengthBits := 0, data := [17] } .v0 (by decide +kernel) rfl
    (.inl rfl)⟩

/-- The blacklisted radio takes over a call its own connection has running: its
transmission is dropped and its voice goes out. -/
theorem not_silent :
    ¬ ∀ (cfg : Config) (selfId : UInt64) (w : Silence),
      Reach (Silence.start selfId) (fun w ev => ev.Allowed w.app) (Silence.next cfg) w →
      ∀ e ∈ w.muted, ∀ (env : Env) (raw : Bytes) (f : FrameMessage) (d : ConnVersion),
        parseWithVersion raw (clientVersion w.app.inner e.1) = some (.ok (.frame f, d)) → f.identifier = e.2 →
        f.frameType = frameTrafficChannel → w.app.sent cfg (.packet env e.1 raw) = [] := by
  intro hall
  have h := hall {} 9
    (((((Silence.start 9).next {} (.connect 1 (.accepted .basestation) none false)).next {}
      (.connect 2 (.accepted .basestation) none false)).next {} (.packet (barsEight 5) 1 (buildGroupTx 3 7 91 0))).next {}
      (.packet (barsEight 6) 1 (buildGroupTx 3 8 91 0)))
    (.step (.step (.step (.step .init (by decide +kernel)) (by decide +kernel)) (by decide +kernel)) (by decide +kernel))
    (1, 3) (by decide +kernel) (barsEight 7) (voiceOf 3)
    { frameType := frameTrafficChannel, identifier := 3, lengthBits := 0, data := [17] } .v0 (by decide +kernel) rfl rfl
  revert h
  decide +kernel

end Silence

end BrewServer
