import BrewServer.RouteTable
import BrewServer.Sip.Relay
import BrewServer.Sip.Routing

/-!
# What becomes of a private setup

A setup is forwarded, bridged to SIP, refused or dropped. The bridge says it has taken
a call as soon as a route leads to somebody it could call, also where there is no port
for the media.
-/

namespace BrewServer

open Protocol Fedroute Router Sip

namespace Dialling

structure Registration where
  contact : String
  source : String

structure SipTrunkConfig where
  remoteHost : String

/-- What the bridge has of the SIP side: its configuration and its tables. -/
structure SipSide where
  routes : List VoiceRouteConfig := []
  trunkConfigs : FinMap String SipTrunkConfig := ∅
  registrations : FinMap String Registration := ∅
  state : SipState := { trunks := ∅ }
  relay : RtpRelay

/-- What a call is placed with: the host's network, and new identifiers. -/
structure Host where
  /-- `str::parse::<SocketAddr>`. -/
  parseAddr : String → Option String
  /-- The ports that `UdpSocket::bind` gives. -/
  bind : UInt16 → Bool
  callId : String
  virtualClient : ClientId

/-- An INVITE that the bridge sends. -/
structure Invite where
  callId : String
  targetUri : String
  targetAddr : String
  callerId : String
  localPort : UInt16

structure BrewCallLink where
  callId : Uuid
  client : ClientId
  sourceIssi : UInt32

/-- A server and its SIP side, and what a handler has sent. -/
structure Site where
  app : AppState
  side : Option SipSide
  sends : Sends := []
  invites : List Invite := []

/-- `SipState::lookup_registration`: an expired entry is still found. -/
def SipSide.lookupRegistration (side : SipSide) (aor : String) : Option Registration := side.registrations[aor]?

def SipSide.trunkForPeerAddr (side : SipSide) (name : String) : Option String :=
  (side.state.trunks[name]?).bind TrunkState.peerAddr

/-- A leg is allocated, and with it the call and its leg are written and the INVITE goes
out. Without a port it is left at that. -/
def placeOutbound (env : Env) (host : Host) (a : AppState) (side : SipSide) («from» «to» : LegEndpoint)
    (targetUri targetAddr : String) (link : BrewCallLink) : Site :=
  match side.relay.allocLeg host.bind with
  | (relay, none) => { app := a, side := some { side with relay } }
  | (relay, some localPort) =>
    let started := side.state.startCall
      { callId := host.callId, «from», «to», startedAtMs := env.nowMs, answeredAtMs := none,
        state := "brew-originated", rtpAPort := some localPort, rtpBPort := none }
    let state := started.trackMedia host.callId localPort.toNat
    let placed := Router.placeOutbound env a.inner link.client link.callId host.callId host.virtualClient
    let callerId := if link.sourceIssi = 0 then "brew" else toString link.sourceIssi
    { app := placed.legs a
      side := some { side with relay, state }
      sends := placed.sends
      invites := [{ callId := host.callId, targetUri, targetAddr, callerId, localPort }] }

/-- The part of `host:port` in front of the colon. -/
def hostOf (remoteHost : String) : String := String.ofList (remoteHost.toList.takeWhile (· != ':'))

/-- Places a call that a route leads out of Brew, and says whether it did. -/
def brewToSip (env : Env) (host : Host) (a : AppState) (side : SipSide) (origin : CallOrigin) (dialled : String)
    (link : BrewCallLink) : Site × Bool :=
  match resolve origin dialled side.routes with
  | none => ({ app := a, side := some side }, false)
  | some (dest, _) =>
    match dest with
    | .sipExtension aor =>
      match side.lookupRegistration aor with
      | none => ({ app := a, side := some side }, false)
      | some reg => (placeOutbound env host a side origin.toLeg dest reg.contact reg.source link, true)
    | .sipTrunk trunk number =>
      match side.trunkConfigs[trunk]? with
      | none => ({ app := a, side := some side }, false)
      | some tc =>
        match host.parseAddr tc.remoteHost <|> side.trunkForPeerAddr trunk with
        | none => ({ app := a, side := some side }, false)
        | some peer =>
          (placeOutbound env host a side origin.toLeg dest s!"sip:{number}@{hostOf tc.remoteHost}" peer link, true)
    | .brewPrivate _ | .brewGroup _ | .sipExternal _ => ({ app := a, side := some side }, false)

/-- The number that a caller dials: that of the call, or else the ISSI. -/
def dialledOf (payload : CallPayload) (destination : UInt32) : String :=
  let number := match payload with
    | .circularCall c => String.ofList (Chars.trim Chars.isWhitespace c.number.toList)
    | _ => ""
  if number.isEmpty then toString destination else number

/-- The SIP side, if there is one, is offered a call. -/
def bridged (env : Env) (host : Host) (a : AppState) (side : Option SipSide) (source : ClientId) (id : Uuid)
    (payload : CallPayload) (req : SetupRequest) : Site × Bool :=
  match side with
  | none => ({ app := a, side := none }, false)
  | some side =>
    brewToSip env host a side (.brewPrivate req.source) (dialledOf payload req.destination)
      { callId := id, client := source, sourceIssi := req.source }

/-- A setup whose destination is no subscriber is offered to the SIP side before it is
refused. -/
def handlePrivateSetup (env : Env) (host : Host) (a : AppState) (side : Option SipSide) (source : ClientId) (id : Uuid)
    (payload : CallPayload) (raw : Bytes) : Site :=
  match setupRequest payload with
  | none => { app := a, side }
  | some req =>
    if a.inner.isPeer source && isDuplicate a.inner id req.source source env.now then { app := a, side }
    else
      let noted := { a with inner := noteCall a.inner id req.source source env.now }
      if barred env req then { app := noted, side, sends := rejectSetup noted.inner source id }
      else
        match noted.inner.subscribers[req.destination]? with
        | none =>
          let (w, taken) := bridged env host noted side source id payload req
          if taken then w else { w with sends := w.sends ++ rejectSetup w.app.inner source id }
        | some sub =>
          if sub.clientId = source then
            { app := noted, side, sends := if a.inner.isPeer source then [] else rejectSetup noted.inner source id }
          else
            let (connected, sends) := connectPrivate env noted.inner source id req raw sub.clientId
            { app := { noted with inner := connected }, side, sends }

/-! ## Where a route leads -/

/-- The first route that applies leads to somebody the bridge can call. -/
inductive SipSide.Leads (side : SipSide) (host : Host) (origin : CallOrigin) (dialled : String) : Prop
  | extension {aor : String} {route : VoiceRouteConfig}
      (resolved : resolve origin dialled side.routes = some (.sipExtension aor, route)) (registered : aor ∈ side.registrations)
  | trunk {trunk number : String} {route : VoiceRouteConfig} {tc : SipTrunkConfig}
      (resolved : resolve origin dialled side.routes = some (.sipTrunk trunk number, route))
      (configured : side.trunkConfigs[trunk]? = some tc)
      (located : (host.parseAddr tc.remoteHost).isSome ∨ (side.trunkForPeerAddr trunk).isSome)

/-- No port of the pool can be bound. -/
def SipSide.NoPort (side : SipSide) (host : Host) : Prop := ∀ port ∈ side.relay.ports, host.bind port = false

/-- Whether a setup gets as far as the SIP side. -/
def offered (env : Env) (s : Inner) (source : ClientId) (id : Uuid) (req : SetupRequest) : Bool :=
  !(s.isPeer source && isDuplicate s id req.source source env.now) && !barred env req &&
    (s.subscribers[req.destination]?).isNone

/-- A private call between `owner` and `peer` is recorded under `id`. -/
def RecordsCall (s : Inner) (id : Uuid) (owner peer : ClientId) : Prop :=
  ∃ call : ActiveCall, s.calls[id]? = some call ∧ call.kind = .«private» ∧ call.owner = owner ∧
    call.peers = FinSet.ofList [peer]

/-- The call is recorded, and under a Call-ID its leg. -/
def RecordsLeg (a : AppState) (callId : String) (id : Uuid) (owner : ClientId) : Prop :=
  ∃ leg : BridgedLeg, a.legs[callId]? = some leg ∧ leg.brewCallId = id ∧ RecordsCall a.inner id owner leg.virtualClient

/-- What can become of a setup. -/
inductive SetupOutcome
  | forwarded
  | bridged
  | rejected
  | dropped

/-- What became of a setup that a handler left `w` of. -/
def SetupOutcome.Happened (env : Env) (host : Host) (a : AppState) (source : ClientId) (id : Uuid) (req : SetupRequest) (raw : Bytes)
    (w : Site) : SetupOutcome → Prop
  | .forwarded => ∃ (sub : Subscriber) (c : Client), a.inner.subscribers[req.destination]? = some sub ∧
      sub.clientId ≠ source ∧ a.inner.clients[sub.clientId]? = some c ∧
      w.sends = [(sub.clientId, adaptToVersion raw c.forwardVersion)] ∧ RecordsCall w.app.inner id source sub.clientId ∧
      w.app.legs = a.legs ∧ w.invites = []
  | .bridged => RecordsLeg w.app host.callId id source ∧ w.sends = [(source, buildCallControlEmpty callSetupAccept id)] ∧
      w.invites.length = 1
  | .rejected => w.sends = [(source, buildCallCause callSetupReject id causeCalledPartyNotReachable)] ∧
      w.app.inner.calls = a.inner.calls ∧ w.app.legs = a.legs ∧ w.invites = []
  | .dropped => a.inner.isPeer source = true ∧
      (isDuplicate a.inner id req.source source env.now = true ∨
        ∃ sub : Subscriber, a.inner.subscribers[req.destination]? = some sub ∧ sub.clientId = source) ∧
      w.sends = [] ∧ w.app.inner.calls = a.inner.calls ∧ w.app.legs = a.legs ∧ w.invites = []

section Bridge

variable {env : Env} {host : Host} {a : AppState} {side : SipSide} {origin : CallOrigin} {dialled : String}
  {link : BrewCallLink} {«from» «to» : LegEndpoint} {uri addr : String}

/-- Without a port nothing is recorded and nothing is sent. -/
theorem placeOutbound_of_noPort (h : side.NoPort host) :
    ∃ relay, placeOutbound env host a side «from» «to» uri addr link = { app := a, side := some { side with relay } } := by
  have hnone := RtpRelay.allocLeg_eq_none_iff.mpr h
  unfold placeOutbound
  split
  · next relay heq => exact ⟨relay, rfl⟩
  · next relay port heq =>
    rw [heq] at hnone
    cases hnone

/-- With a port the call is written as `Router.placeOutbound` has it, and its leg under the
Call-ID. -/
theorem placeOutbound_of_port (h : ¬ side.NoPort host) :
    ∃ (side' : SipSide) (invite : Invite), placeOutbound env host a side «from» «to» uri addr link =
      { app := (Router.placeOutbound env a.inner link.client link.callId host.callId host.virtualClient).legs a
        side := some side'
        sends := (Router.placeOutbound env a.inner link.client link.callId host.callId host.virtualClient).sends
        invites := [invite] } := by
  unfold placeOutbound
  split
  · next relay heq => exact absurd (RtpRelay.allocLeg_eq_none_iff.mp (congrArg Prod.snd heq)) h
  · exact ⟨_, _, rfl⟩

theorem recordsLeg_placed :
    RecordsLeg ((Router.placeOutbound env a.inner link.client link.callId host.callId host.virtualClient).legs a)
      host.callId link.callId link.client :=
  ⟨⟨host.virtualClient, link.callId, none⟩, FinMap.getElem?_insert.trans (if_pos rfl), rfl, _,
    FinMap.getElem?_insert.trans (if_pos rfl), rfl, rfl, rfl⟩

theorem leads_extension_iff {aor : String} {route : VoiceRouteConfig}
    (hres : resolve origin dialled side.routes = some (.sipExtension aor, route)) :
    side.Leads host origin dialled ↔ aor ∈ side.registrations := by
  constructor
  · rintro (⟨hled, hmem⟩ | ⟨hled, -⟩)
    · rw [hres] at hled
      cases hled
      exact hmem
    · rw [hres] at hled
      cases hled
  · exact .extension hres

theorem leads_trunk_iff {trunk number : String} {route : VoiceRouteConfig}
    (hres : resolve origin dialled side.routes = some (.sipTrunk trunk number, route)) :
    side.Leads host origin dialled ↔ ∃ tc, side.trunkConfigs[trunk]? = some tc ∧
      (host.parseAddr tc.remoteHost <|> side.trunkForPeerAddr trunk).isSome = true := by
  have hfirst (tc : SipTrunkConfig) : (host.parseAddr tc.remoteHost <|> side.trunkForPeerAddr trunk).isSome = true ↔
      (host.parseAddr tc.remoteHost).isSome ∨ (side.trunkForPeerAddr trunk).isSome := by
    rw [Option.orElse_eq_orElse, Option.orElse_eq_or, Option.isSome_or, Bool.or_eq_true]
  constructor
  · rintro (⟨hled, -⟩ | ⟨hled, hconf, hlocated⟩)
    · rw [hres] at hled
      cases hled
    · rw [hres] at hled
      cases hled
      exact ⟨_, hconf, (hfirst _).mpr hlocated⟩
  · rintro ⟨tc, hconf, hlocated⟩
    exact .trunk hres hconf ((hfirst tc).mp hlocated)

/-- Without a route to an extension or a trunk a call leads nowhere. -/
theorem not_leads (hextension : ∀ aor route, resolve origin dialled side.routes ≠ some (.sipExtension aor, route))
    (htrunk : ∀ trunk number route, resolve origin dialled side.routes ≠ some (.sipTrunk trunk number, route)) :
    ¬ side.Leads host origin dialled := by
  rintro (⟨hled, -⟩ | ⟨hled, -⟩)
  · exact hextension _ _ hled
  · exact htrunk _ _ _ hled

/-- The bridge takes a call exactly where a route leads somewhere, and then places it. -/
theorem brewToSip_cases :
    (side.Leads host origin dialled ∧ ∃ («to» : LegEndpoint) (uri addr : String),
        brewToSip env host a side origin dialled link =
          (placeOutbound env host a side origin.toLeg «to» uri addr link, true)) ∨
      (¬ side.Leads host origin dialled ∧
        brewToSip env host a side origin dialled link = ({ app := a, side := some side }, false)) := by
  unfold brewToSip
  cases hres : resolve origin dialled side.routes with
  | none => exact .inr ⟨not_leads (by simp [hres]) (by simp [hres]), rfl⟩
  | some found =>
    obtain ⟨dest, route⟩ := found
    cases dest with
    | sipExtension aor =>
      rw [leads_extension_iff hres, FinMap.mem_iff]
      dsimp only
      unfold SipSide.lookupRegistration
      cases side.registrations[aor]? with
      | some reg => exact .inl ⟨⟨reg, rfl⟩, _, _, _, rfl⟩
      | none => exact .inr ⟨fun ⟨_, h⟩ => Option.some_ne_none _ h.symm, rfl⟩
    | sipTrunk trunk number =>
      rw [leads_trunk_iff hres]
      dsimp only
      cases side.trunkConfigs[trunk]? with
      | none => exact .inr ⟨fun ⟨_, h, _⟩ => Option.some_ne_none _ h.symm, rfl⟩
      | some tc =>
        dsimp only
        cases haddr : host.parseAddr tc.remoteHost <|> side.trunkForPeerAddr trunk with
        | some peer => exact .inl ⟨⟨tc, rfl, by rw [haddr]; rfl⟩, _, _, _, rfl⟩
        | none =>
          refine .inr ⟨?_, rfl⟩
          rintro ⟨tc', htc, hlocated⟩
          cases htc
          rw [haddr] at hlocated
          cases hlocated
    | brewPrivate issi => exact .inr ⟨not_leads (by simp [hres]) (by simp [hres]), rfl⟩
    | brewGroup gssi => exact .inr ⟨not_leads (by simp [hres]) (by simp [hres]), rfl⟩
    | sipExternal uri => exact .inr ⟨not_leads (by simp [hres]) (by simp [hres]), rfl⟩

/-- What the bridge says it took it has recorded, but for a call that a route leads
somewhere and that no port is left for. -/
theorem recordsLeg_brewToSip (hnew : host.callId ∉ a.legs) :
    ((brewToSip env host a side origin dialled link).2 = true →
        RecordsLeg (brewToSip env host a side origin dialled link).1.app host.callId link.callId link.client) ↔
      ¬ (side.Leads host origin dialled ∧ side.NoPort host) := by
  rcases @brewToSip_cases env host a side origin dialled link with ⟨hleads, «to», uri, addr, heq⟩ | ⟨hno, heq⟩
  · rw [heq]
    by_cases hport : side.NoPort host
    · obtain ⟨relay, hleft⟩ := @placeOutbound_of_noPort env host a side link origin.toLeg «to» uri addr hport
      rw [hleft]
      constructor
      · intro h
        obtain ⟨leg, hleg, -⟩ := h rfl
        exact absurd (FinMap.mem_of_getElem? hleg) hnew
      · intro h
        exact absurd ⟨hleads, hport⟩ h
    · obtain ⟨side', invite, hplaced⟩ := @placeOutbound_of_port env host a side link origin.toLeg «to» uri addr hport
      rw [hplaced]
      exact ⟨fun _ h => hport h.2, fun _ _ => recordsLeg_placed⟩
  · rw [heq]
    constructor
    · exact fun _ h => hno h.1
    · intro _ h
      cases h

end Bridge

/-! ## Outcomes -/

section Outcomes

variable {env : Env} {host : Host} {a : AppState} {side : Option SipSide} {source : ClientId} {id : Uuid}
  {req : SetupRequest} {raw : Bytes} {w : Site} {payload : CallPayload}

/-- What a setup left tells what became of it. -/
def verdict (source : ClientId) (id : Uuid) (w : Site) : SetupOutcome :=
  if w.sends.isEmpty then .dropped
  else if w.sends = [(source, buildCallControlEmpty callSetupAccept id)] then .bridged
  else if w.sends.any fun m => m.1 = source then .rejected
  else .forwarded

theorem accept_ne_reject : buildCallControlEmpty callSetupAccept id ≠
    buildCallCause callSetupReject id causeCalledPartyNotReachable := by
  intro h
  have hstate := congrArg (·[1]?) h
  exact absurd (Option.some.inj hstate) (by decide)

theorem SetupOutcome.Happened.eq_verdict {o : SetupOutcome} (h : o.Happened env host a source id req raw w) :
    o = verdict source id w := by
  unfold verdict
  cases o with
  | forwarded =>
    obtain ⟨sub, c, -, hsub, -, hsends, -⟩ := h
    simp [hsends, hsub]
  | bridged =>
    obtain ⟨-, hsends, -⟩ := h
    simp [hsends]
  | rejected =>
    obtain ⟨hsends, -⟩ := h
    simp [hsends, accept_ne_reject.symm]
  | dropped =>
    obtain ⟨-, -, hsends, -⟩ := h
    simp [hsends]

theorem rejectSetup_connected {s : Inner} (hsource : source ∈ s.clients) :
    rejectSetup s source id = [(source, buildCallCause callSetupReject id causeCalledPartyNotReachable)] := by
  rw [rejectSetup, Inner.send, if_pos hsource]

/-- The SIP side cannot take a call that a route leads somewhere: no port is left. -/
def Stuck (host : Host) (side : Option SipSide) (origin : CallOrigin) (dialled : String) : Prop :=
  ∃ s ∈ side, s.Leads host origin dialled ∧ s.NoPort host

/-- What the SIP side has to say to a setup it is offered. -/
theorem bridged_cases (env : Env) (hsource : source ∈ a.inner.clients) :
    (Stuck host side (.brewPrivate req.source) (dialledOf payload req.destination) ∧
        ∃ side', bridged env host a side source id payload req = ({ app := a, side := side' }, true)) ∨
      (¬ Stuck host side (.brewPrivate req.source) (dialledOf payload req.destination) ∧
        ((∃ side' invite, bridged env host a side source id payload req =
            ({ app := (Router.placeOutbound env a.inner source id host.callId host.virtualClient).legs a
               side := side'
               sends := [(source, buildCallControlEmpty callSetupAccept id)]
               invites := [invite] }, true)) ∨
          ∃ side', bridged env host a side source id payload req = ({ app := a, side := side' }, false))) := by
  unfold bridged
  cases side with
  | none =>
    refine .inr ⟨?_, .inr ⟨none, rfl⟩⟩
    rintro ⟨s, hs, -⟩
    cases hs
  | some side =>
    dsimp only
    rcases @brewToSip_cases env host a side (.brewPrivate req.source) (dialledOf payload req.destination)
        ⟨id, source, req.source⟩ with ⟨hleads, «to», uri, addr, heq⟩ | ⟨hno, heq⟩
    · by_cases hport : side.NoPort host
      · obtain ⟨relay, hleft⟩ := @placeOutbound_of_noPort env host a side ⟨id, source, req.source⟩
          (CallOrigin.brewPrivate req.source).toLeg «to» uri addr hport
        exact .inl ⟨⟨side, rfl, hleads, hport⟩, _, by rw [heq, hleft]⟩
      · obtain ⟨side', invite, hplaced⟩ := @placeOutbound_of_port env host a side ⟨id, source, req.source⟩
          (CallOrigin.brewPrivate req.source).toLeg «to» uri addr hport
        refine .inr ⟨?_, .inl ⟨some side', invite, ?_⟩⟩
        · rintro ⟨s, hs, -, hnone⟩
          cases hs
          exact hport hnone
        · have hconnected : (Router.placeOutbound env a.inner source id host.callId host.virtualClient).sends =
              [(source, buildCallControlEmpty callSetupAccept id)] := by
            show Inner.send _ source _ = _
            rw [Inner.send, if_pos (FinMap.mem_insert.mpr (.inr hsource))]
          rw [heq, hplaced, hconnected]
    · refine .inr ⟨?_, .inr ⟨some side, heq⟩⟩
      rintro ⟨s, hs, hleads, -⟩
      cases hs
      exact hno hleads

/-- A setup that the SIP side is not stuck with has an outcome. -/
theorem exists_outcome (hreq : setupRequest payload = some req) (hsource : source ∈ a.inner.clients)
    (howners : ∀ (issi : UInt32) (sub : Subscriber), a.inner.subscribers[issi]? = some sub →
      sub.clientId ∈ a.inner.clients)
    (h : ¬ (offered env a.inner source id req = true ∧
      Stuck host side (.brewPrivate req.source) (dialledOf payload req.destination))) :
    ∃ o : SetupOutcome, o.Happened env host a source id req raw
      (handlePrivateSetup env host a side source id payload raw) := by
  unfold handlePrivateSetup
  unfold offered at h
  rw [hreq]
  dsimp only
  by_cases hdup : (a.inner.isPeer source && isDuplicate a.inner id req.source source env.now) = true
  · rw [if_pos hdup]
    rw [Bool.and_eq_true] at hdup
    exact ⟨.dropped, hdup.1, .inl hdup.2, rfl, rfl, rfl, rfl⟩
  rw [if_neg hdup]
  rw [Bool.eq_false_iff.mpr hdup] at h
  by_cases hbarred : barred env req = true
  · rw [if_pos hbarred]
    exact ⟨.rejected, rejectSetup_connected hsource, rfl, rfl, rfl⟩
  rw [if_neg hbarred]
  rw [Bool.eq_false_iff.mpr hbarred] at h
  have hnoted : (noteCall a.inner id req.source source env.now).subscribers = a.inner.subscribers := rfl
  rw [hnoted]
  cases hsub : a.inner.subscribers[req.destination]? with
  | none =>
    rw [hsub] at h
    have hnoted : source ∈ ({ a with inner := noteCall a.inner id req.source source env.now } : AppState).inner.clients :=
      hsource
    rcases @bridged_cases host _ side source id req payload env hnoted with
      ⟨hstuck, -⟩ | ⟨-, ⟨side', invite, heq⟩ | ⟨side', heq⟩⟩
    · exact absurd ⟨rfl, hstuck⟩ h
    · dsimp only
      rw [heq]
      exact ⟨.bridged, @recordsLeg_placed env host _ ⟨id, source, req.source⟩, rfl, rfl⟩
    · dsimp only
      rw [heq]
      exact ⟨.rejected, rejectSetup_connected hsource, rfl, rfl, rfl⟩
  | some sub =>
    dsimp only
    by_cases hself : sub.clientId = source
    · rw [if_pos hself]
      by_cases hpeer : a.inner.isPeer source = true
      · rw [if_pos hpeer]
        exact ⟨.dropped, hpeer, .inr ⟨sub, hsub, hself⟩, rfl, rfl, rfl, rfl⟩
      · rw [if_neg hpeer]
        exact ⟨.rejected, rejectSetup_connected hsource, rfl, rfl, rfl⟩
    · rw [if_neg hself]
      obtain ⟨c, hc⟩ := FinMap.mem_iff.mp (howners _ _ hsub)
      refine ⟨.forwarded, sub, c, hsub, hself, hc, ?_, ?_, rfl, rfl⟩
      · have hforward : (noteCall a.inner id req.source source env.now).clients[sub.clientId]? = some c := hc
        unfold connectPrivate
        dsimp only
        rw [hforward]
      · exact ⟨_, FinMap.getElem?_insert.trans (if_pos rfl), rfl, rfl, rfl⟩

/-- A setup that the SIP side is stuck with has none. -/
theorem no_outcome (hreq : setupRequest payload = some req) (hsource : source ∈ a.inner.clients)
    (hoffered : offered env a.inner source id req = true)
    (hstuck : Stuck host side (.brewPrivate req.source) (dialledOf payload req.destination)) (o : SetupOutcome) :
    ¬ o.Happened env host a source id req raw (handlePrivateSetup env host a side source id payload raw) := by
  unfold offered at hoffered
  rw [Bool.and_eq_true, Bool.and_eq_true, Bool.not_eq_true', Bool.not_eq_true', Option.isNone_iff_eq_none] at hoffered
  obtain ⟨⟨hdup, hbarred⟩, hsub⟩ := hoffered
  obtain ⟨side', hleft⟩ : ∃ side', handlePrivateSetup env host a side source id payload raw =
      { app := { a with inner := noteCall a.inner id req.source source env.now }, side := side' } := by
    have hnoted : source ∈ ({ a with inner := noteCall a.inner id req.source source env.now } : AppState).inner.clients :=
      hsource
    have hsame : (noteCall a.inner id req.source source env.now).subscribers = a.inner.subscribers := rfl
    unfold handlePrivateSetup
    rw [hreq]
    dsimp only
    rw [if_neg (Bool.eq_false_iff.mp hdup), if_neg (Bool.eq_false_iff.mp hbarred), hsame, hsub]
    rcases @bridged_cases host _ side source id req payload env hnoted with ⟨-, side', heq⟩ | ⟨hnot, -⟩
    · refine ⟨side', ?_⟩
      dsimp only
      rw [heq]
      rfl
    · exact absurd hstuck hnot
  rw [hleft]
  intro h
  cases o with
  | forwarded =>
    obtain ⟨sub, c, hregistered, -⟩ := h
    rw [hsub] at hregistered
    cases hregistered
  | bridged => cases h.2.1
  | rejected => cases h.1
  | dropped =>
    obtain ⟨hpeer, hduplicate | ⟨sub, hregistered, -⟩, -⟩ := h
    · rw [hpeer, hduplicate] at hdup
      cases hdup
    · rw [hsub] at hregistered
      cases hregistered

/-- Seen from the tables, the SIP side is an answer to the offer of a call. -/
theorem handlePrivateSetup_refines (hsource : source ∈ a.inner.clients) :
    ∃ offer : SipOffer, (∀ p ∈ offer.placement, p = (host.callId, host.virtualClient)) ∧
      (handlePrivateSetup env host a side source id payload raw).app =
        (Router.handlePrivateSetup { env with sip := offer } a.inner source id payload raw).legs a ∧
      (handlePrivateSetup env host a side source id payload raw).sends =
        (Router.handlePrivateSetup { env with sip := offer } a.inner source id payload raw).sends := by
  unfold handlePrivateSetup Router.handlePrivateSetup
  have hnone : ∀ p ∈ SipOffer.noRoute.placement, p = (host.callId, host.virtualClient) := by
    intro p hp
    cases hp
  cases setupRequest payload with
  | none => exact ⟨.noRoute, hnone, rfl, rfl⟩
  | some req =>
    have hsame : ∀ offer : SipOffer, barred { env with sip := offer } req = barred env req := fun _ => rfl
    dsimp only
    by_cases hdup : (a.inner.isPeer source && isDuplicate a.inner id req.source source env.now) = true
    · refine ⟨.noRoute, hnone, ?_⟩
      rw [if_pos hdup, if_pos hdup]
      exact ⟨rfl, rfl⟩
    simp only [if_neg hdup, hsame]
    by_cases hbarred : barred env req = true
    · refine ⟨.noRoute, hnone, ?_⟩
      rw [if_pos hbarred, if_pos hbarred]
      exact ⟨rfl, rfl⟩
    simp only [if_neg hbarred]
    have hnoted : (noteCall a.inner id req.source source env.now).subscribers = a.inner.subscribers := rfl
    rw [hnoted]
    cases a.inner.subscribers[req.destination]? with
    | none =>
      have hconnected : source ∈
          ({ a with inner := noteCall a.inner id req.source source env.now } : AppState).inner.clients := hsource
      dsimp only
      rcases @bridged_cases host _ side source id req payload env hconnected with
        ⟨-, side', heq⟩ | ⟨-, ⟨side', invite, heq⟩ | ⟨side', heq⟩⟩
      · rw [heq]
        refine ⟨.noRtpPort, ?_, rfl, rfl⟩
        intro p hp
        cases hp
      · rw [heq]
        refine ⟨.placed host.callId host.virtualClient, ?_, rfl, ?_⟩
        · intro p hp
          cases hp
          rfl
        · show _ = Inner.send _ source _
          rw [Inner.send, if_pos (FinMap.mem_insert.mpr (.inr hconnected))]
          rfl
      · rw [heq]
        exact ⟨.noRoute, hnone, rfl, rfl⟩
    | some sub =>
      dsimp only
      split
      · exact ⟨.noRoute, hnone, rfl, rfl⟩
      · exact ⟨.noRoute, hnone, rfl, rfl⟩

/-- A setup has exactly one outcome unless it is left to a SIP side where a route leads
somewhere and no port is left. That is where the bridge says it has taken what it has not:
of any call it takes, the call and its leg are recorded exactly where a port is left. -/
theorem setup_outcome_iff (hreq : setupRequest payload = some req) (hsource : source ∈ a.inner.clients)
    (howners : ∀ (issi : UInt32) (sub : Subscriber), a.inner.subscribers[issi]? = some sub →
      sub.clientId ∈ a.inner.clients) (hnew : host.callId ∉ a.legs) :
    ((∃! o : SetupOutcome, o.Happened env host a source id req raw
        (handlePrivateSetup env host a side source id payload raw)) ↔
      ¬ (offered env a.inner source id req = true ∧
        Stuck host side (.brewPrivate req.source) (dialledOf payload req.destination))) ∧
    ∀ s ∈ side, ∀ (origin : CallOrigin) (dialled : String) (link : BrewCallLink),
      ((brewToSip env host a s origin dialled link).2 = true →
          RecordsLeg (brewToSip env host a s origin dialled link).1.app host.callId link.callId link.client) ↔
        ¬ (s.Leads host origin dialled ∧ s.NoPort host) := by
  refine ⟨⟨?_, ?_⟩, fun s _ origin dialled link => recordsLeg_brewToSip hnew⟩
  · rintro ⟨o, ho, -⟩ ⟨hoffered, hstuck⟩
    exact no_outcome hreq hsource hoffered hstuck o ho
  · intro h
    obtain ⟨o, ho⟩ := exists_outcome hreq hsource howners h
    exact ⟨o, ho, fun o' ho' => ho'.eq_verdict.trans ho.eq_verdict.symm⟩

theorem mem_clients_promoteClientVersion {v : ConnVersion} {c : ClientId} :
    c ∈ (promoteClientVersion s source v).clients ↔ c ∈ s.clients := by
  unfold promoteClientVersion
  split
  · simp only [FinMap.mem_iff, FinMap.getElem?_modify]
    split
    · simp
    · rfl
  · rfl

/-- What the handler asks of the tables holds whenever a packet reaches it. -/
theorem connected_of_reach {cfg : Config} {selfId : UInt64} {a : AppState}
    (h : Reach (AppState.start selfId) (fun a ev => ev.Allowed a) (AppState.next cfg) a)
    (hallowed : Event.Allowed a (.packet env source raw)) (observed : ConnVersion) :
    source ∈ (promoteClientVersion (purgeEphemeral env a.inner) source observed).clients ∧
      ∀ (issi : UInt32) (sub : Subscriber),
        (promoteClientVersion (purgeEphemeral env a.inner) source observed).subscribers[issi]? = some sub →
        sub.clientId ∈ (promoteClientVersion (purgeEphemeral env a.inner) source observed).clients := by
  have hrouted : WellRouted a.inner := (sound_of_reach h).routed
  have hsubs : (promoteClientVersion (purgeEphemeral env a.inner) source observed).subscribers =
      a.inner.subscribers := by
    unfold promoteClientVersion
    split <;> rfl
  constructor
  · exact mem_clients_promoteClientVersion.mpr hallowed.1
  · intro issi sub hsub
    rw [hsubs] at hsub
    have hsession := (hrouted.entry issi sub hsub).session
    rw [Inner.session] at hsession
    split at hsession
    · cases hsession
    · rw [Option.isSome_map, Option.isSome_iff_exists] at hsession
      exact mem_clients_promoteClientVersion.mpr (FinMap.mem_iff.mpr hsession)

end Outcomes

/-- ISSI 2001 is registered on client 1, and client 2 is connected. -/
def registered2001 : AppState where
  inner :=
    { Inner.empty 9 with
      clients := ((∅ : FinMap ClientId Client).insert 1 (.accepted .terminal)).insert 2 (.accepted .terminal)
      subscribers := (∅ : FinMap UInt32 Subscriber).insert 2001 ⟨1, ∅, .terminal, ⟨0, []⟩⟩ }

/-- A setup from ISSI 2002 that dials a number. -/
def setupTo (issi : UInt32) (number : String) : CallPayload := .circularCall ⟨2002, issi, number, 0, 0, none⟩

/-- A trunk behind the prefix 9, and ports 20000 to 20008. -/
def outsideLine : SipSide where
  routes := [{ matchPattern := "9*", «to» := some (.sipTrunk "pstn" ""), stripPrefix := "9" }]
  trunkConfigs := (∅ : FinMap String SipTrunkConfig).insert "pstn" ⟨"10.0.0.9:5060"⟩
  relay := .new 20000 20010 (by decide)

/-- A host where some of the ports can be bound. -/
def hostWith (bind : UInt16 → Bool) : Host where
  parseAddr := some
  bind
  callId := "brew-1"
  virtualClient := 30

theorem connected_registered2001 (issi : UInt32) (sub : Subscriber)
    (hsub : registered2001.inner.subscribers[issi]? = some sub) : sub.clientId ∈ registered2001.inner.clients := by
  change ((∅ : FinMap UInt32 Subscriber).insert 2001 _)[issi]? = some sub at hsub
  rw [FinMap.getElem?_insert] at hsub
  split at hsub
  · cases hsub
    decide +kernel
  · rw [Std.ExtTreeMap.getElem?_empty] at hsub
    cases hsub

/-- With a port left, a call of the outside line is bridged. -/
theorem outcome_outsideLine :
    (∃! o : SetupOutcome, o.Happened (.plain 5) (hostWith (· == 20004)) registered2001 2 3 ⟨2002, 0, 0, 0⟩ []
        (handlePrivateSetup (.plain 5) (hostWith (· == 20004)) registered2001 (some outsideLine) 2 3
          (setupTo 0 " 95551234") [])) ∧
      RecordsLeg (brewToSip (.plain 5) (hostWith (· == 20004)) registered2001 outsideLine (.brewPrivate 2002) "95551234"
        ⟨3, 2, 2002⟩).1.app "brew-1" 3 2 := by
  obtain ⟨houtcome, hrecords⟩ := @setup_outcome_iff (.plain 5) (hostWith (· == 20004)) registered2001 (some outsideLine)
    2 3 ⟨2002, 0, 0, 0⟩ [] (setupTo 0 " 95551234") rfl (by decide +kernel) connected_registered2001 (by decide +kernel)
  have hport : ¬ outsideLine.NoPort (hostWith (· == 20004)) := fun h =>
    absurd (h 20004 (by decide +kernel)) (by decide)
  refine ⟨houtcome.mpr ?_, (hrecords outsideLine rfl (.brewPrivate 2002) "95551234" ⟨3, 2, 2002⟩).mpr ?_ ?_⟩
  · rintro ⟨-, s, hs, -, hnone⟩
    cases hs
    exact hport hnone
  · exact fun h => hport h.2
  · decide +kernel

/-- The caller of an outside line without a port hears nothing. -/
theorem no_outcome_noPort :
    (handlePrivateSetup (.plain 5) (hostWith fun _ => false) registered2001 (some outsideLine) 2 3
        (setupTo 0 "95551234") []).sends = [] ∧
    ¬ ∀ (env : Env) (host : Host) (a : AppState) (side : Option SipSide) (source : ClientId) (id : Uuid)
        (payload : CallPayload) (raw : Bytes) (req : SetupRequest), setupRequest payload = some req →
      source ∈ a.inner.clients →
      ∃! o : SetupOutcome, o.Happened env host a source id req raw
        (handlePrivateSetup env host a side source id payload raw) := by
  refine ⟨by decide +kernel, ?_⟩
  intro hall
  obtain ⟨o, ho, -⟩ := hall (.plain 5) (hostWith fun _ => false) registered2001 (some outsideLine) 2 3
    (setupTo 0 "95551234") [] ⟨2002, 0, 0, 0⟩ rfl (by decide +kernel)
  have hleads : outsideLine.Leads (hostWith fun _ => false) (.brewPrivate 2002) "95551234" :=
    @SipSide.Leads.trunk _ _ _ _ _ _ _ ⟨"10.0.0.9:5060"⟩ rfl rfl (.inl rfl)
  exact no_outcome rfl (by decide +kernel) (by decide +kernel) ⟨outsideLine, rfl, hleads, fun _ _ => rfl⟩ o ho

end Dialling

end BrewServer
