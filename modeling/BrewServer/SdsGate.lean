import BrewServer.SdsRoutes

/-!
# The blacklist and the short data

The header of an SDS with a blacklisted party is held back until its payload shows
whether it is a position report. The uuid that links the two is the sender's choice,
so a payload belongs to the latest header of its uuid.
-/

namespace BrewServer

open Protocol Fedroute Router Sip

/-! ## The packets of an SDS -/

inductive SdsPart
  | header (id : Uuid) (sourceIssi destination : UInt32)
  | payload (id : Uuid)
  deriving DecidableEq

/-- The tables a packet is handled on, and the part of an SDS it is. -/
def sdsArriving (env : Env) (s : Inner) (source : ClientId) (raw : Bytes) : Option (Inner × SdsPart) :=
  if raw.head? = some classFederation then none
  else
    match parseWithVersion raw (clientVersion (purgeEphemeral env s) source) with
    | some (.ok (.callControl cc, detected)) =>
      match cc.payload with
      | .shortTransfer sourceIssi destination =>
        if cc.callState = callShortTransfer then
          some (promoteClientVersion (purgeEphemeral env s) source detected,
            .header cc.identifier sourceIssi destination)
        else none
      | _ => none
    | some (.ok (.frame f, detected)) =>
      if f.frameType = frameSdsTransfer then
        some (promoteClientVersion (purgeEphemeral env s) source detected, .payload f.identifier)
      else none
    | _ => none

/-- Whether the SMS Center is handed the payload. -/
def storesOffline (s : Inner) (source : ClientId) (id : Uuid) (raw : Bytes) : Bool :=
  match s.sdsRoutes[id]? with
  | some route => route.sourceClient == source && !(route.lipOnly && !isLipPayload raw) && route.storeOffline
  | none => false

/-- The latest header of a uuid, and what came of it. -/
structure Sds where
  header : Bytes
  /-- Its source or destination was blacklisted when it was processed. -/
  blocked : Bool
  /-- The payloads since. -/
  payloads : List Bytes := []
  /-- What was sent of header and payloads, in order. -/
  log : Sends := []
  /-- The SMS Center was handed a payload. -/
  stored : Bool := false

/-- A payload came, `sends` went out, and the SMS Center was handed it or not. -/
def Sds.receive (sds : Sds) (raw : Bytes) (sends : Sends) (toCenter : Bool) : Sds :=
  { sds with
    payloads := sds.payloads ++ [raw]
    log := sds.log ++ sends.filter fun m => m.2 = sds.header ∨ m.2 = raw
    stored := sds.stored || toCenter }

/-- A server and the latest header of each uuid. -/
structure Gate where
  app : AppState
  latest : FinMap Uuid Sds := ∅

namespace Gate

/-- A header's copy that came in over another peer link is dropped; `copies` tells
whether it counts as the latest header all the same. -/
def note (copies : Bool) (g : Gate) (env : Env) (source : ClientId) (raw : Bytes) (sends : Sends) :
    FinMap Uuid Sds :=
  match sdsArriving env g.app.inner source raw with
  | some (s, .header id sourceIssi destination) =>
    if s.isPeer source && isDuplicate s id sourceIssi source env.now && !copies then g.latest
    else
      g.latest.insert id
        { header := raw, blocked := env.blocked sourceIssi || env.blocked destination
          log := sends.filter fun m => m.2 = raw }
  | some (s, .payload id) => g.latest.modify id fun sds => sds.receive raw sends (storesOffline s source id raw)
  | none => g.latest

def next (copies : Bool) (cfg : Config) (g : Gate) (ev : Event) : Gate :=
  let app := g.app.next cfg ev
  match ev with
  | .packet env source raw => { app, latest := g.note copies env source raw (g.app.sent cfg ev) }
  | _ => { app, latest := g.latest }

end Gate

/-- Connection ids are new: none is the SMS Center's, or a target of an SDS route
before it connects. -/
def Event.NewIds (s : Inner) : Event → Prop
  | .connect id _ _ _ | .sipPrivate _ _ _ id _ _ | .sipGroup _ _ _ id _ _ => ∀ e ∈ s.sdsRoutes.toList, id ∉ e.2.targets
  | .packet env source _ => source ≠ smsCenterClient ∧ env.sip.Untargeted s
  | _ => True

instance (s : Inner) (ev : Event) : Decidable (ev.NewIds s) :=
  have htargets (id : ClientId) : Decidable (∀ e ∈ s.sdsRoutes.toList, id ∉ e.2.targets) :=
    @List.decidableBAll _ _ (fun e : Uuid × SdsRoute => inferInstanceAs (Decidable (id ∉ e.2.targets)))
      s.sdsRoutes.toList
  match ev with
  | .connect id _ _ _ | .sipPrivate _ _ _ id _ _ | .sipGroup _ _ _ id _ _ => htargets id
  | .packet env source _ => inferInstanceAs (Decidable (source ≠ smsCenterClient ∧ env.sip.Untargeted s))
  | .disconnect _ | .alarm _ | .sweep _ | .smsDeliver .. | .advertiseBts .. | .advertiseEmergency .. | .sipEnd _ =>
    isTrue trivial

/-! ## Packets of an SDS and others -/

section Packets

variable {cfg : Config} {env : Env} {s t : Inner} {source : ClientId} {raw : Bytes} {id : Uuid}

theorem keepsSds_arrived {v : ConnVersion} :
    KeepsSds s (promoteClientVersion (purgeEphemeral env s) source v) :=
  keepsSds_purgeEphemeral.trans sameSds_promoteClientVersion.keeps

/-- A packet that is a header reaches its handler. -/
theorem routePacket_header {sourceIssi destination : UInt32}
    (h : sdsArriving env s source raw = some (t, .header id sourceIssi destination)) :
    KeepsSds s t ∧ raw.head? = some classCallControl ∧
      routePacket cfg env s source raw = handleSdsHeader env t source id (.shortTransfer sourceIssi destination) raw := by
  unfold sdsArriving at h
  split at h
  · cases h
  · next hfed =>
    split at h
    · next cc d hparse =>
      split at h
      · next src dst hpayload =>
        split at h
        · next hstate =>
          obtain ⟨rfl, hpart⟩ := Prod.mk.inj (Option.some.inj h)
          obtain ⟨rfl, rfl, rfl⟩ := SdsPart.header.inj hpart
          refine ⟨keepsSds_arrived, head?_of_parse hparse, ?_⟩
          unfold routePacket
          dsimp only
          rw [if_neg hfed, hparse]
          dsimp only
          rw [dispatch, callControl, hstate, if_neg (by decide), if_pos rfl, hpayload]
        · cases h
      · cases h
    · next f d hparse =>
      split at h
      · cases (Prod.mk.inj (Option.some.inj h)).2
      · cases h
    · cases h

/-- A packet that is a payload reaches its handler. -/
theorem routePacket_payload (h : sdsArriving env s source raw = some (t, .payload id)) :
    KeepsSds s t ∧ raw.head? = some classFrame ∧
      routePacket cfg env s source raw = handleSdsTransfer env t source id raw := by
  unfold sdsArriving at h
  split at h
  · cases h
  · next hfed =>
    split at h
    · next cc d hparse =>
      split at h
      · split at h
        · cases (Prod.mk.inj (Option.some.inj h)).2
        · cases h
      · cases h
    · next f d hparse =>
      split at h
      · next hframe =>
        obtain ⟨rfl, hpart⟩ := Prod.mk.inj (Option.some.inj h)
        obtain rfl := SdsPart.payload.inj hpart
        refine ⟨keepsSds_arrived, head?_of_parse hparse, ?_⟩
        unfold routePacket
        dsimp only
        rw [if_neg hfed, hparse]
        dsimp only
        rw [dispatch, frame, if_pos hframe]
      · cases h
    · cases h

theorem keepsSds_callControl {cc : CallControlMessage} (hsip : env.sip.Untargeted s)
    (hother : ∀ a b, ¬ (cc.callState = callShortTransfer ∧ cc.payload = .shortTransfer a b)) :
    KeepsSds s (callControl cfg env s source cc raw).inner := by
  unfold callControl
  split
  · exact sameSds_handleGroupTx.keeps
  · split
    · next hstate =>
      unfold handleSdsHeader
      split
      · next a b hpayload => exact absurd ⟨hstate, hpayload⟩ (hother a b)
      · exact .refl s
    · split
      · exact keepsSds_handlePrivateSetup hsip
      · split
        · exact sameSds_routePrivateControl.keeps
        · split
          · exact sameSds_endCall.keeps
          · exact .refl s

theorem keepsSds_frame {f : FrameMessage} (hother : f.frameType ≠ frameSdsTransfer) :
    KeepsSds s (frame env s source f raw).inner := by
  unfold frame
  rw [if_neg hother]
  split
  · exact keepsSds_handleSdsReport
  · split
    · exact sameSds_routeCallFrame.keeps
    · exact .refl s

theorem SipOffer.Untargeted.keeps {offer : SipOffer} (h : offer.Untargeted s)
    (hroutes : ∀ (k : Uuid) (r : SdsRoute), t.sdsRoutes[k]? = some r → s.sdsRoutes[k]? = some r) :
    offer.Untargeted t := by
  intro p hp e he
  exact h p hp e (FinMap.mem_toList.mpr (hroutes e.1 e.2 (FinMap.mem_toList.mp he)))

/-- Any other packet leaves the routes alone. -/
theorem keepsSds_routePacket (hsip : env.sip.Untargeted s) (h : sdsArriving env s source raw = none) :
    KeepsSds s (routePacket cfg env s source raw).inner := by
  unfold sdsArriving at h
  unfold routePacket
  dsimp only
  split
  · exact keepsSds_purgeEphemeral.trans sameSds_handle.keeps
  · next hfed =>
    rw [if_neg hfed] at h
    split
    · next msg d hparse =>
      rw [hparse] at h
      have hbefore : KeepsSds s (promoteClientVersion (purgeEphemeral env s) source d) := keepsSds_arrived
      cases msg with
      | subscriber msg => exact hbefore.trans sameSds_handleSubscriber.keeps
      | service m => exact hbefore
      | error e => exact hbefore
      | callControl cc =>
        refine hbefore.trans (keepsSds_callControl (hsip.keeps fun k r hr => ?_) fun a b hab => ?_)
        · rw [sameSds_promoteClientVersion.routes] at hr
          exact (FinMap.getElem?_filter.mp hr).1
        · dsimp only at h
          rw [hab.2] at h
          dsimp only at h
          rw [if_pos hab.1] at h
          cases h
      | frame f =>
        refine hbefore.trans (keepsSds_frame fun hf => ?_)
        dsimp only at h
        rw [if_pos hf] at h
        cases h
    · exact keepsSds_purgeEphemeral

end Packets

/-! ## Steps -/

section Steps

variable {cfg : Config} {env : Env} {a : AppState} {s t : Inner} {source c : ClientId} {raw : Bytes} {id : Uuid}

/-- Every event but a header and a payload leaves the routes alone. -/
theorem keepsSds_next {ev : Event} (hids : ev.NewIds a.inner)
    (hother : ∀ env source raw, ev = .packet env source raw → sdsArriving env a.inner source raw = none) :
    KeepsSds a.inner (a.next cfg ev).inner := by
  have hrouted (hr : ev.Routed) (h : KeepsSds a.inner (routeEvent cfg a.inner ev).inner) :
      KeepsSds a.inner (a.next cfg ev).inner := by
    rw [AppState.next, a.run_routed cfg hr]
    exact h.trans sameSds_settle.keeps
  have htargets {v : ClientId} (h : ∀ e ∈ a.inner.sdsRoutes.toList, v ∉ e.2.targets) (k : Uuid) (r : SdsRoute)
      (hr : a.inner.sdsRoutes[k]? = some r) : v ∉ r.targets := h (k, r) (FinMap.mem_toList.mpr hr)
  cases ev with
  | connect id client neighbour console => exact hrouted trivial (keepsSds_openSession (htargets hids))
  | packet env source raw => exact hrouted trivial (keepsSds_routePacket hids.2 (hother env source raw rfl))
  | disconnect id => exact hrouted trivial keepsSds_cleanupClient
  | alarm issi => exact hrouted trivial sameSds_emergencyRaised.keeps
  | sweep env =>
    rw [AppState.next, a.run_sweep cfg env]
    exact sameSds_sweep.keeps
  | smsDeliver env id src dest lengthBits data => exact hrouted trivial keepsSds_deliverStored
  | advertiseBts nowMs key name lat lon online => exact hrouted trivial sameSds_advertiseBts.keeps
  | advertiseEmergency nowMs issi dest bts active => exact hrouted trivial sameSds_advertiseEmergency.keeps
  | sipPrivate env callId issi v id rtpPort =>
    rw [AppState.next, a.run_sipPrivate]
    exact keepsSds_sipToBrewPrivate (htargets hids)
  | sipGroup env callId g v id rtpPort =>
    rw [AppState.next, a.run_sipGroup]
    exact keepsSds_sipToBrewGroup (htargets hids)
  | sipEnd callId =>
    rw [AppState.next, a.run_sipEnd]
    exact sameSds_teardown.keeps

/-- One copy each. -/
theorem on_sendMany {cs : FinSet ClientId} :
    (s.sendMany cs raw).on c = if c ∈ cs ∧ c ∈ s.clients then [raw] else [] := by
  have hlist : ∀ l : List ClientId, l.Nodup →
      Sends.on (l.flatMap fun c => s.send c raw) c = if c ∈ l ∧ c ∈ s.clients then [raw] else [] := by
    intro l
    induction l with
    | nil => simp
    | cons d l ih =>
      intro hnd
      obtain ⟨hd, hl⟩ := List.nodup_cons.mp hnd
      rw [List.flatMap_cons, Sends.on_append, ih hl, Inner.send]
      by_cases hdc : d = c
      · subst hdc
        by_cases hclient : d ∈ s.clients <;> simp [hclient, hd]
      · have hcd : c ≠ d := fun h => hdc h.symm
        by_cases hclient : d ∈ s.clients <;> simp [hclient, hdc, hcd]
  rw [Inner.sendMany, hlist cs.toList FinSet.nodup_toList]
  simp only [Std.ExtTreeSet.mem_toList]

theorem head?_of_relay {links : FinSet ClientId} {except : Option ClientId} {path : List UInt64}
    {build : List UInt64 → Bytes} (hbuild : ∀ p, (build p).head? = some classFederation) {m : ClientId × Bytes}
    (h : m ∈ relay s links except path build) : m.2.head? = some classFederation := by
  unfold relay at h
  split at h
  · cases h
  · obtain ⟨link, -, hm⟩ := List.mem_flatMap.mp h
    split at hm
    · cases hm
    · split at hm
      · cases hm
      · split at hm
        · cases hm
        · rw [(Inner.mem_send.mp hm).1]
          exact hbuild _

/-- What a decoded position makes the server send is a relayed advert. -/
theorem head?_of_reportPosition {issi : UInt32} {m : ClientId × Bytes}
    (h : m ∈ (reportPosition env s source issi raw).2) : m.2.head? = some classFederation := by
  unfold reportPosition at h
  split at h
  · cases h
  · unfold advertiseIfLocal at h
    split at h
    · cases h
    · unfold advertiseMs at h
      split at h
      · cases h
      · split at h
        · cases h
        · dsimp only at h
          exact head?_of_relay (fun _ => rfl) h

end Steps

/-! ## The routes of other uuids -/

/-- The route of `k` is at most dropped, or the SMS Center's own. -/
structure KeepsAt (k : Uuid) (s s' : Inner) : Prop where
  route : ∀ r : SdsRoute, s'.sdsRoutes[k]? = some r → s.sdsRoutes[k]? = some r ∨ r.sourceClient = smsCenterClient
  clients : ∀ c ∈ s'.clients, c ∈ s.clients ∨
    ∀ r : SdsRoute, s'.sdsRoutes[k]? = some r → r.sourceClient ≠ smsCenterClient → c ∉ r.targets

section Others

variable {env : Env} {s s' s'' : Inner} {source : ClientId} {raw : Bytes} {id k : Uuid}

theorem KeepsSds.at (h : KeepsSds s s') (k : Uuid) : KeepsAt k s s' :=
  ⟨h.routes k, fun c hc => (h.clients c hc).imp_right fun hno => hno k⟩

theorem KeepsAt.trans (h : KeepsAt k s s') (h' : KeepsAt k s' s'') : KeepsAt k s s'' := by
  refine ⟨fun r hr => ?_, fun c hc => ?_⟩
  · rcases h'.route r hr with hr | hsms
    · exact h.route r hr
    · exact .inr hsms
  · rcases h'.clients c hc with hc | hno
    · rcases h.clients c hc with hc | hno
      · exact .inl hc
      · exact .inr fun r hr hsms => hno r ((h'.route r hr).resolve_right hsms) hsms
    · exact .inr hno

/-- The route of another uuid is opened or taken over. -/
theorem KeepsAt.of_insert {r : SdsRoute} (hk : id ≠ k) (hr : s'.sdsRoutes = s.sdsRoutes.insert id r)
    (hc : s'.clients = s.clients) : KeepsAt k s s' := by
  refine ⟨fun r' hr' => .inl ?_, fun c h => .inl (hc ▸ h)⟩
  rwa [hr, FinMap.getElem?_insert, if_neg hk] at hr'

theorem keepsAt_handleSdsHeader {src dest : UInt32} (hk : id ≠ k) :
    KeepsAt k s (handleSdsHeader env s source id (.shortTransfer src dest) raw).inner := by
  have hopened (lipOnly : Bool) (t : Inner) : KeepsAt k t (openSdsRoute env t source id src dest lipOnly raw).1 :=
    .of_insert hk rfl rfl
  unfold handleSdsHeader
  dsimp only
  split
  · exact (KeepsSds.refl s).at k
  · have hnoted : KeepsSds s (noteCall s id src source env.now) := sameSds_noteCall.keeps
    split
    · exact (hnoted.at k).trans (hopened _ _)
    · exact ((hnoted.trans sameSds_reportPosition.keeps).at k).trans (hopened _ _)

theorem keepsAt_handleSdsTransfer (hk : id ≠ k) : KeepsAt k s (handleSdsTransfer env s source id raw).inner := by
  unfold handleSdsTransfer
  split
  · next route hroute =>
    split
    · exact (KeepsSds.refl s).at k
    · split
      · exact keepsSds_eraseRoute.at k
      · have htaken : KeepsAt k s (takeRoute s id route) := .of_insert hk rfl rfl
        have hforwarded : KeepsAt k s (forwardSds env s source id route raw).1 := by
          unfold forwardSds
          dsimp only
          split
          · exact htaken.trans (keepsSds_reportStored.at k)
          · exact htaken
        exact hforwarded.trans (sameSds_reportPosition.keeps.at k)
  · split
    · exact (KeepsSds.refl s).at k
    · exact sameSds_reportPosition.keeps.at k

theorem ended_handleSdsHeader {payload : CallPayload} : (handleSdsHeader env s source id payload raw).ended = [] := by
  unfold handleSdsHeader
  split
  · split <;> rfl
  · rfl

theorem ended_handleSdsTransfer : (handleSdsTransfer env s source id raw).ended = [] := by
  unfold handleSdsTransfer
  split
  · split
    · rfl
    · split <;> rfl
  · split <;> rfl

end Others

/-! ## What is held back -/

/-- What the gate leaves of a blacklisted SDS: position reports, and its header before
the first of them. -/
structure Sds.Gated (sds : Sds) : Prop where
  unstored : sds.stored = false
  silent : (∀ p ∈ sds.payloads, isLipPayload p = false) → sds.log = []
  lip : ∀ m ∈ sds.log, m.2 = sds.header ∨ m.2 ∈ sds.payloads ∧ isLipPayload m.2 = true
  headerFirst : ∀ c, sds.log.on c = [] ∨ ∃ rest, sds.log.on c = sds.header :: rest ∧ sds.header ∉ rest

/-- While the route of a blacklisted SDS is open, its header is held, or every target
has it. -/
structure Guarded (s : Inner) (id : Uuid) (sds : Sds) : Prop extends sds.Gated where
  control : sds.header.head? = some classCallControl
  frames : ∀ p ∈ sds.payloads, p.head? = some classFrame
  lipOnly : ∀ r : SdsRoute, s.sdsRoutes[id]? = some r → r.sourceClient ≠ smsCenterClient →
    r.lipOnly = true ∧ r.storeOffline = false
  held : ∀ r : SdsRoute, s.sdsRoutes[id]? = some r → r.sourceClient ≠ smsCenterClient →
    r.heldHeader = some sds.header ∧ sds.log = [] ∨
      r.heldHeader = none ∧ ∀ c ∈ r.targets, c ∈ s.clients → (c, sds.header) ∈ sds.log

section Guard

variable {cfg : Config} {env : Env} {a : AppState} {s s' : Inner} {source : ClientId} {raw : Bytes} {id : Uuid} {sds : Sds}

theorem Guarded.keeps (h : Guarded s id sds) (hk : KeepsAt id s s') : Guarded s' id sds := by
  refine { h with lipOnly := fun r hr hsms => ?_, held := fun r hr hsms => ?_ }
  · exact h.lipOnly r ((hk.route r hr).resolve_right hsms) hsms
  · refine (h.held r ((hk.route r hr).resolve_right hsms) hsms).imp_right fun hsent => ⟨hsent.1, fun c ht hc => ?_⟩
    rcases hk.clients c hc with hc | hno
    · exact hsent.2 c ht hc
    · exact absurd ht (hno r hr hsms)

/-- The header of a blacklisted party comes in. -/
theorem guarded_handleSdsHeader {src dest : UInt32} (hraw : raw.head? = some classCallControl)
    (hnew : (s.isPeer source && isDuplicate s id src source env.now) = false)
    (hblocked : (env.blocked src || env.blocked dest) = true) :
    (handleSdsHeader env s source id (.shortTransfer src dest) raw).sends = [] ∧
      Guarded (handleSdsHeader env s source id (.shortTransfer src dest) raw).inner id
        { header := raw, blocked := true } := by
  unfold handleSdsHeader
  dsimp only
  rw [hnew, hblocked]
  refine ⟨rfl, ?_⟩
  constructor
  · exact ⟨rfl, fun _ => rfl, fun m hm => absurd hm List.not_mem_nil, fun c => .inl rfl⟩
  · exact hraw
  · exact fun p hp => absurd hp List.not_mem_nil
  · intro r hr hsms
    obtain rfl := Option.some.inj ((FinMap.getElem?_insert.trans (if_pos rfl)).symm.trans hr)
    exact ⟨rfl, rfl⟩
  · intro r hr hsms
    obtain rfl := Option.some.inj ((FinMap.getElem?_insert.trans (if_pos rfl)).symm.trans hr)
    exact .inl ⟨rfl, rfl⟩

/-- Adverts are neither header nor payload. -/
theorem log_receive {sends adverts : Sends} {toCenter : Bool} (h : Guarded s id sds) (hraw : raw.head? = some classFrame)
    (hsends : ∀ m ∈ sends, m.2 = sds.header ∨ m.2 = raw)
    (hadverts : ∀ m ∈ adverts, m.2.head? = some classFederation) :
    (sds.receive raw (sends ++ adverts) toCenter).log = sds.log ++ sends := by
  have hkeep : sends.filter (fun m => m.2 = sds.header ∨ m.2 = raw) = sends := by
    rw [List.filter_eq_self]
    exact fun m hm => decide_eq_true (hsends m hm)
  have hdrop : adverts.filter (fun m => m.2 = sds.header ∨ m.2 = raw) = [] := by
    rw [List.filter_eq_nil_iff]
    intro m hm heq
    have hhead := hadverts m hm
    rcases of_decide_eq_true heq with heq | heq
    · rw [heq, h.control] at hhead
      cases hhead
    · rw [heq, hraw] at hhead
      cases hhead
  rw [Sds.receive, List.filter_append, hkeep, hdrop, List.append_nil]

/-- A payload that nothing is sent of. -/
theorem Guarded.ignore (h : Guarded s id sds) (hraw : raw.head? = some classFrame) {adverts : Sends}
    (hadverts : ∀ m ∈ adverts, m.2.head? = some classFederation) : Guarded s id (sds.receive raw adverts false) := by
  have hlog : (sds.receive raw adverts false).log = sds.log := by
    have := @log_receive _ _ _ _ [] _ false h hraw (fun _ hm => absurd hm List.not_mem_nil) hadverts
    rwa [List.append_nil] at this
  refine ⟨⟨?_, ?_, ?_, ?_⟩, h.control, ?_, h.lipOnly, ?_⟩
  · rw [Sds.receive, h.unstored, Bool.or_false]
  · intro hp
    rw [hlog]
    exact h.silent fun p hm => hp p (List.mem_append_left _ hm)
  · intro m hm
    rw [hlog] at hm
    exact (h.lip m hm).imp_right fun hl => ⟨List.mem_append_left _ hl.1, hl.2⟩
  · rw [hlog]
    exact h.headerFirst
  · intro p hp
    rcases List.mem_append.mp hp with hp | hp
    · exact h.frames p hp
    · rw [List.mem_singleton.mp hp]
      exact hraw
  · rw [hlog]
    exact h.held

/-- A payload that is passed on, with the header before it if that is held. -/
theorem Guarded.forward (h : Guarded s id sds) (hraw : raw.head? = some classFrame) (hlip : isLipPayload raw = true)
    {route : SdsRoute} (hroute : s.sdsRoutes[id]? = some route) (hsms : route.sourceClient ≠ smsCenterClient)
    {adverts : Sends} (hadverts : ∀ m ∈ adverts, m.2.head? = some classFederation) :
    Guarded (takeRoute s id route) id
      (sds.receive raw ((route.heldHeader.map (s.sendMany route.targets)).getD [] ++ s.sendMany route.targets raw ++ adverts)
        false) := by
  have hne : raw ≠ sds.header := by
    intro heq
    have hhead := h.control
    rw [← heq, hraw] at hhead
    cases hhead
  obtain ⟨header, hheader, hout⟩ : ∃ header : Sends,
      (route.heldHeader.map (s.sendMany route.targets)).getD [] = header ∧
        (header = s.sendMany route.targets sds.header ∧ sds.log = [] ∨
          header = [] ∧ ∀ c ∈ route.targets, c ∈ s.clients → (c, sds.header) ∈ sds.log) := by
    rcases h.held route hroute hsms with ⟨hheld, hlog⟩ | ⟨hheld, hsent⟩
    · exact ⟨_, rfl, .inl ⟨by rw [hheld]; rfl, hlog⟩⟩
    · exact ⟨_, rfl, .inr ⟨by rw [hheld]; rfl, hsent⟩⟩
  rw [hheader]
  have hparts : ∀ m ∈ header ++ s.sendMany route.targets raw, m.2 = sds.header ∨ m.2 = raw := by
    intro m hm
    rcases List.mem_append.mp hm with hm | hm
    · rcases hout with ⟨rfl, -⟩ | ⟨rfl, -⟩
      · exact .inl (Inner.mem_sendMany.mp hm).1
      · cases hm
    · exact .inr (Inner.mem_sendMany.mp hm).1
  have hlog := @log_receive _ _ _ _ _ _ false h hraw hparts hadverts
  refine ⟨⟨?_, ?_, ?_, ?_⟩, h.control, ?_, ?_, ?_⟩
  · rw [Sds.receive, h.unstored, Bool.or_false]
  · intro hp
    have hnot := hp raw (List.mem_append_right _ (List.mem_singleton_self raw))
    rw [hlip] at hnot
    cases hnot
  · intro m hm
    rw [hlog] at hm
    rcases List.mem_append.mp hm with hm | hm
    · exact (h.lip m hm).imp_right fun hl => ⟨List.mem_append_left _ hl.1, hl.2⟩
    · rcases hparts m hm with hm | hm
      · exact .inl hm
      · rw [hm]
        exact .inr ⟨List.mem_append_right _ (List.mem_singleton_self raw), hlip⟩
  · intro c
    rw [hlog, Sends.on_append, Sends.on_append, on_sendMany]
    rcases hout with ⟨rfl, hnone⟩ | ⟨rfl, hsent⟩
    · rw [hnone, on_sendMany]
      by_cases hc : c ∈ route.targets ∧ c ∈ s.clients
      · refine .inr ⟨[raw], ?_, fun hm => hne (List.mem_singleton.mp hm).symm⟩
        rw [if_pos hc, if_pos hc]
        rfl
      · refine .inl ?_
        rw [if_neg hc, if_neg hc]
        rfl
    · rw [Sends.on_nil, List.nil_append]
      by_cases hc : c ∈ route.targets ∧ c ∈ s.clients
      · have hmem : sds.header ∈ sds.log.on c := Sends.mem_on.mpr (hsent c hc.1 hc.2)
        rcases h.headerFirst c with hnil | ⟨rest, hrest, hno⟩
        · rw [hnil] at hmem
          cases hmem
        · refine .inr ⟨rest ++ [raw], ?_, fun hm => ?_⟩
          · rw [hrest, if_pos hc]
            rfl
          · rcases List.mem_append.mp hm with hm | hm
            · exact hno hm
            · exact hne (List.mem_singleton.mp hm).symm
      · rw [if_neg hc, List.append_nil]
        exact h.headerFirst c
  · intro p hp
    rcases List.mem_append.mp hp with hp | hp
    · exact h.frames p hp
    · rw [List.mem_singleton.mp hp]
      exact hraw
  · intro r hr _
    obtain rfl := Option.some.inj ((FinMap.getElem?_insert.trans (if_pos rfl)).symm.trans hr)
    exact ⟨(h.lipOnly route hroute hsms).1, rfl⟩
  · intro r hr _
    obtain rfl := Option.some.inj ((FinMap.getElem?_insert.trans (if_pos rfl)).symm.trans hr)
    refine .inr ⟨rfl, fun c ht hc => ?_⟩
    rw [hlog]
    rcases hout with ⟨rfl, -⟩ | ⟨rfl, hsent⟩
    · exact List.mem_append_right _ (List.mem_append_left _ (Inner.mem_sendMany.mpr ⟨rfl, ht, hc⟩))
    · exact List.mem_append_left _ (hsent c ht hc)

/-- The SMS Center is handed nothing of a blacklisted SDS. -/
theorem Guarded.not_storesOffline (h : Guarded s id sds) (hsource : source ≠ smsCenterClient) :
    storesOffline s source id raw = false := by
  unfold storesOffline
  split
  · next route hroute =>
    by_cases hown : route.sourceClient = source
    · rw [(h.lipOnly route hroute (hown ▸ hsource)).2, Bool.and_false]
    · rw [beq_eq_false_iff_ne.mpr hown, Bool.false_and, Bool.false_and]
  · rfl

theorem guarded_handleSdsTransfer (h : Guarded s id sds) (hraw : raw.head? = some classFrame)
    (hsource : source ≠ smsCenterClient) :
    Guarded (handleSdsTransfer env s source id raw).inner id
      (sds.receive raw (handleSdsTransfer env s source id raw).sends (storesOffline s source id raw)) := by
  have hreported {t : Inner} {issi : UInt32} {sds : Sds} (ht : Guarded t id sds) :
      Guarded (reportPosition env t source issi raw).1 id sds := ht.keeps (sameSds_reportPosition.keeps.at id)
  rw [h.not_storesOffline hsource]
  unfold handleSdsTransfer
  split
  · next route hroute =>
    split
    · exact h.ignore hraw fun _ hm => absurd hm List.not_mem_nil
    · next hsame =>
      have hown : route.sourceClient = source := not_not.mp hsame
      have hsms : route.sourceClient ≠ smsCenterClient := hown ▸ hsource
      obtain ⟨hlipOnly, hoffline⟩ := h.lipOnly route hroute hsms
      split
      · exact (h.ignore hraw fun _ hm => absurd hm List.not_mem_nil).keeps (keepsSds_eraseRoute.at id)
      · next hpass =>
        have hlip : isLipPayload raw = true := by
          rw [hlipOnly, Bool.true_and] at hpass
          exact Bool.not_eq_false _ ▸ fun hno => hpass (by rw [hno]; rfl)
        unfold forwardSds
        dsimp only
        rw [hoffline, if_neg (by decide)]
        dsimp only
        rw [List.append_nil]
        exact hreported (h.forward hraw hlip hroute hsms fun _ hm => head?_of_reportPosition hm)
  · split
    · exact h.ignore hraw fun _ hm => absurd hm List.not_mem_nil
    · exact hreported (h.ignore hraw fun _ hm => head?_of_reportPosition hm)

end Guard

/-! ## Every run -/

/-- Every blacklisted SDS that is the latest of its uuid is guarded. -/
def Gate.Guards (g : Gate) : Prop :=
  ∀ (id : Uuid) (sds : Sds), g.latest[id]? = some sds → sds.blocked = true → Guarded g.app.inner id sds

namespace Gate

variable {cfg : Config} {g : Gate}

theorem Guards.keep (h : g.Guards) {ev : Event} (hk : KeepsSds g.app.inner (g.app.next cfg ev).inner) :
    Guards { app := g.app.next cfg ev, latest := g.latest } :=
  fun id sds hl hb => (h id sds hl hb).keeps (hk.at id)

/-- A header comes in. -/
theorem Guards.header (h : g.Guards) {env : Env} {t : Inner} {source : ClientId} {raw : Bytes} {id : Uuid}
    {src dest : UInt32} (harr : sdsArriving env g.app.inner source raw = some (t, .header id src dest)) :
    (g.next false cfg (.packet env source raw)).Guards := by
  obtain ⟨hbefore, hhead, hroute⟩ := @routePacket_header cfg _ _ _ _ _ _ _ _ harr
  obtain ⟨hinner, hsent⟩ := @run_packet_of_ended cfg g.app _ _ _ (hroute ▸ ended_handleSdsHeader)
  intro k sds hl hb
  change (g.note false env source raw _)[k]? = some sds at hl
  change Guarded (g.app.next cfg (.packet env source raw)).inner k sds
  rw [hinner, hroute]
  rw [hsent, hroute, note, harr] at hl
  dsimp only at hl
  have hother (hk : id ≠ k) (hl : g.latest[k]? = some sds) :
      Guarded (handleSdsHeader env t source id (.shortTransfer src dest) raw).inner k sds :=
    (h k sds hl hb).keeps ((hbefore.at k).trans (keepsAt_handleSdsHeader hk))
  split at hl
  · next hcopy =>
    rw [Bool.not_false, Bool.and_true] at hcopy
    by_cases hk : id = k
    · subst hk
      have hdropped : (handleSdsHeader env t source id (.shortTransfer src dest) raw).inner = t := by
        unfold handleSdsHeader
        dsimp only
        rw [if_pos hcopy]
      rw [hdropped]
      exact (h id sds hl hb).keeps (hbefore.at id)
    · exact hother hk hl
  · next hnew =>
    rw [Bool.not_false, Bool.and_true] at hnew
    rw [FinMap.getElem?_insert] at hl
    split at hl
    · next hk =>
      subst hk
      obtain rfl := Option.some.inj hl
      have hblocked : (env.blocked src || env.blocked dest) = true := hb
      obtain ⟨hnothing, hguarded⟩ := guarded_handleSdsHeader hhead (Bool.eq_false_of_not_eq_true hnew) hblocked
      rw [hnothing, hblocked]
      exact hguarded
    · next hk => exact hother hk hl

/-- A payload comes in. -/
theorem Guards.payload (h : g.Guards) {env : Env} {t : Inner} {source : ClientId} {raw : Bytes} {id : Uuid}
    (hsource : source ≠ smsCenterClient) (harr : sdsArriving env g.app.inner source raw = some (t, .payload id)) :
    (g.next false cfg (.packet env source raw)).Guards := by
  obtain ⟨hbefore, hhead, hroute⟩ := @routePacket_payload cfg _ _ _ _ _ _ harr
  obtain ⟨hinner, hsent⟩ := @run_packet_of_ended cfg g.app _ _ _ (hroute ▸ ended_handleSdsTransfer)
  intro k sds hl hb
  change (g.note false env source raw _)[k]? = some sds at hl
  change Guarded (g.app.next cfg (.packet env source raw)).inner k sds
  rw [hinner, hroute]
  rw [hsent, hroute, note, harr] at hl
  dsimp only at hl
  rw [FinMap.getElem?_modify] at hl
  split at hl
  · next hk =>
    subst hk
    obtain ⟨before, hlatest, rfl⟩ := Option.map_eq_some_iff.mp hl
    exact guarded_handleSdsTransfer ((h id before hlatest hb).keeps (hbefore.at id)) hhead hsource
  · next hk => exact (h k sds hl hb).keeps ((hbefore.at k).trans (keepsAt_handleSdsTransfer hk))

theorem Guards.next (h : g.Guards) {ev : Event} (hids : ev.NewIds g.app.inner) : (g.next false cfg ev).Guards := by
  have haside (hother : ∀ env source raw, ev = .packet env source raw → sdsArriving env g.app.inner source raw = none) :
      KeepsSds g.app.inner (g.app.next cfg ev).inner := keepsSds_next hids hother
  cases ev with
  | packet env source raw =>
    cases harr : sdsArriving env g.app.inner source raw with
    | none =>
      have hnote : (g.next false cfg (.packet env source raw)).latest = g.latest := by
        change g.note false env source raw _ = _
        rw [note, harr]
      rw [Guards, hnote]
      exact h.keep (haside fun _ _ _ heq => by cases heq; exact harr)
    | some p =>
      obtain ⟨t, part⟩ := p
      cases part with
      | header id src dest => exact h.header harr
      | payload id => exact h.payload hids.1 harr
  | _ => exact h.keep (haside fun _ _ _ heq => by cases heq)

end Gate

/-- From the start, whatever comes in on the connections: of a blacklisted SDS only
position reports go out, each target has its header before the first of them, and only
once, and the SMS Center is handed nothing. -/
theorem gated_of_reach {cfg : Config} {selfId : UInt64} {g : Gate}
    (h : Reach { app := .start selfId } (fun g ev => ev.Allowed g.app ∧ ev.NewIds g.app.inner) (Gate.next false cfg) g) :
    ∀ (id : Uuid) (sds : Sds), g.latest[id]? = some sds → sds.blocked = true →
      sds.Gated ∧ ∀ r : SdsRoute, g.app.inner.sdsRoutes[id]? = some r → r.sourceClient ≠ smsCenterClient →
        sds.log ≠ [] → ∀ c ∈ r.targets, c ∈ g.app.inner.clients → sds.header ∈ sds.log.on c := by
  have hguards : g.Guards := by
    refine h.invariant (fun id sds hl => ?_) fun g ev hg hok => hg.next hok.2
    rw [Std.ExtTreeMap.getElem?_empty] at hl
    cases hl
  intro id sds hl hb
  have hguarded := hguards id sds hl hb
  refine ⟨hguarded.toGated, fun r hr hsms hout c ht hc => ?_⟩
  rcases hguarded.held r hr hsms with ⟨-, hnone⟩ | ⟨-, hsent⟩
  · exact absurd hnone hout
  · exact Sends.mem_on.mpr (hsent c ht hc)

/-- The outside while `issis` are blacklisted. -/
def Env.blacklisting (issis : List UInt32) : Env := { Env.plain 0 with blocked := fun issi => decide (issi ∈ issis) }

def shortData (data : Bytes) : Bytes := buildSdsTransferFrame 7 8 data

/-- ISSI 1002 is registered on connection 3; blacklisted 1001 sends it an SDS that is
a position report. -/
def positionReport : List Event :=
  [.connect 3 (.accepted .basestation) none false, .connect 4 (.accepted .basestation) none false,
    .packet (.blacklisting []) 3 (buildSubscriberMessage subRegister 1002 []),
    .packet (.blacklisting [1001]) 4 (buildShortTransfer 7 1001 1002),
    .packet (.blacklisting []) 4 (shortData [0x0a])]

theorem gated_positionReport :
    ∃ sds, (positionReport.foldl (Gate.next false {}) { app := .start 9 }).latest[(7 : Uuid)]? = some sds ∧
      sds.blocked = true ∧ sds.Gated ∧ sds.log.on 3 = [buildShortTransfer 7 1001 1002, shortData [0x0a]] := by
  refine ⟨_, rfl, rfl, ?_, by decide +kernel⟩
  exact (gated_of_reach (.of_list positionReport .init (by decide +kernel)) 7 _ rfl rfl).1

/-- The SDS is accepted from peer 1; a copy of its header comes from peer 2 once 1001
is blacklisted, and then the payload from peer 1, which is no position report. -/
def copiedHeader : List Event :=
  [.connect 1 (.accepted .peer) none false, .connect 2 (.accepted .peer) none false,
    .connect 3 (.accepted .basestation) none false,
    .packet (.blacklisting []) 3 (buildSubscriberMessage subRegister 1002 []),
    .packet (.blacklisting []) 1 (buildShortTransfer 7 1001 1002),
    .packet (.blacklisting [1001]) 2 (buildShortTransfer 7 1001 1002),
    .packet (.blacklisting [1001]) 1 (shortData [0x82])]

/-- A copy that is dropped decides nothing: the SDS it is a copy of goes on. -/
theorem not_gated_copy :
    ¬ ∀ g, Reach { app := .start 9 } (fun g ev => ev.Allowed g.app ∧ ev.NewIds g.app.inner) (Gate.next true {}) g →
      ∀ (id : Uuid) (sds : Sds), g.latest[id]? = some sds → sds.blocked = true → sds.Gated := by
  intro h
  have hany : ((copiedHeader.foldl (Gate.next true {}) { app := .start 9 }).latest[(7 : Uuid)]?).any
      (fun sds => sds.blocked && sds.payloads.all (fun p => !isLipPayload p) && !sds.log.isEmpty) = true := by
    decide +kernel
  obtain ⟨sds, hlatest, hsds⟩ := (Option.any_eq_true _ _).mp hany
  simp only [Bool.and_eq_true, List.all_eq_true, Bool.not_eq_true', List.isEmpty_eq_false_iff] at hsds
  obtain ⟨⟨hblocked, hpayloads⟩, hlog⟩ := hsds
  exact hlog ((h _ (.of_list copiedHeader .init (by decide +kernel)) 7 sds hlatest hblocked).silent hpayloads)

end BrewServer
