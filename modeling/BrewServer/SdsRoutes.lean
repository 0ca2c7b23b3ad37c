import BrewServer.Parties

/-!
# What the operations do to the SDS routes

Only an SDS header opens a route, and only its payload takes it over. Everything
else drops routes at most, but for the SMS Center, which opens its own.
-/

namespace BrewServer

open Protocol Fedroute Router Sip

/-- The SDS routes are as they were, and no connection is new. -/
structure SameSds (s s' : Inner) : Prop where
  routes : s'.sdsRoutes = s.sdsRoutes
  clients : ∀ c ∈ s'.clients, c ∈ s.clients

/-- Routes are at most dropped, or the SMS Center's own; a connection that is new is
no target of a route that was kept. -/
structure KeepsSds (s s' : Inner) : Prop where
  routes : ∀ (id : Uuid) (r : SdsRoute), s'.sdsRoutes[id]? = some r →
    s.sdsRoutes[id]? = some r ∨ r.sourceClient = smsCenterClient
  clients : ∀ c ∈ s'.clients, c ∈ s.clients ∨
    ∀ (id : Uuid) (r : SdsRoute), s'.sdsRoutes[id]? = some r → r.sourceClient ≠ smsCenterClient → c ∉ r.targets

namespace SameSds

variable {s s' s'' : Inner}

theorem refl (s : Inner) : SameSds s s := ⟨rfl, fun _ h => h⟩

theorem trans (h : SameSds s s') (h' : SameSds s' s'') : SameSds s s'' :=
  ⟨h'.routes.trans h.routes, fun c hc => h.clients c (h'.clients c hc)⟩

theorem of_registers (h : Registers s s') : SameSds s s' := ⟨h.sdsRoutes, fun _ hc => h.clients ▸ hc⟩

theorem keeps (h : SameSds s s') : KeepsSds s s' :=
  ⟨fun _ _ hr => .inl (h.routes ▸ hr), fun c hc => .inl (h.clients c hc)⟩

end SameSds

namespace KeepsSds

variable {s s' s'' : Inner}

theorem refl (s : Inner) : KeepsSds s s := (SameSds.refl s).keeps

theorem trans (h : KeepsSds s s') (h' : KeepsSds s' s'') : KeepsSds s s'' := by
  refine ⟨fun id r hr => ?_, fun c hc => ?_⟩
  · rcases h'.routes id r hr with hr | hsms
    · exact h.routes id r hr
    · exact .inr hsms
  · rcases h'.clients c hc with hc | hno
    · rcases h.clients c hc with hc | hno
      · exact .inl hc
      · refine .inr fun id r hr hsms => ?_
        exact hno id r ((h'.routes id r hr).resolve_right hsms) hsms
    · exact .inr hno

/-- Some routes are dropped. -/
theorem of_subset (hd : ∀ (id : Uuid) (r : SdsRoute), s'.sdsRoutes[id]? = some r → s.sdsRoutes[id]? = some r)
    (hc : ∀ c ∈ s'.clients, c ∈ s.clients) : KeepsSds s s' :=
  ⟨fun id r hr => .inl (hd id r hr), fun c h => .inl (hc c h)⟩

end KeepsSds

/-! ## Handlers -/

section Handlers

variable {cfg : Config} {env : Env} {s : Inner} {source : ClientId} {id : Uuid} {raw : Bytes} {nowMs : UInt64}

theorem sameSds_noteCall {src : UInt32} {link : ClientId} {now : Nat} : SameSds s (noteCall s id src link now) :=
  ⟨rfl, fun _ h => h⟩

theorem sameSds_touch {call : ActiveCall} : SameSds s (touch env s id call) := ⟨rfl, fun _ h => h⟩

theorem keepsSds_purgeEphemeral : KeepsSds s (purgeEphemeral env s) :=
  .of_subset (fun _ _ hr => (FinMap.getElem?_filter.mp hr).1) fun _ h => h

theorem sameSds_promoteClientVersion {v : ConnVersion} : SameSds s (promoteClientVersion s source v) := by
  unfold promoteClientVersion
  split
  · exact ⟨rfl, fun c hc => Std.ExtTreeMap.mem_modify.mp hc⟩
  · exact .refl s

theorem sameSds_acceptBts {a : BtsAdvert} : SameSds s (acceptBts s nowMs source a).1 := by
  unfold acceptBts
  split
  · exact .refl s
  · split
    · exact .refl s
    · split
      · exact .refl s
      · split
        · exact .refl s
        · exact ⟨rfl, fun _ h => h⟩

theorem sameSds_acceptEm {a : EmAdvert} : SameSds s (acceptEm s nowMs source a).1 := by
  unfold acceptEm
  split
  · exact .refl s
  · split
    · exact .refl s
    · split
      · exact .refl s
      · exact ⟨rfl, fun _ h => h⟩

theorem sameSds_acceptMs {a : MsAdvert} : SameSds s (acceptMs s source a).1 := by
  unfold acceptMs
  split
  · exact .refl s
  · split
    · exact .refl s
    · split
      · exact .refl s
      · split
        · exact .refl s
        · exact ⟨rfl, fun _ h => h⟩

theorem sameSds_advertiseMs {issi : UInt32} {lat lon : F64} {station : String} :
    SameSds s (advertiseMs s issi lat lon nowMs station).1 := by
  unfold advertiseMs
  split
  · exact .refl s
  · split
    · exact .refl s
    · exact ⟨rfl, fun _ h => h⟩

theorem sameSds_advertiseBts {key name : String} {lat lon : F64} {online : Bool} :
    SameSds s (advertiseBts s nowMs key name lat lon online).1 := by
  unfold advertiseBts
  dsimp only
  split
  · split
    · exact .refl s
    · exact ⟨rfl, fun _ h => h⟩
  · split
    · exact .refl s
    · exact ⟨rfl, fun _ h => h⟩

theorem sameSds_advertiseEmergency {issi : UInt32} {dest : Option UInt32} {bts : String} {active : Bool} :
    SameSds s (advertiseEmergency s nowMs issi dest bts active).1 := by
  unfold advertiseEmergency
  dsimp only
  split
  · exact ⟨rfl, fun _ h => h⟩
  · split
    · exact .refl s
    · exact ⟨rfl, fun _ h => h⟩

theorem sameSds_receivePrune {src : UInt32} : SameSds s (receivePrune s source id src) := by
  unfold receivePrune
  split
  · exact .refl s
  · split
    · exact ⟨rfl, fun _ h => h⟩
    · exact .refl s

theorem sameSds_handle : SameSds s (handle s nowMs source raw).1 := by
  unfold handle
  split
  · exact .refl s
  · split
    · next msg _ =>
      cases msg with
      | route issi a =>
        refine .of_registers ?_
        change Registers s (receiveRoute s nowMs source issi a).1
        rw [receiveRoute_eq.1]
        exact registers_takeOffer.trans registers_reroute
      | withdraw issi => exact .of_registers registers_receiveWithdraw
      | prune id src => exact sameSds_receivePrune
      | btsHello version => exact ⟨rfl, fun _ h => h⟩
      | bts a => exact sameSds_acceptBts
      | msPos a => exact sameSds_acceptMs
      | emergency a => exact sameSds_acceptEm
      | unknown t => exact .refl s
    · exact .refl s

theorem sameSds_lateEntry {groups : FinSet UInt32} : SameSds s (lateEntry s source groups).1 := by
  unfold lateEntry
  split
  · exact .refl s
  · split
    · exact .refl s
    · exact ⟨rfl, fun _ h => h⟩

theorem sameSds_handleSubscriber {msg : SubscriberMessage} : SameSds s (handleSubscriber s nowMs source msg).1 := by
  rcases handleSubscriber_joined s nowMs source msg with heq | ⟨ticked, new, -, hentry, heq⟩
  · rw [heq]
    exact .refl s
  · rw [heq]
    exact (SameSds.of_registers (hentry.registers.trans registers_applyEntry)).trans sameSds_lateEntry

theorem sameSds_handleGroupTx {payload : CallPayload} :
    SameSds s (handleGroupTx cfg env s source id payload raw).inner := by
  unfold handleGroupTx
  split
  · split
    · exact .refl s
    · split
      · exact .refl s
      · split
        · split
          · exact .refl s
          · exact ⟨rfl, fun _ h => h⟩
        · exact ⟨rfl, fun _ h => h⟩
  · exact .refl s

theorem sameSds_endCall : SameSds s (endCall env s source id raw).inner := by
  rcases endCall_cases env s source id raw with heq | ⟨call, -, -, hinner, -⟩
  · rw [heq]
    exact .refl s
  · rw [hinner]
    exact ⟨rfl, fun _ h => h⟩

theorem sameSds_routePrivateControl : SameSds s (routePrivateControl env s source id raw).inner := by
  unfold routePrivateControl
  split
  · exact sameSds_endCall
  · split
    · exact .refl s
    · split
      · exact .refl s
      · exact sameSds_touch

theorem sameSds_routeCallFrame : SameSds s (routeCallFrame env s source id raw).inner := by
  unfold routeCallFrame
  split
  · exact .refl s
  · split
    · exact sameSds_touch
    · exact .refl s

theorem keepsSds_eraseRoute : KeepsSds s { s with sdsRoutes := s.sdsRoutes.erase id } := by
  refine .of_subset (fun k r hr => ?_) fun _ h => h
  rw [FinMap.getElem?_erase] at hr
  split at hr
  · cases hr
  · exact hr

theorem keepsSds_handleSdsReport : KeepsSds s (handleSdsReport s source id raw).inner := by
  unfold handleSdsReport
  split
  · exact .refl s
  · split
    · exact .refl s
    · dsimp only
      split
      · exact keepsSds_eraseRoute
      · exact .refl s

/-- A virtual client joins, which is no target of any route. -/
theorem keepsSds_insertVirtual {s' : Inner} {v : ClientId} (hd : s'.sdsRoutes = s.sdsRoutes)
    (hc : s'.clients = s.clients.insert v virtualClientEntry)
    (hv : ∀ (id : Uuid) (r : SdsRoute), s.sdsRoutes[id]? = some r → v ∉ r.targets) : KeepsSds s s' := by
  refine ⟨fun _ _ hr => .inl (hd ▸ hr), fun c hmem => ?_⟩
  rw [hc] at hmem
  rcases FinMap.mem_insert.mp hmem with rfl | hmem
  · exact .inr fun id r hr _ => hv id r (hd ▸ hr)
  · exact .inl hmem

/-- A call placed to SIP joins a client that no SDS route aims at. -/
def SipOffer.Untargeted (s : Inner) (offer : SipOffer) : Prop :=
  ∀ p ∈ offer.placement, ∀ e ∈ s.sdsRoutes.toList, p.2 ∉ e.2.targets

instance (s : Inner) (offer : SipOffer) : Decidable (offer.Untargeted s) :=
  @Option.decidableForallMem _ _ (fun p : String × ClientId =>
    @List.decidableBAll _ _ (fun e : Uuid × SdsRoute => inferInstanceAs (Decidable (p.2 ∉ e.2.targets)))
      s.sdsRoutes.toList) offer.placement

theorem keepsSds_handlePrivateSetup {payload : CallPayload} (hsip : env.sip.Untargeted s) :
    KeepsSds s (handlePrivateSetup env s source id payload raw).inner := by
  unfold handlePrivateSetup
  split
  · exact .refl s
  · next req _ =>
    split
    · exact .refl s
    · dsimp only
      split
      · exact sameSds_noteCall.keeps
      · split
        · unfold offerToSip
          split
          · exact sameSds_noteCall.keeps
          · exact sameSds_noteCall.keeps
          · next callId v hplaced =>
            refine sameSds_noteCall.keeps.trans (keepsSds_insertVirtual (v := v) rfl rfl fun k r hr => ?_)
            rw [hplaced] at hsip
            exact hsip (callId, v) rfl (k, r) (FinMap.mem_toList.mpr hr)
        · split
          · exact sameSds_noteCall.keeps
          · exact SameSds.keeps ⟨rfl, fun _ h => h⟩

theorem sameSds_reportPosition {issi : UInt32} : SameSds s (reportPosition env s source issi raw).1 := by
  unfold reportPosition advertiseIfLocal
  split
  · exact .refl s
  · split
    · exact .refl s
    · exact sameSds_advertiseMs

theorem keepsSds_originate {client : ClientId} {src dest : UInt32} {lengthBits : UInt16} {data : Bytes} :
    KeepsSds s (originate env s client id src dest lengthBits data).1 := by
  unfold originate
  split
  · exact .refl s
  · refine ⟨fun k r hr => ?_, fun c hc => .inl hc⟩
    rw [FinMap.getElem?_insert] at hr
    split at hr
    · cases hr
      exact .inr rfl
    · exact .inl hr

theorem keepsSds_reportStored {src dest : UInt32} : KeepsSds s (reportStored env s source src dest).1 := by
  unfold reportStored
  split
  · exact .refl s
  · exact keepsSds_originate

theorem keepsSds_deliverStored {src dest : UInt32} {lengthBits : UInt16} {data : Bytes} :
    KeepsSds s (deliverStored env s id src dest lengthBits data).1 := by
  unfold deliverStored
  split
  · exact .refl s
  · exact keepsSds_originate

theorem sameSds_emergencyRaised {issi : UInt32} : SameSds s (emergencyRaised s issi).1 := ⟨rfl, fun _ h => h⟩

end Handlers

/-! ## The bridge and the sweep -/

section Bridge

variable {cfg : Config} {env : Env} {a : AppState}

theorem sameSds_removeLeg {s : Inner} {leg : BridgedLeg} : SameSds s (removeLeg s leg).1 := by
  unfold removeLeg
  dsimp only
  split
  · exact ⟨rfl, fun _ hc => (FinMap.mem_erase.mp hc).2⟩
  · exact ⟨rfl, fun _ hc => (FinMap.mem_erase.mp hc).2⟩

theorem sameSds_teardown {callId : String} : SameSds a.inner (teardown a callId).1.inner := by
  unfold teardown
  split
  · exact .refl _
  · exact sameSds_removeLeg

theorem sameSds_teardownByBrewCall {id : Uuid} : SameSds a.inner (teardownByBrewCall a id).1.inner := by
  unfold teardownByBrewCall
  split
  · exact .refl _
  · exact sameSds_teardown

theorem sameSds_settle {e : Effect} : SameSds e.inner (settle a e).1.inner :=
  settle_induct (P := fun r => SameSds e.inner r.1.inner) (.refl _) fun _ hr _ _ => hr.trans sameSds_teardownByBrewCall

theorem sameSds_sweep : SameSds a.inner (runCallDurationSweep cfg env a).1.inner :=
  sweep_induct (P := fun r => SameSds a.inner r.1.inner) (.refl _) fun _ hr _ _ =>
    hr.trans (sameSds_endCall.trans sameSds_settle)

theorem keepsSds_sipToBrewPrivate {callId : String} {issi : UInt32} {v : ClientId} {id : Uuid} {rtpPort : Bool}
    (hv : ∀ (k : Uuid) (r : SdsRoute), a.inner.sdsRoutes[k]? = some r → v ∉ r.targets) :
    KeepsSds a.inner (sipToBrewPrivate env a callId issi v id rtpPort).1.inner := by
  unfold sipToBrewPrivate
  split
  · exact .refl _
  · split
    · exact .refl _
    · split
      · exact .refl _
      · exact keepsSds_insertVirtual (v := v) rfl rfl hv

theorem keepsSds_sipToBrewGroup {callId : String} {g : UInt32} {v : ClientId} {id : Uuid} {rtpPort : Bool}
    (hv : ∀ (k : Uuid) (r : SdsRoute), a.inner.sdsRoutes[k]? = some r → v ∉ r.targets) :
    KeepsSds a.inner (sipToBrewGroup cfg env a callId g v id rtpPort).1.inner := by
  unfold sipToBrewGroup
  split
  · exact .refl _
  · split
    · exact .refl _
    · exact keepsSds_insertVirtual (v := v) rfl rfl hv

end Bridge

/-! ## Connections -/

section Connections

variable {s : Inner} {id : ClientId}

theorem keepsSds_openSession {client : Client} {neighbour : Option UInt64} {console : Bool}
    (hid : ∀ (k : Uuid) (r : SdsRoute), s.sdsRoutes[k]? = some r → id ∉ r.targets) :
    KeepsSds s (openSession s id client neighbour console).1 := by
  have hroutes : (openSession s id client neighbour console).1.sdsRoutes = s.sdsRoutes := by
    unfold openSession attachClient
    cases neighbour with
    | none => cases console <;> rfl
    | some n => cases console <;> rfl
  refine ⟨fun _ _ hr => .inl (hroutes ▸ hr), fun c hc => ?_⟩
  rw [clients_openSession] at hc
  rcases FinMap.mem_insert.mp hc with rfl | hc
  · exact .inr fun k r hr _ => hid k r (hroutes ▸ hr)
  · exact .inl hc

theorem sameSds_leaveCalls : SameSds s (leaveCalls s id).inner := by
  refine leaveCalls_induct (P := fun r => SameSds s r.inner) (.refl s) fun r hr e _ _ => hr.trans ?_
  unfold leaveCall
  dsimp only
  split <;> exact ⟨rfl, fun _ h => h⟩

theorem keepsSds_cleanupClient : KeepsSds s (cleanupClient s id).inner := by
  have hdetach : SameSds s (detach s id) := ⟨rfl, fun _ hc => (FinMap.mem_erase.mp hc).2⟩
  have hforget : ∀ t : Inner, KeepsSds t (forgetRoutes t id) := fun t =>
    .of_subset (fun _ _ hr => (FinMap.getElem?_filter.mp hr).1) fun _ h => h
  rw [(cleanupClient_eq s id).1]
  exact ((hdetach.trans (.of_registers registers_dropRegistrations)).trans sameSds_leaveCalls).keeps.trans (hforget _)

end Connections

end BrewServer
