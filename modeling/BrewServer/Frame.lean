import BrewServer.Server

/-!
# Operations that leave the registrations alone

Most handlers touch neither the route tables nor the group members, and queue no
message that carries a registration. Each handler is proved so once here; the
invariants about registrations then look only at the operations left.
-/

namespace BrewServer

open Protocol Fedroute Router Sip

/-- What stays the same about a connection as long as it lasts. -/
def Client.kind (c : Client) : ClientMode × Option String := (c.mode, c.remoteAddr)

/-- The tables routes are selected from are unchanged. -/
structure SameTable (s s' : Inner) : Prop where
  subscribers : s'.subscribers = s.subscribers
  ribIn : s'.fed.ribIn = s.fed.ribIn
  links : s'.fed.links = s.fed.links
  clock : s'.fed.clock = s.fed.clock
  selfId : s'.fed.selfId = s.fed.selfId

/-- The links that announced that they understand adverts. -/
def Inner.Announced (s : Inner) (c : ClientId) : Prop :=
  c ∈ s.fed.btsLinks ∨ c ∈ s.fed.msLinks ∨ c ∈ s.fed.emLinks

/-- Nothing about registrations changed, nor who is connected in which mode, and
only a loop-safe link announced itself. -/
structure SameRoutes (s s' : Inner) : Prop extends SameTable s s' where
  groupClients : s'.groupClients = s.groupClients
  kinds : ∀ c : ClientId, (s'.clients[c]?).map Client.kind = (s.clients[c]?).map Client.kind
  announced : ∀ c : ClientId, s'.Announced c → s.Announced c ∨ c ∈ s.fed.links

theorem SameTable.refl (s : Inner) : SameTable s s := ⟨rfl, rfl, rfl, rfl, rfl⟩

theorem SameTable.trans {s s' s'' : Inner} (h : SameTable s s') (h' : SameTable s' s'') : SameTable s s'' :=
  ⟨h'.subscribers.trans h.subscribers, h'.ribIn.trans h.ribIn, h'.links.trans h.links, h'.clock.trans h.clock,
    h'.selfId.trans h.selfId⟩

theorem SameRoutes.refl (s : Inner) : SameRoutes s s := ⟨SameTable.refl s, rfl, fun _ => rfl, fun _ => .inl⟩

theorem SameRoutes.trans {s s' s'' : Inner} (h : SameRoutes s s') (h' : SameRoutes s' s'') : SameRoutes s s'' := by
  refine ⟨h.toSameTable.trans h'.toSameTable, h'.groupClients.trans h.groupClients,
    fun c => (h'.kinds c).trans (h.kinds c), fun c hc => ?_⟩
  rcases h'.announced c hc with hc | hc
  · exact h.announced c hc
  · exact .inr (h.links ▸ hc)

/-- What federation keeps besides the adverts it relays. -/
def FedState.routing (f : FedState) :=
  (f.selfId, f.links, f.ribIn, f.clock, f.btsLinks, f.msLinks, f.emLinks)

/-- A change of other tables only. -/
theorem SameRoutes.of_eq {s s' : Inner} (hc : s'.clients = s.clients) (hs : s'.subscribers = s.subscribers)
    (hg : s'.groupClients = s.groupClients) (hf : s'.fed.routing = s.fed.routing) : SameRoutes s s' := by
  simp only [FedState.routing, Prod.mk.injEq] at hf
  obtain ⟨hi, hl, hr, hk, hb, hm, he⟩ := hf
  refine ⟨⟨hs, hr, hl, hk, hi⟩, hg, fun _ => by rw [hc], fun c h => .inl ?_⟩
  rw [Inner.Announced, hb, hm, he] at h
  exact h

/-- A message that carries no registration: neither a SUB message nor a route
advert. -/
def Quiet (raw : Bytes) : Prop :=
  raw.head? ≠ some classSubscriber ∧
    (raw.head? = some classFederation → raw[1]? ≠ some fedRoute ∧ raw[1]? ≠ some fedWithdraw)

instance (raw : Bytes) : Decidable (Quiet raw) := by unfold Quiet; infer_instance

theorem quiet_cons {c t : UInt8} {rest : Bytes} (hc : c ≠ classSubscriber)
    (ht : c = classFederation → t ≠ fedRoute ∧ t ≠ fedWithdraw) : Quiet (c :: t :: rest) := by
  refine ⟨fun h => hc (Option.some.inj h), fun h => ?_⟩
  have := ht (Option.some.inj h)
  exact ⟨fun h => this.1 (Option.some.inj h), fun h => this.2 (Option.some.inj h)⟩

/-- Only the first byte of a call or a frame matters. -/
def NotRegistration (raw : Bytes) : Prop :=
  raw.head? ≠ some classSubscriber ∧ raw.head? ≠ some classFederation

theorem NotRegistration.quiet {raw : Bytes} (h : NotRegistration raw) : Quiet raw :=
  ⟨h.1, fun hf => absurd hf h.2⟩

theorem NotRegistration.of_head {raw raw' : Bytes} (h : NotRegistration raw) (hh : raw'.head? = raw.head?) :
    NotRegistration raw' := by
  unfold NotRegistration
  rw [hh]
  exact h

theorem head?_adaptToVersion (raw : Bytes) (v : ConnVersion) : (adaptToVersion raw v).head? = raw.head? := by
  unfold adaptToVersion
  split
  · rfl
  · split
    · exact List.head?_take.trans (if_neg (by decide))
    · split
      · exact List.head?_take.trans (if_neg (by decide))
      · rfl

theorem head?_withEmergencyPriority (raw : Bytes) : (withEmergencyPriority raw).head? = raw.head? := by
  cases raw <;> rfl

def Sends.Quiet (sends : Sends) : Prop := ∀ m ∈ sends, BrewServer.Quiet m.2

/-- No held SDS header carries a registration. -/
def QuietHeld (s : Inner) : Prop :=
  ∀ (id : Uuid) (r : SdsRoute) (h : Bytes), s.sdsRoutes[id]? = some r → r.heldHeader = some h → Quiet h

theorem Sends.Quiet.append {a b : Sends} (ha : a.Quiet) (hb : b.Quiet) : (a ++ b).Quiet := by
  intro m hm
  rcases List.mem_append.mp hm with h | h
  · exact ha m h
  · exact hb m h

theorem Sends.quiet_nil : Sends.Quiet [] := fun _ hm => absurd hm (List.not_mem_nil)

theorem Sends.quiet_send {s : Inner} {c : ClientId} {raw : Bytes} (h : BrewServer.Quiet raw) :
    (s.send c raw).Quiet := by
  intro m hm
  rw [(Inner.mem_send.mp hm).1]
  exact h

theorem Sends.quiet_sendMany {s : Inner} {cs : FinSet ClientId} {raw : Bytes} (h : BrewServer.Quiet raw) :
    (s.sendMany cs raw).Quiet := by
  intro m hm
  rw [(Inner.mem_sendMany.mp hm).1]
  exact h

theorem Sends.quiet_flatMap {α : Type} {l : List α} {f : α → Sends} (h : ∀ a ∈ l, (f a).Quiet) :
    Sends.Quiet (l.flatMap f) := by
  intro m hm
  obtain ⟨a, ha, hm⟩ := List.mem_flatMap.mp hm
  exact h a ha m hm

/-- A step that leaves the registrations alone. -/
structure Passive (s s' : Inner) (sends : Sends) : Prop where
  routes : SameRoutes s s'
  held : QuietHeld s → QuietHeld s'
  quiet : QuietHeld s → sends.Quiet

namespace Passive

theorem refl (s : Inner) : Passive s s [] := ⟨SameRoutes.refl s, id, fun _ => Sends.quiet_nil⟩

theorem trans {s s' s'' : Inner} {a b : Sends} (h : Passive s s' a) (h' : Passive s' s'' b) :
    Passive s s'' (a ++ b) :=
  ⟨h.routes.trans h'.routes, fun hq => h'.held (h.held hq), fun hq => (h.quiet hq).append (h'.quiet (h.held hq))⟩

/-- A step that also leaves the SDS routes alone. -/
theorem of_same {s s' : Inner} {sends : Sends} (h : SameRoutes s s') (hd : s'.sdsRoutes = s.sdsRoutes)
    (hq : sends.Quiet) : Passive s s' sends :=
  ⟨h, fun hs id r hdr hr => hs id r hdr (hd ▸ hr), fun _ => hq⟩

/-- With nothing queued, only the state counts. -/
theorem of_routes {s s' : Inner} (h : SameRoutes s s') (hd : s'.sdsRoutes = s.sdsRoutes) : Passive s s' [] :=
  of_same h hd Sends.quiet_nil

theorem sends_only {s : Inner} {sends : Sends} (hq : sends.Quiet) : Passive s s sends :=
  of_same (SameRoutes.refl s) rfl hq

end Passive

theorem QuietHeld.erase {s : Inner} (h : QuietHeld s) (id : Uuid) :
    QuietHeld { s with sdsRoutes := s.sdsRoutes.erase id } := by
  intro id' r hdr hr
  rw [FinMap.getElem?_erase] at hr
  split at hr
  · cases hr
  · exact h id' r hdr hr

theorem QuietHeld.insert {s : Inner} (h : QuietHeld s) (id : Uuid) {r : SdsRoute}
    (hr : ∀ hdr, r.heldHeader = some hdr → Quiet hdr) :
    QuietHeld { s with sdsRoutes := s.sdsRoutes.insert id r } := by
  intro id' r' hdr hr'
  rw [FinMap.getElem?_insert] at hr'
  split at hr'
  · cases hr'
    exact hr hdr
  · exact h id' r' hdr hr'

theorem QuietHeld.filter {s : Inner} (h : QuietHeld s) (p : Uuid → SdsRoute → Bool) :
    QuietHeld { s with sdsRoutes := s.sdsRoutes.filter p } :=
  fun id r hdr hr => h id r hdr (FinMap.getElem?_filter.mp hr).1

section Adverts

theorem quiet_relay {s : Inner} {links : FinSet ClientId} {except : Option ClientId} {path : List UInt64}
    {build : List UInt64 → Bytes} (h : ∀ p, Quiet (build p)) : (relay s links except path build).Quiet := by
  unfold relay
  split
  · exact Sends.quiet_nil
  · refine Sends.quiet_flatMap fun link _ => ?_
    split
    · exact Sends.quiet_nil
    · split
      · exact Sends.quiet_nil
      · split
        · exact Sends.quiet_nil
        · exact Sends.quiet_send (h _)

theorem quiet_buildBts (a : BtsAdvert) : Quiet (buildBts a) := quiet_cons (by decide) (by decide)
theorem quiet_buildEmergency (a : EmAdvert) : Quiet (buildEmergency a) := quiet_cons (by decide) (by decide)
theorem quiet_buildMsPos (a : MsAdvert) : Quiet (buildMsPos a) := quiet_cons (by decide) (by decide)
theorem quiet_buildBtsHello : Quiet buildBtsHello := quiet_cons (by decide) (by decide)
theorem quiet_buildPrune (id : Uuid) (src : UInt32) : Quiet (buildPrune id src) :=
  quiet_cons (by decide) (by decide)

theorem quiet_relayBts {s : Inner} {except : Option ClientId} {a : BtsAdvert} : (relayBts s except a).Quiet :=
  quiet_relay fun _ => quiet_buildBts _
theorem quiet_relayEm {s : Inner} {except : Option ClientId} {a : EmAdvert} : (relayEm s except a).Quiet :=
  quiet_relay fun _ => quiet_buildEmergency _
theorem quiet_relayMs {s : Inner} {except : Option ClientId} {a : MsAdvert} : (relayMs s except a).Quiet :=
  quiet_relay fun _ => quiet_buildMsPos _

theorem passive_acceptBts {s : Inner} {nowMs : UInt64} {source : ClientId} {a : BtsAdvert} :
    Passive s (acceptBts s nowMs source a).1 (acceptBts s nowMs source a).2 := by
  unfold acceptBts
  split
  · exact .refl s
  · split
    · exact .refl s
    · split
      · exact .refl s
      · split
        · exact .refl s
        · exact .of_same (.of_eq rfl rfl rfl rfl) rfl quiet_relayBts

theorem passive_acceptEm {s : Inner} {nowMs : UInt64} {source : ClientId} {a : EmAdvert} :
    Passive s (acceptEm s nowMs source a).1 (acceptEm s nowMs source a).2 := by
  unfold acceptEm
  split
  · exact .refl s
  · split
    · exact .refl s
    · split
      · exact .refl s
      · exact .of_same (.of_eq rfl rfl rfl rfl) rfl quiet_relayEm

theorem passive_acceptMs {s : Inner} {source : ClientId} {a : MsAdvert} :
    Passive s (acceptMs s source a).1 (acceptMs s source a).2 := by
  unfold acceptMs
  split
  · exact .refl s
  · split
    · exact .refl s
    · split
      · exact .refl s
      · split
        · exact .refl s
        · exact .of_same (.of_eq rfl rfl rfl rfl) rfl quiet_relayMs

theorem passive_advertiseBts {s : Inner} {nowMs : UInt64} {key name : String} {lat lon : F64} {online : Bool} :
    Passive s (advertiseBts s nowMs key name lat lon online).1 (advertiseBts s nowMs key name lat lon online).2 := by
  unfold advertiseBts
  split
  · split
    · exact .refl s
    · refine .of_same (.of_eq rfl rfl rfl rfl) rfl ?_
      dsimp only
      exact quiet_relayBts
  · split
    · exact .refl s
    · refine .of_same (.of_eq rfl rfl rfl rfl) rfl ?_
      dsimp only
      exact quiet_relayBts

theorem passive_advertiseEmergency {s : Inner} {nowMs : UInt64} {issi : UInt32} {dest : Option UInt32}
    {bts : String} {active : Bool} :
    Passive s (advertiseEmergency s nowMs issi dest bts active).1
      (advertiseEmergency s nowMs issi dest bts active).2 := by
  unfold advertiseEmergency
  split
  · refine .of_same (.of_eq rfl rfl rfl rfl) rfl ?_
    dsimp only
    exact quiet_relayEm
  · split
    · exact .refl s
    · refine .of_same (.of_eq rfl rfl rfl rfl) rfl ?_
      dsimp only
      exact quiet_relayEm

theorem passive_advertiseMs {s : Inner} {issi : UInt32} {lat lon : F64} {atMs : UInt64} {station : String} :
    Passive s (advertiseMs s issi lat lon atMs station).1 (advertiseMs s issi lat lon atMs station).2 := by
  unfold advertiseMs
  split
  · exact .refl s
  · split
    · exact .refl s
    · refine .of_same (.of_eq rfl rfl rfl rfl) rfl ?_
      dsimp only
      exact quiet_relayMs

theorem quiet_syncs {s : Inner} {nowMs : UInt64} {nbrId : UInt64} :
    (∀ m ∈ btsSync s nowMs nbrId, Quiet m) ∧ (∀ m ∈ emSync s nowMs nbrId, Quiet m) ∧
      ∀ m ∈ msSync s nbrId, Quiet m := by
  refine ⟨fun m hm => ?_, fun m hm => ?_, fun m hm => ?_⟩
  · obtain ⟨a, -, rfl⟩ := List.mem_map.mp hm
    exact quiet_buildBts a
  · obtain ⟨a, -, rfl⟩ := List.mem_map.mp hm
    exact quiet_buildEmergency a
  · obtain ⟨a, -, rfl⟩ := List.mem_map.mp hm
    exact quiet_buildMsPos _

theorem passive_receiveHello {s : Inner} {nowMs : UInt64} {source : ClientId} {nbrId : UInt64} {version : UInt8}
    (hlink : source ∈ s.fed.links) :
    Passive s (receiveHello s nowMs source nbrId version).1 (receiveHello s nowMs source nbrId version).2 := by
  obtain ⟨hb, he, hm⟩ := @quiet_syncs s nowMs nbrId
  have hannounced : ∀ c : ClientId, (receiveHello s nowMs source nbrId version).1.Announced c →
      s.Announced c ∨ c ∈ s.fed.links := by
    have hgrow : ∀ {m : FinSet ClientId} {p : Prop} [Decidable p] {c : ClientId},
        c ∈ (if p then m.insert source else m) → c ∈ m ∨ c ∈ s.fed.links := by
      intro m p _ c hc
      split at hc
      · rcases FinSet.mem_insert.mp hc with rfl | hc
        · exact .inr hlink
        · exact .inl hc
      · exact .inl hc
    rintro c (hc | hc | hc)
    · rcases FinSet.mem_insert.mp hc with rfl | hc
      · exact .inr hlink
      · exact .inl (.inl hc)
    · exact (hgrow hc).imp_left fun h => .inr (.inl h)
    · exact (hgrow hc).imp_left fun h => .inr (.inr h)
  refine .of_same ⟨⟨rfl, rfl, rfl, rfl, rfl⟩, rfl, fun _ => rfl, hannounced⟩ rfl (Sends.quiet_flatMap fun m hmem => ?_)
  refine Sends.quiet_send ?_
  simp only [List.mem_append] at hmem
  rcases hmem with (h | h) | h
  · exact hb m h
  · split at h
    · exact hm m h
    · cases h
  · split at h
    · exact he m h
    · cases h

theorem passive_receivePrune {s : Inner} {source : ClientId} {id : Uuid} {sourceIssi : UInt32} :
    Passive s (receivePrune s source id sourceIssi) [] := by
  unfold receivePrune
  split
  · exact .refl s
  · split
    · exact .of_same (.of_eq rfl rfl rfl rfl) rfl Sends.quiet_nil
    · exact .refl s

end Adverts

theorem passive_purgeEphemeral {env : Env} {s : Inner} : Passive s (purgeEphemeral env s) [] :=
  ⟨.of_eq rfl rfl rfl rfl, fun h => h.filter _, fun _ => Sends.quiet_nil⟩

theorem passive_promoteClientVersion {s : Inner} {source : ClientId} {v : ConnVersion} :
    Passive s (promoteClientVersion s source v) [] := by
  unfold promoteClientVersion
  split
  · refine .of_same ⟨⟨rfl, rfl, rfl, rfl, rfl⟩, rfl, fun c => ?_, fun _ => .inl⟩ rfl Sends.quiet_nil
    simp only [FinMap.getElem?_modify]
    split
    · rw [Option.map_map]
      rfl
    · rfl
  · exact .refl s

theorem passive_noteCall {s : Inner} {id : Uuid} {src : UInt32} {link : ClientId} {now : Nat} :
    Passive s (noteCall s id src link now) [] :=
  .of_same (.of_eq rfl rfl rfl rfl) rfl Sends.quiet_nil

section Calls

variable {cfg : Config} {env : Env} {s : Inner} {source : ClientId} {id : Uuid} {raw : Bytes}

theorem quiet_buildCallCause (state : UInt8) (id : Uuid) (cause : UInt8) : Quiet (buildCallCause state id cause) :=
  quiet_cons (by decide) fun h => absurd h (by decide)

theorem quiet_buildGroupTx (id : Uuid) (src dest : UInt32) (p : UInt8) : Quiet (buildGroupTx id src dest p) :=
  quiet_cons (by decide) (by decide)

theorem passive_installGroupTx {gt : GroupTransmission} (hraw : NotRegistration raw) :
    Passive s (installGroupTx cfg env s source id gt raw).1 (installGroupTx cfg env s source id gt raw).2 := by
  refine .of_same (.of_eq rfl rfl rfl rfl) rfl (Sends.quiet_flatMap fun c _ => ?_)
  split
  · exact Sends.quiet_nil
  · intro m hm
    rw [List.mem_singleton.mp hm]
    refine NotRegistration.quiet (hraw.of_head ?_)
    simp only [head?_adaptToVersion]
    split
    · split
      · exact head?_withEmergencyPriority raw
      · rfl
    · rfl

theorem passive_preempt {existingId : Uuid} {existing : ActiveCall} :
    Passive s (preempt cfg s existingId existing).1 (preempt cfg s existingId existing).2 :=
  .of_same (.of_eq rfl rfl rfl rfl) rfl (Sends.quiet_sendMany (quiet_buildCallCause ..))

theorem passive_handleGroupTx {payload : CallPayload} (hraw : NotRegistration raw) :
    Passive s (handleGroupTx cfg env s source id payload raw).inner
      (handleGroupTx cfg env s source id payload raw).sends := by
  unfold handleGroupTx
  split
  · split
    · exact .refl s
    · split
      · refine .sends_only ?_
        split
        · exact Sends.quiet_send (quiet_buildPrune ..)
        · exact Sends.quiet_nil
      · split
        · split
          · exact .refl s
          · exact passive_preempt.trans (passive_installGroupTx hraw)
        · exact passive_installGroupTx hraw
  · exact .refl s

theorem passive_touch {call : ActiveCall} {sends : Sends} (hq : sends.Quiet) : Passive s (touch env s id call) sends :=
  .of_same (.of_eq rfl rfl rfl rfl) rfl hq

theorem passive_routeCallFrame (hraw : NotRegistration raw) :
    Passive s (routeCallFrame env s source id raw).inner (routeCallFrame env s source id raw).sends := by
  unfold routeCallFrame
  split
  · exact .refl s
  · split
    · exact passive_touch (Sends.quiet_sendMany hraw.quiet)
    · exact .refl s

theorem passive_endCall (hraw : Quiet raw) :
    Passive s (endCall env s source id raw).inner (endCall env s source id raw).sends := by
  unfold endCall
  split
  · exact .refl s
  · split
    · exact .refl s
    · split
      · exact .refl s
      · exact .of_same (.of_eq rfl rfl rfl rfl) rfl (Sends.quiet_sendMany hraw)

theorem passive_sweepEnd {call : ActiveCall} :
    Passive s (sweepEnd env s id call).inner (sweepEnd env s id call).sends :=
  passive_endCall (quiet_buildCallCause ..)

theorem passive_emergencyRaised {issi : UInt32} :
    Passive s (emergencyRaised s issi).1 (emergencyRaised s issi).2 := by
  unfold emergencyRaised
  dsimp only
  refine .of_same (.of_eq rfl rfl rfl rfl) rfl (Sends.quiet_flatMap fun e _ => ?_)
  split
  · refine Sends.quiet_flatMap fun c _ => ?_
    split
    · exact Sends.quiet_send (quiet_buildGroupTx ..)
    · exact Sends.quiet_nil
  · exact Sends.quiet_nil

theorem passive_reportPosition {issi : UInt32} :
    Passive s (reportPosition env s source issi raw).1 (reportPosition env s source issi raw).2 := by
  unfold reportPosition
  split
  · exact .refl s
  · unfold advertiseIfLocal
    split
    · exact .refl s
    · exact passive_advertiseMs

theorem passive_openSdsRoute {src dest : UInt32} {lipOnly : Bool} (hraw : NotRegistration raw) :
    Passive s (openSdsRoute env s source id src dest lipOnly raw).1
      (openSdsRoute env s source id src dest lipOnly raw).2 := by
  refine ⟨.of_eq rfl rfl rfl rfl, fun hq => hq.insert id fun hdr hh => ?_, fun _ => ?_⟩
  · dsimp only at hh
    split at hh
    · exact Option.some.inj hh ▸ hraw.quiet
    · cases hh
  · unfold openSdsRoute
    dsimp only
    split
    · exact Sends.quiet_nil
    · exact Sends.quiet_sendMany hraw.quiet

theorem passive_handleSdsHeader {payload : CallPayload} (hraw : NotRegistration raw) :
    Passive s (handleSdsHeader env s source id payload raw).inner
      (handleSdsHeader env s source id payload raw).sends := by
  unfold handleSdsHeader
  split
  · split
    · exact .refl s
    · dsimp only
      refine Passive.trans ?_ (passive_openSdsRoute hraw)
      split
      · exact passive_noteCall
      · exact passive_noteCall.trans passive_reportPosition
  · exact .refl s

theorem passive_originate {client : ClientId} {src dest : UInt32} {lengthBits : UInt16} {data : Bytes} :
    Passive s (originate env s client id src dest lengthBits data).1
      (originate env s client id src dest lengthBits data).2 := by
  unfold originate
  dsimp only
  split
  · exact .refl s
  · refine ⟨.of_eq rfl rfl rfl rfl, fun hq => hq.insert id (fun _ hh => nomatch hh), fun _ => ?_⟩
    exact (Sends.quiet_send (quiet_cons (by decide) (by decide))).append
      (Sends.quiet_send (quiet_cons (by decide) (by decide)))

theorem passive_reportStored {src dest : UInt32} :
    Passive s (reportStored env s source src dest).1 (reportStored env s source src dest).2 := by
  unfold reportStored
  split
  · exact .refl s
  · exact passive_originate

theorem passive_takeRoute {route : SdsRoute} (hraw : NotRegistration raw) (hr : s.sdsRoutes[id]? = some route) :
    Passive s (takeRoute s id route) ((route.heldHeader.map ((takeRoute s id route).sendMany route.targets)).getD [] ++
      (takeRoute s id route).sendMany route.targets raw) := by
  refine ⟨.of_eq rfl rfl rfl rfl, fun hq => hq.insert id (fun _ hh => nomatch hh), fun hq => ?_⟩
  refine Sends.Quiet.append ?_ (Sends.quiet_sendMany hraw.quiet)
  cases hh : route.heldHeader with
  | none => exact Sends.quiet_nil
  | some hdr => exact Sends.quiet_sendMany (hq id route hdr hr hh)

theorem passive_forwardSds {route : SdsRoute} (hraw : NotRegistration raw) (hr : s.sdsRoutes[id]? = some route) :
    Passive s (forwardSds env s source id route raw).1 (forwardSds env s source id route raw).2 := by
  unfold forwardSds
  dsimp only
  refine (passive_takeRoute hraw hr).trans ?_
  split
  · exact passive_reportStored
  · exact .refl _

theorem passive_handleSdsTransfer (hraw : NotRegistration raw) :
    Passive s (handleSdsTransfer env s source id raw).inner (handleSdsTransfer env s source id raw).sends := by
  unfold handleSdsTransfer
  split
  · next route hroute =>
    split
    · exact .refl s
    · split
      · exact ⟨.of_eq rfl rfl rfl rfl, fun hq => hq.erase id, fun _ => Sends.quiet_nil⟩
      · exact (passive_forwardSds hraw hroute).trans passive_reportPosition
  · split
    · exact .refl s
    · exact passive_reportPosition

theorem passive_handleSdsReport (hraw : NotRegistration raw) :
    Passive s (handleSdsReport s source id raw).inner (handleSdsReport s source id raw).sends := by
  unfold handleSdsReport
  split
  · exact .refl s
  · split
    · exact .refl s
    · dsimp only
      split
      · exact ⟨.of_eq rfl rfl rfl rfl, fun hq => hq.erase id, fun _ => Sends.quiet_send hraw.quiet⟩
      · exact .sends_only (Sends.quiet_send hraw.quiet)

theorem quiet_rejectSetup : (rejectSetup s source id).Quiet := Sends.quiet_send (quiet_buildCallCause ..)

theorem passive_connectPrivate {req : SetupRequest} {target : ClientId} (hraw : NotRegistration raw) :
    Passive s (connectPrivate env s source id req raw target).1
      (connectPrivate env s source id req raw target).2 := by
  unfold connectPrivate
  dsimp only
  refine .of_same (.of_eq rfl rfl rfl rfl) rfl ?_
  split
  · intro m hm
    rw [List.mem_singleton.mp hm]
    exact (hraw.of_head (head?_adaptToVersion ..)).quiet
  · exact Sends.quiet_nil

theorem passive_offerToSip (hsip : env.sip.placement = none) :
    Passive s (offerToSip env s source id).inner (offerToSip env s source id).sends := by
  unfold offerToSip
  split
  · exact .sends_only quiet_rejectSetup
  · exact .refl s
  · next hp =>
    rw [hp] at hsip
    cases hsip

theorem passive_handlePrivateSetup {payload : CallPayload} (hraw : NotRegistration raw)
    (hsip : env.sip.placement = none) :
    Passive s (handlePrivateSetup env s source id payload raw).inner
      (handlePrivateSetup env s source id payload raw).sends := by
  unfold handlePrivateSetup
  split
  · exact .refl s
  · split
    · exact .refl s
    · dsimp only
      split
      · exact passive_noteCall.trans (.sends_only quiet_rejectSetup)
      · split
        · exact passive_noteCall.trans (passive_offerToSip hsip)
        · split
          · split
            · exact passive_noteCall
            · exact passive_noteCall.trans (.sends_only quiet_rejectSetup)
          · exact passive_noteCall.trans (passive_connectPrivate hraw)

theorem passive_routePrivateControl (hraw : NotRegistration raw) :
    Passive s (routePrivateControl env s source id raw).inner (routePrivateControl env s source id raw).sends := by
  unfold routePrivateControl
  split
  · exact passive_endCall hraw.quiet
  · split
    · exact .refl s
    · split
      · exact .refl s
      · exact passive_touch (Sends.quiet_sendMany hraw.quiet)

theorem passive_callControl {cc : CallControlMessage} (hraw : NotRegistration raw)
    (hsip : env.sip.placement = none) :
    Passive s (callControl cfg env s source cc raw).inner (callControl cfg env s source cc raw).sends := by
  unfold callControl
  split
  · exact passive_handleGroupTx hraw
  · split
    · exact passive_handleSdsHeader hraw
    · split
      · exact passive_handlePrivateSetup hraw hsip
      · split
        · exact passive_routePrivateControl hraw
        · split
          · exact passive_endCall hraw.quiet
          · exact .refl s

theorem passive_frame {f : FrameMessage} (hraw : NotRegistration raw) :
    Passive s (frame env s source f raw).inner (frame env s source f raw).sends := by
  unfold frame
  split
  · exact passive_handleSdsTransfer hraw
  · split
    · exact passive_handleSdsReport hraw
    · split
      · exact passive_routeCallFrame hraw
      · exact .refl s

theorem passive_deliverStored {src dest : UInt32} {lengthBits : UInt16} {data : Bytes} :
    Passive s (deliverStored env s id src dest lengthBits data).1
      (deliverStored env s id src dest lengthBits data).2 := by
  unfold deliverStored
  split
  · exact .refl s
  · exact passive_originate

end Calls

end BrewServer
