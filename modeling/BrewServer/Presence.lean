import BrewServer.LateEntry
import BrewServer.Membership

/-!
# Who is connected

The tables name connections that are there: consoles, members, the parties of
every call, and the links that announced that they take adverts.
-/

namespace BrewServer

open Protocol Fedroute Router Sip

/-- Every connection a table names is there; the entries, the offers and the links
are `WellRouted`'s. -/
structure Present (s : Inner) : Prop where
  consoles : ∀ c ∈ s.consoles, c ∈ s.clients
  members : ∀ (g : UInt32), ∀ c ∈ s.members g, c ∈ s.clients
  parties : ∀ (id : Uuid) (r : Roster) (c : ClientId), s.roster id = some r → r.Has c → c ∈ s.clients
  announced : ∀ c : ClientId, s.Announced c → c ∈ s.fed.links

/-- Nobody leaves, only connections join a group, and only loop-safe links announce
themselves. -/
structure Admits (s s' : Inner) : Prop where
  clients : ∀ c ∈ s.clients, c ∈ s'.clients
  members : ∀ (g : UInt32), ∀ c ∈ s'.members g, c ∈ s.members g ∨ c ∈ s'.clients
  links : ∀ c ∈ s.fed.links, c ∈ s'.fed.links
  announced : ∀ c : ClientId, s'.Announced c → s.Announced c ∨ c ∈ s.fed.links

namespace Admits

variable {s s' s'' : Inner}

theorem refl (s : Inner) : Admits s s := ⟨fun _ h => h, fun _ _ h => .inl h, fun _ h => h, fun _ h => .inl h⟩

theorem trans (h : Admits s s') (h' : Admits s' s'') (hl : s'.fed.links = s.fed.links) : Admits s s'' := by
  refine ⟨fun c hc => h'.clients c (h.clients c hc), fun g c hc => ?_, fun c hc => h'.links c (h.links c hc), fun c hc => ?_⟩
  · rcases h'.members g c hc with hm | hm
    · exact (h.members g c hm).imp_right (h'.clients c)
    · exact .inr hm
  · rcases h'.announced c hc with ha | hl'
    · exact h.announced c ha
    · exact .inr (hl ▸ hl')

theorem of_passive {sends : Sends} (h : Passive s s' sends) : Admits s s' := by
  refine ⟨fun c hc => h.mem_clients.mpr hc, fun g c hc => .inl ?_, fun c hc => h.routes.links ▸ hc, h.routes.announced⟩
  rw [Inner.members, h.routes.groupClients] at hc
  exact hc

/-- Registrations change, then calls, and only sessions gain a group by it. -/
theorem of_gains {t : Inner} (h : Registers s t) (hp : Passive t s' []) (hg : Gains s s') : Admits s s' := by
  refine ⟨fun c hc => hp.mem_clients.mpr (h.clients ▸ hc), fun g c hc => ?_, fun c hc => ?_, fun c hc => ?_⟩
  · refine (hg.members g c hc).imp_right fun hs => ?_
    by_contra hno
    rw [session_of_not_mem hno] at hs
    cases hs
  · rw [hp.routes.links, h.links]
    exact hc
  · rcases hp.routes.announced c hc with ha | hl
    · refine .inl ?_
      unfold Inner.Announced at ha ⊢
      rw [← h.fed]
      exact ha
    · exact .inr (h.links ▸ hl)

end Admits

section Packets

variable {cfg : Config} {env : Env} {s s' : Inner} {source : ClientId} {raw : Bytes} {sends : Sends}

theorem mem_clients_of_session {c : ClientId} (h : (s.session c).isSome = true) : c ∈ s.clients := by
  by_contra hno
  rw [session_of_not_mem hno] at h
  cases h

theorem admits_packetStep (hw : WellRouted s) (hsession : (s.session source).isSome = true)
    (h : PacketStep Passive s env source raw s' sends) : Admits s s' := by
  cases h with
  | aside hp => exact .of_passive hp
  | @subscriber t msg v d before parsed =>
    have ht : WellRouted t := hw.aside before.aside
    have hts : (t.session source).isSome = true := by rw [before.aside.sessions]; exact hsession
    refine (Admits.of_passive before).trans ?_ before.routes.links
    obtain ⟨mid, hreg, hp⟩ := registers_handleSubscriber t env.nowMs source msg
    exact .of_gains hreg hp (gains_handleSubscriber ht hts)
  | @route t nbrId issi a before link parsed fed =>
    have ht : WellRouted t := hw.aside before.aside
    rw [← before.routes.links] at link
    have hreg : Registers t (receiveRoute t env.nowMs source issi a).1 := by
      rw [receiveRoute_eq.1]
      exact registers_takeOffer.trans registers_reroute
    exact (Admits.of_passive before).trans
      (.of_gains hreg (.refl _) (gains_receiveRoute ht link (pathFrom_of_parse parsed))) before.routes.links
  | @withdraw t nbrId issi before link parsed fed =>
    exact (Admits.of_passive before).trans
      (.of_gains registers_receiveWithdraw (.refl _) (gains_receiveWithdraw (hw.aside before.aside)))
      before.routes.links

/-- The virtual client of a call placed to SIP joins. -/
theorem admits_placeOutbound {id : Uuid} {callId : String} {v : ClientId} :
    Admits s (placeOutbound env s source id callId v).inner :=
  ⟨fun _ hc => FinMap.mem_insert.mpr (.inr hc), fun _ _ hc => .inl hc, fun _ hc => hc, fun _ hc => .inl hc⟩

theorem admits_packet (hw : WellRouted s) (hsession : (s.session source).isSome = true) :
    Admits s (routePacket cfg env s source raw).inner := by
  rcases routePacket_placement cfg env s source raw with
    ⟨t, cc, callId, v, src, hp, -, -, -, -, heq⟩ | hsip | heq
  · rw [heq]
    exact (Admits.of_passive (hp.trans passive_noteCall)).trans admits_placeOutbound hp.routes.links
  · exact admits_packetStep hw hsession (packetStep_passive hsip)
  · rw [heq]
    exact admits_packetStep hw hsession (@packetStep_passive cfg (withoutRoute env) s source raw rfl)

end Packets

section Cleanup

variable {s : Inner} {id c : ClientId}

theorem consoles_forgetRoutes : (forgetRoutes s id).consoles = s.consoles := rfl

theorem consoles_cleanupClient (h : c ∈ (cleanupClient s id).inner.consoles) : c ∈ s.consoles ∧ id ≠ c := by
  have hleft : Continues (dropRegistrations s id).1 (leaveCalls (dropRegistrations s id).1 id).inner := continues_leaveCalls
  rw [(cleanupClient_eq s id).1, consoles_forgetRoutes] at h
  have hmem : c ∈ (dropRegistrations s id).1.consoles := hleft.consoles c h
  rw [registers_dropRegistrations.consoles] at hmem
  exact (FinSet.mem_erase.mp hmem).symm

theorem links_cleanupClient : (cleanupClient s id).inner.fed.links = s.fed.links.erase id :=
  (passive_cleanupClient s id).routes.links.trans registers_dropRegistrations.links

theorem announced_cleanupClient (h : (cleanupClient s id).inner.Announced c) :
    s.Announced c ∧ id ≠ c ∨ c ∈ (cleanupClient s id).inner.fed.links := by
  rcases (passive_cleanupClient s id).routes.announced c h with ha | hl
  · refine .inl ?_
    have hfed : (detach s id).Announced c := by
      have hsame := (@registers_dropRegistrations s id).fed
      unfold Inner.Announced at ha ⊢
      rw [← hsame]
      exact ha
    rcases hfed with hm | hm | hm
    · exact ⟨.inl (FinSet.mem_erase.mp hm).2, (FinSet.mem_erase.mp hm).1⟩
    · exact ⟨.inr (.inl (FinSet.mem_erase.mp hm).2), (FinSet.mem_erase.mp hm).1⟩
    · exact ⟨.inr (.inr (FinSet.mem_erase.mp hm).2), (FinSet.mem_erase.mp hm).1⟩
  · refine .inr ?_
    rw [(passive_cleanupClient s id).routes.links]
    exact hl

/-- Whoever is left in a call was in it, and is not the connection that closed. -/
theorem party_cleanupClient {k : Uuid} {r' : Roster} (hr : (cleanupClient s id).inner.roster k = some r') (hhas : r'.Has c) :
    id ≠ c ∧ ∃ r, s.roster k = some r ∧ r.Has c := by
  rw [roster_cleanupClient] at hr
  obtain ⟨r, hold, hleft⟩ := Option.bind_eq_some_iff.mp hr
  unfold Roster.depart at hleft
  split at hleft
  · next hparty =>
    split at hleft
    · next hlisten =>
      cases hleft
      rcases hhas with ho | hp
      · exact ⟨fun he => hlisten.2 (ho.trans he.symm), r, hold, .inl ho⟩
      · exact ⟨(FinSet.mem_erase.mp hp).1, r, hold, .inr (FinSet.mem_erase.mp hp).2⟩
    · cases hleft
  · next hno =>
    cases hleft
    exact ⟨fun he => hno (he ▸ hhas), r', hold, hhas⟩

end Cleanup

namespace Present

variable {cfg : Config} {env : Env} {s s' : Inner} {source : ClientId} {raw : Bytes} {id : Uuid}

/-- Nobody leaves and no console is added: the parties of the calls are left to see
to. -/
theorem admits (h : Present s) (ha : Admits s s') (hconsoles : ∀ c ∈ s'.consoles, c ∈ s.consoles)
    (hparties : ∀ (id : Uuid) (r : Roster) (c : ClientId), s'.roster id = some r → r.Has c → c ∈ s'.clients) :
    Present s' := by
  refine ⟨fun c hm => ha.clients c (h.consoles c (hconsoles c hm)), fun g c hm => ?_, hparties, fun c hm => ?_⟩
  · exact (ha.members g c hm).elim (fun hm => ha.clients c (h.members g c hm)) fun hm => hm
  · apply ha.links
    exact (ha.announced c hm).elim (h.announced c) fun hl => hl

/-- A party of a call that goes on is there already. -/
theorem mem_of_continues (h : Present s) (hc : Continues s s') {r : Roster} {c : ClientId} (hr : s'.roster id = some r)
    (hhas : r.Has c) : c ∈ s.clients := by
  obtain ⟨call', hcall', rfl⟩ := Inner.roster_eq_some.mp hr
  obtain ⟨call, hcall, -, -, howner, -, hpeers⟩ := hc.calls id call' hcall'
  have hparty : ∀ p : ClientId, call.roster.Has p → p ∈ s.clients := fun p hp =>
    h.parties id call.roster p (Inner.roster_of_call hcall) hp
  rcases hhas with ho | hp
  · exact hparty c (.inl (howner.symm.trans ho))
  · rcases hpeers c hp with hold | ⟨-, hconsole | hclient⟩
    · exact hparty c (.inr hold)
    · exact h.consoles c hconsole
    · exact hclient

/-- Calls go on or end, and nobody leaves. -/
theorem continues (h : Present s) (ha : Admits s s') (hc : Continues s s') : Present s' :=
  h.admits ha hc.consoles fun _ _ c hr hhas => ha.clients c (h.mem_of_continues hc hr hhas)

/-- Every target of a transmission is connected. -/
theorem mem_groupTargets {gt : GroupTransmission} {emergency : Bool} {c : ClientId} (h : Present s)
    (hc : c ∈ groupTargets cfg s source id gt emergency) : c ∈ s.clients := by
  have heveryone : ∀ c : ClientId, c ∈ FinMap.keySet s.clients → c ∈ s.clients := fun c hc => FinMap.mem_keySet.mp hc
  have hpeer : ∀ c : ClientId, s.isPeer c = true → c ∈ s.clients := by
    intro c hp
    obtain ⟨client, hget, -⟩ := (Option.any_eq_true _ _).mp hp
    exact FinMap.mem_of_getElem? hget
  have hlinks : ∀ c ∈ peerLinks s, c ∈ s.clients := by
    intro c hl
    obtain ⟨e, he, rfl⟩ := List.mem_map.mp (FinSet.mem_ofList.mp hl)
    exact FinMap.mem_of_getElem? (FinMap.mem_toList.mp (List.mem_filter.mp he).1)
  have haffiliated : ∀ affiliated : FinSet ClientId,
      affiliated = (if cfg.routeWithoutAffiliations = true then FinMap.keySet s.clients else s.members gt.destination) →
      ∀ c ∈ (if (affiliated.isEmpty && !cfg.routeWithoutAffiliations && cfg.fallbackBroadcastWhenNoAffiliations) = true
        then FinMap.keySet s.clients else affiliated), c ∈ s.clients := by
    rintro affiliated rfl c hm
    by_cases hall : cfg.routeWithoutAffiliations = true
    · rw [if_pos hall, ite_self] at hm
      exact heveryone c hm
    · rw [if_neg hall] at hm
      split at hm
      · exact heveryone c hm
      · exact h.members gt.destination c hm
  have hpushed : ∀ kept : FinSet ClientId, (∀ c ∈ kept, c ∈ s.clients) →
      ∀ c ∈ (if emergency = true then kept ∪ s.consoles ∪ peerLinks s else kept), c ∈ s.clients := by
    intro kept hkept c hm
    split at hm
    · rw [Std.ExtTreeSet.mem_union_iff, Std.ExtTreeSet.mem_union_iff] at hm
      rcases hm with (hm | hm) | hm
      · exact hkept c hm
      · exact h.consoles c hm
      · exact hlinks c hm
    · exact hkept c hm
  unfold groupTargets at hc
  refine hpushed _ (fun c hm => ?_) c (FinSet.mem_erase.mp hc).2
  split at hm
  · split at hm
    · rcases Std.ExtTreeSet.mem_union_iff.mp hm with hm | hm
      · exact haffiliated _ rfl c hm
      · exact hpeer c (FinSet.mem_filter.mp hm).2
    · exact haffiliated _ rfl c hm
  · exact haffiliated _ rfl c hm

theorem freeFloor {gt : GroupTransmission} (h : Present s) : Present (BrewServer.freeFloor cfg s id gt) := by
  refine h.continues ?_ continues_freeFloor
  unfold BrewServer.freeFloor
  split
  · exact ⟨fun _ hc => hc, fun _ _ hc => .inl hc, fun _ hc => hc, fun _ hc => .inl hc⟩
  · exact .refl s

theorem installGroupTx {gt : GroupTransmission} (h : Present s) (hsource : source ∈ s.clients) :
    Present (Router.installGroupTx cfg env s source id gt raw).1 := by
  refine h.admits ⟨fun _ hc => hc, fun _ _ hc => .inl hc, fun _ hc => hc, fun _ hc => .inl hc⟩ (fun _ hc => hc) ?_
  intro k r c hr hhas
  rw [roster_installGroupTx] at hr
  split at hr
  · cases hr
    rcases hhas with ho | hp
    · exact ho ▸ hsource
    · exact h.mem_groupTargets hp
  · exact h.parties k r c hr hhas

theorem packet (h : Present s) (hw : WellRouted s) (hsession : (s.session source).isSome = true) :
    Present (routePacket cfg env s source raw).inner := by
  have hadmits : Admits s (routePacket cfg env s source raw).inner := admits_packet hw hsession
  have hstep : CallStep cfg env s source raw (routePacket cfg env s source raw).inner := callStep_routePacket
  have hsource : source ∈ s.clients := mem_clients_of_session hsession
  generalize (routePacket cfg env s source raw).inner = s' at hadmits hstep
  cases hstep with
  | continues hc => exact h.continues hadmits hc
  | @group t cc gt before continues arrives state payload accepted opened =>
    have ht : Present t := h.continues (.of_passive before) continues
    have hfree : source ∈ (BrewServer.freeFloor cfg t cc.identifier gt).clients := by
      have hclients : (BrewServer.freeFloor cfg t cc.identifier gt).clients = t.clients := by
        unfold BrewServer.freeFloor
        split <;> rfl
      rw [hclients]
      exact before.mem_clients.mpr hsource
    rw [opened]
    exact ht.freeFloor.installGroupTx hfree
  | @setup t cc req call before continues arrives state payload accepted opened =>
    have ht : Present t := h.continues (.of_passive before) continues
    have hwt : WellRouted t := hw.aside before.aside
    refine h.admits hadmits (fun c hc => continues.consoles c (opened.consoles ▸ hc)) fun k r c hr hhas => ?_
    have hold : ∀ c : ClientId, c ∈ t.clients → c ∈ s'.clients := fun c hc =>
      hadmits.clients c (before.mem_clients.mp hc)
    rw [roster_setUp opened] at hr
    split at hr
    · cases hr
      rcases hhas with ho | hp
      · have howner : call.owner = c := ho
        rw [← howner, opened.owner]
        exact hadmits.clients source hsource
      · have hpeers : c ∈ call.peers := hp
        rcases opened.party with ⟨issi, sub, hsub, hset, -⟩ | ⟨callId, v, -, hset, hclients⟩
        · rw [hset, FinSet.mem_ofList, List.mem_singleton] at hpeers
          rw [hpeers]
          exact hold _ (mem_clients_of_session (hwt.entry issi sub hsub).session)
        · rw [hset, FinSet.mem_ofList, List.mem_singleton] at hpeers
          rw [hpeers, hclients]
          exact FinMap.mem_insert.mpr (.inl rfl)
    · exact hold c (ht.parties k r c hr hhas)

theorem sweepEnd {swept : ActiveCall} (h : Present s) : Present (Router.sweepEnd env s id swept).inner := by
  rcases sweepEnd_cases env s id swept with heq | ⟨call, raw, -, -, -, hinner, -⟩
  · rw [heq]
    exact h
  · rw [hinner]
    refine h.admits ⟨fun _ hc => hc, fun _ _ hc => .inl hc, fun _ hc => hc, fun _ hc => .inl hc⟩ (fun _ hc => hc) ?_
    intro k r c hr hhas
    rw [roster_removeCall] at hr
    split at hr
    · cases hr
    · exact h.parties k r c hr hhas

theorem openSession {c : ClientId} {client : Client} {neighbour : Option UInt64} {console : Bool} (h : Present s) :
    Present (BrewServer.openSession s c client neighbour console).1 := by
  have hclients : ∀ c' ∈ s.clients, c' ∈ (BrewServer.openSession s c client neighbour console).1.clients := by
    intro c' hc'
    rw [clients_openSession]
    exact FinMap.mem_insert.mpr (.inr hc')
  have hrosters : (BrewServer.openSession s c client neighbour console).1.calls = s.calls := by
    unfold BrewServer.openSession attachClient
    cases neighbour <;> cases console <;> rfl
  have hgroups : (BrewServer.openSession s c client neighbour console).1.groupClients = s.groupClients := by
    unfold BrewServer.openSession attachClient
    cases neighbour <;> cases console <;> rfl
  constructor
  · intro c' hc'
    have hconsole : c' = c ∨ c' ∈ s.consoles := by
      unfold BrewServer.openSession attachClient at hc'
      cases neighbour <;> cases console
      · exact .inr hc'
      · exact (FinSet.mem_insert.mp hc').imp_left Eq.symm
      · exact .inr hc'
      · exact (FinSet.mem_insert.mp hc').imp_left Eq.symm
    rcases hconsole with rfl | hold
    · rw [clients_openSession]
      exact FinMap.mem_insert.mpr (.inl rfl)
    · exact hclients c' (h.consoles c' hold)
  · intro g c' hc'
    rw [Inner.members, hgroups] at hc'
    exact hclients c' (h.members g c' hc')
  · intro k r c' hr hhas
    rw [Inner.roster_congr hrosters] at hr
    exact hclients c' (h.parties k r c' hr hhas)
  · intro c' hc'
    have hold : s.Announced c' := by
      unfold BrewServer.openSession attachClient at hc'
      cases neighbour <;> cases console <;> exact hc'
    obtain ⟨n, hn⟩ := FinMap.mem_iff.mp (h.announced c' hold)
    rw [FinMap.mem_iff, openSession_links, hn]
    split
    · cases neighbour with
      | none => exact ⟨n, rfl⟩
      | some m => exact ⟨m, rfl⟩
    · exact ⟨n, rfl⟩

theorem cleanupClient {c : ClientId} (h : Present s) (hw : WellRouted s) : Present (BrewServer.cleanupClient s c).inner := by
  have hclient : ∀ c' : ClientId, c' ∈ s.clients → c ≠ c' → c' ∈ (BrewServer.cleanupClient s c).inner.clients := by
    intro c' hc' hne
    rw [clients_cleanupClient]
    exact FinMap.mem_erase.mpr ⟨hne, hc'⟩
  constructor
  · intro c' hc'
    obtain ⟨hold, hne⟩ := consoles_cleanupClient hc'
    exact hclient c' (h.consoles c' hold) hne
  · intro g c' hc'
    rcases members_cleanupClient hw hc' with ⟨hold, hne⟩ | hsession
    · exact hclient c' (h.members g c' hold) (Ne.symm hne)
    · exact mem_clients_of_session hsession
  · intro k r' c' hr hhas
    obtain ⟨hne, r, hold, hhad⟩ := party_cleanupClient hr hhas
    exact hclient c' (h.parties k r c' hold hhad) hne
  · intro c' hc'
    rcases announced_cleanupClient hc' with ⟨hold, hne⟩ | hl
    · rw [links_cleanupClient]
      exact FinMap.mem_erase.mpr ⟨hne, h.announced c' hold⟩
    · exact hl

/-- No event of a connection, an alarm or the services names anyone who is not
connected. -/
theorem routeEvent {ev : Event} (h : Present s) (hw : WellRouted s) (hok : ev.Allowed { inner := s }) :
    Present (BrewServer.routeEvent cfg s ev).inner := by
  cases ev with
  | connect c client neighbour console => exact h.openSession
  | packet env source raw => exact h.packet hw (WellRouted.session_of_allowed hok)
  | disconnect c => exact h.cleanupClient hw
  | alarm issi =>
    refine h.continues ?_ continues_emergencyRaised
    exact ⟨fun _ hc => hc, fun _ _ hc => .inl hc, fun _ hc => hc, fun _ hc => .inl hc⟩
  | smsDeliver env id src dest lengthBits data => exact h.continues (.of_passive passive_deliverStored) continues_deliverStored
  | advertiseBts nowMs key name lat lon online => exact h.continues (.of_passive passive_advertiseBts) (FedOnly.continues fedOnly_advertiseBts)
  | advertiseEmergency nowMs issi dest bts active =>
    exact h.continues (.of_passive passive_advertiseEmergency) (FedOnly.continues fedOnly_advertiseEmergency)
  | sweep env => exact h
  | sipPrivate env callId issi v id rtpPort => exact h
  | sipGroup env callId g v id rtpPort => exact h
  | sipEnd callId => exact h

/-- An empty server names nobody. -/
theorem empty (selfId : UInt64) : Present (Inner.empty selfId) := by
  have hnobody : ∀ c : ClientId, c ∉ (∅ : FinSet ClientId) := fun _ => Std.ExtTreeSet.not_mem_empty
  constructor
  · exact fun c hc => absurd hc (hnobody c)
  · intro g c hc
    change c ∈ ((∅ : FinMap UInt32 (FinSet ClientId))[g]?).getD ∅ at hc
    rw [Std.ExtTreeMap.getElem?_empty, Option.getD_none] at hc
    exact absurd hc (hnobody c)
  · intro id r c hr
    change ((∅ : FinMap Uuid ActiveCall)[id]?).map ActiveCall.roster = some r at hr
    rw [Std.ExtTreeMap.getElem?_empty] at hr
    cases hr
  · rintro c (hc | hc | hc) <;> exact absurd hc (hnobody c)

end Present

end BrewServer
