import BrewServer.CallMemory
import BrewServer.Presence
import BrewServer.SdsRoutes
import BrewServer.Sip.Legs

/-!
# Who the tables name

A dozen tables hold connections. As long as the bridge clears no leg whose virtual
client is in somebody else's call, and writes no call to a connection that closed
after it was looked up, they name connected ones only, and a connection that closes
is named nowhere.
-/

namespace BrewServer

open Protocol Fedroute Router Sip

/-- A table names a connection. -/
inductive Inner.Names (s : Inner) (c : ClientId) : Prop
  | subscriber {issi : UInt32} {sub : Subscriber} (entry : s.subscribers[issi]? = some sub) (owner : sub.clientId = c)
  | member {g : UInt32} (joined : c ∈ s.members g)
  | party {id : Uuid} {call : ActiveCall} (live : s.calls[id]? = some call) (takesPart : call.isParty c)
  | console (noted : c ∈ s.consoles)
  | link (negotiated : c ∈ s.fed.links)
  | offer {issi : UInt32} (offered : (s.offer issi c).isSome = true)
  | announced (said : s.Announced c)

/-- An ISSI is routed over a connection, or offered by it. -/
def Inner.Involves (s : Inner) (id : ClientId) (issi : UInt32) : Prop :=
  (∃ sub, s.subscribers[issi]? = some sub ∧ sub.clientId = id) ∨ (s.offer issi id).isSome = true

/-- An entry puts a connection into a group. -/
def Affiliates (entry : Option Subscriber) (g : UInt32) (c : ClientId) : Prop :=
  ∃ sub, entry = some sub ∧ sub.clientId = c ∧ g ∈ sub.groups

/-- A connection has left the tables, and only what it took part in has changed. -/
structure Departed (id : ClientId) (s s' : Inner) : Prop where
  unnamed : ¬ s'.Names id
  unrouted : ∀ (k : Uuid) (r : SdsRoute), s'.sdsRoutes[k]? = some r → r.sourceClient ≠ id ∧ id ∉ r.targets
  forgotten : ∀ (k : Uuid × UInt32) (e : ClientId × ℕ), s'.recentCalls[k]? = some e → e.1 ≠ id
  calls : ∀ (k : Uuid) (call : ActiveCall), s.calls[k]? = some call → ¬ call.isParty id → s'.calls[k]? = some call
  routes : ∀ (k : Uuid) (r : SdsRoute), s.sdsRoutes[k]? = some r → r.sourceClient ≠ id → id ∉ r.targets →
    s'.sdsRoutes[k]? = some r
  entries : ∀ issi : UInt32, ¬ s.Involves id issi → s'.subscribers[issi]? = s.subscribers[issi]?
  members : ∀ (g : UInt32) (c : ClientId), c ≠ id → (c ∈ s'.members g ↔ c ∈ s.members g) ∨
    ∃ issi, s.Involves id issi ∧ (Affiliates (s.subscribers[issi]?) g c ∨ Affiliates (s'.subscribers[issi]?) g c)

section Members

variable {s : Inner} {issi : UInt32} {g : UInt32} {c : ClientId}

/-- An entry that is replaced takes its owner out of its groups, and the new one is
put into its own. -/
theorem members_setEffective {new : Option Subscriber} :
    (c ∈ (setEffective s issi new).members g ↔ c ∈ s.members g) ∨ Affiliates (s.subscribers[issi]?) g c ∨
      Affiliates new g c := by
  by_cases hold : Affiliates (s.subscribers[issi]?) g c
  · exact .inr (.inl hold)
  by_cases hnew : Affiliates new g c
  · exact .inr (.inr hnew)
  refine .inl ?_
  have hleft : ∀ t : FinMap UInt32 Subscriber, c ∈ membersOf ((s.subscribers[issi]?).elim s.groupClients
      (unindex Subscriber.clientId Subscriber.groups t s.groupClients)) g ↔ c ∈ s.members g := by
    intro t
    cases hentry : s.subscribers[issi]? with
    | none => rfl
    | some old =>
      rw [Option.elim_some, mem_unindex]
      refine and_iff_left ?_
      rintro ⟨howner, hgroup, -⟩
      exact hold ⟨old, hentry, howner, hgroup⟩
  cases new with
  | none => exact hleft _
  | some n =>
    refine Iff.trans mem_index (Iff.trans (or_iff_left ?_) (hleft _))
    rintro ⟨howner, hgroup⟩
    exact hnew ⟨n, rfl, howner, hgroup⟩

theorem members_reroute :
    (c ∈ (reroute s issi).1.members g ↔ c ∈ s.members g) ∨ Affiliates (s.subscribers[issi]?) g c ∨
      Affiliates ((reroute s issi).1.subscribers[issi]?) g c := by
  rw [reroute_subscribers, if_pos rfl]
  unfold reroute rerouted
  dsimp only
  split
  · exact .inl Iff.rfl
  · exact members_setEffective

theorem members_foldl_reselect {previous : List (UInt32 × Option Subscriber)} {r : Inner × Sends}
    (hn : (previous.map (·.1)).Nodup) :
    (c ∈ (previous.foldl reselect r).1.members g ↔ c ∈ r.1.members g) ∨
      ∃ issi ∈ previous.map (·.1), Affiliates (r.1.subscribers[issi]?) g c ∨
        Affiliates ((previous.foldl reselect r).1.subscribers[issi]?) g c := by
  induction previous generalizing r with
  | nil => exact .inl Iff.rfl
  | cons e previous ih =>
    obtain ⟨hnew, hrest⟩ := List.nodup_cons.mp hn
    have hhead : e.1 ∈ (e :: previous).map (·.1) := List.mem_cons_self
    -- what the rest selects anew is not the head
    have hlast : (previous.foldl reselect (reselect r e)).1.subscribers[e.1]? = (reroute r.1 e.1).1.subscribers[e.1]? := by
      rw [foldl_reselect_subscribers hrest, if_neg hnew]
      rfl
    rw [List.foldl_cons]
    rcases ih (r := reselect r e) hrest with hsame | ⟨k, hk, hmoved⟩
    · rcases @members_reroute r.1 e.1 g c with hone | hold | hafter
      · exact .inl (hsame.trans hone)
      · exact .inr ⟨e.1, hhead, .inl hold⟩
      · exact .inr ⟨e.1, hhead, .inr (hlast ▸ hafter)⟩
    · refine .inr ⟨k, List.mem_cons_of_mem _ hk, hmoved.imp_left fun hold => ?_⟩
      have hne : e.1 ≠ k := by
        rintro rfl
        exact hnew hk
      have hkept : (reselect r e).1.subscribers[k]? = r.1.subscribers[k]? := reroute_subscribers.trans (if_neg hne)
      rwa [hkept] at hold

end Members

section Cleanup

variable {s : Inner} {id : ClientId}

theorem members_dropRegistrations {g : UInt32} {c : ClientId} (hc : c ≠ id) :
    (c ∈ (dropRegistrations s id).1.members g ↔ c ∈ s.members g) ∨
      ∃ issi ∈ affectedIssis s id, Affiliates (s.subscribers[issi]?) g c ∨
        Affiliates ((dropRegistrations s id).1.subscribers[issi]?) g c := by
  have hbefore : c ∈ (unaffiliated s id).members g ↔ c ∈ s.members g := by
    rw [Inner.members, unaffiliated_groupClients]
    exact Iff.trans mem_dropMember (and_iff_left hc.symm)
  rw [dropRegistrations_eq]
  rcases members_foldl_reselect (r := (unaffiliated s id, [])) (g := g) (c := c) (@nodup_previousOf s id) with
    hsame | ⟨issi, hissi, hmoved⟩
  · exact .inl (hsame.trans hbefore)
  · rw [map_fst_previousOf, Std.ExtTreeSet.mem_toList] at hissi
    refine .inr ⟨issi, hissi, hmoved.imp_left ?_⟩
    rintro ⟨sub, hsub, hrest⟩
    rw [unaffiliated_subscribers] at hsub
    exact ⟨sub, (Option.filter_eq_some_iff.mp hsub).1, hrest⟩

/-- A call the connection is no party of goes on as it is. -/
theorem calls_leaveCalls {k : Uuid} {call : ActiveCall} (hlive : s.calls[k]? = some call) (hparty : ¬ call.isParty id) :
    (leaveCalls s id).inner.calls[k]? = some call := by
  refine leaveCalls_induct (P := fun r => r.inner.calls[k]? = some call) hlive fun r hr e hmem hinvolved => ?_
  have hne : e.1 ≠ k := by
    intro heq
    have hcall : e.2 = call :=
      Option.some.inj (((heq ▸ FinMap.mem_toList.mp hmem : s.calls[k]? = some e.2)).symm.trans hlive)
    rw [involves, hcall, Bool.or_eq_true, beq_iff_eq, Std.ExtTreeSet.contains_iff_mem] at hinvolved
    exact hparty (hinvolved.imp_left Eq.symm)
  unfold leaveCall
  dsimp only
  split
  · exact (FinMap.getElem?_insert.trans (if_neg hne)).trans hr
  · exact (FinMap.getElem?_erase.trans (if_neg hne)).trans hr

theorem sdsRoutes_forgetRoutes : (forgetRoutes s id).sdsRoutes =
    s.sdsRoutes.filter fun _ route => route.sourceClient != id && !route.targets.contains id := rfl

theorem recentCalls_forgetRoutes : (forgetRoutes s id).recentCalls = s.recentCalls.filter fun _ e => e.1 != id := rfl

theorem calls_forgetRoutes : (forgetRoutes s id).calls = s.calls := rfl

theorem sdsRoutes_cleanupClient : (cleanupClient s id).inner.sdsRoutes =
    s.sdsRoutes.filter fun _ route => route.sourceClient != id && !route.targets.contains id := by
  have hleft : SameSds s (leaveCalls (dropRegistrations s id).1 id).inner := by
    have hdetach : SameSds s (detach s id) := ⟨rfl, fun _ hc => (FinMap.mem_erase.mp hc).2⟩
    exact (hdetach.trans (.of_registers registers_dropRegistrations)).trans sameSds_leaveCalls
  rw [(cleanupClient_eq s id).1, sdsRoutes_forgetRoutes, hleft.routes]

/-- A connection closes: whatever it had no part in stays. -/
theorem departed_cleanupClient (hunnamed : ¬ (cleanupClient s id).inner.Names id) :
    Departed id s (cleanupClient s id).inner := by
  have hsubs : (cleanupClient s id).inner.subscribers = (dropRegistrations s id).1.subscribers :=
    (passive_cleanupClient s id).routes.subscribers
  have hgroups : (cleanupClient s id).inner.groupClients = (dropRegistrations s id).1.groupClients :=
    (passive_cleanupClient s id).routes.groupClients
  have hinvolved : ∀ issi ∈ affectedIssis s id, s.Involves id issi := fun issi hissi =>
    (mem_affectedIssis.mp hissi).imp_right And.right
  refine ⟨hunnamed, ?_, ?_, ?_, ?_, ?_, ?_⟩
  · intro k r hr
    rw [sdsRoutes_cleanupClient, FinMap.getElem?_filter] at hr
    obtain ⟨hsource, htargets⟩ := Bool.and_eq_true_iff.mp hr.2
    rw [Bool.not_eq_true', ← Bool.not_eq_true, Std.ExtTreeSet.contains_iff_mem] at htargets
    exact ⟨bne_iff_ne.mp hsource, htargets⟩
  · intro k e he
    rw [(cleanupClient_eq s id).1, recentCalls_forgetRoutes, FinMap.getElem?_filter] at he
    exact bne_iff_ne.mp he.2
  · intro k call hlive hparty
    rw [(cleanupClient_eq s id).1, calls_forgetRoutes]
    have hdropped : (dropRegistrations s id).1.calls[k]? = some call := by
      rw [registers_dropRegistrations.calls]
      exact hlive
    exact calls_leaveCalls hdropped hparty
  · intro k r hr hsource htargets
    rw [sdsRoutes_cleanupClient, FinMap.getElem?_filter]
    rw [← Std.ExtTreeSet.contains_iff_mem, Bool.not_eq_true, ← Bool.not_eq_true'] at htargets
    exact ⟨hr, Bool.and_eq_true_iff.mpr ⟨bne_iff_ne.mpr hsource, htargets⟩⟩
  · intro issi hno
    rw [hsubs, dropRegistrations_subscribers, if_neg fun hissi => hno (hinvolved issi hissi)]
  · intro g c hc
    rw [Inner.members, hgroups, hsubs]
    refine (members_dropRegistrations hc).imp_right ?_
    rintro ⟨issi, hissi, hmoved⟩
    exact ⟨issi, hinvolved issi hissi, hmoved⟩

end Cleanup

/-! ## One step -/

section Connected

variable {s : Inner} {c : ClientId}

theorem mem_clients_of_link (hw : WellRouted s) (h : c ∈ s.fed.links) : c ∈ s.clients := by
  obtain ⟨n, hn⟩ := FinMap.mem_iff.mp h
  refine mem_clients_of_session ?_
  rw [(hw.link c n hn).1]
  rfl

/-- Whoever a table names is connected. -/
theorem mem_clients_of_names (hw : WellRouted s) (hp : Present s) (h : s.Names c) : c ∈ s.clients := by
  cases h with
  | subscriber entry owner => exact owner ▸ mem_clients_of_session (hw.entry _ _ entry).session
  | member joined => exact hp.members _ c joined
  | party live takesPart => exact hp.parties _ _ c (Inner.roster_of_call live) (takesPart.imp_left Eq.symm)
  | console noted => exact hp.consoles c noted
  | link negotiated => exact mem_clients_of_link hw negotiated
  | offer offered =>
    obtain ⟨a, ha⟩ := Option.isSome_iff_exists.mp offered
    obtain ⟨n, hn, -⟩ := hw.offer _ c a ha
    exact mem_clients_of_link hw (FinMap.mem_of_getElem? hn)
  | announced said => exact mem_clients_of_link hw (hp.announced c said)

end Connected

/-- What holds between any two turns: a console is a session, a virtual client joins no
group but that of its leg, and whoever waits for the bridge is there. -/
structure Turns.Referenced (w : Turns) : Prop extends w.Steady where
  present : Present w.app.inner
  consoles : ∀ c ∈ w.app.inner.consoles, (w.app.inner.session c).isSome = true
  groups : ∀ leg ∈ w.hand, ∀ g : UInt32, leg.virtualClient ∈ w.app.inner.members g → leg.group = some g
  waiting : ∀ c : ClientId, some c ∈ w.tasks.map BridgeTask.client → (w.app.inner.session c).isSome = true

/-- The virtual client of a leg takes part in no call but that of the leg. -/
def Sip.Alone (s : Inner) (leg : BridgedLeg) : Prop :=
  (s.calls.toList.all fun e => e.1 == leg.brewCallId || (leg.virtualClient != e.2.owner && !e.2.peers.contains leg.virtualClient)) = true

instance (s : Inner) (leg : BridgedLeg) : Decidable (Alone s leg) :=
  inferInstanceAs (Decidable (_ = true))

theorem not_has_of_alone {s : Inner} {leg : BridgedLeg} {k : Uuid} {call : ActiveCall} (h : Alone s leg)
    (hlive : s.calls[k]? = some call) (hk : k ≠ leg.brewCallId) : ¬ call.roster.Has leg.virtualClient := by
  have hone := List.all_eq_true.mp h (k, call) (FinMap.mem_toList.mpr hlive)
  dsimp only at hone
  rw [beq_eq_false_iff_ne.mpr hk, Bool.false_or, Bool.and_eq_true, bne_iff_ne, Bool.not_eq_true', ← Bool.not_eq_true,
    Std.ExtTreeSet.contains_iff_mem] at hone
  rintro (howner | hpeer)
  · exact hone.1 howner.symm
  · exact hone.2 hpeer

section Handlers

variable {cfg : Config} {env : Env} {s : Inner} {source : ClientId} {raw : Bytes}

/-- No packet notes a console. -/
theorem consoles_packet {c : ClientId} (h : c ∈ (routePacket cfg env s source raw).inner.consoles) : c ∈ s.consoles := by
  have hstep : CallStep cfg env s source raw (routePacket cfg env s source raw).inner := callStep_routePacket
  generalize (routePacket cfg env s source raw).inner = s' at h hstep
  cases hstep with
  | continues hc => exact hc.consoles c h
  | @group t cc gt before continues arrives state payload accepted opened =>
    have hfree : Continues t (freeFloor cfg t cc.identifier gt) := continues_freeFloor
    rw [opened] at h
    exact continues.consoles c (hfree.consoles c h)
  | setup before continues arrives state payload accepted opened => exact continues.consoles c (opened.consoles ▸ h)

/-- A packet changes no session, and lets only sessions into a group. -/
theorem gains_packet (hw : WellRouted s) (hsession : (s.session source).isSome = true) (hsip : env.sip.Fresh s) :
    Gains s (routePacket cfg env s source raw).inner := by
  rcases routePacket_placement cfg env s source raw with
    ⟨t, cc, callId, v, src, hp, -, -, -, hplaced, heq⟩ | hnone | heq
  · rw [hplaced] at hsip
    have hnoted : Passive s (noteCall t cc.identifier src source env.now) [] := hp.trans passive_noteCall
    have hjoin : Joining (noteCall t cc.identifier src source env.now) (routePacket cfg env s source raw).inner [] := by
      rw [heq]
      exact joining_insertVirtual (fun hv => hsip (hnoted.mem_clients.mp hv)) rfl rfl rfl rfl Sends.quiet_nil
    refine .of_eq (fun c => (hjoin.aside.sessions c).trans (hnoted.aside.sessions c)) ?_
    rw [heq]
    exact hp.routes.groupClients
  · exact gains_packetStep Gains.of_passive hw hsession (packetStep_passive hnone)
  · rw [heq]
    exact gains_packetStep Gains.of_passive hw hsession (@packetStep_passive cfg (withoutRoute env) s source raw rfl)

theorem consoles_openSession {id c : ClientId} {client : Client} {neighbour : Option UInt64} {console : Bool}
    (h : c ∈ (openSession s id client neighbour console).1.consoles) : id = c ∨ c ∈ s.consoles := by
  unfold openSession attachClient at h
  cases neighbour <;> cases console
  · exact .inr h
  · exact FinSet.mem_insert.mp h
  · exact .inr h
  · exact FinSet.mem_insert.mp h

theorem groupClients_openSession {id : ClientId} {client : Client} {neighbour : Option UInt64} {console : Bool} :
    (openSession s id client neighbour console).1.groupClients = s.groupClients := by
  unfold openSession attachClient
  cases neighbour <;> cases console <;> rfl

variable {a : AppState} {ev : Event}

/-- No event but the bridge's own lets anyone into a group who is no session. -/
theorem members_routeEvent (hw : WellRouted a.inner) (hok : ev.Allowed a) {g : UInt32} {c : ClientId}
    (hc : c ∈ (routeEvent cfg a.inner ev).inner.members g) :
    c ∈ a.inner.members g ∨ ((routeEvent cfg a.inner ev).inner.session c).isSome = true := by
  have hpassive : ∀ {s' : Inner} {sends : Sends}, Passive a.inner s' sends → c ∈ s'.members g →
      c ∈ a.inner.members g ∨ (s'.session c).isSome = true := fun h hm => (Gains.of_passive h).members g c hm
  cases ev with
  | connect id client neighbour console =>
    refine .inl ?_
    rw [Inner.members, ← groupClients_openSession]
    exact hc
  | packet env source raw => exact (gains_packet hw (WellRouted.session_of_allowed hok) hok.2.2).members g c hc
  | disconnect id => exact (members_cleanupClient hw hc).imp_left And.left
  | alarm issi => exact hpassive passive_emergencyRaised hc
  | smsDeliver env id src dest lengthBits data => exact hpassive passive_deliverStored hc
  | advertiseBts nowMs key name lat lon online => exact hpassive passive_advertiseBts hc
  | advertiseEmergency nowMs issi dest bts active => exact hpassive passive_advertiseEmergency hc
  | sweep env => exact .inl hc
  | sipPrivate env callId issi v id rtpPort => exact .inl hc
  | sipGroup env callId g v id rtpPort => exact .inl hc
  | sipEnd callId => exact .inl hc

/-- No session is lost but the one that closes. -/
theorem session_routeEvent (hw : WellRouted a.inner) (hok : ev.Allowed a) {c : ClientId}
    (hs : (a.inner.session c).isSome = true) (hstays : ∀ id : ClientId, ev = .disconnect id → id ≠ c) :
    ((routeEvent cfg a.inner ev).inner.session c).isSome = true := by
  have hpassive : ∀ {s' : Inner} {sends : Sends}, Passive a.inner s' sends → (s'.session c).isSome = true := by
    intro s' sends hp
    rw [hp.aside.sessions]
    exact hs
  cases ev with
  | connect id client neighbour console =>
    have hne : id ≠ c := by
      rintro rfl
      exact hok.1 (mem_clients_of_session hs)
    have hkept : (openSession a.inner id client neighbour console).1.session c = a.inner.session c := by
      refine session_congr ?_
      rw [clients_openSession, FinMap.getElem?_insert, if_neg hne]
    exact (congrArg Option.isSome hkept).trans hs
  | packet env source raw =>
    have hsessions := (@gains_packet cfg env a.inner source raw hw (WellRouted.session_of_allowed hok) hok.2.2).sessions c
    exact (congrArg Option.isSome hsessions).trans hs
  | disconnect id =>
    have hkept : (cleanupClient a.inner id).inner.session c = a.inner.session c := by
      refine session_congr ?_
      rw [clients_cleanupClient, FinMap.getElem?_erase, if_neg (hstays id rfl)]
    exact (congrArg Option.isSome hkept).trans hs
  | alarm issi => exact hpassive passive_emergencyRaised
  | smsDeliver env id src dest lengthBits data => exact hpassive passive_deliverStored
  | advertiseBts nowMs key name lat lon online => exact hpassive passive_advertiseBts
  | advertiseEmergency nowMs issi dest bts active => exact hpassive passive_advertiseEmergency
  | sweep | sipPrivate | sipGroup | sipEnd => exact hs

/-- A console is a session, and stays one. -/
theorem consoles_routeEvent (hw : WellRouted a.inner) (hold : ∀ c ∈ a.inner.consoles, (a.inner.session c).isSome = true)
    (hok : ev.Allowed a) {c : ClientId} (hc : c ∈ (routeEvent cfg a.inner ev).inner.consoles) :
    ((routeEvent cfg a.inner ev).inner.session c).isSome = true := by
  have hkept : c ∈ a.inner.consoles → (∀ id : ClientId, ev = .disconnect id → id ≠ c) →
      ((routeEvent cfg a.inner ev).inner.session c).isSome = true := fun hm => session_routeEvent hw hok (hold c hm)
  cases ev with
  | connect id client neighbour console =>
    by_cases hid : id = c
    · subst hid
      have hnew := @session_openSession a.inner id client neighbour console hok.2.1
      exact (congrArg Option.isSome hnew).trans rfl
    · exact hkept ((consoles_openSession hc).resolve_left hid) nofun
  | packet env source raw => exact hkept (consoles_packet hc) nofun
  | disconnect id =>
    obtain ⟨hm, hne⟩ := consoles_cleanupClient hc
    exact hkept hm fun id' heq => by cases heq; exact hne
  | alarm issi => exact hkept (continues_emergencyRaised.consoles c hc) nofun
  | smsDeliver env id src dest lengthBits data => exact hkept (continues_deliverStored.consoles c hc) nofun
  | advertiseBts nowMs key name lat lon online => exact hkept (fedOnly_advertiseBts.continues.consoles c hc) nofun
  | advertiseEmergency nowMs issi dest bts active =>
    exact hkept (fedOnly_advertiseEmergency.continues.consoles c hc) nofun
  | sweep | sipPrivate | sipGroup | sipEnd => exact hold c hc

end Handlers

/-- The task names nobody but who is connected, and leaves no other call with its
virtual client. -/
def BridgeTask.Unshared (w : Turns) (rtpPort : Bool) : BridgeTask → Prop
  | .calling _ _ target => rtpPort = true → target ∈ w.app.inner.clients
  | .clearing leg => Alone w.app.inner leg
  | .seizing .. | .placing .. | .bridging .. | .ending _ | .closing _ => True

/-- No leg is cleared while its virtual client takes part in another call, and no call
goes to a connection that closed since it was looked up. -/
def Turn.Unshared (w : Turns) : Turn → Prop
  | .work task _ _ _ rtpPort => task.Unshared w rtpPort
  | _ => True

instance (w : Turns) (rtpPort : Bool) (task : BridgeTask) : Decidable (task.Unshared w rtpPort) :=
  match task with
  | .calling _ _ target => inferInstanceAs (Decidable (rtpPort = true → target ∈ w.app.inner.clients))
  | .clearing leg => inferInstanceAs (Decidable (Alone w.app.inner leg))
  | .seizing .. | .placing .. | .bridging .. | .ending _ | .closing _ => isTrue trivial

instance (w : Turns) (t : Turn) : Decidable (t.Unshared w) :=
  match t with
  | .work task _ _ _ rtpPort => inferInstanceAs (Decidable (task.Unshared w rtpPort))
  | .event _ | .expire .. | .invite .. | .inviteGroup .. | .bye _ => isTrue trivial

namespace Turns

variable {cfg : Config} {w : Turns} {task : BridgeTask} {callId : String} {leg : BridgedLeg}

namespace Referenced

theorem append (h : w.Referenced) (tasks : List BridgeTask) (hlegs : ∀ t ∈ tasks, t.leg = none)
    (hwaits : ∀ c : ClientId, some c ∈ tasks.map BridgeTask.client → (w.app.inner.session c).isSome = true) :
    ({ w with tasks := tasks ++ w.tasks } : Turns).Referenced := by
  have hhand := hand_append (w := w) hlegs
  refine ⟨⟨h.routed, hhand ▸ h.held⟩, h.present, h.consoles, hhand ▸ h.groups, fun c hc => ?_⟩
  rw [List.map_append, List.mem_append] at hc
  exact hc.elim (hwaits c) (h.waiting c)

theorem push (h : w.Referenced) (hleg : task.leg = none) (hclient : task.client = none) : (w.push task).Referenced := by
  refine h.append [task] (fun _ ht => List.mem_singleton.mp ht ▸ hleg) fun c hc => ?_
  rw [List.map_singleton, List.mem_singleton, hclient] at hc
  cases hc

/-- A handler whose effect names connected clients only. -/
theorem of_after {e : Effect} (h : w.Referenced) (hsteady : (w.after e).Steady) (hp : Present e.inner)
    (hconsoles : ∀ c ∈ e.inner.consoles, (e.inner.session c).isSome = true)
    (hmembers : ∀ (g : UInt32) (c : ClientId), c ∈ e.inner.members g →
      c ∈ w.app.inner.members g ∨ (e.inner.session c).isSome = true)
    (hwaiting : ∀ c : ClientId, some c ∈ w.tasks.map BridgeTask.client → (w.app.inner.session c).isSome = true →
      (e.inner.session c).isSome = true) : (w.after e).Referenced := by
  refine ⟨hsteady, hp, hconsoles, fun leg hl g hm => ?_, fun c hc => ?_⟩
  · have hvirtual : e.inner.session leg.virtualClient = none := session_of_bridged (hsteady.held.virtual leg hl)
    rw [hand_after] at hl
    refine h.groups leg hl g ((hmembers g _ hm).resolve_right fun hsession => ?_)
    rw [hvirtual] at hsession
    cases hsession
  · rw [after, List.map_append, List.mem_append] at hc
    rcases hc with hc | hc
    · obtain ⟨t, ht, hclient⟩ := List.mem_map.mp hc
      obtain ⟨id, -, rfl⟩ := List.mem_map.mp ht
      cases hclient
    · exact hwaiting c hc (h.waiting c hc)

theorem event {ev : Event} (h : w.Referenced) (hok : (Turn.event ev).Allowed w) :
    (w.next cfg (.event ev)).Referenced := by
  obtain ⟨-, hallowed, hwaits⟩ := hok
  have hok' := Event.allowed_withoutRoute hallowed
  have hstep := @eventStep_joining cfg _ _ hok'
  have hsteady : (w.after (routeEvent cfg w.app.inner ev.withoutRoute)).Steady :=
    h.toSteady.of_after (h.routed.eventStep hok' hstep) fun c hc => hstep.isBridged hok' hc
  have hheard : (w.after (routeEvent cfg w.app.inner ev.withoutRoute)).Referenced := by
    refine h.of_after hsteady (h.present.routeEvent h.routed hok') (fun c hc => consoles_routeEvent h.routed h.consoles hok' hc)
      (fun g c hc => members_routeEvent h.routed hok' hc) fun c hc hs => session_routeEvent h.routed hok' hs fun id heq => ?_
    rintro rfl
    cases ev with
    | disconnect id' =>
      cases heq
      exact hwaits id rfl hc
    | _ => cases heq
  refine hheard.append _ (fun _ ht => leg_of_mem_outbound ht) fun c hc => ?_
  cases ev with
  | packet env source raw =>
    obtain ⟨t, ht, hclient⟩ := List.mem_map.mp hc
    obtain ⟨p, -, rfl⟩ := Option.map_eq_some_iff.mp (Option.mem_toList.mp ht)
    cases hclient
    exact session_routeEvent h.routed hok' (WellRouted.session_of_allowed hallowed) nofun
  | _ => exact absurd hc List.not_mem_nil

theorem expire {env : Env} {id : Uuid} {swept : ActiveCall} (h : w.Referenced) :
    (w.next cfg (.expire env id swept)).Referenced := by
  have hp : Passive w.app.inner (sweepEnd env w.app.inner id swept).inner (sweepEnd env w.app.inner id swept).sends :=
    passive_sweepEnd
  have hcont : Continues w.app.inner (sweepEnd env w.app.inner id swept).inner := continues_endCall
  refine h.of_after (h.toSteady.of_after (h.routed.aside hp.aside) fun c hc => hp.joining.isBridged hc) h.present.sweepEnd
    (fun c hc => ?_) (fun g c hc => (Gains.of_passive hp).members g c hc) fun c _ hs => ?_
  · rw [hp.aside.sessions]
    exact h.consoles c (hcont.consoles c hc)
  · rw [hp.aside.sessions]
    exact hs

theorem done (h : w.Referenced) (htask : task ∈ w.tasks) : (w.done task).Referenced := by
  refine ⟨h.toSteady.done htask, h.present, h.consoles, fun leg hl => ?_, fun c hc => ?_⟩
  · exact h.groups leg ((hand_done htask).mem_iff.mpr (List.mem_append_right _ hl))
  · exact h.waiting c (List.map_subset _ (List.erase_subset) hc)

/-- A virtual client joins with a call of its own. -/
theorem write {inner : Inner} {call : ActiveCall} (h : w.Referenced) (hj : Joined leg call w.app.inner inner)
    (hparties : ∀ c : ClientId, call.roster.Has c → c ∈ w.app.inner.clients ∨ c = leg.virtualClient) :
    (w.write inner callId leg).Referenced := by
  have hkeep : ∀ c ∈ w.app.inner.clients, c ∈ inner.clients := by
    intro c hc
    rw [hj.clients]
    exact FinMap.mem_insert.mpr (.inr hc)
  have hjoined : leg.virtualClient ∈ inner.clients := by
    rw [hj.clients]
    exact FinMap.mem_insert.mpr (.inl rfl)
  refine ⟨h.toSteady.write hj, ⟨?_, ?_, ?_, ?_⟩, ?_, ?_, ?_⟩
  · intro c hc
    change c ∈ inner.consoles at hc
    rw [hj.consoles] at hc
    exact hkeep c (h.present.consoles c hc)
  · intro g c hc
    rcases hj.members g c hc with hold | ⟨-, rfl⟩
    · exact hkeep c (h.present.members g c hold)
    · exact hjoined
  · intro id r c hr hhas
    change inner.roster id = some r at hr
    rw [hj.roster] at hr
    split at hr
    · cases hr
      rcases hparties c hhas with hold | rfl
      · exact hkeep c hold
      · exact hjoined
    · exact hkeep c (h.present.parties id r c hr hhas)
  · intro c hc
    change inner.Announced c at hc
    change c ∈ inner.fed.links
    unfold Inner.Announced at hc
    rw [hj.fed] at hc ⊢
    exact h.present.announced c hc
  · intro c hc
    change c ∈ inner.consoles at hc
    rw [hj.consoles] at hc
    exact hj.session (h.consoles c hc)
  · intro leg' hl g hm
    rcases List.mem_cons.mp (hand_write.mem_iff.mp hl) with rfl | hl
    · refine (hj.members g _ hm).elim (fun hold => ?_) And.left
      exact absurd (h.present.members g _ hold) hj.fresh
    · refine (hj.members g _ hm).elim (h.groups leg' hl g) fun hjoin => ?_
      exact absurd hjoin.2 (hj.ne_of_bridged (h.held.virtual leg' hl))
  · exact fun c hc => hj.session (h.waiting c ((List.mem_cons.mp hc).resolve_left nofun))

/-- A leg goes: nobody's call has its virtual client but its own. -/
theorem clear (h : w.Referenced) (htask : .clearing leg ∈ w.tasks) (halone : Alone w.app.inner leg) :
    ({ w.done (.clearing leg) with app := { w.app with inner := (removeLeg w.app.inner leg).1 } } : Turns).Referenced := by
  have hhand : LegsHeld (leg :: (w.done (.clearing leg)).hand) w.app.inner := h.held.perm (hand_done htask)
  have haside := hhand.aside_removeLeg
  have hmine : leg ∈ w.hand := (hand_done htask).mem_iff.mpr List.mem_cons_self
  have hvirtual : w.app.inner.session leg.virtualClient = none := session_of_bridged (h.held.virtual leg hmine)
  have hclients : ∀ c ∈ w.app.inner.clients, c ≠ leg.virtualClient → c ∈ (removeLeg w.app.inner leg).1.clients := by
    intro c hc hne
    rw [clients_removeLeg]
    exact FinMap.mem_erase.mpr ⟨hne.symm, hc⟩
  have hconsoles : (removeLeg w.app.inner leg).1.consoles = w.app.inner.consoles := by
    unfold removeLeg
    dsimp only
    split <;> rfl
  have hfed : (removeLeg w.app.inner leg).1.fed = w.app.inner.fed := by
    unfold removeLeg
    dsimp only
    split <;> rfl
  refine ⟨⟨h.routed.aside haside, hhand.clear⟩, ⟨?_, ?_, ?_, ?_⟩, ?_, ?_, ?_⟩
  · intro c hc
    change c ∈ (removeLeg w.app.inner leg).1.consoles at hc
    rw [hconsoles] at hc
    refine hclients c (h.present.consoles c hc) ?_
    rintro rfl
    have hsession := h.consoles _ hc
    rw [hvirtual] at hsession
    cases hsession
  · intro g c hc
    obtain ⟨hold, hkept⟩ := mem_members_removeLeg.mp hc
    refine hclients c (h.present.members g c hold) ?_
    rintro rfl
    exact hkept ⟨h.groups leg hmine g hold, rfl⟩
  · intro k r c hr hhas
    change (removeLeg w.app.inner leg).1.roster k = some r at hr
    rw [roster_removeLeg] at hr
    split at hr
    · cases hr
    · next hk =>
      refine hclients c (h.present.parties k r c hr hhas) ?_
      rintro rfl
      obtain ⟨call, hlive, rfl⟩ := Inner.roster_eq_some.mp hr
      exact absurd hhas (not_has_of_alone halone hlive (Ne.symm hk))
  · intro c hc
    change (removeLeg w.app.inner leg).1.Announced c at hc
    change c ∈ (removeLeg w.app.inner leg).1.fed.links
    unfold Inner.Announced at hc
    rw [hfed] at hc ⊢
    exact h.present.announced c hc
  · intro c hc
    change c ∈ (removeLeg w.app.inner leg).1.consoles at hc
    rw [hconsoles] at hc
    exact (congrArg Option.isSome (haside.sessions c)).trans (h.consoles c hc)
  · intro leg' hl g hm
    exact (h.done htask).groups leg' hl g (mem_members_removeLeg.mp hm).1
  · intro c hc
    exact (congrArg Option.isSome (haside.sessions c)).trans ((h.done htask).waiting c hc)

theorem work {env : Env} {v : ClientId} {id : Uuid} {rtpPort : Bool} (h : w.Referenced)
    (hok : (Turn.work task env v id rtpPort).Allowed w) (hunshared : task.Unshared w rtpPort) :
    (w.next cfg (.work task env v id rtpPort)).Referenced := by
  have hsteady := @Steady.work cfg _ _ _ _ _ _ h.toSteady hok
  obtain ⟨htask, hfresh⟩ := hok
  have hdone := h.done htask
  cases task with
  | calling callId issi target =>
    cases rtpPort with
    | false => exact hdone
    | true =>
      refine hdone.write (joined_ringIssi hfresh.1) fun c hhas => ?_
      rcases hhas with rfl | hpeer
      · exact .inr rfl
      · rw [List.mem_singleton.mp (FinSet.mem_ofList.mp hpeer)]
        exact .inl (hunshared rfl)
  | seizing callId g =>
    cases rtpPort with
    | false => exact hdone
    | true =>
      refine hdone.write (joined_seizeFloor hfresh.1) fun c hhas => ?_
      rcases hhas with rfl | hpeer
      · exact .inr rfl
      · exact .inl (h.present.members g c (FinSet.mem_erase.mp hpeer).2)
  | placing callId client brewCallId =>
    cases rtpPort with
    | false => exact hdone
    | true =>
      refine hdone.write (joined_placeOutbound hfresh) fun c hhas => ?_
      rcases hhas with rfl | hpeer
      · exact .inl (mem_clients_of_session (h.waiting client (List.mem_map.mpr ⟨_, htask, rfl⟩)))
      · exact .inr (List.mem_singleton.mp (FinSet.mem_ofList.mp hpeer))
  | bridging callId leg =>
    refine ⟨hsteady, h.present, h.consoles, fun leg' hl => ?_, hdone.waiting⟩
    refine h.groups leg' ((hand_done htask).mem_iff.mpr ?_)
    exact hand_note.mem_iff.mpr (List.mem_append_right _ hl)
  | ending ended =>
    rw [Turns.next, perform]
    split
    · exact hdone
    · exact hdone.push rfl rfl
  | closing callId =>
    rw [Turns.next, perform] at hsteady ⊢
    split at hsteady
    · exact hdone
    · next leg hleg =>
      refine ⟨hsteady, h.present, h.consoles, fun leg' hl => ?_, fun c hc => hdone.waiting c ?_⟩
      · exact hdone.groups leg' ((hand_close hleg).mem_iff.mp hl)
      · exact (List.mem_cons.mp hc).resolve_left (Option.some_ne_none c)
  | clearing leg => exact h.clear htask hunshared

theorem next {t : Turn} (h : w.Referenced) (hok : t.Allowed w) (hunshared : t.Unshared w) : (w.next cfg t).Referenced := by
  cases t with
  | event ev => exact h.event hok
  | expire env id call => exact h.expire
  | invite env callId issi =>
    rw [Turns.next]
    split
    · exact h
    · split
      · exact h
      · exact h.push rfl rfl
  | inviteGroup callId g =>
    rw [Turns.next]
    split
    · exact h
    · exact h.push rfl rfl
  | bye callId => exact h.push rfl rfl
  | work task env v id rtpPort => exact h.work hok hunshared

theorem start (selfId : UInt64) : (Turns.start selfId).Referenced := by
  refine ⟨steady_start selfId, .empty selfId, fun c hc => ?_, fun _ hl => absurd hl List.not_mem_nil,
    fun _ hc => absurd hc List.not_mem_nil⟩
  change c ∈ (∅ : FinSet ClientId) at hc
  exact absurd hc Std.ExtTreeSet.not_mem_empty

end Referenced

/-- In every run in which no leg is cleared while its virtual client takes part in
another call, and no call goes to a connection that closed since it was looked up, the
tables name connected clients only, and a connection that closes leaves them all, with
everything it had no part in as it was. -/
theorem connected_only_of_reach {selfId : UInt64}
    (h : Reach (Turns.start selfId) (fun w t => t.Allowed w ∧ t.Unshared w) (Turns.next cfg) w) :
    (∀ c : ClientId, w.app.inner.Names c → c ∈ w.app.inner.clients) ∧
      ∀ id : ClientId, Departed id w.app.inner (cleanupClient w.app.inner id).inner := by
  have hinv : w.Referenced :=
    h.invariant (P := Turns.Referenced) (.start selfId) fun _ _ hr hok => hr.next hok.1 hok.2
  refine ⟨fun c hc => mem_clients_of_names hinv.routed hinv.present hc, fun id => departed_cleanupClient fun hnamed => ?_⟩
  have hleft := mem_clients_of_names (hinv.routed.cleanupClient id) (hinv.present.cleanupClient hinv.routed) hnamed
  rw [clients_cleanupClient] at hleft
  exact (FinMap.mem_erase.mp hleft).1 rfl

/-- A call from the SIP side to a group, hung up before a listener talks on it. -/
def bridgedGroup : List Turn :=
  [.event (.connect 1 (.accepted .basestation) none false), .event (.connect 2 (.accepted .basestation) none false),
    .event (.packet (.plain 5) 2 (buildSubscriberMessage subAffiliate 8 [91])), .inviteGroup "a@sip" 91,
    .work (.seizing "a@sip" 91) (.plain 5) 10 20 true, .work (.bridging "a@sip" ⟨10, 20, some 91⟩) (.plain 5) 0 0 true,
    .bye "a@sip", .work (.closing "a@sip") (.plain 5) 0 0 true, .work (.clearing ⟨10, 20, some 91⟩) (.plain 5) 0 0 true,
    .event (.packet (.plain 6) 1 (buildGroupTx 3 7 91 0))]

theorem connected_only_bridgedGroup :
    let w := bridgedGroup.foldl (Turns.next {}) (Turns.start 9)
    w.app.inner.Names 2 ∧ (∀ c : ClientId, w.app.inner.Names c → c ∈ w.app.inner.clients) ∧
      Departed 2 w.app.inner (cleanupClient w.app.inner 2).inner := by
  intro w
  have hrun : Reach (Turns.start 9) (fun w t => t.Allowed w ∧ t.Unshared w) (Turns.next {}) w :=
    .of_list _ .init (by decide +kernel)
  have hmember : 2 ∈ w.app.inner.members 91 := by decide +kernel
  obtain ⟨hconnected, hdeparted⟩ := connected_only_of_reach hrun
  exact ⟨.member hmember, hconnected, hdeparted 2⟩

/-- A talker pre-empts a call from the SIP side: the virtual client is a listener of
the new call when its leg is taken down. -/
theorem not_connected_only :
    ¬ ∀ (cfg : Config) (selfId : UInt64) (w : Turns),
      Reach (Turns.start selfId) (fun w t => t.Allowed w) (Turns.next cfg) w →
      (∀ c : ClientId, w.app.inner.Names c → c ∈ w.app.inner.clients) ∧
        ∀ id : ClientId, Departed id w.app.inner (cleanupClient w.app.inner id).inner := by
  intro hall
  let turns : List Turn := [.event (.connect 1 (.accepted .basestation) none false), .inviteGroup "a@sip" 91,
    .work (.seizing "a@sip" 91) (.plain 5) 10 20 true, .work (.bridging "a@sip" ⟨10, 20, some 91⟩) (.plain 5) 0 0 true,
    .event (.packet (.plain 6) 1 (buildGroupTx 3 7 91 5)), .work (.ending 20) (.plain 6) 0 0 true,
    .work (.closing "a@sip") (.plain 6) 0 0 true, .work (.clearing ⟨10, 20, some 91⟩) (.plain 6) 0 0 true]
  have hrun : Reach (Turns.start 9) (fun w t => t.Allowed w) (Turns.next {}) (turns.foldl (Turns.next {}) (Turns.start 9)) :=
    .of_list turns .init (by decide +kernel)
  have hlistens : ((turns.foldl (Turns.next {}) (Turns.start 9)).app.inner.calls[(3 : Uuid)]?).any
      (fun call => call.peers.contains 10) = true := by decide +kernel
  obtain ⟨call, hlive, hpeer⟩ := (Option.any_eq_true _ _).mp hlistens
  have hgone := (hall {} 9 _ hrun).1 10 (.party hlive (.inr (Std.ExtTreeSet.contains_iff_mem.mp hpeer)))
  revert hgone
  decide +kernel

end Turns

end BrewServer
