import BrewServer.Parties

/-!
# What is kept of a message and what is announced

A newcomer to a call is handed the `GROUP_TX` that set the call up, so what is
kept under an id has to name that id. A held SDS header must name no call.
-/

namespace BrewServer

open Protocol Fedroute Router Sip

/-- What is kept of the transmission that set up a call names that call. -/
def HeadersNamed (s : Inner) : Prop :=
  ∀ (id : Uuid) (raw : Bytes), s.groupTxRaw[id]? = some raw → signal raw = some (.announce, id)

/-- A step that keeps only what is true of the calls. -/
structure KeepsTexts (s s' : Inner) : Prop where
  headers : HeadersNamed s → HeadersNamed s'
  held : SilentHeld s → SilentHeld s'

namespace KeepsTexts

variable {s s' s'' : Inner}

theorem refl (s : Inner) : KeepsTexts s s := ⟨id, id⟩

theorem trans (h : KeepsTexts s s') (h' : KeepsTexts s' s'') : KeepsTexts s s'' :=
  ⟨fun hs => h'.headers (h.headers hs), fun hs => h'.held (h.held hs)⟩

theorem of_same (hh : s'.groupTxRaw = s.groupTxRaw) (hd : s'.sdsRoutes = s.sdsRoutes) : KeepsTexts s s' :=
  ⟨fun h id raw hr => h id raw (hh ▸ hr), fun h => h.congr hd⟩

theorem of_registers (h : Registers s s') : KeepsTexts s s' := .of_same h.groupTxRaw h.sdsRoutes

theorem of_offCall {sends : Sends} (h : OffCall s s' sends) : KeepsTexts s s' :=
  ⟨fun hs id raw hr => hs id raw (h.headers ▸ hr), h.held⟩

end KeepsTexts

section Steps

variable {cfg : Config} {env : Env} {s : Inner} {source c : ClientId} {id : Uuid} {raw : Bytes}

theorem keepsTexts_removeCall {call : ActiveCall} {src : UInt32} {link : ClientId} {now : Nat} :
    KeepsTexts s (noteCall (removeCall s id call) id src link now) := .of_same rfl rfl

theorem keepsTexts_freeFloor {gt : GroupTransmission} : KeepsTexts s (freeFloor cfg s id gt) := by
  unfold freeFloor
  split
  · exact .of_same rfl rfl
  · exact .refl s

/-- The header of a call is the transmission that set it up. -/
theorem keepsTexts_installGroupTx {gt : GroupTransmission} (hraw : signal raw = some (.announce, id)) :
    KeepsTexts s (installGroupTx cfg env s source id gt raw).1 := by
  refine ⟨fun h k header hk => ?_, fun h => h.congr rfl⟩
  have hget : (installGroupTx cfg env s source id gt raw).1.groupTxRaw[k]? = _ := FinMap.getElem?_insert
  rw [hget] at hk
  split at hk
  · next hid =>
    cases hk
    exact hid ▸ hraw
  · exact h k header (FinMap.getElem?_filter.mp hk).1

theorem keepsTexts_lateEntry {client : ClientId} {groups : FinSet UInt32} :
    KeepsTexts s (lateEntry s client groups).1 := by
  unfold lateEntry
  split
  · exact .refl s
  · split
    · exact .refl s
    · exact ⟨fun h k header hk => h k header (FinMap.getElem?_filter.mp hk).1, fun h => h.congr rfl⟩

theorem keepsTexts_handleSubscriber {nowMs : UInt64} {msg : SubscriberMessage} :
    KeepsTexts s (handleSubscriber s nowMs source msg).1 := by
  rcases handleSubscriber_joined s nowMs source msg with heq | ⟨ticked, new, -, hentry, heq⟩
  · rw [heq]
    exact .refl s
  · rw [heq]
    exact (KeepsTexts.of_registers (hentry.registers.trans registers_applyEntry)).trans keepsTexts_lateEntry

theorem keepsTexts_receivePrune {src : UInt32} : KeepsTexts s (receivePrune s source id src) := by
  unfold receivePrune
  split
  · exact .refl s
  · split
    · exact .of_same rfl rfl
    · exact .refl s

theorem keepsTexts_control {cc : CallControlMessage} {s' : Inner} {sends : Sends}
    (h : ControlChange cfg env s source cc raw s' sends) : KeepsTexts s s' := by
  cases h with
  | off off => exact .of_offCall off
  | close live party said => exact keepsTexts_removeCall
  | announce state payload accepted said => exact keepsTexts_freeFloor.trans (keepsTexts_installGroupTx said)
  | setUp state request accepted opened reached routes silent => exact .of_same opened.groupTxRaw routes

theorem keepsTexts_packet (hsip : env.sip.placement = none) :
    KeepsTexts s (routePacket cfg env s source raw).inner := by
  cases hsub : asSubscriber raw with
  | some msg =>
    obtain ⟨t, -, hoff, hroute⟩ := @routePacket_subscribes cfg env s source raw msg hsub
    rw [hroute]
    exact (KeepsTexts.of_offCall hoff).trans keepsTexts_handleSubscriber
  | none =>
    have hcalls : PacketCalls cfg env s source raw _ _ := packetCalls_routePacket hsip hsub
    generalize (routePacket cfg env s source raw).inner = s', (routePacket cfg env s source raw).sends = sends
      at hcalls
    cases hcalls with
    | off off => exact .of_offCall off
    | prune before off fed asked => exact (KeepsTexts.of_offCall off).trans keepsTexts_receivePrune
    | speech before off live may said => exact (KeepsTexts.of_offCall off).trans (.of_same rfl rfl)
    | control before off arrives change => exact (KeepsTexts.of_offCall off).trans (keepsTexts_control change)

theorem keepsTexts_leaveCalls : KeepsTexts s (leaveCalls s c).inner := by
  refine leaveCalls_induct (P := fun r => KeepsTexts s r.inner) (.refl s) fun r hr e _ _ => hr.trans ?_
  unfold leaveCall
  dsimp only
  split <;> exact .of_same rfl rfl

theorem keepsTexts_cleanupClient : KeepsTexts s (cleanupClient s c).inner := by
  have hdetach : KeepsTexts s (detach s c) := .of_same rfl rfl
  have hforget : ∀ t : Inner, KeepsTexts t (forgetRoutes t c) := fun t => ⟨id, fun h => h.filter rfl⟩
  rw [(cleanupClient_eq s c).1]
  exact ((hdetach.trans (.of_registers registers_dropRegistrations)).trans keepsTexts_leaveCalls).trans (hforget _)

theorem keepsTexts_sweepAll {s' : Inner} {sends : Sends} (h : sweepAll cfg env s = (s', sends)) : KeepsTexts s s' := by
  have hone : ∀ (q : Inner × Sends) (e : Uuid × ActiveCall), KeepsTexts q.1 (sweepStep env q e).1 := by
    intro q e
    rw [sweepStep]
    rcases sweepEnd_cases env q.1 e.1 e.2 with heq | ⟨call, raw, -, -, -, hinner, -⟩
    · rw [heq]
      exact .refl q.1
    · rw [hinner]
      exact keepsTexts_removeCall
  have hall : KeepsTexts s (sweepAll cfg env s).1 :=
    sweepAll_induct (P := fun q => KeepsTexts s q.1) (.refl s) fun q hq e _ => hq.trans (hone q e)
  rw [h] at hall
  exact hall

/-- Without the bridge, no event makes a kept text untrue. -/
theorem keepsTexts_next (cfg : Config) {a : AppState} {ev : Event} (hl : a.legs = ∅) (hsip : ev.WithoutSip) :
    KeepsTexts a.inner (a.next cfg ev).inner := by
  cases ev with
  | connect id client neighbour console =>
    rw [AppState.next, run_connect hl]
    unfold openSession attachClient
    cases neighbour <;> cases console <;> exact .of_same rfl rfl
  | packet env source raw =>
    rw [AppState.next, run_packet hl source raw hsip]
    exact keepsTexts_packet hsip
  | disconnect id =>
    rw [AppState.next, run_disconnect hl]
    exact keepsTexts_cleanupClient
  | alarm issi =>
    rw [AppState.next, run_alarm hl]
    exact .of_same rfl rfl
  | sweep env =>
    obtain ⟨s', sends, hswept, hrun, -⟩ := run_sweep_of_empty cfg hl env
    rw [AppState.next, hrun]
    exact keepsTexts_sweepAll hswept
  | smsDeliver env id src dest lengthBits data =>
    have haside : Event.Aside (.smsDeliver env id src dest lengthBits data) := trivial
    obtain ⟨s', sends, hrun, -, hoff⟩ := run_aside cfg hl haside
    rw [AppState.next, hrun]
    exact .of_offCall hoff
  | advertiseBts nowMs key name lat lon online =>
    have haside : Event.Aside (.advertiseBts nowMs key name lat lon online) := trivial
    obtain ⟨s', sends, hrun, -, hoff⟩ := run_aside cfg hl haside
    rw [AppState.next, hrun]
    exact .of_offCall hoff
  | advertiseEmergency nowMs issi dest bts active =>
    have haside : Event.Aside (.advertiseEmergency nowMs issi dest bts active) := trivial
    obtain ⟨s', sends, hrun, -, hoff⟩ := run_aside cfg hl haside
    rw [AppState.next, hrun]
    exact .of_offCall hoff
  | sipPrivate env callId issi v id rtpPort => exact hsip.elim
  | sipGroup env callId g v id rtpPort => exact hsip.elim
  | sipEnd callId => exact hsip.elim

end Steps

section Announcing

/-- The calls a connection is told of. -/
def Sends.announced (sends : Sends) (c : ClientId) : List Uuid :=
  (sends.on c).filterMap fun raw => (signal raw).bind fun sig => if sig.1 = .announce then some sig.2 else none

theorem Sends.announced_append (a b : Sends) (c : ClientId) :
    Sends.announced (a ++ b) c = a.announced c ++ b.announced c := by
  rw [Sends.announced, Sends.on_append, List.filterMap_append]
  rfl

theorem Sends.announced_of_silent {sends : Sends} (h : sends.Silent) (c : ClientId) : sends.announced c = [] := by
  refine List.filterMap_eq_nil_iff.mpr fun raw hraw => ?_
  rw [h _ (Sends.mem_on.mp hraw), Option.bind_none]

theorem Sends.announced_of_other {sends : Sends} {client c : ClientId} (h : ∀ m ∈ sends, m.1 = client)
    (hc : client ≠ c) : sends.announced c = [] := by
  rw [Sends.announced, Sends.on_eq_nil fun m hm hmc => hc ((h m hm).symm.trans hmc), List.filterMap_nil]

variable {s : Inner} {client : ClientId} {groups : FinSet UInt32}

/-- A newcomer is told once of each call it enters. -/
theorem announced_lateEntry (h : HeadersNamed s) (hpeer : s.isPeer client = false) (hc : client ∈ s.clients) :
    (lateEntry s client groups).2.announced client =
      (s.calls.toList.filter fun e => joins client groups e.2).map (·.1) := by
  obtain ⟨entry, hentry⟩ := FinMap.mem_iff.mp hc
  have hfold : ∀ (text : Uuid × ActiveCall → Bytes) (es : List (Uuid × ActiveCall)),
      (∀ e, signal (text e) = some (.announce, e.1)) →
      Sends.announced (es.flatMap fun e => if joins client groups e.2 then [(client, text e)] else []) client =
        (es.filter fun e => joins client groups e.2).map (·.1) := by
    intro text es htext
    induction es with
    | nil => rfl
    | cons e es ih =>
      rw [List.flatMap_cons, Sends.announced_append, ih, List.filter_cons]
      split
      · rw [List.map_cons, Sends.announced, Sends.on_cons, if_pos rfl, Sends.on_nil, List.append_nil,
          List.filterMap_cons, htext, List.filterMap_nil]
        rfl
      · rfl
  unfold lateEntry
  split
  · next hnone =>
    rw [hpeer, Bool.or_false, FinSet.isEmpty_iff_forall] at hnone
    rw [List.filter_eq_nil_iff.mpr fun e _ hj => hnone _ (joins_iff.mp hj).2.1]
    rfl
  · rw [hentry]
    refine hfold (fun e => adaptToVersion _ entry.forwardVersion) s.calls.toList fun e => ?_
    have hheader : signal (((s.groupTxRaw.filter fun callId _ => s.calls.contains callId)[e.1]?).getD
        (buildGroupTx e.1 e.2.sourceIssi e.2.destination e.2.priority)) = some (.announce, e.1) := by
      cases hkept : (s.groupTxRaw.filter fun callId _ => s.calls.contains callId)[e.1]? with
      | none => rw [Option.getD_none, signal_buildGroupTx]
      | some header =>
        rw [Option.getD_some]
        exact h e.1 header (FinMap.getElem?_filter.mp hkept).1
    rw [signal_adaptToVersion]
    dsimp only
    split
    · rw [signal_withEmergencyPriority, hheader]
    · exact hheader

/-- Of each call a newcomer enters, one header is sent, and of the others none. -/
theorem count_announced_lateEntry (h : HeadersNamed s) (hpeer : s.isPeer client = false) (hc : client ∈ s.clients)
    {id : Uuid} {call : ActiveCall} (hlive : s.calls[id]? = some call) :
    ((lateEntry s client groups).2.announced client).count id = if joins client groups call then 1 else 0 := by
  have hn : ((s.calls.toList.filter fun e => joins client groups e.2).map (·.1)).Nodup := by
    refine List.Nodup.sublist (List.filter_sublist.map _) ?_
    rw [Std.ExtTreeMap.map_fst_toList_eq_keys]
    exact FinMap.nodup_keys
  rw [announced_lateEntry h hpeer hc, hn.count]
  refine if_congr ?_ rfl rfl
  rw [List.mem_map]
  constructor
  · rintro ⟨e, he, rfl⟩
    obtain ⟨hmem, hj⟩ := List.mem_filter.mp he
    obtain rfl : call = e.2 := Option.some.inj (hlive.symm.trans (FinMap.mem_toList.mp hmem))
    exact hj
  · exact fun hj => ⟨(id, call), List.mem_filter.mpr ⟨FinMap.mem_toList.mpr hlive, hj⟩, rfl⟩

end Announcing

end BrewServer
