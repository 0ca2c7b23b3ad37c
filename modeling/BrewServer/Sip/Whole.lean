import BrewServer.Sip.Tasks

/-!
# Whole handlers

A handler whose locks follow one another, with no other turn between them, does what
it does as one step, so the states of a server that takes its events one by one are
states it reaches in turns.
-/

namespace BrewServer

open Protocol Fedroute Router Sip

section Packets

variable {cfg : Config} {env : Env} {s : Inner} {source : ClientId} {raw : Bytes}

/-- What a handler does, compared with what it does where no setup leads out: the same,
but for its refusals, or a call placed after it. -/
inductive LeadsOut (env : Env) (s : Inner) (source : ClientId) (plain : Effect) : Effect → Prop
  | stays {e : Effect} (placed : e.placed = none) (inner : e.inner = plain.inner) (ended : e.ended = plain.ended) :
      LeadsOut env s source plain e
  | places (id : Uuid) (callId : String) (v : ClientId) (ended : plain.ended = [])
      (clients : ∀ c : ClientId, c ∈ plain.inner.clients → c ∈ s.clients) :
      LeadsOut env s source plain (placeOutbound env plain.inner source id callId v)

theorem LeadsOut.passive {t : Inner} {plain e : Effect} (h : LeadsOut env t source plain e) (hp : Passive s t []) :
    LeadsOut env s source plain e := by
  cases h with
  | stays placed inner ended => exact .stays placed inner ended
  | places id callId v ended clients => exact .places id callId v ended fun c hc => hp.mem_clients.mp (clients c hc)

theorem leadsOut_handlePrivateSetup {id : Uuid} {payload : CallPayload} :
    LeadsOut env s source (handlePrivateSetup (withoutRoute env) s source id payload raw)
      (handlePrivateSetup env s source id payload raw) := by
  unfold handlePrivateSetup
  cases hreq : setupRequest payload with
  | none => exact .stays rfl rfl rfl
  | some req =>
    have hbar : barred (withoutRoute env) req = barred env req := rfl
    have hnow : (withoutRoute env).now = env.now := rfl
    dsimp only
    rw [hbar, hnow]
    by_cases hdup : (s.isPeer source && isDuplicate s id req.source source env.now) = true
    · rw [if_pos hdup, if_pos hdup]
      exact .stays rfl rfl rfl
    · rw [if_neg hdup, if_neg hdup]
      by_cases hbarred : barred env req = true
      · rw [if_pos hbarred, if_pos hbarred]
        exact .stays rfl rfl rfl
      · rw [if_neg hbarred, if_neg hbarred]
        cases s.subscribers[req.destination]? with
        | some sub =>
          dsimp only
          split <;> exact .stays rfl rfl rfl
        | none =>
          dsimp only [offerToSip]
          cases env.sip with
          | noRoute => exact .stays rfl rfl rfl
          | noRtpPort => exact .stays rfl rfl rfl
          | placed callId v => exact .places id callId v rfl fun _ hc => hc

theorem leadsOut_callControl {cc : CallControlMessage} :
    LeadsOut env s source (callControl cfg (withoutRoute env) s source cc raw) (callControl cfg env s source cc raw) := by
  unfold callControl
  split
  · exact .stays placed_handleGroupTx rfl rfl
  · split
    · exact .stays placed_handleSdsHeader rfl rfl
    · split
      · exact leadsOut_handlePrivateSetup
      · split
        · exact .stays placed_routePrivateControl rfl rfl
        · split
          · exact .stays placed_endCall rfl rfl
          · exact .stays rfl rfl rfl

theorem leadsOut_routePacket :
    LeadsOut env s source (routePacket cfg (withoutRoute env) s source raw) (routePacket cfg env s source raw) := by
  unfold routePacket
  have hpurge : purgeEphemeral (withoutRoute env) s = purgeEphemeral env s := rfl
  rw [hpurge]
  by_cases hfed : raw.head? = some classFederation
  · rw [if_pos hfed, if_pos hfed]
    exact .stays rfl rfl rfl
  · rw [if_neg hfed, if_neg hfed]
    cases parseWithVersion raw (clientVersion (purgeEphemeral env s) source) with
    | none => exact .stays rfl rfl rfl
    | some r =>
      cases r with
      | error _ => exact .stays rfl rfl rfl
      | ok p =>
        obtain ⟨msg, d⟩ := p
        cases msg with
        | callControl cc => exact leadsOut_callControl.passive (passive_purgeEphemeral.trans passive_promoteClientVersion)
        | frame f => exact .stays placed_frame rfl rfl
        | subscriber _ => exact .stays rfl rfl rfl
        | service _ => exact .stays rfl rfl rfl
        | error _ => exact .stays rfl rfl rfl

end Packets

/-- The call of an INVITE is no leg's. -/
def Event.NewCall (a : AppState) : Event → Prop
  | .sipPrivate _ _ _ _ id _ | .sipGroup _ _ _ _ id _ => id ∉ a.legs.toList.map (·.2.brewCallId)
  | _ => True

namespace Turns

variable {cfg : Config} {a : AppState} {tasks : List BridgeTask}

/-- States a server reaches in turns from another. -/
abbrev Runs (cfg : Config) (w w' : Turns) : Prop := Reach w (fun w t => t.Allowed w) (Turns.next cfg) w'

/-- A task whose handler goes on at once. -/
theorem runs_work {w : Turns} (task : BridgeTask) (env : Env) (v : ClientId) (id : Uuid) (rtpPort : Bool)
    (hfresh : task.Fresh ⟨a, task :: tasks⟩ v id)
    (hw : (⟨a, tasks⟩ : Turns).perform env v id rtpPort task = w) : Runs cfg ⟨a, task :: tasks⟩ w := by
  have hstep : (⟨a, task :: tasks⟩ : Turns).next cfg (.work task env v id rtpPort) = w := by
    rw [Turns.next, done, List.erase_cons_head]
    exact hw
  rw [← hstep]
  exact .step .init ⟨List.mem_cons_self, hfresh⟩

theorem runs_closing (callId : String) :
    Runs cfg ⟨a, .closing callId :: tasks⟩ ⟨(teardown a callId).1, tasks⟩ := by
  unfold teardown
  cases hleg : a.legs[callId]? with
  | none =>
    refine runs_work (.closing callId) (.plain 0) 0 0 true trivial ?_
    rw [perform, hleg]
  | some leg =>
    refine Reach.trans (s := ⟨{ a with legs := a.legs.erase callId }, .clearing leg :: tasks⟩)
      (runs_work (.closing callId) (.plain 0) 0 0 true trivial ?_)
      (runs_work (.clearing leg) (.plain 0) 0 0 true trivial rfl)
    rw [perform, hleg]

theorem runs_ending (id : Uuid) :
    Runs cfg ⟨a, .ending id :: tasks⟩ ⟨(teardownByBrewCall a id).1, tasks⟩ := by
  unfold teardownByBrewCall
  cases hfind : a.legs.toList.find? fun e => e.2.brewCallId = id with
  | none =>
    refine runs_work (.ending id) (.plain 0) 0 0 true trivial ?_
    rw [perform, hfind]
  | some e =>
    refine Reach.trans (s := ⟨a, .closing e.1 :: tasks⟩)
      (runs_work (.ending id) (.plain 0) 0 0 true trivial ?_) (runs_closing e.1)
    rw [perform, hfind]
    rfl

/-- The bridge catches up with a handler. -/
theorem runs_settle {e : Effect} (hplaced : e.placed = none) :
    Runs cfg ((⟨a, []⟩ : Turns).after e) ⟨(settle a e).1, []⟩ := by
  have hfold : ∀ (ids : List Uuid) (r : AppState × Sends), Runs cfg ⟨r.1, ids.map .ending⟩
      ⟨(ids.foldl (fun r id => ((teardownByBrewCall r.1 id).1, r.2 ++ (teardownByBrewCall r.1 id).2)) r).1, []⟩ := by
    intro ids
    induction ids with
    | nil => exact fun _ => .init
    | cons id ids ih => exact fun r => (runs_ending id).trans (ih (_, r.2 ++ (teardownByBrewCall r.1 id).2))
  have hlegs : e.legs a = { a with inner := e.inner } := by rw [Effect.legs, hplaced]
  have hall := hfold e.ended (e.legs a, e.sends)
  rw [hlegs] at hall
  unfold settle
  rw [after, List.append_nil, hplaced]
  exact hall

/-- The ticks of a sweep. -/
theorem runs_sweep (env : Env) : Runs cfg ⟨a, []⟩ ⟨(runCallDurationSweep cfg env a).1, []⟩ := by
  refine sweep_induct (P := fun r => Runs cfg ⟨a, []⟩ ⟨r.1, []⟩) .init fun r hr e _ => ?_
  have htick : Runs cfg ⟨r.1, []⟩ ((⟨r.1, []⟩ : Turns).after (sweepEnd env r.1.inner e.1 e.2)) :=
    .step (e := Turn.expire env e.1 e.2) .init trivial
  exact (hr.trans htick).trans (runs_settle placed_sweepEnd)

theorem runs_packet {env : Env} {source : ClientId} {raw : Bytes} (hok : (Event.packet env source raw).Allowed a) :
    Runs cfg ⟨a, []⟩ ⟨a.next cfg (.packet env source raw), []⟩ := by
  have hheard : Runs cfg ⟨a, []⟩ ((⟨a, []⟩ : Turns).next cfg (.event (.packet env source raw))) :=
    .step .init ⟨trivial, hok, fun _ _ => List.not_mem_nil⟩
  have hrun : a.next cfg (.packet env source raw) = (settle a (routePacket cfg env a.inner source raw)).1 := by
    have hrouted : (Event.packet env source raw).Routed := trivial
    rw [AppState.next, a.run_routed cfg hrouted]
    rfl
  refine hheard.trans ?_
  rw [hrun]
  have hleads : LeadsOut env a.inner source (routePacket cfg (withoutRoute env) a.inner source raw)
      (routePacket cfg env a.inner source raw) := leadsOut_routePacket
  have hnext : (⟨a, []⟩ : Turns).next cfg (.event (.packet env source raw)) =
      { (⟨a, []⟩ : Turns).after (routePacket cfg (withoutRoute env) a.inner source raw) with
        tasks := (Event.packet env source raw).outbound cfg a.inner ++
          ((routePacket cfg (withoutRoute env) a.inner source raw).ended.map .ending ++ []) } := rfl
  rw [hnext, Event.outbound]
  generalize routePacket cfg (withoutRoute env) a.inner source raw = plain at hleads ⊢
  have hsip := fun callId leg => @placed_routePacket cfg env a.inner source raw callId leg
  generalize routePacket cfg env a.inner source raw = e at hleads hsip ⊢
  cases hleads with
  | stays placed inner ended =>
    rw [placed]
    have hsame : (⟨a, []⟩ : Turns).after plain = (⟨a, []⟩ : Turns).after e := by
      rw [after, after, inner, ended]
    have hsettled := @runs_settle cfg a _ placed
    rw [← hsame] at hsettled
    exact hsettled
  | places id callId v ended clients =>
    have hfresh := hok.2.2
    rw [(hsip callId ⟨v, id, none⟩ rfl).1] at hfresh
    rw [settle_of_ended (e := placeOutbound env plain.inner source id callId v) rfl, ended]
    exact (runs_work (.placing callId source id) env v id true (fun hv => hfresh (clients v hv)) rfl).trans
      (runs_work (.bridging callId ⟨v, id, none⟩) env v id true trivial rfl)

/-- The call of an INVITE is written, and its leg noted. -/
theorem runs_invited {task : BridgeTask} {inner : Inner} {callId : String} {leg : BridgedLeg} {env : Env} {v : ClientId}
    {id : Uuid} (hfresh : task.Fresh ⟨a, [task]⟩ v id)
    (hwrite : (⟨a, []⟩ : Turns).perform env v id true task = (⟨a, []⟩ : Turns).write inner callId leg) :
    Runs cfg ⟨a, [task]⟩ ⟨{ inner, legs := a.legs.insert callId leg }, []⟩ :=
  (runs_work task env v id true hfresh hwrite).trans (runs_work (.bridging callId leg) env v id true trivial rfl)

/-- With nothing under way, the legs in hand are those that are noted. -/
theorem not_mem_hand {task : BridgeTask} {id : Uuid} (hleg : task.leg = none)
    (hnew : id ∉ a.legs.toList.map (·.2.brewCallId)) : id ∉ (⟨a, [task]⟩ : Turns).hand.map (·.brewCallId) := by
  rw [hand, List.filterMap_cons_none hleg, List.filterMap_nil, List.append_nil, List.map_map]
  exact hnew

theorem runs_sipPrivate {env : Env} {callId : String} {issi : UInt32} {v : ClientId} {id : Uuid} {rtpPort : Bool}
    (hok : (Event.sipPrivate env callId issi v id rtpPort).Allowed a)
    (hnew : (Event.sipPrivate env callId issi v id rtpPort).NewCall a) :
    Runs cfg ⟨a, []⟩ ⟨(sipToBrewPrivate env a callId issi v id rtpPort).1, []⟩ := by
  unfold sipToBrewPrivate
  split
  · exact .init
  · next hblocked =>
    split
    · exact .init
    · next sub hsub =>
      split
      · exact .init
      · have hfound : Runs cfg ⟨a, []⟩ ⟨a, [.calling callId issi sub.clientId]⟩ := by
          have hnext : (⟨a, []⟩ : Turns).next cfg (.invite env callId issi) = ⟨a, [.calling callId issi sub.clientId]⟩ := by
            rw [next, if_neg hblocked, hsub]
            rfl
          rw [← hnext]
          exact .step .init trivial
        exact hfound.trans (runs_invited ⟨hok.1, hok.2, not_mem_hand rfl hnew⟩ rfl)

theorem runs_sipGroup {env : Env} {callId : String} {g : UInt32} {v : ClientId} {id : Uuid} {rtpPort : Bool}
    (hok : (Event.sipGroup env callId g v id rtpPort).Allowed a)
    (hnew : (Event.sipGroup env callId g v id rtpPort).NewCall a) :
    Runs cfg ⟨a, []⟩ ⟨(sipToBrewGroup cfg env a callId g v id rtpPort).1, []⟩ := by
  unfold sipToBrewGroup
  split
  · exact .init
  · next hmembers =>
    split
    · exact .init
    · have hfound : Runs cfg ⟨a, []⟩ ⟨a, [.seizing callId g]⟩ := by
        have hnext : (⟨a, []⟩ : Turns).next cfg (.inviteGroup callId g) = ⟨a, [.seizing callId g]⟩ := by
          rw [next, if_neg hmembers]
          rfl
        rw [← hnext]
        exact .step .init trivial
      exact hfound.trans (runs_invited ⟨hok.1, hok.2, not_mem_hand rfl hnew⟩ rfl)

/-- An event whose handlers take their locks in a row. -/
theorem runs_next {ev : Event} (hok : ev.Allowed a) (hnew : ev.NewCall a) :
    Runs cfg ⟨a, []⟩ ⟨a.next cfg ev, []⟩ := by
  have hrouted : ∀ (ev : Event), ev.Allowed a → ev.Routed → (routeEvent cfg a.inner ev).placed = none →
      ev.withoutRoute = ev → ev.outbound cfg a.inner = [] → Runs cfg ⟨a, []⟩ ⟨a.next cfg ev, []⟩ := by
    intro ev hok hr hplaced hsame hnone
    have hheard : Runs cfg ⟨a, []⟩ ((⟨a, []⟩ : Turns).next cfg (.event ev)) := by
      refine .step .init ⟨hr, hok, fun _ _ => List.not_mem_nil⟩
    have hnext : (⟨a, []⟩ : Turns).next cfg (.event ev) = (⟨a, []⟩ : Turns).after (routeEvent cfg a.inner ev) := by
      rw [next, hsame, hnone]
      rfl
    rw [hnext] at hheard
    rw [AppState.next, a.run_routed cfg hr]
    exact hheard.trans (runs_settle hplaced)
  cases ev with
  | packet env source raw => exact runs_packet hok
  | disconnect id => exact hrouted _ hok trivial (cleanupClient_eq a.inner id).2.2.2 rfl rfl
  | connect | alarm | smsDeliver | advertiseBts | advertiseEmergency => exact hrouted _ hok trivial rfl rfl rfl
  | sweep env =>
    rw [AppState.next, a.run_sweep cfg env]
    exact runs_sweep env
  | sipEnd callId =>
    rw [AppState.next, a.run_sipEnd cfg callId]
    have hbye : Runs cfg ⟨a, []⟩ ⟨a, [.closing callId]⟩ := .step (e := Turn.bye callId) .init trivial
    exact hbye.trans (runs_closing callId)
  | sipPrivate env callId issi v id rtpPort =>
    rw [AppState.next, a.run_sipPrivate cfg env callId issi v id rtpPort]
    exact runs_sipPrivate hok hnew
  | sipGroup env callId g v id rtpPort =>
    rw [AppState.next, a.run_sipGroup cfg env callId g v id rtpPort]
    exact runs_sipGroup hok hnew

/-- A server that takes its events one by one reaches its states in turns. -/
theorem runs_of_reach {selfId : UInt64}
    (h : Reach (AppState.start selfId) (fun a ev => ev.Allowed a ∧ ev.NewCall a) (AppState.next cfg) a) :
    Runs cfg (Turns.start selfId) ⟨a, []⟩ := by
  induction h with
  | init => exact .init
  | step _ hok ih => exact ih.trans (runs_next hok.1 hok.2)

end Turns

end BrewServer
