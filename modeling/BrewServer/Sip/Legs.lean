import BrewServer.Sip.Carried
import BrewServer.Sip.Tasks

/-!
# Who owns what the bridge made

Every virtual client belongs to one leg in hand, and takes part in the call of that
leg until the bridge is told that the call ended. A write of the bridge adds a leg, and
a clearing takes one out of the tables with all it brought.
-/

namespace BrewServer

open Protocol Fedroute Router Sip

/-- A party that a call cannot go on without. -/
def Roster.Needs (r : Roster) (c : ClientId) : Prop := r.owner = c ∨ (r.kind = .«private» ∧ c ∈ r.peers)

/-- Each leg in hand has a virtual client to itself. -/
structure LegsHeld (hand : List BridgedLeg) (s : Inner) : Prop where
  virtual : ∀ leg ∈ hand, isBridged s leg.virtualClient = true
  distinct : (hand.map (·.virtualClient)).Nodup

/-- What holds of the legs in hand, but for those of which the bridge is `told` that
their call ended. -/
structure Owned (told : BridgedLeg → Prop) (hand : List BridgedLeg) (s : Inner) : Prop extends LegsHeld hand s where
  carried : ∀ leg ∈ hand, told leg ∨ s.Carries leg
  single : (hand.map (·.brewCallId)).Nodup
  legged : ∀ c : ClientId, isBridged s c = true → ∃ leg ∈ hand, leg.virtualClient = c
  members : ∀ (g : UInt32) (c : ClientId), c ∈ s.members g → (s.session c).isSome = true ∨
    ∃ leg ∈ hand, leg.virtualClient = c ∧ leg.group = some g
  parties : ∀ (id : Uuid) (r : Roster) (c : ClientId), s.roster id = some r → r.Needs c →
    (s.session c).isSome = true ∨ ∃ leg ∈ hand, leg.brewCallId = id

/-- A virtual client has joined, with a leg and a call of its own. -/
structure Joined (leg : BridgedLeg) (call : ActiveCall) (s s' : Inner) : Prop where
  fresh : leg.virtualClient ∉ s.clients
  clients : s'.clients = s.clients.insert leg.virtualClient virtualClientEntry
  calls : s'.calls = s.calls.insert leg.brewCallId call
  takesPart : call.roster.Has leg.virtualClient
  members : ∀ (g : UInt32) (c : ClientId), c ∈ s'.members g →
    c ∈ s.members g ∨ (leg.group = some g ∧ leg.virtualClient = c)
  subscribers : s'.subscribers = s.subscribers
  fed : s'.fed = s.fed
  sdsRoutes : s'.sdsRoutes = s.sdsRoutes
  consoles : s'.consoles = s.consoles

section Writes

variable {env : Env} {s : Inner} {v : ClientId} {id : Uuid}

/-- An INVITE to an ISSI calls the connection it was found on. -/
theorem joined_ringIssi {issi : UInt32} {target : ClientId} (hv : v ∉ s.clients) :
    Joined ⟨v, id, none⟩ ⟨.«private», v, 0, issi, 0, FinSet.ofList [target], env.now, env.nowMs⟩ s
      (ringIssi env s issi target v id) :=
  ⟨hv, rfl, rfl, .inl rfl, fun _ _ hc => .inl hc, rfl, rfl, rfl, rfl⟩

theorem joined_seizeFloor {g : UInt32} (hv : v ∉ s.clients) :
    Joined ⟨v, id, some g⟩ ⟨.group, v, 0, g, 0, (s.members g).erase v, env.now, env.nowMs⟩ s
      (seizeFloor env s g v id) := by
  refine ⟨hv, rfl, rfl, .inl rfl, fun g' c hc => ?_, rfl, rfl, rfl, rfl⟩
  change c ∈ membersOf (join s.groupClients v g) g' at hc
  rcases mem_join.mp hc with ⟨rfl, rfl⟩ | hold
  · exact .inr ⟨rfl, rfl⟩
  · exact .inl hold

/-- A setup that leads out calls for the connection it came from. -/
theorem joined_placeOutbound {client : ClientId} {callId : String} (hv : v ∉ s.clients) :
    Joined ⟨v, id, none⟩ ⟨.«private», client, 0, 0, 0, FinSet.ofList [v], env.now, env.nowMs⟩ s
      (placeOutbound env s client id callId v).inner :=
  ⟨hv, rfl, rfl, .inr (FinSet.mem_ofList.mpr List.mem_cons_self), fun _ _ hc => .inl hc, rfl, rfl, rfl, rfl⟩

end Writes

namespace Joined

variable {leg : BridgedLeg} {call : ActiveCall} {s s' : Inner}

theorem joining (h : Joined leg call s s') : Joining s s' [] :=
  joining_insertVirtual h.fresh h.clients h.subscribers h.fed h.sdsRoutes Sends.quiet_nil

theorem roster (h : Joined leg call s s') (k : Uuid) :
    s'.roster k = if leg.brewCallId = k then some call.roster else s.roster k :=
  Inner.roster_insert h.calls k

theorem isBridged_self (h : Joined leg call s s') : isBridged s' leg.virtualClient = true := by
  rw [isBridged_iff, h.clients, FinMap.getElem?_insert, if_pos rfl]
  rfl

theorem isBridged_of_ne (h : Joined leg call s s') {c : ClientId} (hc : leg.virtualClient ≠ c) :
    isBridged s' c = isBridged s c := by
  refine isBridged_congr ?_
  rw [h.clients, FinMap.getElem?_insert, if_neg hc]

/-- No leg had the virtual client before. -/
theorem ne_of_bridged (h : Joined leg call s s') {c : ClientId} (hc : isBridged s c = true) : leg.virtualClient ≠ c := by
  rintro rfl
  rw [isBridged, Std.ExtTreeMap.getElem?_eq_none h.fresh] at hc
  cases hc

theorem session (h : Joined leg call s s') {c : ClientId} (hc : (s.session c).isSome = true) :
    (s'.session c).isSome = true := by
  rw [h.joining.aside.sessions]
  exact hc

end Joined

namespace LegsHeld

variable {hand hand' : List BridgedLeg} {leg : BridgedLeg} {call : ActiveCall} {s s' : Inner}

theorem keep (h : LegsHeld hand s) (hkeep : ∀ c : ClientId, isBridged s c = true → isBridged s' c = true) : LegsHeld hand s' :=
  ⟨fun leg hl => hkeep _ (h.virtual leg hl), h.distinct⟩

theorem perm (h : LegsHeld hand s) (hp : hand.Perm hand') : LegsHeld hand' s :=
  ⟨fun leg hl => h.virtual leg (hp.mem_iff.mpr hl), (hp.map _).nodup_iff.mp h.distinct⟩

theorem tail (h : LegsHeld (leg :: hand) s) : LegsHeld hand s :=
  ⟨fun leg' hl => h.virtual leg' (List.mem_cons_of_mem _ hl), (List.nodup_cons.mp h.distinct).2⟩

/-- The legs of others have other virtual clients. -/
theorem ne_of_mem (h : LegsHeld (leg :: hand) s) {leg' : BridgedLeg} (hl : leg' ∈ hand) :
    leg'.virtualClient ≠ leg.virtualClient := fun heq =>
  (List.nodup_cons.mp h.distinct).1 (List.mem_map.mpr ⟨leg', hl, heq⟩)

/-- Legs that are lost sight of. -/
theorem drop (h : LegsHeld (hand' ++ hand) s) : LegsHeld hand s :=
  ⟨fun leg hl => h.virtual leg (List.mem_append_right _ hl),
    (List.nodup_append.mp (List.map_append ▸ h.distinct)).2.1⟩

theorem join (h : LegsHeld hand s) (hj : Joined leg call s s') : LegsHeld (leg :: hand) s' := by
  have hnew : leg.virtualClient ∉ hand.map (·.virtualClient) := by
    intro hm
    obtain ⟨leg', hl, heq⟩ := List.mem_map.mp hm
    exact hj.ne_of_bridged (h.virtual leg' hl) heq.symm
  refine ⟨fun leg' hl => ?_, List.nodup_cons.mpr ⟨hnew, h.distinct⟩⟩
  rcases List.mem_cons.mp hl with rfl | hl
  · exact hj.isBridged_self
  · exact hj.joining.isBridged (h.virtual leg' hl)

end LegsHeld

section Clearing

variable {s : Inner} {leg : BridgedLeg} {hand : List BridgedLeg} {told : BridgedLeg → Prop}

theorem roster_removeLeg (k : Uuid) :
    (removeLeg s leg).1.roster k = if leg.brewCallId = k then none else s.roster k := by
  refine Inner.roster_erase ?_ k
  unfold removeLeg
  dsimp only
  split <;> rfl

theorem mem_members_removeLeg {g : UInt32} {c : ClientId} :
    c ∈ (removeLeg s leg).1.members g ↔ c ∈ s.members g ∧ ¬ (leg.group = some g ∧ leg.virtualClient = c) := by
  have hgroups : (removeLeg s leg).1.groupClients =
      leg.group.elim s.groupClients fun g => s.groupClients.modify g (·.erase leg.virtualClient) := by
    unfold removeLeg
    dsimp only
    split <;> cases leg.group <;> rfl
  unfold Inner.members
  rw [hgroups]
  cases leg.group with
  | none => simp
  | some g' =>
    rw [Option.elim_some, FinMap.getElem?_modify]
    by_cases hg : g' = g
    · subst hg
      rw [if_pos rfl]
      cases s.groupClients[g']? with
      | none => simp
      | some m =>
        rw [Option.map_some, Option.getD_some, Option.getD_some, FinSet.mem_erase]
        simp [and_comm]
    · rw [if_neg hg]
      simp [hg]

/-- Whoever is bridged after a clearing was so before, under another leg. -/
theorem isBridged_removeLeg {c : ClientId} (hc : isBridged (removeLeg s leg).1 c = true) :
    leg.virtualClient ≠ c ∧ isBridged s c = true := by
  have hclients : (removeLeg s leg).1.clients[c]? = if leg.virtualClient = c then none else s.clients[c]? := by
    rw [clients_removeLeg, FinMap.getElem?_erase]
  have hne : leg.virtualClient ≠ c := by
    intro hv
    rw [isBridged_iff, hclients, if_pos hv] at hc
    cases hc
  refine ⟨hne, ?_⟩
  rw [← isBridged_congr]
  · exact hc
  · rw [hclients, if_neg hne]

theorem isBridged_removeLeg_of_ne {c : ClientId} (hne : leg.virtualClient ≠ c) (hc : isBridged s c = true) :
    isBridged (removeLeg s leg).1 c = true := by
  rw [isBridged_congr]
  · exact hc
  · rw [clients_removeLeg, FinMap.getElem?_erase, if_neg hne]

theorem LegsHeld.clear (h : LegsHeld (leg :: hand) s) : LegsHeld hand (removeLeg s leg).1 :=
  ⟨fun leg' hl => isBridged_removeLeg_of_ne (h.ne_of_mem hl).symm (h.tail.virtual leg' hl), h.tail.distinct⟩

theorem LegsHeld.aside_removeLeg (h : LegsHeld (leg :: hand) s) : Aside s (removeLeg s leg).1 (removeLeg s leg).2 :=
  BrewServer.aside_removeLeg (h.virtual leg List.mem_cons_self)

/-- A leg that goes takes all it brought with it. -/
theorem Owned.clear (h : Owned told (leg :: hand) s) : Owned told hand (removeLeg s leg).1 := by
  have hsessions : ∀ c : ClientId, (removeLeg s leg).1.session c = s.session c := h.toLegsHeld.aside_removeLeg.sessions
  obtain ⟨hother, hsingle⟩ := List.nodup_cons.mp h.single
  refine ⟨h.toLegsHeld.clear, fun leg' hl => ?_, hsingle, fun c hc => ?_, fun g c hc => ?_, fun id r c hr hneeds => ?_⟩
  · refine (h.carried leg' (List.mem_cons_of_mem _ hl)).imp_right fun hc => hc.congr ?_
    rw [roster_removeLeg, if_neg]
    exact fun hid => hother (List.mem_map.mpr ⟨leg', hl, hid.symm⟩)
  · obtain ⟨hne, hold⟩ := isBridged_removeLeg hc
    obtain ⟨leg', hl, hv⟩ := h.legged c hold
    rcases List.mem_cons.mp hl with rfl | hl
    · exact absurd hv hne
    · exact ⟨leg', hl, hv⟩
  · obtain ⟨hm, hnot⟩ := mem_members_removeLeg.mp hc
    rw [hsessions]
    refine (h.members g c hm).imp_right ?_
    rintro ⟨leg', hl, hv, hg⟩
    rcases List.mem_cons.mp hl with rfl | hl
    · exact absurd ⟨hg, hv⟩ hnot
    · exact ⟨leg', hl, hv, hg⟩
  · rw [roster_removeLeg] at hr
    split at hr
    · cases hr
    · next hid =>
      rw [hsessions]
      refine (h.parties id r c hr hneeds).imp_right ?_
      rintro ⟨leg', hl, hcall⟩
      rcases List.mem_cons.mp hl with rfl | hl
      · exact absurd hcall hid
      · exact ⟨leg', hl, hcall⟩

end Clearing

section Handlers

variable {told told' : BridgedLeg → Prop} {hand hand' : List BridgedLeg} {s s' : Inner} {leg : BridgedLeg}
  {call : ActiveCall}

theorem Continues.needs (h : Continues s s') {id : Uuid} {r' : Roster} {c : ClientId}
    (hr : s'.roster id = some r') (hneeds : r'.Needs c) : ∃ r, s.roster id = some r ∧ r.Needs c := by
  obtain ⟨call', hcall', rfl⟩ := Inner.roster_eq_some.mp hr
  obtain ⟨call, hcall, hkind, -, howner, -, hpeers⟩ := h.calls id call' hcall'
  refine ⟨call.roster, Inner.roster_of_call hcall, ?_⟩
  rcases hneeds with ho | ⟨hk, hp⟩
  · exact .inl (howner.symm.trans ho)
  · have hprivate : call.kind = .«private» := hkind.symm.trans hk
    refine .inr ⟨hprivate, (hpeers c hp).resolve_right fun hg => ?_⟩
    rw [hprivate] at hg
    cases hg.1

namespace Owned

theorem perm (h : Owned told hand s) (hp : hand.Perm hand') : Owned told hand' s := by
  refine ⟨h.toLegsHeld.perm hp, fun leg hl => h.carried leg (hp.mem_iff.mpr hl), (hp.map _).nodup_iff.mp h.single,
    fun c hc => ?_, fun g c hc => ?_, fun id r c hr hneeds => ?_⟩
  · obtain ⟨leg, hl, hv⟩ := h.legged c hc
    exact ⟨leg, hp.mem_iff.mp hl, hv⟩
  · refine (h.members g c hc).imp_right ?_
    rintro ⟨leg, hl, hleg⟩
    exact ⟨leg, hp.mem_iff.mp hl, hleg⟩
  · refine (h.parties id r c hr hneeds).imp_right ?_
    rintro ⟨leg, hl, hcall⟩
    exact ⟨leg, hp.mem_iff.mp hl, hcall⟩

/-- The bridge has heard of more ends. -/
theorem hears (h : Owned told hand s) (htold : ∀ leg ∈ hand, told leg → told' leg ∨ s.Carries leg) :
    Owned told' hand s :=
  { h with carried := fun leg hl => (h.carried leg hl).elim (htold leg hl) .inr }

/-- A handler that keeps the virtual clients and their calls, and lets nobody but
sessions in, keeps the legs owned. `Stays` tells who does not leave. -/
theorem of_effect {e : Effect} (h : Owned told hand s) (Stays : ClientId → Prop)
    (hkinds : ∀ c, isBridged e.inner c = isBridged s c) (hcarried : ∀ leg ∈ hand, told leg ∨ Carried leg s e)
    (hstays : ∀ c, Stays c → (s.session c).isSome = true → (e.inner.session c).isSome = true)
    (hmembers : ∀ g c, c ∈ e.inner.members g → (c ∈ s.members g ∧ Stays c) ∨ (e.inner.session c).isSome = true)
    (hparties : ∀ id r c, e.inner.roster id = some r → r.Needs c →
      (e.inner.session c).isSome = true ∨ Stays c ∧ ∃ r', s.roster id = some r' ∧ r'.Needs c) :
    Owned (fun leg => told leg ∨ leg.brewCallId ∈ e.ended) hand e.inner := by
  refine ⟨h.toLegsHeld.keep fun c hc => (hkinds c).trans hc, fun leg hl => ?_, h.single, ?_, ?_, ?_⟩
  · rcases h.carried leg hl with htold | hcarries
    · exact .inl (.inl htold)
    · rcases hcarried leg hl with htold | hkept
      · exact .inl (.inl htold)
      · exact (hkept hcarries).imp_left .inr
  · intro c hc
    exact h.legged c ((hkinds c).symm.trans hc)
  · intro g c hc
    rcases hmembers g c hc with ⟨hm, hstay⟩ | hs
    · exact (h.members g c hm).imp_left (hstays c hstay)
    · exact .inl hs
  · intro id r c hr hneeds
    rcases hparties id r c hr hneeds with hs | ⟨hstay, r', hr', hneeds'⟩
    · exact .inl hs
    · exact (h.parties id r' c hr' hneeds').imp_left (hstays c hstay)

/-- A step aside that only lets calls go on keeps the legs owned. -/
theorem of_passive {e : Effect} {sends : Sends} (h : Owned told hand s) (hp : Passive s e.inner sends)
    (hc : Continues s e.inner) (hcarried : ∀ leg ∈ hand, Carried leg s e) :
    Owned (fun leg => told leg ∨ leg.brewCallId ∈ e.ended) hand e.inner := by
  refine h.of_effect (fun _ => True) (fun c => isBridged_congr (hp.routes.kinds c)) (fun leg hl => .inr (hcarried leg hl))
    (fun c _ hs => by rw [hp.aside.sessions]; exact hs) (fun g c hm => .inl ⟨?_, trivial⟩)
    fun id r c hr hneeds => .inr ⟨trivial, hc.needs hr hneeds⟩
  rw [Inner.members, ← hp.routes.groupClients]
  exact hm

/-! A virtual client joins, under a call that is no leg's. -/

theorem carried_join (h : Owned told hand s) (hj : Joined leg call s s') (hnew : leg.brewCallId ∉ hand.map (·.brewCallId)) :
    ∀ leg' ∈ leg :: hand, told leg' ∨ s'.Carries leg' := by
  intro leg' hl
  rcases List.mem_cons.mp hl with rfl | hl
  · exact .inr ⟨call.roster, (hj.roster _).trans (if_pos rfl), hj.takesPart⟩
  · refine (h.carried leg' hl).imp_right fun hc => hc.congr ?_
    rw [hj.roster, if_neg]
    exact fun heq => hnew (List.mem_map.mpr ⟨leg', hl, heq.symm⟩)

theorem legged_join (h : Owned told hand s) (hj : Joined leg call s s') {c : ClientId} (hc : isBridged s' c = true) :
    ∃ leg' ∈ leg :: hand, leg'.virtualClient = c := by
  by_cases hv : leg.virtualClient = c
  · exact ⟨leg, List.mem_cons_self, hv⟩
  · obtain ⟨leg', hl, hv'⟩ := h.legged c ((hj.isBridged_of_ne hv).symm.trans hc)
    exact ⟨leg', List.mem_cons_of_mem _ hl, hv'⟩

theorem members_join (h : Owned told hand s) (hj : Joined leg call s s') {g : UInt32} {c : ClientId}
    (hc : c ∈ s'.members g) :
    (s'.session c).isSome = true ∨ ∃ leg' ∈ leg :: hand, leg'.virtualClient = c ∧ leg'.group = some g := by
  rcases hj.members g c hc with hm | ⟨hg, hv⟩
  · refine (h.members g c hm).imp hj.session ?_
    rintro ⟨leg', hl, hleg⟩
    exact ⟨leg', List.mem_cons_of_mem _ hl, hleg⟩
  · exact .inr ⟨leg, List.mem_cons_self, hv, hg⟩

theorem parties_join (h : Owned told hand s) (hj : Joined leg call s s') {id : Uuid} {r : Roster} {c : ClientId}
    (hr : s'.roster id = some r) (hneeds : r.Needs c) :
    (s'.session c).isSome = true ∨ ∃ leg' ∈ leg :: hand, leg'.brewCallId = id := by
  rw [hj.roster] at hr
  split at hr
  · next hid => exact .inr ⟨leg, List.mem_cons_self, hid⟩
  · refine (h.parties id r c hr hneeds).imp hj.session ?_
    rintro ⟨leg', hl, hcall⟩
    exact ⟨leg', List.mem_cons_of_mem _ hl, hcall⟩

theorem join (h : Owned told hand s) (hj : Joined leg call s s') (hnew : leg.brewCallId ∉ hand.map (·.brewCallId)) :
    Owned told (leg :: hand) s' where
  toLegsHeld := h.toLegsHeld.join hj
  carried := h.carried_join hj hnew
  single := List.nodup_cons.mpr ⟨hnew, h.single⟩
  legged _ := h.legged_join hj
  members _ _ := h.members_join hj
  parties _ _ _ := h.parties_join hj

end Owned

end Handlers

section Turning

variable {cfg : Config} {w : Turns} {task : BridgeTask}

/-- What holds between any two turns, whatever the bridge loses sight of. -/
structure Turns.Steady (w : Turns) : Prop where
  routed : WellRouted w.app.inner
  held : LegsHeld w.hand w.app.inner

theorem Event.allowed_withoutRoute {ev : Event} {a : AppState} (h : ev.Allowed a) : ev.withoutRoute.Allowed a := by
  cases ev with
  | packet env source raw => exact ⟨h.1, h.2.1, trivial⟩
  | _ => exact h

namespace Turns.Steady

theorem of_after {e : Effect} (h : w.Steady) (hw : WellRouted e.inner)
    (hkeep : ∀ c : ClientId, isBridged w.app.inner c = true → isBridged e.inner c = true) : (w.after e).Steady := by
  refine ⟨hw, ?_⟩
  rw [hand_after]
  exact h.held.keep hkeep

theorem event {ev : Event} (h : w.Steady) (hok : ev.Allowed w.app) : (w.next cfg (.event ev)).Steady := by
  have hok' := Event.allowed_withoutRoute hok
  have hstep := @eventStep_joining cfg _ _ hok'
  refine ⟨h.routed.eventStep hok' hstep, ?_⟩
  rw [hand_event]
  exact h.held.keep fun c hc => hstep.isBridged hok' hc

theorem done (h : w.Steady) (htask : task ∈ w.tasks) : (w.done task).Steady :=
  ⟨h.routed, (h.held.perm (hand_done htask)).drop⟩

theorem write {inner : Inner} {callId : String} {leg : BridgedLeg} {call : ActiveCall} (h : w.Steady)
    (hj : Joined leg call w.app.inner inner) : (w.write inner callId leg).Steady :=
  ⟨h.routed.aside hj.joining.aside, (h.held.join hj).perm hand_write.symm⟩

theorem push (h : w.Steady) (hleg : task.leg = none) : (w.push task).Steady := by
  refine ⟨h.routed, ?_⟩
  rw [hand_push hleg]
  exact h.held

theorem work {env : Env} {v : ClientId} {id : Uuid} {rtpPort : Bool} (h : w.Steady)
    (hok : (Turn.work task env v id rtpPort).Allowed w) : (w.next cfg (.work task env v id rtpPort)).Steady := by
  obtain ⟨htask, hfresh⟩ := hok
  have hdone := h.done htask
  have hhand := h.held.perm (hand_done htask)
  cases task with
  | calling callId issi target =>
    cases rtpPort with
    | false => exact hdone
    | true => exact hdone.write (joined_ringIssi hfresh.1)
  | seizing callId g =>
    cases rtpPort with
    | false => exact hdone
    | true => exact hdone.write (joined_seizeFloor hfresh.1)
  | placing callId client brewCallId =>
    cases rtpPort with
    | false => exact hdone
    | true => exact hdone.write (joined_placeOutbound hfresh)
  | bridging callId leg => exact ⟨h.routed, (hhand.perm hand_note).drop⟩
  | ending ended =>
    rw [Turns.next, perform]
    split
    · exact hdone
    · exact hdone.push rfl
  | closing callId =>
    rw [Turns.next, perform]
    split
    · exact hdone
    · next leg hleg => exact ⟨h.routed, hdone.held.perm (hand_close hleg).symm⟩
  | clearing leg => exact ⟨h.routed.aside hhand.aside_removeLeg, hhand.clear⟩

theorem next {t : Turn} (h : w.Steady) (hok : t.Allowed w) : (w.next cfg t).Steady := by
  cases t with
  | event ev => exact h.event hok.2.1
  | expire env id call =>
    have hp := @passive_sweepEnd env w.app.inner id call
    exact h.of_after (h.routed.aside hp.aside) fun c hc => hp.joining.isBridged hc
  | invite env callId issi =>
    rw [Turns.next]
    split
    · exact h
    · split
      · exact h
      · exact h.push rfl
  | inviteGroup callId g =>
    rw [Turns.next]
    split
    · exact h
    · exact h.push rfl
  | bye callId => exact h.push rfl
  | work task env v id rtpPort => exact h.work hok

end Turns.Steady

theorem Turns.steady_start (selfId : UInt64) : (Turns.start selfId).Steady :=
  ⟨(sound_start selfId).routed, fun _ hl => absurd hl List.not_mem_nil, List.nodup_nil⟩

end Turning

end BrewServer
