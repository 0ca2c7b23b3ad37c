import BrewServer.Sip.Legs
import Mathlib.Data.List.Nodup

/-!
# The legs over a run

No turn loses a virtual client as long as none is noted under the Call-ID of a leg,
no call is opened under the id of a leg's call without the virtual client, and no leg
is looked for before it is noted.
-/

namespace BrewServer

open Protocol Fedroute Router Sip

/-- The task is on the way to take the leg down. -/
def BridgeTask.Tells (legs : FinMap String BridgedLeg) (leg : BridgedLeg) : BridgeTask → Prop
  | .ending id => id = leg.brewCallId
  | .closing callId => legs[callId]? = some leg
  | .clearing leg' => leg' = leg
  | .calling .. | .seizing .. | .placing .. | .bridging .. => False

/-- The bridge is told that the call of a leg ended. -/
def Turns.Told (w : Turns) (leg : BridgedLeg) : Prop := ∃ task ∈ w.tasks, task.Tells w.app.legs leg

instance (legs : FinMap String BridgedLeg) (leg : BridgedLeg) (task : BridgeTask) : Decidable (task.Tells legs leg) :=
  match task with
  | .ending id => inferInstanceAs (Decidable (id = leg.brewCallId))
  | .closing callId => inferInstanceAs (Decidable (legs[callId]? = some leg))
  | .clearing leg' => inferInstanceAs (Decidable (leg' = leg))
  | .calling .. | .seizing .. | .placing .. | .bridging .. => isFalse id

instance (w : Turns) (leg : BridgedLeg) : Decidable (w.Told leg) :=
  inferInstanceAs (Decidable (∃ task ∈ w.tasks, task.Tells w.app.legs leg))

instance (s : Inner) (leg : BridgedLeg) : Decidable (s.Carries leg) :=
  decidable_of_iff (((s.roster leg.brewCallId).any fun r =>
    r.owner == leg.virtualClient || r.peers.contains leg.virtualClient) = true) (by
      simp only [Option.any_eq_true, Bool.or_eq_true, beq_iff_eq, Std.ExtTreeSet.contains_iff_mem]
      rfl)

/-- The task takes no leg from its virtual client. -/
def BridgeTask.KeepsLegs (w : Turns) (rtpPort : Bool) : BridgeTask → Prop
  | .placing _ _ id => rtpPort = true → id ∉ w.hand.map (·.brewCallId)
  | .bridging callId _ => callId ∉ w.app.legs
  -- a leg that is not noted yet is not found, and nobody looks for it again
  | .ending id => ∀ leg ∈ w.tasks.filterMap BridgeTask.leg, leg.brewCallId = id →
      (w.done (.ending id)).Told leg ∨ w.app.inner.Carries leg
  | .calling .. | .seizing .. | .closing _ | .clearing _ => True

/-- A turn that takes no leg from its virtual client. -/
def Turn.KeepsLegs (cfg : Config) (w : Turns) : Turn → Prop
  | .event (.packet env source raw) =>
    ∀ leg ∈ w.hand, w.Told leg ∨ keepsLeg cfg (withoutRoute env) w.app.inner source raw leg = true
  | .work task _ _ _ rtpPort => task.KeepsLegs w rtpPort
  | _ => True

instance (w : Turns) (rtpPort : Bool) (task : BridgeTask) : Decidable (task.KeepsLegs w rtpPort) :=
  match task with
  | .placing _ _ id => inferInstanceAs (Decidable (rtpPort = true → id ∉ w.hand.map (·.brewCallId)))
  | .bridging callId _ => inferInstanceAs (Decidable (callId ∉ w.app.legs))
  | .ending id => inferInstanceAs (Decidable (∀ leg ∈ w.tasks.filterMap BridgeTask.leg, leg.brewCallId = id →
      (w.done (.ending id)).Told leg ∨ w.app.inner.Carries leg))
  | .calling .. | .seizing .. | .closing _ | .clearing _ => isTrue trivial

instance (cfg : Config) (w : Turns) (t : Turn) : Decidable (t.KeepsLegs cfg w) :=
  match t with
  | .event (.packet env source raw) => inferInstanceAs (Decidable (∀ leg ∈ w.hand,
      w.Told leg ∨ keepsLeg cfg (withoutRoute env) w.app.inner source raw leg = true))
  | .work task _ _ _ rtpPort => inferInstanceAs (Decidable (task.KeepsLegs w rtpPort))
  | .event (.connect ..) | .event (.disconnect _) | .event (.alarm _) | .event (.sweep _) | .event (.smsDeliver ..)
  | .event (.advertiseBts ..) | .event (.advertiseEmergency ..) | .event (.sipPrivate ..) | .event (.sipGroup ..)
  | .event (.sipEnd _) | .expire .. | .invite .. | .inviteGroup .. | .bye _ => isTrue trivial

/-- What holds of the bridge whenever no handler runs. -/
structure LegsSound (a : AppState) : Prop where
  client : ∀ c : ClientId, isBridged a.inner c = true →
    ∃! callId : String, ∃ leg : BridgedLeg, a.legs[callId]? = some leg ∧ leg.virtualClient = c
  call : ∀ (callId : String) (leg : BridgedLeg), a.legs[callId]? = some leg →
    ∃ call : ActiveCall, a.inner.calls[leg.brewCallId]? = some call ∧ call.isParty leg.virtualClient
  /-- With no call there is no leg. -/
  ended : a.inner.calls = ∅ → a.legs = ∅
  /-- With no leg, all that is left belongs to sessions. -/
  nothing : a.legs = ∅ →
    (∀ c : ClientId, isBridged a.inner c = false) ∧
      (∀ (g : UInt32) (c : ClientId), c ∈ a.inner.members g → (a.inner.session c).isSome = true) ∧
      ∀ (id : Uuid) (call : ActiveCall), a.inner.calls[id]? = some call →
        (a.inner.session call.owner).isSome = true ∧
          (call.kind = .«private» → ∀ p ∈ call.peers, (a.inner.session p).isSome = true)

section Steps

variable {cfg : Config} {env : Env} {a : AppState} {source : ClientId} {id : Uuid} {raw : Bytes}
  {told : BridgedLeg → Prop} {hand : List BridgedLeg}

/-- A packet that lets no virtual client join makes none of a session. -/
theorem isBridged_packetStep {s s' : Inner} {sends : Sends} (h : PacketStep Passive s env source raw s' sends)
    (c : ClientId) : isBridged s' c = isBridged s c := by
  have hkeep : ∀ {s₁ s₂ : Inner}, Passive s s₁ [] → s₂.clients = s₁.clients → isBridged s₂ c = isBridged s c := by
    intro s₁ s₂ hbefore heq
    refine isBridged_congr ?_
    rw [heq]
    exact hbefore.routes.kinds c
  cases h with
  | aside h => exact isBridged_congr (h.routes.kinds c)
  | @subscriber s₁ msg v d before parsed =>
    refine hkeep before ?_
    rcases handleSubscriber_cases s₁ env.nowMs source msg with heq | ⟨ticked, new, groups, -, hentry, heq⟩
    · rw [heq]
    · rw [heq]
      exact (lateEntry_same _ source groups).2.1.trans (hentry.registers.trans registers_applyEntry).clients
  | @route s₁ nbrId issi a before link parsed fed =>
    refine hkeep before ?_
    rw [receiveRoute_eq.1]
    exact (registers_takeOffer.trans registers_reroute).clients
  | @withdraw s₁ nbrId issi before link parsed fed => exact hkeep before registers_receiveWithdraw.clients

/-- Whoever a call of a packet cannot go on without was so before, or is a session. -/
theorem needs_routePacket (hw : WellRouted a.inner) (hok : (Event.packet env source raw).Allowed a)
    (hsip : env.sip.placement = none) {k : Uuid} {r : Roster} {c : ClientId}
    (hr : (routePacket cfg env a.inner source raw).inner.roster k = some r) (hneeds : r.Needs c) :
    (a.inner.session c).isSome = true ∨ ∃ r', a.inner.roster k = some r' ∧ r'.Needs c := by
  have hsession := WellRouted.session_of_allowed hok
  cases @callStep_routePacket cfg env a.inner source raw with
  | continues h => exact .inr (h.needs hr hneeds)
  | @group t cc gt before continues arrives state payload accepted opened =>
    rw [opened, roster_installGroupTx] at hr
    split at hr
    · cases hr
      rcases hneeds with rfl | ⟨hkind, -⟩
      · exact .inl hsession
      · cases hkind
    · rw [roster_freeFloor] at hr
      split at hr
      · cases hr
      · exact .inr (continues.needs hr hneeds)
  | @setup t cc req call before continues arrives state payload accepted opened =>
    rw [roster_setUp opened] at hr
    split at hr
    · cases hr
      rcases hneeds with rfl | ⟨-, hpeer⟩
      · change (a.inner.session call.owner).isSome = true ∨ _
        rw [opened.owner]
        exact .inl hsession
      · rcases opened.party with ⟨issi, sub, hsub, hpeers, -⟩ | ⟨callId, v, hplaced, -⟩
        · change c ∈ call.peers at hpeer
          rw [hpeers, FinSet.mem_ofList, List.mem_singleton] at hpeer
          rw [before.routes.subscribers] at hsub
          exact .inl (hpeer ▸ (hw.entry issi sub hsub).session)
        · rw [hplaced] at hsip
          cases hsip
    · exact .inr (continues.needs hr hneeds)

/-- A packet that finds no route to SIP. -/
theorem Owned.packet (h : Owned told hand a.inner) (hw : WellRouted a.inner)
    (hok : (Event.packet env source raw).Allowed a) (hsip : env.sip.placement = none)
    (hkeeps : ∀ leg ∈ hand, told leg ∨ keepsLeg cfg env a.inner source raw leg = true) :
    Owned (fun leg => told leg ∨ leg.brewCallId ∈ (routePacket cfg env a.inner source raw).ended) hand
      (routePacket cfg env a.inner source raw).inner := by
  have hsession := WellRouted.session_of_allowed hok
  have hstep : PacketStep Passive a.inner env source raw (routePacket cfg env a.inner source raw).inner
      (routePacket cfg env a.inner source raw).sends := packetStep_passive hsip
  have hgains := gains_packetStep Gains.of_passive hw hsession hstep
  refine h.of_effect (fun _ => True) (isBridged_packetStep hstep) (fun leg hl => ?_) (fun c _ hs => ?_)
    (fun g c hm => (hgains.members g c hm).imp_left fun hm => ⟨hm, trivial⟩) fun k r c hr hneeds => ?_
  · refine (hkeeps leg hl).imp_right fun hkept => carried_routePacket ?_ hkept
    rintro rfl
    have hvirtual := h.virtual leg hl
    rw [hok.2.1] at hvirtual
    cases hvirtual
  · rw [hgains.sessions]
    exact hs
  · rw [hgains.sessions]
    exact (needs_routePacket hw hok hsip hr hneeds).imp_right fun hold => ⟨trivial, hold⟩

theorem Owned.connect (h : Owned told hand a.inner) {client : Client} {neighbour : Option UInt64} {console : Bool}
    (hok : (Event.connect source client neighbour console).Allowed a) :
    Owned (fun leg => told leg ∨ leg.brewCallId ∈ []) hand (openSession a.inner source client neighbour console).1 := by
  have hjoined := @session_openSession a.inner source client neighbour console hok.2.1
  have hkind : ∀ c, source ≠ c → ((openSession a.inner source client neighbour console).1.clients[c]?).map Client.kind =
      (a.inner.clients[c]?).map Client.kind := by
    intro c hc
    rw [clients_openSession, FinMap.getElem?_insert, if_neg hc]
  have hgroups : (openSession a.inner source client neighbour console).1.groupClients = a.inner.groupClients := by
    unfold openSession attachClient
    cases neighbour <;> cases console <;> rfl
  have hrosters := fun k => Inner.roster_congr (@calls_openSession a.inner source client neighbour console) k
  refine h.of_effect (e := { inner := (openSession a.inner source client neighbour console).1 }) (fun _ => True)
    (fun c => ?_) (fun _ _ => .inr (.of_roster (hrosters _))) (fun c _ hs => ?_) (fun g c hm => .inl ⟨?_, trivial⟩)
    fun k r c hr hneeds => .inr ⟨trivial, r, (hrosters k).symm.trans hr, hneeds⟩
  · by_cases hc : source = c
    · subst hc
      have hbefore : isBridged a.inner source = false := by
        rw [isBridged, Std.ExtTreeMap.getElem?_eq_none hok.1]
        rfl
      rw [hbefore, ← Bool.not_eq_true]
      intro hafter
      rw [session_of_bridged hafter] at hjoined
      cases hjoined
    · exact isBridged_congr (hkind c hc)
  · by_cases hc : source = c
    · rw [← hc, hjoined]
      rfl
    · rw [session_congr (hkind c hc)]
      exact hs
  · rw [Inner.members, ← hgroups]
    exact hm

theorem Roster.depart_needs {r r' : Roster} {c : ClientId} (h : r.depart source = some r') (hneeds : r'.Needs c) :
    c ≠ source ∧ r.Needs c := by
  unfold Roster.depart at h
  split at h
  · split at h
    · next hlisten =>
      cases h
      rcases hneeds with rfl | ⟨hkind, -⟩
      · exact ⟨hlisten.2, .inl rfl⟩
      · cases hlisten.1.symm.trans hkind
    · cases h
  · next hno =>
    cases h
    refine ⟨?_, hneeds⟩
    rintro rfl
    exact hno (hneeds.imp_right And.right)

/-- A session closes. -/
theorem Owned.disconnect (h : Owned told hand a.inner) (hw : WellRouted a.inner)
    (hok : (Event.disconnect source).Allowed a) :
    Owned (fun leg => told leg ∨ leg.brewCallId ∈ (cleanupClient a.inner source).ended) hand
      (cleanupClient a.inner source).inner := by
  have hkind : ∀ c, c ≠ source → ((cleanupClient a.inner source).inner.clients[c]?).map Client.kind =
      (a.inner.clients[c]?).map Client.kind := by
    intro c hc
    rw [clients_cleanupClient, FinMap.getElem?_erase, if_neg (Ne.symm hc)]
  refine h.of_effect (fun c => c ≠ source) (fun c => ?_) (fun leg hl => .inr (carried_cleanupClient ?_))
    (fun c hc hs => ?_) (fun g c hm => members_cleanupClient hw hm) fun k r c hr hneeds => .inr ?_
  · by_cases hc : c = source
    · subst hc
      rw [hok.2, isBridged, clients_cleanupClient, FinMap.getElem?_erase, if_pos rfl]
      rfl
    · exact isBridged_congr (hkind c hc)
  · rintro rfl
    have hvirtual := h.virtual leg hl
    rw [hok.2] at hvirtual
    cases hvirtual
  · rw [session_congr (hkind c hc)]
    exact hs
  · rw [roster_cleanupClient] at hr
    obtain ⟨r', hr', hdepart⟩ := Option.bind_eq_some_iff.mp hr
    obtain ⟨hc, hneeds'⟩ := Roster.depart_needs hdepart hneeds
    exact ⟨hc, r', hr', hneeds'⟩

end Steps

/-! ## The turns -/

section Turning

variable {cfg : Config} {w w' : Turns} {task : BridgeTask} {leg : BridgedLeg} {callId : String} {id : Uuid} {env : Env}
  {v : ClientId} {brewCallId : Uuid} {rtpPort : Bool}

namespace Turns

/-- Nothing that the bridge was told is forgotten. -/
theorem Told.mono (h : w.Told leg) (hlegs : w'.app.legs = w.app.legs) (htasks : ∀ t ∈ w.tasks, t ∈ w'.tasks) :
    w'.Told leg := by
  obtain ⟨task, htask, htells⟩ := h
  exact ⟨task, htasks task htask, hlegs ▸ htells⟩

/-- A task is done that told nothing of the leg. -/
theorem Told.done (h : w.Told leg) (hno : ¬ task.Tells w.app.legs leg) : (w.done task).Told leg := by
  obtain ⟨t, ht, htells⟩ := h
  refine ⟨t, (List.mem_erase_of_ne ?_).mpr ht, htells⟩
  rintro rfl
  exact hno htells

/-- Every virtual client has its leg, between any two turns. -/
def Kept (w : Turns) : Prop := Owned w.Told w.hand w.app.inner

theorem Kept.of_after {e : Effect} (h : Owned (fun leg => w.Told leg ∨ leg.brewCallId ∈ e.ended) w.hand e.inner) :
    (w.after e).Kept := by
  rw [Kept, hand_after]
  refine h.hears fun leg _ htold => .inl ?_
  rcases htold with htold | hended
  · exact htold.mono rfl fun t ht => List.mem_append_right _ ht
  · exact ⟨.ending leg.brewCallId, List.mem_append_left _ (List.mem_map.mpr ⟨_, hended, rfl⟩), rfl⟩

theorem Kept.append (h : w.Kept) (tasks : List BridgeTask) (hlegs : ∀ t ∈ tasks, t.leg = none) :
    ({ w with tasks := tasks ++ w.tasks } : Turns).Kept := by
  rw [Kept, hand_append hlegs]
  exact Owned.hears h fun leg _ htold => .inl (htold.mono rfl fun t ht => List.mem_append_right _ ht)

theorem Kept.push (h : w.Kept) (hleg : task.leg = none) : (w.push task).Kept :=
  h.append [task] fun _ ht => List.mem_singleton.mp ht ▸ hleg

/-- A task without a leg is done that told nothing. -/
theorem Kept.done (h : w.Kept) (htask : task ∈ w.tasks) (hleg : task.leg = none)
    (hno : ∀ leg ∈ w.hand, task.Tells w.app.legs leg → (w.done task).Told leg ∨ w.app.inner.Carries leg) :
    (w.done task).Kept := by
  have hhand : w.hand.Perm (w.done task).hand := by simpa [hleg] using hand_done htask
  refine (Owned.hears h fun leg hl htold => ?_).perm hhand
  by_cases htells : task.Tells w.app.legs leg
  · exact hno leg hl htells
  · exact .inl (htold.done htells)

theorem Kept.write {inner : Inner} {call : ActiveCall} (h : w.Kept) (hj : Joined leg call w.app.inner inner)
    (hnew : leg.brewCallId ∉ w.hand.map (·.brewCallId)) : (w.write inner callId leg).Kept := by
  refine ((Owned.join h hj hnew).perm hand_write.symm).hears fun leg' _ htold => .inl ?_
  exact htold.mono rfl fun t ht => List.mem_cons_of_mem _ ht

theorem Kept.event {ev : Event} (h : w.Kept) (hw : w.Steady) (hok : ev.Allowed w.app)
    (hkeeps : (Turn.event ev).KeepsLegs cfg w) : (w.next cfg (.event ev)).Kept := by
  refine Kept.append (w := w.after (routeEvent cfg w.app.inner ev.withoutRoute)) (.of_after ?_) _
    fun _ ht => leg_of_mem_outbound ht
  have hok' := Event.allowed_withoutRoute hok
  cases ev with
  | connect id client neighbour console => exact Owned.connect h hok
  | packet env source raw => exact Owned.packet h hw.routed hok' rfl hkeeps
  | disconnect id => exact Owned.disconnect h hw.routed hok
  | alarm issi => exact Owned.of_passive h passive_emergencyRaised continues_emergencyRaised fun _ _ => carried_emergencyRaised
  | smsDeliver env id src dest lengthBits data =>
    exact Owned.of_passive h passive_deliverStored continues_deliverStored
      fun _ _ => .of_roster (offCall_deliverStored.rosters _)
  | advertiseBts nowMs key name lat lon online =>
    exact Owned.of_passive h passive_advertiseBts fedOnly_advertiseBts.continues
      fun _ _ => .of_roster (offCall_advertiseBts.rosters _)
  | advertiseEmergency nowMs issi dest bts active =>
    exact Owned.of_passive h passive_advertiseEmergency fedOnly_advertiseEmergency.continues
      fun _ _ => .of_roster (offCall_advertiseEmergency.rosters _)
  | sweep | sipPrivate | sipGroup | sipEnd =>
    exact Owned.of_passive h (.refl _) (.refl _) fun _ _ => .of_roster rfl

/-- A leg is noted under a Call-ID that has none. -/
theorem Kept.note (h : w.Kept) (htask : .bridging callId leg ∈ w.tasks) (hfree : callId ∉ w.app.legs) :
    ({ w.done (.bridging callId leg) with
        app := { w.app with legs := w.app.legs.insert callId leg } } : Turns).Kept := by
  have hnote := @hand_note (w.done (.bridging callId leg)) callId leg
  have hnone : (w.done (.bridging callId leg)).app.legs[callId]? = none := Std.ExtTreeMap.getElem?_eq_none hfree
  rw [hnone] at hnote
  refine (Owned.hears h fun leg' _ htold => .inl ?_).perm ((hand_done htask).trans hnote)
  obtain ⟨t, ht, htells⟩ : (w.done (.bridging callId leg)).Told leg' := htold.done id
  refine ⟨t, ht, ?_⟩
  cases t with
  | closing callId' =>
    have hleg : w.app.legs[callId']? = some leg' := htells
    have hne : callId ≠ callId' := by
      rintro rfl
      exact hfree (FinMap.mem_of_getElem? hleg)
    exact (FinMap.getElem?_insert.trans (if_neg hne)).trans hleg
  | _ => exact htells

/-- An ended call is looked for: its leg is found, or none was noted. -/
theorem Kept.find (h : w.Kept) (htask : .ending id ∈ w.tasks)
    (hkeeps : BridgeTask.KeepsLegs w rtpPort (.ending id)) :
    ((w.done (.ending id)).perform env v brewCallId rtpPort (.ending id)).Kept := by
  rw [perform]
  split
  · next hnone =>
    refine h.done htask rfl fun leg hl hid => ?_
    rcases List.mem_append.mp hl with hl | hl
    · obtain ⟨e, he, rfl⟩ := List.mem_map.mp hl
      exact absurd (decide_eq_true (Eq.symm hid)) (List.find?_eq_none.mp hnone e he)
    · exact hkeeps leg hl hid.symm
  · next callId found hfind =>
    have hfound : w.app.legs[callId]? = some found := FinMap.mem_toList.mp (List.mem_of_find?_eq_some hfind)
    have hmatches := List.find?_some hfind
    have hid : found.brewCallId = id := of_decide_eq_true hmatches
    have hhand : w.hand.Perm ((w.done (.ending id)).push (.closing callId)).hand := by
      rw [hand_push rfl]
      exact hand_done htask
    refine (Owned.hears h fun leg hl htold => .inl ?_).perm hhand
    by_cases hmine : id = leg.brewCallId
    · have hsame : found = leg :=
        List.inj_on_of_nodup_map h.single (mem_hand_of_legs hfound) hl (hid.trans hmine)
      exact ⟨.closing callId, List.mem_cons_self, hfound.trans (congrArg some hsame)⟩
    · have htells : (w.done (.ending id)).Told leg := htold.done hmine
      exact htells.mono rfl fun t ht => List.mem_cons_of_mem _ ht

/-- A leg is taken out of the legs, and clears the tables later. -/
theorem Kept.close (h : w.Kept) (htask : .closing callId ∈ w.tasks) :
    ((w.done (.closing callId)).perform env v brewCallId rtpPort (.closing callId)).Kept := by
  rw [perform]
  split
  · next hnone =>
    refine h.done htask rfl fun leg _ htells => ?_
    have hleg : w.app.legs[callId]? = some leg := htells
    exact absurd (hleg.symm.trans hnone) (Option.some_ne_none _)
  · next closed hclosed =>
    have hold : w.app.legs[callId]? = some closed := hclosed
    have hhand := (hand_done htask).trans (hand_close (w := w.done (.closing callId)) hclosed).symm
    refine (Owned.hears h fun leg _ htold => .inl ?_).perm hhand
    by_cases hmine : leg = closed
    · exact ⟨.clearing closed, List.mem_cons_self, hmine.symm⟩
    · have hother : ∀ callId' : String, w.app.legs[callId']? = some leg → callId ≠ callId' := by
        rintro callId' hleg rfl
        exact hmine (Option.some.inj (hleg.symm.trans hold))
      obtain ⟨t, ht, htells⟩ : (w.done (.closing callId)).Told leg := htold.done fun hleg => hother callId hleg rfl
      refine ⟨t, List.mem_cons_of_mem _ ht, ?_⟩
      cases t with
      | closing callId' => exact (FinMap.getElem?_erase.trans (if_neg (hother callId' htells))).trans htells
      | _ => exact htells

/-- The tables are cleared of a leg. -/
theorem Kept.clear (h : w.Kept) (htask : .clearing leg ∈ w.tasks) :
    ({ w.done (.clearing leg) with app := { w.app with inner := (removeLeg w.app.inner leg).1 } } : Turns).Kept := by
  have hperm : Owned w.Told (leg :: (w.done (.clearing leg)).hand) w.app.inner := Owned.perm h (hand_done htask)
  refine hperm.clear.hears fun leg' hl htold => .inl (htold.done ?_)
  rintro rfl
  exact hperm.ne_of_mem hl rfl

theorem Kept.work (h : w.Kept) (hok : (Turn.work task env v brewCallId rtpPort).Allowed w)
    (hkeeps : task.KeepsLegs w rtpPort) : (w.next cfg (.work task env v brewCallId rtpPort)).Kept := by
  obtain ⟨htask, hfresh⟩ := hok
  cases task with
  | calling callId issi target =>
    have hdone := h.done htask rfl fun _ _ => False.elim
    cases rtpPort with
    | false => exact hdone
    | true => exact hdone.write (joined_ringIssi hfresh.1) fun hm => hfresh.2.2 (((hand_done htask).map _).mem_iff.mpr hm)
  | seizing callId g =>
    have hdone := h.done htask rfl fun _ _ => False.elim
    cases rtpPort with
    | false => exact hdone
    | true => exact hdone.write (joined_seizeFloor hfresh.1) fun hm => hfresh.2.2 (((hand_done htask).map _).mem_iff.mpr hm)
  | placing callId client id =>
    have hdone := h.done htask rfl fun _ _ => False.elim
    cases rtpPort with
    | false => exact hdone
    | true =>
      exact hdone.write (joined_placeOutbound hfresh) fun hm => hkeeps rfl (((hand_done htask).map _).mem_iff.mpr hm)
  | bridging callId leg => exact h.note htask hkeeps
  | ending id => exact @find w id env v brewCallId rtpPort h htask hkeeps
  | closing callId => exact @close w callId env v brewCallId rtpPort h htask
  | clearing leg => exact h.clear htask

/-- One turn. -/
theorem Kept.next {t : Turn} (h : w.Kept) (hw : w.Steady) (hok : t.Allowed w) (hkeeps : t.KeepsLegs cfg w) :
    (w.next cfg t).Kept := by
  cases t with
  | event ev => exact h.event hw hok.2.1 hkeeps
  | expire env id call =>
    exact .of_after (Owned.of_passive h passive_sweepEnd continues_endCall fun _ _ => carried_endCall)
  | invite env callId issi =>
    rw [Turns.next]
    split
    · exact h
    · split
      · exact h
      · exact h.push rfl
  | inviteGroup callId g =>
    rw [Turns.next]
    split
    · exact h
    · exact h.push rfl
  | bye callId => exact h.push rfl
  | work task env v id rtpPort => exact h.work hok hkeeps

theorem kept_start (selfId : UInt64) : (Turns.start selfId).Kept := by
  have hnone : ∀ {V : Type} {K : Type} [Ord K] [Std.TransOrd K] [Std.LawfulEqOrd K] {k : K} {v : V},
      (∅ : FinMap K V)[k]? ≠ some v := by
    intro V K _ _ _ k v h
    rw [Std.ExtTreeMap.getElem?_empty] at h
    cases h
  refine ⟨(steady_start selfId).held, fun _ hl => absurd hl List.not_mem_nil, List.nodup_nil, fun c h => ?_,
    fun g c h => ?_, fun id r c h => ?_⟩
  · obtain ⟨client, hclient, -⟩ := Option.map_eq_some_iff.mp (isBridged_iff.mp h)
    exact absurd hclient hnone
  · obtain ⟨m, hm, -⟩ := mem_membersOf.mp h
    exact absurd hm hnone
  · obtain ⟨call, hcall, -⟩ := Inner.roster_eq_some.mp h
    exact absurd hcall hnone

/-- With no handler under way, the legs in hand are those that are noted. -/
theorem mem_hand_of_rest (hrest : w.tasks = []) : leg ∈ w.hand ↔ ∃ callId : String, w.app.legs[callId]? = some leg := by
  rw [hand, hrest, List.filterMap_nil, List.append_nil, List.mem_map]
  constructor
  · rintro ⟨e, he, rfl⟩
    exact ⟨e.1, FinMap.mem_toList.mp he⟩
  · rintro ⟨callId, hl⟩
    exact ⟨(callId, leg), FinMap.mem_toList.mpr hl, rfl⟩

/-- A virtual client has one Call-ID. -/
theorem callId_unique (h : LegsHeld w.hand w.app.inner) {callId callId' : String} {leg leg' : BridgedLeg}
    (hl : w.app.legs[callId]? = some leg) (hl' : w.app.legs[callId']? = some leg')
    (hv : leg.virtualClient = leg'.virtualClient) : callId = callId' := by
  have hnodup : (w.app.legs.toList.map fun e => e.2.virtualClient).Nodup := by
    have hall := h.distinct
    rw [hand, List.map_append] at hall
    have hleft := (List.nodup_append.mp hall).1
    rwa [List.map_map] at hleft
  exact congrArg Prod.fst (List.inj_on_of_nodup_map hnodup (FinMap.mem_toList.mpr hl) (FinMap.mem_toList.mpr hl') hv)

theorem Kept.legsSound (h : w.Kept) (hrest : w.tasks = []) : LegsSound w.app := by
  have hempty : w.app.legs = ∅ → ∀ leg : BridgedLeg, leg ∉ w.hand := by
    intro hnone leg hl
    obtain ⟨callId, hl⟩ := (mem_hand_of_rest hrest).mp hl
    rw [hnone, Std.ExtTreeMap.getElem?_empty] at hl
    cases hl
  have hcall : ∀ (callId : String) (leg : BridgedLeg), w.app.legs[callId]? = some leg →
      ∃ call : ActiveCall, w.app.inner.calls[leg.brewCallId]? = some call ∧ call.isParty leg.virtualClient := by
    intro callId leg hl
    obtain ⟨r, hr, hhas⟩ := (h.carried leg (mem_hand_of_legs hl)).resolve_left (by
      rintro ⟨task, htask, -⟩
      rw [hrest] at htask
      cases htask)
    obtain ⟨call, hcall, rfl⟩ := Inner.roster_eq_some.mp hr
    exact ⟨call, hcall, hhas.imp_left Eq.symm⟩
  refine ⟨fun c hc => ?_, hcall, fun hended => ?_, fun hnone => ⟨fun c => ?_, fun g c hc => ?_, fun id call hlive => ?_⟩⟩
  · obtain ⟨leg, hl, hv⟩ := h.legged c hc
    obtain ⟨callId, hl⟩ := (mem_hand_of_rest hrest).mp hl
    refine ⟨callId, ⟨leg, hl, hv⟩, ?_⟩
    rintro callId' ⟨leg', hl', hv'⟩
    exact callId_unique h.toLegsHeld hl' hl (hv'.trans hv.symm)
  · refine FinMap.ext fun callId => ?_
    rw [Std.ExtTreeMap.getElem?_empty]
    cases hl : w.app.legs[callId]? with
    | none => rfl
    | some leg =>
      obtain ⟨call, hlive, -⟩ := hcall callId leg hl
      rw [hended, Std.ExtTreeMap.getElem?_empty] at hlive
      cases hlive
  · rw [← Bool.not_eq_true]
    intro hc
    obtain ⟨leg, hl, -⟩ := h.legged c hc
    exact hempty hnone leg hl
  · rcases h.members g c hc with hs | ⟨leg, hl, -⟩
    · exact hs
    · exact absurd hl (hempty hnone leg)
  · have hneeds : ∀ c, call.roster.Needs c → (w.app.inner.session c).isSome = true := by
      intro c hneeds
      rcases h.parties id call.roster c (Inner.roster_of_call hlive) hneeds with hs | ⟨leg, hl, -⟩
      · exact hs
      · exact absurd hl (hempty hnone leg)
    exact ⟨hneeds call.owner (.inl rfl), fun hkind p hp => hneeds p (.inr ⟨hkind, hp⟩)⟩

end Turns

/-- The legs are sound whenever no handler is under way, in every run that takes no leg
from its virtual client. -/
theorem legsSound_of_reach {selfId : UInt64} (h : Reach (Turns.start selfId)
    (fun w t => t.Allowed w ∧ t.KeepsLegs cfg w) (Turns.next cfg) w) (hrest : w.tasks = []) : LegsSound w.app := by
  have hsteady : ∀ w, Reach (Turns.start selfId) (fun w t => t.Allowed w ∧ t.KeepsLegs cfg w) (Turns.next cfg) w →
      w.Steady := fun w h => h.invariant (Turns.steady_start selfId) fun _ _ hs hok => hs.next hok.1
  exact (h.invariant_of hsteady (Turns.kept_start selfId) fun _ _ hs hk hok => hk.next hs hok.1 hok.2).legsSound hrest

end Turning

/-- ISSI 2001 is registered on connection 1, and an INVITE calls it. -/
def invited : List Turn :=
  [.event (.connect 1 (.accepted .terminal) none false),
    .event (.packet (.plain 5) 1 (buildSubscriberMessage subRegister 2001 [])), .invite (.plain 6) "a@sip" 2001,
    .work (.calling "a@sip" 2001 1) (.plain 6) 10 20 true, .work (.bridging "a@sip" ⟨10, 20, none⟩) (.plain 6) 0 0 true]

theorem legsSound_invited :
    LegsSound (invited.foldl (Turns.next {}) (.start 9)).app ∧
      (invited.foldl (Turns.next {}) (.start 9)).app.legs["a@sip"]? = some ⟨10, 20, none⟩ := by
  have hrun : Reach (Turns.start 9) (fun w t => t.Allowed w ∧ t.KeepsLegs {} w) (Turns.next {})
      (invited.foldl (Turns.next {}) (.start 9)) := .of_list invited .init (by decide +kernel)
  exact ⟨legsSound_of_reach hrun (by decide +kernel), by decide +kernel⟩

/-- The INVITE comes again. -/
def invitedTwice : List Turn :=
  invited ++ [.invite (.plain 7) "a@sip" 2001, .work (.calling "a@sip" 2001 1) (.plain 7) 11 21 true,
    .work (.bridging "a@sip" ⟨11, 21, none⟩) (.plain 7) 0 0 true]

/-- The leg of the first one is overwritten. -/
theorem not_legsSound_invitedTwice :
    ¬ ∀ (cfg : Config) (selfId : UInt64) (w : Turns),
      Reach (Turns.start selfId) (fun w t => t.Allowed w) (Turns.next cfg) w → w.tasks = [] → LegsSound w.app := by
  intro hall
  have hrun : Reach (Turns.start 9) (fun w t => t.Allowed w) (Turns.next {})
      (invitedTwice.foldl (Turns.next {}) (.start 9)) := .of_list invitedTwice .init (by decide +kernel)
  obtain ⟨callId, ⟨leg, hl, hv⟩, -⟩ := (hall {} 9 _ hrun (by decide +kernel)).client 10 (by decide +kernel)
  have hlegs : (invitedTwice.foldl (Turns.next {}) (.start 9)).app.legs.toList = [("a@sip", ⟨11, 21, none⟩)] := by
    decide +kernel
  have hmem := FinMap.mem_toList.mpr hl
  rw [hlegs] at hmem
  cases List.mem_singleton.mp hmem
  exact absurd hv (by decide)

end BrewServer
