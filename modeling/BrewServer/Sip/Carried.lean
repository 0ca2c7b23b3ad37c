import BrewServer.Audience

/-!
# The call of a leg

A leg's virtual client takes part in the leg's call until the call ends, and then
the bridge is told. Only a packet that opens a call under the same id can take the
call away from the virtual client.
-/

namespace BrewServer

open Protocol Fedroute Router Sip

/-- The virtual client of a leg takes part in its call. -/
def Inner.Carries (s : Inner) (leg : BridgedLeg) : Prop :=
  ∃ r : Roster, s.roster leg.brewCallId = some r ∧ r.Has leg.virtualClient

/-- What a handler leaves of a leg: its call goes on with the virtual client, or
the bridge is told that it ended. -/
def Carried (leg : BridgedLeg) (s : Inner) (e : Effect) : Prop :=
  s.Carries leg → leg.brewCallId ∈ e.ended ∨ e.inner.Carries leg

section Handlers

variable {cfg : Config} {env : Env} {s t : Inner} {source : ClientId} {id : Uuid} {raw : Bytes} {leg : BridgedLeg}
  {e : Effect}

theorem Inner.Carries.congr (h : s.Carries leg) (hr : t.roster leg.brewCallId = s.roster leg.brewCallId) :
    t.Carries leg := by
  unfold Inner.Carries
  rw [hr]
  exact h

theorem Carried.of_roster (h : e.inner.roster leg.brewCallId = s.roster leg.brewCallId) : Carried leg s e :=
  fun hc => .inr (hc.congr h)

/-- A roster that keeps the virtual client keeps the leg. -/
theorem Carried.of_grow (h : ∀ r, s.roster leg.brewCallId = some r → r.Has leg.virtualClient →
    ∃ r', e.inner.roster leg.brewCallId = some r' ∧ r'.Has leg.virtualClient) : Carried leg s e := by
  rintro ⟨r, hr, hhas⟩
  exact .inr (h r hr hhas)

theorem Carried.after (h : Carried leg t e) (hoff : OffCall s t []) : Carried leg s e :=
  fun hc => h (hc.congr (hoff.rosters _))

theorem carried_endCall : Carried leg s (endCall env s source id raw) := by
  unfold endCall
  cases hcall : s.calls[id]? with
  | none => exact .of_roster rfl
  | some call =>
    dsimp only
    split
    · exact .of_roster rfl
    · split
      · exact .of_roster rfl
      · intro hc
        by_cases hid : id = leg.brewCallId
        · exact .inl (hid ▸ List.mem_cons_self)
        · refine .inr (hc.congr ?_)
          exact (roster_removeCall leg.brewCallId).trans (if_neg hid)

theorem ended_handleGroupTx {gt : GroupTransmission} (h : acceptsGroupTx cfg env s source id gt = true) :
    (handleGroupTx cfg env s source id (.groupTransmission gt) raw).ended =
      (floorHolder cfg s id gt).toList.map (·.1) := by
  rw [acceptsGroupTx, Bool.and_eq_true, Bool.and_eq_true, Bool.not_eq_true', Bool.not_eq_true'] at h
  obtain ⟨⟨hblocked, hnew⟩, hwins⟩ := h
  unfold handleGroupTx
  dsimp only
  rw [hblocked, hnew]
  cases hholder : floorHolder cfg s id gt with
  | none => rfl
  | some holder =>
    rw [hholder] at hwins
    have hwin : wins cfg gt holder.2 = true := hwins
    simp [hwin]

/-- Whether a group transmission leaves a leg its call: it is another call, or its
targets include the virtual client. -/
def sparesLeg (cfg : Config) (env : Env) (s : Inner) (source : ClientId) (id : Uuid) (gt : GroupTransmission)
    (leg : BridgedLeg) : Bool :=
  id != leg.brewCallId || (groupTargets cfg (freeFloor cfg s id gt) source id gt
    (isEmergencyCall env gt.source gt.priority)).contains leg.virtualClient

theorem carried_handleGroupTx {payload : CallPayload}
    (hspares : ∀ gt, payload = .groupTransmission gt → acceptsGroupTx cfg env s source id gt = true →
      sparesLeg cfg env s source id gt leg = true) :
    Carried leg s (handleGroupTx cfg env s source id payload raw) := by
  rcases handleGroupTx_cases cfg env s source id payload raw with hsame | ⟨gt, rfl, haccepted, hinner⟩
  · exact .of_roster (by rw [hsame])
  · intro hc
    rw [ended_handleGroupTx haccepted, Inner.Carries, hinner, roster_installGroupTx]
    by_cases hid : id = leg.brewCallId
    · refine .inr ⟨_, if_pos hid, .inr ?_⟩
      have hspares := hspares gt rfl haccepted
      rw [sparesLeg, bne_eq_false_iff_eq.mpr hid, Bool.false_or, Std.ExtTreeSet.contains_iff_mem] at hspares
      exact hspares
    · rw [if_neg hid, roster_freeFloor]
      cases hholder : floorHolder cfg s id gt with
      | none => exact .inr hc
      | some holder =>
        by_cases hk : holder.1 = leg.brewCallId
        · refine .inl ?_
          rw [← hk]
          exact List.mem_cons_self
        · rw [Option.any_some, if_neg fun h => hk (beq_iff_eq.mp h)]
          exact .inr hc

theorem carried_handlePrivateSetup {payload : CallPayload}
    (hnew : ∀ req, setupRequest payload = some req → acceptsSetup env s source id req = true → id ≠ leg.brewCallId) :
    Carried leg s (handlePrivateSetup env s source id payload raw) := by
  rcases handlePrivateSetup_calls env s source id payload raw with hsame | ⟨src, hsame⟩ | ⟨req, call, hreq, hacc, hset⟩
  · exact .of_roster (by rw [hsame])
  · refine .of_roster ?_
    rw [hsame]
    exact offCall_noteCall.rosters _
  · refine .of_roster ?_
    rw [roster_setUp hset, if_neg (hnew req hreq hacc)]

theorem carried_routePrivateControl (hraw : signal raw = none) :
    Carried leg s (routePrivateControl env s source id raw) := by
  rcases @routePrivateControl_cases env s source id raw hraw with ⟨heq, -⟩ | hoff
  · rw [heq]
    exact carried_endCall
  · exact .of_roster (hoff.rosters _)

theorem carried_frame {f : FrameMessage} (hraw : signal raw = (frameSignal f.frameType).map fun sig => (sig, f.identifier)) :
    Carried leg s (frame env s source f raw) := by
  rcases frame_cases f hraw with hoff | ⟨call, hlive, -, -, hinner, -⟩
  · exact .of_roster (hoff.rosters _)
  · refine .of_roster ?_
    rw [hinner]
    exact roster_touch hlive _

/-- A prune takes the connection it came from off the call, which is no virtual
client. -/
theorem carried_handle {nowMs : UInt64} (hne : leg.virtualClient ≠ source) :
    Carried leg s (ofHandled (handle s nowMs source raw)) := by
  rcases @handle_cases s source raw nowMs with hoff | ⟨id, src, -, hinner, -⟩
  · exact .of_roster (hoff.rosters _)
  · refine .of_grow fun r hr hhas => ?_
    change ∃ r', (handle s nowMs source raw).1.roster leg.brewCallId = some r' ∧ _
    rw [hinner]
    rcases @roster_receivePrune s source id src leg.brewCallId with hsame | ⟨-, hpruned⟩
    · exact ⟨r, hsame.trans hr, hhas⟩
    · rw [hr, Option.map_some] at hpruned
      exact ⟨_, hpruned, hhas.imp_right fun hp => FinSet.mem_erase.mpr ⟨Ne.symm hne, hp⟩⟩

theorem carried_lateEntry {groups : FinSet UInt32} : Carried leg s { inner := (lateEntry s source groups).1 } := by
  by_cases hpeer : s.isPeer source = true
  · refine .of_roster ?_
    unfold lateEntry
    rw [hpeer, Bool.or_true, if_pos rfl]
  · by_cases hclient : source ∈ s.clients
    · refine .of_grow fun r hr hhas => ⟨r.enter source groups, ?_, hhas.enter⟩
      rw [roster_lateEntry (Bool.not_eq_true _ ▸ hpeer) hclient, hr, Option.map_some]
    · refine .of_roster ?_
      unfold lateEntry
      rw [Std.ExtTreeMap.getElem?_eq_none hclient]
      split <;> rfl

theorem carried_handleSubscriber {nowMs : UInt64} {msg : SubscriberMessage} :
    Carried leg s (ofHandled (handleSubscriber s nowMs source msg)) := by
  rcases handleSubscriber_cases s nowMs source msg with heq | ⟨ticked, new, groups, -, hentry, heq⟩
  · rw [heq]
    exact .of_roster rfl
  · have hbefore : (applyEntry ticked msg.issi new).roster leg.brewCallId = s.roster leg.brewCallId :=
      Inner.roster_congr (hentry.registers.trans registers_applyEntry).calls _
    intro hc
    rw [heq]
    exact carried_lateEntry (hc.congr hbefore)

theorem carried_callControl {cc : CallControlMessage} (hraw : signal raw = (stateSignal cc.callState).map fun sig => (sig, cc.identifier))
    (hgroup : ∀ gt, cc.callState = callGroupTx → cc.payload = .groupTransmission gt →
      acceptsGroupTx cfg env s source cc.identifier gt = true → sparesLeg cfg env s source cc.identifier gt leg = true)
    (hsetup : ∀ req, cc.callState = callSetupRequest → setupRequest cc.payload = some req →
      acceptsSetup env s source cc.identifier req = true → cc.identifier ≠ leg.brewCallId) :
    Carried leg s (callControl cfg env s source cc raw) := by
  unfold callControl
  split
  · next hstate => exact carried_handleGroupTx fun gt => hgroup gt hstate
  · split
    · next hstate =>
      refine .of_roster ((offCall_handleSdsHeader ?_).rosters _)
      rw [hraw, hstate]
      rfl
    · split
      · next hstate => exact carried_handlePrivateSetup fun req => hsetup req hstate
      · split
        · next hstate =>
          refine carried_routePrivateControl ?_
          rw [hraw]
          simp only [List.mem_cons, List.not_mem_nil, or_false] at hstate
          rcases hstate with h | h | h | h | h | h | h <;> rw [h] <;> rfl
        · split
          · exact carried_endCall
          · exact .of_roster rfl

/-- Whether a packet leaves a leg its call: it opens none under the id of the leg's
call without the virtual client. -/
def keepsLeg (cfg : Config) (env : Env) (s : Inner) (source : ClientId) (raw : Bytes) (leg : BridgedLeg) : Bool :=
  match arriving env s source raw with
  | none => true
  | some (t, cc) =>
    if cc.callState = callGroupTx then
      match cc.payload with
      | .groupTransmission gt =>
        !acceptsGroupTx cfg env t source cc.identifier gt || sparesLeg cfg env t source cc.identifier gt leg
      | _ => true
    else if cc.callState = callSetupRequest then
      match setupRequest cc.payload with
      | some req => !acceptsSetup env t source cc.identifier req || cc.identifier != leg.brewCallId
      | none => true
    else true

theorem carried_routePacket (hne : leg.virtualClient ≠ source) (hkeeps : keepsLeg cfg env s source raw leg = true) :
    Carried leg s (routePacket cfg env s source raw) := by
  unfold routePacket
  dsimp only
  split
  · exact (carried_handle hne).after offCall_purgeEphemeral
  · next hfed =>
    split
    · next msg d hparse =>
      have hpromote : OffCall s (promoteClientVersion (purgeEphemeral env s) source d) [] :=
        offCall_purgeEphemeral.trans offCall_promoteClientVersion
      cases msg with
      | subscriber msg => exact carried_handleSubscriber.after hpromote
      | error e => exact .of_roster (hpromote.rosters _)
      | service m => exact .of_roster (hpromote.rosters _)
      | frame f => exact (carried_frame (signal_frame hparse)).after hpromote
      | callControl cc =>
        have harrives : arriving env s source raw =
            some (promoteClientVersion (purgeEphemeral env s) source d, cc) := by
          rw [arriving, if_neg hfed, hparse]
        rw [keepsLeg, harrives] at hkeeps
        refine (carried_callControl (signal_callControl hparse).2 (fun gt hstate hpayload hacc => ?_)
          fun req hstate hreq hacc => ?_).after hpromote
        · simpa [hstate, hpayload, hacc] using hkeeps
        · have hother : callSetupRequest ≠ callGroupTx := by decide
          simpa [hstate, hother, hreq, hacc] using hkeeps
    · exact .of_roster (offCall_purgeEphemeral.rosters _)

theorem mem_ended_leaveCalls {r : Roster} (hlive : s.roster id = some r) (hends : r.depart source = none) :
    id ∈ (leaveCalls s source).ended := by
  obtain ⟨call, hcall, rfl⟩ := Inner.roster_eq_some.mp hlive
  have hkeeps : ∀ (es : List (Uuid × ActiveCall)) (r : Effect), id ∈ r.ended →
      id ∈ (es.foldl (leaveCall source) r).ended := by
    intro es r h
    refine List.foldlRecOn (motive := fun r : Effect => id ∈ r.ended) es _ h fun r h e _ => ?_
    unfold leaveCall
    dsimp only
    split
    · exact h
    · exact List.mem_append_left _ h
  unfold Roster.depart at hends
  split at hends
  · next hhas =>
    split at hends
    · cases hends
    · next hends' =>
      have hmem : (id, call) ∈ s.calls.toList.filter fun e => involves source e.2 := by
        refine List.mem_filter.mpr ⟨FinMap.mem_toList.mpr hcall, ?_⟩
        rw [involves, Bool.or_eq_true, beq_iff_eq, Std.ExtTreeSet.contains_iff_mem]
        exact hhas
      obtain ⟨before, after, hsplit⟩ := List.append_of_mem hmem
      unfold leaveCalls
      rw [hsplit, List.foldl_append, List.foldl_cons]
      refine hkeeps after _ ?_
      have hone : ¬ (call.kind = .group ∧ call.owner ≠ source) := hends'
      unfold leaveCall
      dsimp only
      rw [if_neg hone]
      exact List.mem_append_right _ List.mem_cons_self
  · cases hends

theorem carried_cleanupClient (hne : leg.virtualClient ≠ source) : Carried leg s (cleanupClient s source) := by
  rintro ⟨r, hr, hhas⟩
  have hdropped : (dropRegistrations s source).1.roster leg.brewCallId = s.roster leg.brewCallId := by
    rw [Inner.roster_congr registers_dropRegistrations.calls]
    exact Inner.roster_congr rfl _
  have hafter : (cleanupClient s source).inner.roster leg.brewCallId = r.depart source := by
    rw [roster_cleanupClient, hr, Option.bind_some]
  cases hdepart : r.depart source with
  | none =>
    refine .inl ?_
    rw [(cleanupClient_eq s source).2.2.1]
    exact mem_ended_leaveCalls (hdropped.trans hr) hdepart
  | some r' => exact .inr ⟨r', hafter.trans hdepart, Roster.depart_has hdepart hne hhas⟩

theorem carried_emergencyRaised {issi : UInt32} : Carried leg s { inner := (emergencyRaised s issi).1 } := by
  refine .of_grow fun r hr hhas => ?_
  rcases @roster_emergencyRaised s issi leg.brewCallId with ⟨-, hnone⟩ | ⟨r', brought, hr', hraised⟩
  · cases hnone.symm.trans hr
  · cases hr'.symm.trans hr
    exact ⟨_, hraised, hhas.imp_right fun hp => Std.ExtTreeSet.mem_union_iff.mpr (.inl hp)⟩

theorem calls_openSession {client : Client} {neighbour : Option UInt64} {console : Bool} :
    (openSession s id client neighbour console).1.calls = s.calls := by
  unfold openSession attachClient
  cases neighbour <;> cases console <;> rfl

end Handlers

end BrewServer
