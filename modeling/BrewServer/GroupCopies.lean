import BrewServer.Adaptation
import BrewServer.Audience
import BrewServer.CallMemory
import BrewServer.Flooding
import BrewServer.Recall
import BrewServer.Silence
import BrewServer.Sip.Carried

/-!
# Copies of a group transmission on the links between servers

A server that takes part in a group call gets copies of its transmission over its peer
links, prunes of the links it sent copies over, and the ends of the calls that the
transmission pre-empted. Each message has one lemma that says what the server does with it.
-/

namespace BrewServer.GroupCopies

open Protocol Fedroute Router Sip

/-! ## The messages -/

/-- A `CALL_GROUP_TX` of `src` on call `id`. -/
def Copy (id : Uuid) (src : UInt32) (raw : Bytes) : Prop :=
  ∃ (payload : Bytes) (gt : GroupTransmission), raw = [classCallControl, callGroupTx] ++ id.asBytes ++ payload ∧
    groupTxBaseLen ≤ payload.length ∧ parseGroupTx payload = some gt ∧ gt.source = src

/-- The end of another call. -/
def Over (id : Uuid) (raw : Bytes) : Prop :=
  ∃ (state : UInt8) (k : Uuid) (cause : UInt8), raw = buildCallCause state k cause ∧ k ≠ id ∧
    (state = callGroupIdle ∨ state = callRelease)

section Messages

variable {id : Uuid} {src : UInt32} {raw : Bytes} {env : Env} {s t : Inner} {source : ClientId} {gt : GroupTransmission}

theorem Copy.parse (h : Copy id src raw) (v : ConnVersion) :
    ∃ (gt : GroupTransmission) (d : ConnVersion), gt.source = src ∧
      parseWithVersion raw v = some (.ok (.callControl ⟨callGroupTx, id, .groupTransmission gt⟩, d)) := by
  obtain ⟨payload, gt, rfl, hlen, hgt, hsrc⟩ := h
  refine ⟨gt, if groupTxBaseLen < payload.length then .v1 else v, hsrc, ?_⟩
  rw [parseWithVersion_callControl, parseCallPayload_groupTx_iff.mpr ⟨hlen, gt, hgt, rfl⟩]
  rfl

/-- What a server reads as a transmission on `id` is one. -/
theorem copy_of_groupTxOf (h : groupTxOf env s source raw = some (t, id, gt)) : Copy id gt.source raw := by
  simp only [groupTxOf, Option.bind_eq_some_iff] at h
  obtain ⟨⟨t', cc⟩, harrive, h⟩ := h
  unfold arriving at harrive
  split at harrive
  · cases harrive
  · split at harrive
    · next cc' d hparse =>
      cases harrive
      have hhead := head?_of_parse hparse
      rw [List.head?_eq_getElem?] at hhead
      obtain ⟨state, id', payload, p, hraw, hm, hp⟩ := callControl_of_parse hparse hhead
      obtain rfl := BrewMessage.callControl.inj hm
      dsimp only at h
      split at h
      · next gt' =>
        split at h
        · next hstate =>
          cases h
          obtain rfl : state = callGroupTx := hstate
          obtain ⟨hlen, gt'', hgt, heq⟩ := parseCallPayload_groupTx_iff.mp hp
          cases (Prod.mk.inj heq).1
          exact ⟨payload, _, hraw, hlen, hgt, rfl⟩
        · cases h
      · cases h
    · cases harrive

/-- A copy is handled as the transmission it is. -/
theorem Copy.groupTxOf (h : Copy id src raw) (env : Env) (s : Inner) (source : ClientId) :
    ∃ (gt : GroupTransmission) (d : ConnVersion), gt.source = src ∧
      groupTxOf env s source raw = some (promoteClientVersion (purgeEphemeral env s) source d, id, gt) := by
  obtain ⟨gt, d, hsrc, hparse⟩ := h.parse (clientVersion (purgeEphemeral env s) source)
  refine ⟨gt, d, hsrc, ?_⟩
  obtain ⟨payload, -, rfl, -⟩ := h
  have hfed : ¬ ([classCallControl, callGroupTx] ++ id.asBytes ++ payload).head? = some classFederation := by
    simp only [List.append_assoc, List.cons_append, List.head?_cons]
    decide
  rw [BrewServer.groupTxOf, arriving, if_neg hfed, hparse]
  rfl

theorem routePacket_of_groupTxOf {cfg : Config} (h : BrewServer.groupTxOf env s source raw = some (t, id, gt)) :
    routePacket cfg env s source raw = handleGroupTx cfg env t source id (.groupTransmission gt) raw := by
  simp only [BrewServer.groupTxOf, Option.bind_eq_some_iff] at h
  obtain ⟨⟨t', cc⟩, harrive, h⟩ := h
  dsimp only at h
  split at h
  · next gt' hpayload =>
    split at h
    · next hstate =>
      cases h
      rw [routePacket_arriving harrive, callControl, if_pos hstate, hpayload]
    · cases h
  · cases h

theorem Copy.raised (h : Copy id src raw) : Copy id src (withEmergencyPriority raw) := by
  obtain ⟨payload, gt, rfl, hlen, hgt, hsrc⟩ := h
  have hp : parseCallPayload [] callGroupTx payload .v0 =
      some (.ok (.groupTransmission gt, if groupTxBaseLen < payload.length then .v1 else .v0)) :=
    parseCallPayload_groupTx_iff.mpr ⟨hlen, gt, hgt, rfl⟩
  obtain ⟨hlen', gt', hgt', heq⟩ := parseCallPayload_groupTx_iff.mp (@parseCallPayload_raised _ [] _ _ _ _ hp)
  cases (Prod.mk.inj heq).1
  exact ⟨_, _, withEmergencyPriority_callControl, hlen', hgt', hsrc⟩

theorem Copy.adapted (h : Copy id src raw) (v : ConnVersion) : Copy id src (adaptToVersion raw v) := by
  cases v with
  | v1 =>
    have hsame : adaptToVersion raw .v1 = raw := by simp [adaptToVersion, ConnVersion.hasMnemonic]
    rw [hsame]
    exact h
  | v0 =>
    obtain ⟨payload, gt, rfl, hlen, hgt, hsrc⟩ := h
    refine ⟨payload.take groupTxBaseLen, { gt with mnemonic := none }, ?_, ?_, parseGroupTx_take hgt, hsrc⟩
    · rw [adaptToVersion_callControl, v0Payload, if_pos rfl]
    · rw [List.length_take, Nat.min_eq_left hlen]

/-- The end of a call is handled as such by whoever it reaches. -/
theorem routePacket_of_over {cfg : Config} (h : Over id raw) :
    ∃ (k : Uuid) (d : ConnVersion), k ≠ id ∧ routePacket cfg env s source raw =
      endCall env (promoteClientVersion (purgeEphemeral env s) source d) source k raw := by
  obtain ⟨state, k, cause, rfl, hk, hstate⟩ := h
  have hfed : ¬ (buildCallCause state k cause).head? = some classFederation := by
    simp only [buildCallCause, List.append_assoc, List.cons_append, List.head?_cons]
    decide
  have hparse : ∀ v, parseWithVersion (buildCallCause state k cause) v =
      some (.ok (.callControl ⟨state, k, .cause cause⟩, v)) := by
    intro v
    rw [buildCallCause, parseWithVersion_callControl, parseCallPayload_cause _ v cause (hstate.imp_right Or.inr)]
    rfl
  refine ⟨k, clientVersion (purgeEphemeral env s) source, hk, ?_⟩
  simp only [routePacket, if_neg hfed, hparse, dispatch, callControl]
  rcases hstate with rfl | rfl
  · rw [if_neg (by decide), if_neg (by decide), if_neg (by decide), if_neg (by decide), if_pos (by decide)]
  · rw [if_neg (by decide), if_neg (by decide), if_neg (by decide), if_neg (by decide), if_pos (by decide)]

end Messages

/-! ## The rest of a server -/

/-- How many calls a server has besides `id`. -/
def others (id : Uuid) (s : Inner) : ℕ := (s.calls.erase id).size

/-- What was queued to `links`. -/
def onLinks (links : List ClientId) (sends : Sends) : Sends := sends.filter fun m => links.contains m.1

/-- Call `id` is as it was, and so are the links. At most other calls ended, and the links
were told of their ends. -/
structure Unmoved (id : Uuid) (src : UInt32) (links : List ClientId) (s s' : Inner) (sends : Sends) : Prop where
  call : s'.calls[id]? = s.calls[id]?
  sds : s.sdsRoutes[id]? = none → s'.sdsRoutes[id]? = none
  recent : s.recentCalls[(id, src)]? = none → s'.recentCalls[(id, src)]? = none
  peer : ∀ c, s'.isPeer c = s.isPeer c
  fedLinks : s'.fed.links = s.fed.links
  ends : ∀ m ∈ onLinks links sends, Over id m.2
  spent : (onLinks links sends).length + links.length * others id s' ≤ links.length * others id s

section Others

variable {id k : Uuid} {s s' : Inner} {links : List ClientId}

theorem calls_erase_comm : (s.calls.erase k).erase id = (s.calls.erase id).erase k := by
  refine FinMap.ext fun k' => ?_
  simp only [FinMap.getElem?_erase]
  split <;> split <;> rfl

theorem others_erase_le (hcalls : s'.calls = s.calls.erase k) : others id s' ≤ others id s := by
  rw [others, others, hcalls, calls_erase_comm]
  exact Std.ExtTreeMap.size_erase_le

theorem others_erase (hk : k ≠ id) {call : ActiveCall} (hcall : s.calls[k]? = some call)
    (hcalls : s'.calls = s.calls.erase k) : others id s' + 1 = others id s := by
  have hmem : k ∈ s.calls.erase id := FinMap.mem_erase.mpr ⟨Ne.symm hk, FinMap.mem_of_getElem? hcall⟩
  have hpos : 0 < (s.calls.erase id).size := by
    rw [Nat.pos_iff_ne_zero]
    intro hzero
    have hempty : (s.calls.erase id).isEmpty = true := by
      rw [Std.ExtTreeMap.isEmpty_eq_size_beq_zero, hzero]
      rfl
    obtain ⟨v, hv⟩ := FinMap.mem_iff.mp hmem
    rw [FinMap.isEmpty_iff_forall.mp hempty k] at hv
    cases hv
  rw [others, others, hcalls, calls_erase_comm, Std.ExtTreeMap.size_erase,
    if_pos (Std.ExtTreeMap.mem_iff_contains.mp hmem)]
  omega

/-- A message to a set of connections goes to each link at most once. -/
theorem onLinks_sendMany (cs : FinSet ClientId) (raw : Bytes) :
    ∃ out : List ClientId, out.Nodup ∧ onLinks links (s.sendMany cs raw) = out.map (·, raw) ∧
      ∀ l ∈ out, l ∈ links ∧ l ∈ cs := by
  refine ⟨cs.toList.filter fun l => decide (l ∈ s.clients) && links.contains l, FinSet.nodup_toList.filter _, ?_, ?_⟩
  · rw [onLinks, Inner.sendMany]
    induction cs.toList with
    | nil => rfl
    | cons c cs ih =>
      rw [List.flatMap_cons, List.filter_append, ih, List.filter_cons, Inner.send]
      by_cases hc : c ∈ s.clients
      · rw [if_pos hc, decide_eq_true hc, Bool.true_and, List.filter_singleton]
        cases links.contains c <;> rfl
      · rw [if_neg hc, decide_eq_false hc]
        rfl
  · intro l hl
    obtain ⟨hmem, hcond⟩ := List.mem_filter.mp hl
    rw [Bool.and_eq_true] at hcond
    exact ⟨List.contains_iff_mem.mp hcond.2, Std.ExtTreeSet.mem_toList.mp hmem⟩

theorem length_onLinks_sendMany (cs : FinSet ClientId) (raw : Bytes) :
    (onLinks links (s.sendMany cs raw)).length ≤ links.length := by
  obtain ⟨out, hnodup, heq, hout⟩ := @onLinks_sendMany s links cs raw
  rw [heq, List.length_map]
  exact (hnodup.subperm fun l hl => (hout l hl).1).length_le

end Others

namespace Unmoved

variable {id k : Uuid} {src : UInt32} {links : List ClientId} {s s' s'' : Inner} {sends more : Sends}

theorem refl (s : Inner) : Unmoved id src links s s [] :=
  ⟨rfl, fun h => h, fun h => h, fun _ => rfl, rfl, fun m hm => absurd hm List.not_mem_nil, by simp [onLinks]⟩

theorem trans (h : Unmoved id src links s s' sends) (h' : Unmoved id src links s' s'' more) :
    Unmoved id src links s s'' (sends ++ more) where
  call := h'.call.trans h.call
  sds hn := h'.sds (h.sds hn)
  recent hn := h'.recent (h.recent hn)
  peer c := (h'.peer c).trans (h.peer c)
  fedLinks := h'.fedLinks.trans h.fedLinks
  ends m hm := by
    rw [onLinks, List.filter_append] at hm
    exact (List.mem_append.mp hm).elim (h.ends m) (h'.ends m)
  spent := by
    have := h.spent
    have := h'.spent
    rw [onLinks, List.filter_append, List.length_append]
    rw [onLinks] at *
    omega

/-- The tables of calls are as they were. -/
theorem of_calls (hcalls : s'.calls = s.calls) (hsds : s.sdsRoutes[id]? = none → s'.sdsRoutes[id]? = none)
    (hrecent : s.recentCalls[(id, src)]? = none → s'.recentCalls[(id, src)]? = none)
    (hpeer : ∀ c, s'.isPeer c = s.isPeer c) (hlinks : s'.fed.links = s.fed.links) :
    Unmoved id src links s s' [] where
  call := by rw [hcalls]
  sds := hsds
  recent := hrecent
  peer := hpeer
  fedLinks := hlinks
  ends m hm := absurd hm List.not_mem_nil
  spent := by simp [onLinks, others, hcalls]

/-- Another call ended, and its parties were told at most once. -/
theorem of_ended (hk : k ≠ id) {call : ActiveCall} (hcall : s.calls[k]? = some call)
    (hcalls : s'.calls = s.calls.erase k) (hsds : s'.sdsRoutes = s.sdsRoutes)
    (hrecent : s.recentCalls[(id, src)]? = none → s'.recentCalls[(id, src)]? = none)
    (hpeer : ∀ c, s'.isPeer c = s.isPeer c) (hlinks : s'.fed.links = s.fed.links) {cs : FinSet ClientId}
    {raw : Bytes} (hover : Over id raw) (hsends : sends = s''.sendMany cs raw) :
    Unmoved id src links s s' sends where
  call := by
    rw [hcalls, FinMap.getElem?_erase]
    exact if_neg hk
  sds h := by
    rw [hsds]
    exact h
  recent := hrecent
  peer := hpeer
  fedLinks := hlinks
  ends m hm := by
    rw [hsends] at hm
    obtain ⟨hraw, -⟩ := Inner.mem_sendMany.mp (List.mem_filter.mp hm).1
    rw [hraw]
    exact hover
  spent := by
    have hfewer := others_erase hk hcall hcalls
    have hlen : (onLinks links sends).length ≤ links.length := by
      rw [hsends]
      exact length_onLinks_sendMany cs raw
    rw [← hfewer, Nat.mul_add, Nat.mul_one]
    omega

end Unmoved

section Handlers

variable {id k : Uuid} {src : UInt32} {links : List ClientId} {cfg : Config} {env : Env} {s : Inner}
  {source : ClientId} {raw : Bytes}

theorem unmoved_purgeEphemeral : Unmoved id src links s (purgeEphemeral env s) [] := by
  refine .of_calls rfl (fun h => ?_) (fun h => ?_) passive_purgeEphemeral.isPeer rfl
  · show (s.sdsRoutes.filter _)[id]? = none
    rw [Option.eq_none_iff_forall_ne_some]
    intro r hr
    rw [(FinMap.getElem?_filter.mp hr).1] at h
    cases h
  · show (s.recentCalls.filter _)[(id, src)]? = none
    rw [Option.eq_none_iff_forall_ne_some]
    intro e he
    rw [(FinMap.getElem?_filter.mp he).1] at h
    cases h

theorem unmoved_promoteClientVersion {v : ConnVersion} :
    Unmoved id src links s (promoteClientVersion s source v) [] := by
  have hsame : (promoteClientVersion s source v).calls = s.calls ∧
      (promoteClientVersion s source v).sdsRoutes = s.sdsRoutes ∧
      (promoteClientVersion s source v).recentCalls = s.recentCalls ∧
      (promoteClientVersion s source v).fed.links = s.fed.links := by
    unfold promoteClientVersion
    split <;> exact ⟨rfl, rfl, rfl, rfl⟩
  obtain ⟨hcalls, hsds, hrecent, hlinks⟩ := hsame
  refine .of_calls hcalls (fun h => ?_) (fun h => ?_) passive_promoteClientVersion.isPeer hlinks
  · rw [hsds]
    exact h
  · rw [hrecent]
    exact h

theorem unmoved_preempt {call : ActiveCall} (hk : k ≠ id) (hcall : s.calls[k]? = some call) :
    Unmoved id src links s (preempt cfg s k call).1 (preempt cfg s k call).2 :=
  .of_ended hk hcall rfl rfl (fun h => h) (fun _ => rfl) rfl
    ⟨callGroupIdle, k, cfg.preemptCause, rfl, hk, .inl rfl⟩ rfl

theorem unmoved_endCall (hk : k ≠ id) (hover : Over id raw) :
    Unmoved id src links s (endCall env s source k raw).inner (endCall env s source k raw).sends := by
  unfold endCall
  split
  · exact .refl s
  · next call hcall =>
    split
    · exact .refl s
    · split
      · exact .refl s
      · refine .of_ended hk hcall rfl rfl (fun h => ?_) (fun _ => rfl) rfl hover rfl
        show (s.recentCalls.insert (k, call.sourceIssi) _)[(id, src)]? = none
        rw [FinMap.getElem?_insert, if_neg]
        · exact h
        · rintro heq
          exact hk (Prod.mk.inj heq).1

end Handlers

/-! ## The bridge -/

/-- No leg of the bridge stands for a peer link. -/
def LegsApart (a : AppState) : Prop :=
  ∀ (callId : String) (leg : BridgedLeg), a.legs[callId]? = some leg → a.inner.isPeer leg.virtualClient = false

section Bridge

variable {id : Uuid} {src : UInt32} {links : List ClientId} {s : Inner} {a : AppState}

/-- Only who is a peer matters of the tables. -/
theorem LegsApart.congr (h : LegsApart a) {s' : Inner} (hpeer : ∀ c, s'.isPeer c = a.inner.isPeer c) :
    LegsApart { inner := s', legs := a.legs } := by
  intro callId leg hleg
  rw [← h callId leg hleg]
  exact hpeer leg.virtualClient

theorem isPeer_removeLeg {leg : BridgedLeg} (hv : s.isPeer leg.virtualClient = false) (c : ClientId) :
    (removeLeg s leg).1.isPeer c = s.isPeer c := by
  rw [Inner.isPeer, clients_removeLeg, FinMap.getElem?_erase]
  split
  · next heq =>
    rw [← heq, hv]
    rfl
  · rfl

theorem unmoved_removeLeg {leg : BridgedLeg} (hid : leg.brewCallId ≠ id) (hv : s.isPeer leg.virtualClient = false) :
    Unmoved id src links s (removeLeg s leg).1 (removeLeg s leg).2 := by
  have hpeer := isPeer_removeLeg hv
  unfold removeLeg at hpeer ⊢
  dsimp only at hpeer ⊢
  cases hcall : s.calls[leg.brewCallId]? with
  | some call =>
    rw [hcall] at hpeer
    refine .of_ended hid hcall rfl rfl (fun h => h) hpeer rfl ⟨_, leg.brewCallId, 0, rfl, hid, ?_⟩ rfl
    split
    · exact .inl rfl
    · exact .inr rfl
  | none =>
    rw [hcall] at hpeer
    exact
      { call := by
          show (s.calls.erase leg.brewCallId)[id]? = _
          rw [FinMap.getElem?_erase, if_neg hid]
        sds := fun h => h
        recent := fun h => h
        peer := hpeer
        fedLinks := rfl
        ends := fun m hm => absurd hm List.not_mem_nil
        spent := by
          have hle : others id { s with calls := s.calls.erase leg.brewCallId } ≤ others id s := others_erase_le rfl
          simp only [onLinks, List.filter_nil, List.length_nil, Nat.zero_add]
          exact Nat.mul_le_mul_left _ hle }

theorem LegsApart.teardownByBrewCall (h : LegsApart a) {k : Uuid} (hk : k ≠ id) :
    LegsApart (teardownByBrewCall a k).1 ∧
      Unmoved id src links a.inner (Sip.teardownByBrewCall a k).1.inner (Sip.teardownByBrewCall a k).2 := by
  unfold Sip.teardownByBrewCall
  split
  · exact ⟨h, .refl _⟩
  · next callId leg hfind =>
    have hleg : a.legs[callId]? = some leg := FinMap.mem_toList.mp (List.mem_of_find?_eq_some hfind)
    have hbrew : leg.brewCallId ≠ id := by
      have hfound := List.find?_some hfind
      rw [decide_eq_true_eq] at hfound
      rw [hfound]
      exact hk
    have hv := h callId leg hleg
    simp only [teardown, hleg]
    refine ⟨fun callId' leg' hleg' => ?_, unmoved_removeLeg hbrew hv⟩
    rw [FinMap.getElem?_erase] at hleg'
    split at hleg'
    · cases hleg'
    · show (removeLeg a.inner leg).1.isPeer leg'.virtualClient = false
      rw [isPeer_removeLeg hv]
      exact h callId' leg' hleg'

/-- What the bridge does about other calls that ended. -/
theorem LegsApart.settle {e : Effect} (hpeer : ∀ c, e.inner.isPeer c = a.inner.isPeer c) (h : LegsApart a)
    (hplaced : e.placed = none) (hended : ∀ k ∈ e.ended, k ≠ id) :
    LegsApart (Sip.settle a e).1 ∧ ∃ more, (Sip.settle a e).2 = e.sends ++ more ∧
      Unmoved id src links e.inner (Sip.settle a e).1.inner more := by
  have hlegs : LegsApart (e.legs a) := by
    intro callId leg hleg
    rw [Effect.legs, hplaced] at hleg
    rw [← h callId leg hleg]
    exact hpeer leg.virtualClient
  refine settle_induct (P := fun r => LegsApart r.1 ∧ ∃ more, r.2 = e.sends ++ more ∧
    Unmoved id src links e.inner r.1.inner more) ⟨hlegs, [], (List.append_nil _).symm, .refl _⟩ ?_
  rintro r ⟨hr, more, hsends, hunmoved⟩ k hk
  obtain ⟨hlegs', hone⟩ : LegsApart (Sip.teardownByBrewCall r.1 k).1 ∧ Unmoved id src links r.1.inner
      (Sip.teardownByBrewCall r.1 k).1.inner (Sip.teardownByBrewCall r.1 k).2 := hr.teardownByBrewCall (hended k hk)
  exact ⟨hlegs', _, by rw [hsends, List.append_assoc], hunmoved.trans hone⟩

end Bridge

/-! ## One message at one server -/

/-- A server of the network: its peer links are those of the graph, each loop-safe, and
what it knows of call `id` is the transmission of `src`. -/
structure Serves (id : Uuid) (src : UInt32) (links : List ClientId) (a : AppState) : Prop where
  link : ∀ l, a.inner.isPeer l = true ↔ l ∈ links
  safe : ∀ l ∈ links, l ∈ a.inner.fed.links
  legs : LegsApart a
  talker : ∀ call, a.inner.calls[id]? = some call → call.kind = .group ∧ call.sourceIssi = src
  unseen : a.inner.calls[id]? = none →
    a.inner.sdsRoutes[id]? = none ∧ a.inner.recentCalls[(id, src)]? = none

section Serving

variable {id : Uuid} {src : UInt32} {links : List ClientId} {cfg : Config} {env : Env} {a : AppState} {s t : Inner}
  {source : ClientId} {raw : Bytes} {gt : GroupTransmission}

/-- A server stays one when nothing of the exchange moved. -/
theorem Serves.unmoved {a' : AppState} {sends : Sends} (h : Serves id src links a)
    (hu : Unmoved id src links a.inner a'.inner sends) (hlegs : LegsApart a') : Serves id src links a' where
  link l := by rw [hu.peer, h.link]
  safe l hl := by
    rw [hu.fedLinks]
    exact h.safe l hl
  legs := hlegs
  talker call hcall := h.talker call (hu.call ▸ hcall)
  unseen hnone := by
    have hboth := h.unseen (hu.call ▸ hnone)
    exact ⟨hu.sds hboth.1, hu.recent hboth.2⟩

/-- A packet that moves nothing of the exchange, with what the bridge then does. -/
theorem Serves.settled (h : Serves id src links a) {e : Effect} (hroute : routePacket cfg env a.inner source raw = e)
    (hplaced : e.placed = none) (hended : ∀ k ∈ e.ended, k ≠ id) (hu : Unmoved id src links a.inner e.inner e.sends) :
    Serves id src links (handlePacket cfg env a source raw).1 ∧
      Unmoved id src links a.inner (handlePacket cfg env a source raw).1.inner (handlePacket cfg env a source raw).2 := by
  rw [handlePacket, hroute]
  obtain ⟨hlegs, more, hsends, hmore⟩ : LegsApart (Sip.settle a e).1 ∧ ∃ more, (Sip.settle a e).2 = e.sends ++ more ∧
      Unmoved id src links e.inner (Sip.settle a e).1.inner more := h.legs.settle hu.peer hplaced hended
  rw [hsends]
  exact ⟨h.unmoved (hu.trans hmore) hlegs, hu.trans hmore⟩

/-- The end of another call ends it here too, at most. -/
theorem Serves.ended (h : Serves id src links a) (hover : Over id raw) :
    Serves id src links (handlePacket cfg env a source raw).1 ∧
      Unmoved id src links a.inner (handlePacket cfg env a source raw).1.inner (handlePacket cfg env a source raw).2 := by
  obtain ⟨k, d, hk, hroute⟩ := @routePacket_of_over _ _ env a.inner source cfg hover
  have hbefore : Unmoved id src links a.inner (promoteClientVersion (purgeEphemeral env a.inner) source d) [] :=
    unmoved_purgeEphemeral.trans unmoved_promoteClientVersion
  refine h.settled hroute placed_endCall (fun k' hk' => ?_) (hbefore.trans (unmoved_endCall hk hover))
  have hends : (endCall env (promoteClientVersion (purgeEphemeral env a.inner) source d) source k raw).ended = [] ∨
      (endCall env (promoteClientVersion (purgeEphemeral env a.inner) source d) source k raw).ended = [k] := ended_endCall
  rcases hends with hnone | hone
  · rw [hnone] at hk'
    exact absurd hk' List.not_mem_nil
  · rw [hone, List.mem_singleton] at hk'
    rw [hk']
    exact hk

/-- Whether a transmission is dropped without an answer: its talker is held back, or its
group's floor is taken and not won. -/
def refuses (cfg : Config) (env : Env) (s : Inner) (source : ClientId) (id : Uuid) (gt : GroupTransmission) : Bool :=
  heldBack env gt ||
    (!(s.isPeer source && isDuplicate s id gt.source source env.now) &&
      !(floorHolder cfg s id gt).all fun e => wins cfg gt e.2)

/-- What becomes of a transmission. -/
theorem handleGroupTx_verdict (cfg : Config) (env : Env) (s : Inner) (source : ClientId) (id : Uuid)
    (gt : GroupTransmission) (raw : Bytes) :
    (refuses cfg env s source id gt = true ∧ acceptsGroupTx cfg env s source id gt = false ∧
        handleGroupTx cfg env s source id (.groupTransmission gt) raw = { inner := s }) ∨
      (refuses cfg env s source id gt = false ∧ acceptsGroupTx cfg env s source id gt = false ∧
        (s.isPeer source = true ∧ isDuplicate s id gt.source source env.now = true) ∧
        handleGroupTx cfg env s source id (.groupTransmission gt) raw =
          { inner := s, sends := if source ∈ s.fed.links then s.send source (buildPrune id gt.source) else [] }) ∨
      (refuses cfg env s source id gt = false ∧ acceptsGroupTx cfg env s source id gt = true ∧
        handleGroupTx cfg env s source id (.groupTransmission gt) raw =
          { inner := (installGroupTx cfg env (freeFloor cfg s id gt) source id gt raw).1
            sends := releases cfg s id gt ++ (installGroupTx cfg env (freeFloor cfg s id gt) source id gt raw).2
            ended := (floorHolder cfg s id gt).toList.map (·.1) }) := by
  unfold handleGroupTx refuses acceptsGroupTx heldBack freeFloor releases
  dsimp only
  cases hheld : env.blocked gt.source && !isEmergencyCall env gt.source gt.priority with
  | true => exact .inl ⟨rfl, rfl, if_pos rfl⟩
  | false =>
    rw [if_neg Bool.false_ne_true]
    cases hdup : s.isPeer source && isDuplicate s id gt.source source env.now with
    | true => exact .inr (.inl ⟨rfl, rfl, Bool.and_eq_true_iff.mp hdup, if_pos rfl⟩)
    | false =>
      rw [if_neg Bool.false_ne_true]
      cases floorHolder cfg s id gt with
      | none => exact .inr (.inr ⟨rfl, rfl, rfl⟩)
      | some holder =>
        obtain ⟨existingId, existing⟩ := holder
        simp only [Option.all_some]
        cases wins cfg gt existing with
        | true => exact .inr (.inr ⟨rfl, rfl, rfl⟩)
        | false => exact .inl ⟨rfl, rfl, rfl⟩

/-! ### A transmission that is accepted -/

/-- The connections that the transmission is sent to, in order. -/
theorem fst_installGroupTx {s : Inner} :
    (installGroupTx cfg env s source id gt raw).2.map (·.1) =
      (groupTargets cfg s source id gt (isEmergencyCall env gt.source gt.priority)).toList.filter
        fun c => decide (c ∈ s.clients) := by
  unfold installGroupTx
  dsimp only
  induction (groupTargets cfg s source id gt (isEmergencyCall env gt.source gt.priority)).toList with
  | nil => rfl
  | cons c cs ih =>
    rw [List.flatMap_cons, List.map_append, ih, List.filter_cons]
    cases hc : s.clients[c]? with
    | none =>
      have hnot : ¬ c ∈ s.clients := fun hmem => by
        obtain ⟨v, hv⟩ := FinMap.mem_iff.mp hmem
        rw [hc] at hv
        cases hv
      rw [decide_eq_false hnot]
      rfl
    | some client =>
      rw [decide_eq_true (FinMap.mem_of_getElem? hc)]
      rfl

theorem copy_of_mem_installGroupTx {s : Inner} (h : Copy id src raw) {m : ClientId × Bytes}
    (hm : m ∈ (installGroupTx cfg env s source id gt raw).2) : Copy id src m.2 := by
  obtain ⟨c, -, hm⟩ := List.mem_flatMap.mp hm
  split at hm
  · cases hm
  · rw [List.mem_singleton] at hm
    subst hm
    refine Copy.adapted ?_ _
    split
    · split
      · exact h.raised
      · exact h
    · exact h

/-- The links a transmission goes out over. -/
def outLinks (cfg : Config) (env : Env) (links : List ClientId) (s : Inner) (source : ClientId) (id : Uuid)
    (gt : GroupTransmission) : List ClientId :=
  (groupTargets cfg s source id gt (isEmergencyCall env gt.source gt.priority)).toList.filter links.contains

theorem mem_outLinks {c : ClientId} : c ∈ outLinks cfg env links s source id gt ↔
    c ∈ groupTargets cfg s source id gt (isEmergencyCall env gt.source gt.priority) ∧ c ∈ links := by
  rw [outLinks, List.mem_filter, Std.ExtTreeSet.mem_toList, List.contains_iff_mem]

theorem source_not_mem_outLinks : source ∉ outLinks cfg env links s source id gt := by
  intro hmem
  have htarget := (mem_outLinks.mp hmem).1
  rw [groupTargets, FinSet.mem_erase] at htarget
  exact htarget.1 rfl

theorem fst_onLinks_installGroupTx (hlinks : ∀ l ∈ links, l ∈ s.clients) :
    (onLinks links (installGroupTx cfg env s source id gt raw).2).map (·.1) = outLinks cfg env links s source id gt := by
  have hswap : (onLinks links (installGroupTx cfg env s source id gt raw).2).map (·.1) =
      ((installGroupTx cfg env s source id gt raw).2.map (·.1)).filter links.contains := by
    rw [List.filter_map]
    rfl
  rw [hswap, fst_installGroupTx, List.filter_filter, outLinks]
  refine List.filter_congr fun c _ => ?_
  by_cases hc : c ∈ links
  · rw [decide_eq_true (hlinks c hc), Bool.and_true]
  · have hno : links.contains c = false := by
      rw [Bool.eq_false_iff]
      exact fun h => hc (List.contains_iff_mem.mp h)
    rw [hno, Bool.false_and]

/-- What an accepted transmission leaves: the call, over `out`, and what was queued to the
links for it and for the calls that it ended. -/
structure Took (id : Uuid) (src : UInt32) (links : List ClientId) (source : ClientId) (a a' : AppState) (sends : Sends)
    (out : List ClientId) : Prop where
  serves : Serves id src links a'
  call : ∃ call, a'.inner.calls[id]? = some call ∧ call.owner = source ∧ ∀ l ∈ links, l ∈ call.peers ↔ l ∈ out
  nodup : out.Nodup
  away : ∀ l ∈ out, l ∈ links ∧ l ≠ source
  queued : ∃ before copies after, onLinks links sends = before ++ copies ++ after ∧ copies.map (·.1) = out ∧
    (∀ m ∈ copies, Copy id src m.2) ∧ (∀ m ∈ before ++ after, Over id m.2) ∧
    (before ++ after).length + links.length * others id a'.inner ≤ links.length * others id a.inner

theorem unmoved_of_groupTxOf (h : groupTxOf env s source raw = some (t, id, gt)) :
    Unmoved id src links s t [] := by
  obtain ⟨gt', d, -, htx⟩ := (copy_of_groupTxOf h).groupTxOf env s source
  rw [h, Option.some.injEq, Prod.mk.injEq] at htx
  rw [htx.1]
  exact unmoved_purgeEphemeral.trans unmoved_promoteClientVersion

theorem unmoved_freeFloor : Unmoved id src links t (freeFloor cfg t id gt) (releases cfg t id gt) := by
  unfold freeFloor releases
  cases hholder : floorHolder cfg t id gt with
  | none => exact .refl t
  | some holder => exact unmoved_preempt (floorHolder_some hholder).1 (floorHolder_some hholder).2

/-- The call that an accepted transmission opens. -/
theorem call_installGroupTx : ∃ call, (installGroupTx cfg env s source id gt raw).1.calls[id]? = some call ∧
    call.owner = source ∧ call.kind = .group ∧ call.sourceIssi = gt.source ∧
    call.peers = groupTargets cfg s source id gt (isEmergencyCall env gt.source gt.priority) := by
  have hget : (installGroupTx cfg env s source id gt raw).1.calls[id]? = some
      { kind := .group, owner := source, sourceIssi := gt.source, destination := gt.destination,
        priority := if isEmergencyCall env gt.source gt.priority then max gt.priority emergencyPriority else gt.priority,
        peers := groupTargets cfg s source id gt (isEmergencyCall env gt.source gt.priority), startedAt := env.now,
        lastActivityMs := env.nowMs } := by
    show (s.calls.insert id _)[id]? = _
    rw [FinMap.getElem?_insert, if_pos rfl]
  exact ⟨_, hget, rfl, rfl, rfl, rfl⟩

theorem others_installGroupTx : others id (installGroupTx cfg env s source id gt raw).1 = others id s := by
  show ((s.calls.insert id _).erase id).size = (s.calls.erase id).size
  congr 1
  refine FinMap.ext fun k => ?_
  simp only [FinMap.getElem?_erase, FinMap.getElem?_insert]
  split <;> rfl

theorem isPeer_installGroupTx (c : ClientId) : (installGroupTx cfg env s source id gt raw).1.isPeer c = s.isPeer c := rfl

theorem links_installGroupTx : (installGroupTx cfg env s source id gt raw).1.fed.links = s.fed.links := rfl

/-- The links of the network are connected. -/
theorem Serves.mem_clients (h : Serves id src links a) (hpeer : ∀ c, s.isPeer c = a.inner.isPeer c) :
    ∀ l ∈ links, l ∈ s.clients := by
  intro l hl
  have hlink : s.isPeer l = true := by
    rw [hpeer]
    exact (h.link l).mpr hl
  rw [Inner.isPeer, Option.any_eq_true] at hlink
  obtain ⟨c, hc, -⟩ := hlink
  exact FinMap.mem_of_getElem? hc

/-- An accepted transmission takes the floor, opens its call, and leaves to the bridge the
call that it ended. -/
theorem Serves.handled (h : Serves id src links a) (htx : groupTxOf env a.inner source raw = some (t, id, gt))
    (haccepted : acceptsGroupTx cfg env t source id gt = true) :
    LegsApart (handlePacket cfg env a source raw).1 ∧ ∃ more,
      (handlePacket cfg env a source raw).2 =
        releases cfg t id gt ++ (installGroupTx cfg env (freeFloor cfg t id gt) source id gt raw).2 ++ more ∧
      Unmoved id src links (installGroupTx cfg env (freeFloor cfg t id gt) source id gt raw).1
        (handlePacket cfg env a source raw).1.inner more := by
  have hfree : Unmoved id src links a.inner (freeFloor cfg t id gt) (releases cfg t id gt) :=
    (unmoved_of_groupTxOf htx).trans unmoved_freeFloor
  rcases handleGroupTx_verdict cfg env t source id gt raw with ⟨-, hno, -⟩ | ⟨-, hno, -⟩ | ⟨-, -, heffect⟩
  · rw [haccepted] at hno
    cases hno
  · rw [haccepted] at hno
    cases hno
  · rw [handlePacket, routePacket_of_groupTxOf htx, heffect]
    refine h.legs.settle (fun c => (isPeer_installGroupTx c).trans (hfree.peer c)) rfl fun k hk => ?_
    obtain ⟨holder, hholder, rfl⟩ := List.mem_map.mp hk
    exact (floorHolder_some (Option.mem_toList.mp hholder)).1

theorem Serves.serves_took (h : Serves id src links a) (htx : groupTxOf env a.inner source raw = some (t, id, gt))
    (hsrc : gt.source = src) (haccepted : acceptsGroupTx cfg env t source id gt = true) :
    Serves id src links (handlePacket cfg env a source raw).1 := by
  have hfree : Unmoved id src links a.inner (freeFloor cfg t id gt) (releases cfg t id gt) :=
    (unmoved_of_groupTxOf htx).trans unmoved_freeFloor
  obtain ⟨hlegs, more, -, hmore⟩ := h.handled htx haccepted
  obtain ⟨call, hget, -, hkind, hissi, -⟩ := @call_installGroupTx id cfg env (freeFloor cfg t id gt) source raw gt
  rw [← hmore.call] at hget
  refine ⟨fun l => ?_, fun l hl => ?_, hlegs, fun call' hcall' => ?_, fun hnone => ?_⟩
  · rw [hmore.peer, isPeer_installGroupTx, hfree.peer, h.link]
  · rw [hmore.fedLinks, links_installGroupTx, hfree.fedLinks]
    exact h.safe l hl
  · rw [hget] at hcall'
    cases hcall'
    exact ⟨hkind, hissi.trans hsrc⟩
  · rw [hget] at hnone
    cases hnone

theorem Serves.call_took (h : Serves id src links a) (htx : groupTxOf env a.inner source raw = some (t, id, gt))
    (haccepted : acceptsGroupTx cfg env t source id gt = true) :
    ∃ call, (handlePacket cfg env a source raw).1.inner.calls[id]? = some call ∧ call.owner = source ∧
      ∀ l ∈ links, l ∈ call.peers ↔ l ∈ outLinks cfg env links (freeFloor cfg t id gt) source id gt := by
  obtain ⟨-, more, -, hmore⟩ := h.handled htx haccepted
  obtain ⟨call, hget, howner, -, -, hpeers⟩ := @call_installGroupTx id cfg env (freeFloor cfg t id gt) source raw gt
  refine ⟨call, hmore.call.trans hget, howner, fun l hl => ?_⟩
  rw [hpeers, mem_outLinks]
  exact (and_iff_left hl).symm

theorem Serves.queued_took (h : Serves id src links a) (htx : groupTxOf env a.inner source raw = some (t, id, gt))
    (hsrc : gt.source = src) (haccepted : acceptsGroupTx cfg env t source id gt = true) :
    ∃ before copies after, onLinks links (handlePacket cfg env a source raw).2 = before ++ copies ++ after ∧
      copies.map (·.1) = outLinks cfg env links (freeFloor cfg t id gt) source id gt ∧
      (∀ m ∈ copies, Copy id src m.2) ∧ (∀ m ∈ before ++ after, Over id m.2) ∧
      (before ++ after).length + links.length * others id (handlePacket cfg env a source raw).1.inner ≤
        links.length * others id a.inner := by
  have hcopy : Copy id src raw := hsrc ▸ copy_of_groupTxOf htx
  have hfree : Unmoved id src links a.inner (freeFloor cfg t id gt) (releases cfg t id gt) :=
    (unmoved_of_groupTxOf htx).trans unmoved_freeFloor
  obtain ⟨-, more, hsends, hmore⟩ := h.handled htx haccepted
  refine ⟨onLinks links (releases cfg t id gt),
    onLinks links (installGroupTx cfg env (freeFloor cfg t id gt) source id gt raw).2, onLinks links more, ?_,
    fst_onLinks_installGroupTx (h.mem_clients hfree.peer), ?_, ?_, ?_⟩
  · rw [hsends, onLinks, List.filter_append, List.filter_append]
    rfl
  · exact fun m hm => copy_of_mem_installGroupTx hcopy (List.mem_filter.mp hm).1
  · exact fun m hm => (List.mem_append.mp hm).elim (hfree.ends m) (hmore.ends m)
  · have hbefore := hfree.spent
    have hafter := hmore.spent
    rw [others_installGroupTx] at hafter
    rw [List.length_append]
    omega

/-- An accepted transmission opens the call and is sent on over the links. -/
theorem Serves.took (h : Serves id src links a) (htx : groupTxOf env a.inner source raw = some (t, id, gt))
    (hsrc : gt.source = src) (haccepted : acceptsGroupTx cfg env t source id gt = true) :
    Took id src links source a (handlePacket cfg env a source raw).1 (handlePacket cfg env a source raw).2
      (outLinks cfg env links (freeFloor cfg t id gt) source id gt) where
  serves := h.serves_took htx hsrc haccepted
  call := h.call_took htx haccepted
  nodup := FinSet.nodup_toList.filter _
  away _ hl := ⟨(mem_outLinks.mp hl).2, fun heq => source_not_mem_outLinks (heq ▸ hl)⟩
  queued := h.queued_took htx hsrc haccepted

/-! ### A transmission that is dropped -/

/-- A transmission that is refused moves nothing and is not answered. -/
theorem Serves.refused (h : Serves id src links a) (htx : groupTxOf env a.inner source raw = some (t, id, gt))
    (hrefused : refuses cfg env t source id gt = true) :
    Serves id src links (handlePacket cfg env a source raw).1 ∧
      Unmoved id src links a.inner (handlePacket cfg env a source raw).1.inner [] ∧
      (handlePacket cfg env a source raw).2 = [] := by
  have hu : Unmoved id src links a.inner t [] := unmoved_of_groupTxOf htx
  have heffect : routePacket cfg env a.inner source raw = { inner := t } := by
    rw [routePacket_of_groupTxOf htx]
    rcases handleGroupTx_verdict cfg env t source id gt raw with ⟨-, -, heq⟩ | ⟨hno, -⟩ | ⟨hno, -⟩
    · exact heq
    · rw [hrefused] at hno
      cases hno
    · rw [hrefused] at hno
      cases hno
  have hsettle : Sip.settle a { inner := t } = ({ inner := t, legs := a.legs }, []) := rfl
  rw [handlePacket, heffect, hsettle]
  exact ⟨h.unmoved hu (h.legs.congr hu.peer), hu, rfl⟩

/-- A transmission that a server does not know is no copy to it. -/
theorem Serves.not_duplicate (h : Serves id src links a) (hu : Unmoved id src links a.inner t [])
    (hnone : a.inner.calls[id]? = none) (now : Nat) : isDuplicate t id src source now = false := by
  obtain ⟨hsds, hrecent⟩ := h.unseen hnone
  rw [isDuplicate, hu.call, hnone, hu.sds hsds, hu.recent hrecent]
  rfl

/-- A copy that is not of the call's owner is a duplicate. -/
theorem Serves.duplicate (h : Serves id src links a) (hu : Unmoved id src links a.inner t []) {call : ActiveCall}
    (hcall : a.inner.calls[id]? = some call) (hother : call.owner ≠ source) (now : Nat) :
    isDuplicate t id src source now = true := by
  rw [isDuplicate, hu.call, hcall]
  simp [(h.talker call hcall).2, hother]

/-- A duplicate that is not refused is answered with a prune. -/
theorem Serves.bounced (h : Serves id src links a) (htx : groupTxOf env a.inner source raw = some (t, id, gt))
    (hsrc : gt.source = src) (hlink : source ∈ links) (hrefused : refuses cfg env t source id gt = false)
    {call : ActiveCall} (hcall : a.inner.calls[id]? = some call) (hother : call.owner ≠ source) :
    Serves id src links (handlePacket cfg env a source raw).1 ∧
      Unmoved id src links a.inner (handlePacket cfg env a source raw).1.inner [] ∧
      (handlePacket cfg env a source raw).2 = [(source, buildPrune id src)] := by
  have hu : Unmoved id src links a.inner t [] := unmoved_of_groupTxOf htx
  have hdup := h.duplicate hu hcall hother env.now
  have hpeer : t.isPeer source = true := by
    rw [hu.peer]
    exact (h.link source).mpr hlink
  have hclient : source ∈ t.clients := by
    rw [Inner.isPeer, Option.any_eq_true] at hpeer
    obtain ⟨c, hc, -⟩ := hpeer
    exact FinMap.mem_of_getElem? hc
  have hsafe : source ∈ t.fed.links := by
    rw [hu.fedLinks]
    exact h.safe source hlink
  have heffect : routePacket cfg env a.inner source raw =
      { inner := t, sends := [(source, buildPrune id src)] } := by
    rw [routePacket_of_groupTxOf htx]
    rcases handleGroupTx_verdict cfg env t source id gt raw with ⟨hyes, -⟩ | ⟨-, -, -, heq⟩ | ⟨-, haccepted, -⟩
    · rw [hrefused] at hyes
      cases hyes
    · rw [heq, if_pos hsafe, Inner.send, if_pos hclient, hsrc]
    · rw [acceptsGroupTx, hsrc, hpeer, hdup] at haccepted
      simp at haccepted
  have hsettle : Sip.settle a { inner := t, sends := [(source, buildPrune id src)] } =
      ({ inner := t, legs := a.legs }, [(source, buildPrune id src)]) := rfl
  rw [handlePacket, heffect, hsettle]
  exact ⟨h.unmoved hu (h.legs.congr hu.peer), hu, rfl⟩

/-! ### A prune -/

theorem Serves.pruned (h : Serves id src links a) (hlink : source ∈ links) :
    Serves id src links (handlePacket cfg env a source (buildPrune id src)).1 ∧
      (handlePacket cfg env a source (buildPrune id src)).2 = [] ∧
      others id (handlePacket cfg env a source (buildPrune id src)).1.inner = others id a.inner ∧
      (handlePacket cfg env a source (buildPrune id src)).1.inner.calls[id]? =
        (a.inner.calls[id]?).map fun call => { call with peers := call.peers.erase source } := by
  have hu : Unmoved id src links a.inner (purgeEphemeral env a.inner) [] := unmoved_purgeEphemeral
  obtain ⟨nbrId, hnbr⟩ := FinMap.mem_iff.mp (h.safe source hlink)
  have hroute : routePacket cfg env a.inner source (buildPrune id src) =
      { inner := receivePrune (purgeEphemeral env a.inner) source id src } := by
    have hfed : (buildPrune id src).head? = some classFederation := rfl
    have hnbr' : (purgeEphemeral env a.inner).fed.links[source]? = some nbrId := hnbr
    simp only [routePacket, if_pos hfed, handle, hnbr', parse_buildPrune, handleMessage, ofHandled]
  have hsettle : Sip.settle a { inner := receivePrune (purgeEphemeral env a.inner) source id src } =
      ({ inner := receivePrune (purgeEphemeral env a.inner) source id src, legs := a.legs }, []) := rfl
  rw [handlePacket, hroute, hsettle]
  dsimp only
  cases hcall : a.inner.calls[id]? with
  | none =>
    have hsame : receivePrune (purgeEphemeral env a.inner) source id src = purgeEphemeral env a.inner := by
      have hcall' : (purgeEphemeral env a.inner).calls[id]? = none := hcall
      simp only [receivePrune, hcall']
    rw [hsame]
    exact ⟨h.unmoved hu (h.legs.congr hu.peer), rfl, rfl, hcall⟩
  | some call =>
    obtain ⟨hkind, hissi⟩ := h.talker call hcall
    have hnew : receivePrune (purgeEphemeral env a.inner) source id src =
        { purgeEphemeral env a.inner with
          calls := a.inner.calls.insert id { call with peers := call.peers.erase source } } := by
      have hcall' : (purgeEphemeral env a.inner).calls[id]? = some call := hcall
      simp only [receivePrune, hcall', if_pos (And.intro hkind hissi)]
      rfl
    rw [hnew]
    have hget : (a.inner.calls.insert id { call with peers := call.peers.erase source })[id]? =
        some { call with peers := call.peers.erase source } := by
      rw [FinMap.getElem?_insert, if_pos rfl]
    refine ⟨?_, rfl, ?_, hget⟩
    · exact
        { link := h.link
          safe := h.safe
          legs := h.legs
          talker := fun call' hcall' => by
            dsimp only at hcall'
            rw [hget] at hcall'
            cases hcall'
            exact ⟨hkind, hissi⟩
          unseen := fun hnone => by
            dsimp only at hnone
            rw [hget] at hnone
            cases hnone }
    · show ((a.inner.calls.insert id _).erase id).size = (a.inner.calls.erase id).size
      congr 1
      refine FinMap.ext fun k => ?_
      simp only [FinMap.getElem?_erase, FinMap.getElem?_insert]
      split <;> rfl

/-! ### A voice frame -/

/-- A voice frame of call `id`. -/
def Speech (id : Uuid) (raw : Bytes) : Prop :=
  ∃ (f : FrameMessage) (v d : ConnVersion), parseWithVersion raw v = some (.ok (.frame f, d)) ∧
    f.frameType = frameTrafficChannel ∧ f.identifier = id

/-- A voice frame goes out at most over the peer links in the call, once each, and leaves the
call as it was but for its activity. -/
theorem Serves.speech (h : Serves id src links a) (hspeech : Speech id raw) :
    Serves id src links (handlePacket cfg env a source raw).1 ∧
      (∀ l, (∃ call, (handlePacket cfg env a source raw).1.inner.calls[id]? = some call ∧ l ∈ call.peers) ↔
        ∃ call, a.inner.calls[id]? = some call ∧ l ∈ call.peers) ∧
      ∃ out : List ClientId, out.Nodup ∧ onLinks links (handlePacket cfg env a source raw).2 = out.map (·, raw) ∧
        ∀ l ∈ out, l ∈ links ∧ ∃ call, a.inner.calls[id]? = some call ∧ l ∈ call.peers := by
  obtain ⟨f, v, d, hparse, htype, rfl⟩ := hspeech
  have hhead := head?_of_parse hparse
  have hfed : ¬ raw.head? = some classFederation := by
    have hne : classFrame ≠ classFederation := by decide
    rw [hhead]
    exact fun heq => hne (Option.some.inj heq)
  have hclass : raw[0]? ≠ some classCallControl := by
    have hne : classFrame ≠ classCallControl := by decide
    rw [← List.head?_eq_getElem?, hhead]
    exact fun heq => hne (Option.some.inj heq)
  obtain ⟨t, ht⟩ : ∃ t, promoteClientVersion (purgeEphemeral env a.inner) source
    (clientVersion (purgeEphemeral env a.inner) source) = t := ⟨_, rfl⟩
  have hroute : routePacket cfg env a.inner source raw = routeCallFrame env t source f.identifier raw := by
    have hparse' := (parseWithVersion_unversioned hparse hclass (clientVersion (purgeEphemeral env a.inner) source)).2
    have hsds : ¬ frameTrafficChannel = frameSdsTransfer := by decide
    have hreport : ¬ frameTrafficChannel = frameSdsReport := by decide
    simp only [routePacket, if_neg hfed, hparse', dispatch, frame, htype, if_neg hsds, if_neg hreport, true_or, if_true, ht]
  have hu : Unmoved f.identifier src links a.inner t [] := by
    rw [← ht]
    exact unmoved_purgeEphemeral.trans unmoved_promoteClientVersion
  have hidle : ∀ b : AppState × Sends, b = ({ inner := t, legs := a.legs }, []) →
      Serves f.identifier src links b.1 ∧
        (∀ l, (∃ call, b.1.inner.calls[f.identifier]? = some call ∧ l ∈ call.peers) ↔
          ∃ call, a.inner.calls[f.identifier]? = some call ∧ l ∈ call.peers) ∧
        ∃ out : List ClientId, out.Nodup ∧ onLinks links b.2 = out.map (·, raw) ∧
          ∀ l ∈ out, l ∈ links ∧ ∃ call, a.inner.calls[f.identifier]? = some call ∧ l ∈ call.peers := by
    rintro b rfl
    refine ⟨h.unmoved hu (h.legs.congr hu.peer), fun l => ?_, [], List.nodup_nil, rfl, fun l hl => absurd hl List.not_mem_nil⟩
    show (∃ call, t.calls[f.identifier]? = some call ∧ l ∈ call.peers) ↔ _
    rw [hu.call]
  rw [handlePacket, hroute]
  unfold routeCallFrame
  split
  · exact hidle _ rfl
  · next call hcall =>
    split
    · have hcall' : a.inner.calls[f.identifier]? = some call := hu.call ▸ hcall
      obtain ⟨hkind, hissi⟩ := h.talker call hcall'
      have hget : (t.calls.insert f.identifier { call with lastActivityMs := env.nowMs })[f.identifier]? =
          some { call with lastActivityMs := env.nowMs } := by
        rw [FinMap.getElem?_insert, if_pos rfl]
      have hsettle : Sip.settle a { inner := touch env t f.identifier call, sends := t.sendMany (otherParties call source) raw } =
          ({ inner := touch env t f.identifier call, legs := a.legs }, t.sendMany (otherParties call source) raw) := rfl
      rw [hsettle]
      refine ⟨?_, fun l => ?_, ?_⟩
      · exact
          { link := fun l => by
              show t.isPeer l = true ↔ _
              rw [hu.peer, h.link]
            safe := fun l hl => by
              show l ∈ t.fed.links
              rw [hu.fedLinks]
              exact h.safe l hl
            legs := h.legs.congr hu.peer
            talker := fun call' hnew => by
              have hnew : (t.calls.insert f.identifier { call with lastActivityMs := env.nowMs })[f.identifier]? =
                some call' := hnew
              rw [hget] at hnew
              cases hnew
              exact ⟨hkind, hissi⟩
            unseen := fun hnone => by
              have hnone : (t.calls.insert f.identifier { call with lastActivityMs := env.nowMs })[f.identifier]? =
                none := hnone
              rw [hget] at hnone
              cases hnone }
      · show (∃ call', (t.calls.insert f.identifier { call with lastActivityMs := env.nowMs })[f.identifier]? = some call' ∧
          l ∈ call'.peers) ↔ _
        rw [hget, hcall']
        simp only [Option.some.injEq, exists_eq_left']
      · obtain ⟨out, hnodup, heq, hout⟩ := @onLinks_sendMany t links (otherParties call source) raw
        refine ⟨out, hnodup, heq, fun l hl => ⟨(hout l hl).1, call, hcall', ?_⟩⟩
        have hother := (hout l hl).2
        rw [otherParties, if_neg (by rw [hkind]; decide), FinSet.mem_erase] at hother
        exact hother.2
    · exact hidle _ rfl

end Serving

end BrewServer.GroupCopies
