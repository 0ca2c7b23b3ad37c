import BrewServer.Audience
import BrewServer.Interleaving
import BrewServer.Presence
import BrewServer.Recall
import BrewServer.Silence

/-!
# The header comes before the voice

A frame goes to whoever is a peer of its call. A connection becomes one with its
header already queued (late entry), with the header queued by the talker's own
handler (call set-up), or with a header that the handler of an alarm has still to
queue. Only the last can be overtaken.
-/

namespace BrewServer

open Protocol Fedroute Router Sip Interleaving

namespace Sends

/-- No message of these is voice or DTMF. -/
def Wordless (sends : Sends) : Prop := ∀ m ∈ sends, ∀ id : Uuid, signal m.2 ≠ some (.speech, id)

theorem Silent.wordless {sends : Sends} (h : sends.Silent) : sends.Wordless := by
  intro m hm id hsaid
  rw [h m hm] at hsaid
  cases hsaid

theorem Wordless.append {a b : Sends} (ha : a.Wordless) (hb : b.Wordless) : Wordless (a ++ b) := by
  intro m hm
  rcases List.mem_append.mp hm with h | h
  · exact ha m h
  · exact hb m h

theorem wordless_sendMany {s : Inner} {cs : FinSet ClientId} {raw : Bytes}
    (h : ∀ id : Uuid, signal raw ≠ some (.speech, id)) : Wordless (s.sendMany cs raw) := by
  intro m hm
  rw [(Inner.mem_sendMany.mp hm).1]
  exact h

theorem wordless_cause {s : Inner} {cs : FinSet ClientId} {state : UInt8} {id : Uuid} {cause : UInt8} :
    Wordless (s.sendMany cs (buildCallCause state id cause)) := by
  refine wordless_sendMany fun k hk => ?_
  rw [signal_buildCallCause, stateSignal] at hk
  split at hk
  · cases hk
  · split at hk <;> cases hk

end Sends

/-- What the packet of a section says of a call. -/
def Interleaving.Section.said : Section → Option (Signal × Uuid)
  | .event (.packet _ _ raw) => signal raw
  | _ => none

/-- What a section owes to the peers of the group calls: whoever is one after it was
one before, under the same talker, or is sent the header, at once or by the
talker's handler or an alarm's. A frame goes out for the talker, to the peers. -/
structure Introduces (s s' : Inner) (sends : Sends) (held : ℕ) (who : Option ClientId)
    (said : Option (Signal × Uuid)) : Prop where
  peers : ∀ (id : Uuid) (r' : Roster) (c : ClientId), s'.roster id = some r' → r'.kind = .group → c ∈ r'.peers →
    (∃ r, s.roster id = some r ∧ r.kind = .group ∧ r.owner = r'.owner ∧ c ∈ r.peers) ∨
      Sends.Announces (sends.take held) c id ∨ (sends.Announces c id ∧ ∀ q ∈ who, q = r'.owner)
  frames : ∀ m ∈ sends, ∀ (id : Uuid) (r : Roster), signal m.2 = some (.speech, id) → s.roster id = some r →
    r.kind = .group → said = some (.speech, id) ∧ who = some r.owner ∧ m.1 ∈ r.peers

namespace Introduces

variable {s s' t : Inner} {sends : Sends} {held : ℕ} {who : Option ClientId} {said : Option (Signal × Uuid)}

/-- Calls go on with no new peer, or end. -/
theorem of_shrink (h : ∀ (id : Uuid) (r' : Roster), s'.roster id = some r' →
      ∃ r, s.roster id = some r ∧ r.kind = r'.kind ∧ r.owner = r'.owner ∧ ∀ c ∈ r'.peers, c ∈ r.peers)
    (hw : sends.Wordless) : Introduces s s' sends held who said := by
  refine ⟨fun id r' c hr hk hc => .inl ?_, fun m hm id r hsaid => absurd hsaid (hw m hm id)⟩
  obtain ⟨r, hr, hkind, howner, hpeers⟩ := h id r' hr
  exact ⟨r, hr, hkind.trans hk, howner, hpeers c hc⟩

theorem of_rosters (h : ∀ id : Uuid, s'.roster id = s.roster id) (hw : sends.Wordless) :
    Introduces s s' sends held who said :=
  .of_shrink (fun id r' hr => ⟨r', (h id).symm.trans hr, rfl, rfl, fun _ hc => hc⟩) hw

theorem of_offCall (h : OffCall s s' sends) (hheld : SilentHeld s) : Introduces s s' sends held who said :=
  .of_rosters h.rosters (h.silent hheld).wordless

/-- The calls were as they were when the handler came to its work. -/
theorem after (h : Introduces t s' sends held who said) (hoff : OffCall s t []) :
    Introduces s s' sends held who said := by
  refine ⟨fun id r' c hr hk hc => ?_, fun m hm id r hsaid hr => h.frames m hm id r hsaid ((hoff.rosters id).trans hr)⟩
  refine (h.peers id r' c hr hk hc).imp_left ?_
  rintro ⟨r, hr, hrest⟩
  exact ⟨r, (hoff.rosters id).symm.trans hr, hrest⟩

end Introduces

section Sections

variable {cfg : Config} {env : Env} {s s' : Inner} {source : ClientId} {id : Uuid} {raw : Bytes}
  {said : Option (Signal × Uuid)}

/-- A late entry is told of every call it enters, and nothing else is sent. -/
theorem headers_lateEntry (hnamed : HeadersNamed s) {groups : FinSet UInt32} :
    (lateEntry s source groups).2.Wordless ∧ ∀ (k : Uuid) (r' : Roster) (c : ClientId),
      (lateEntry s source groups).1.roster k = some r' → r'.kind = .group → c ∈ r'.peers →
        (∃ r, s.roster k = some r ∧ r.kind = .group ∧ r.owner = r'.owner ∧ c ∈ r.peers) ∨
          (lateEntry s source groups).2.Announces c k := by
  have hheader : ∀ (k : Uuid) (call : ActiveCall),
      signal (((s.groupTxRaw.filter fun callId _ => s.calls.contains callId)[k]?).getD
        (buildGroupTx k call.sourceIssi call.destination call.priority)) = some (.announce, k) := by
    intro k call
    cases hkept : (s.groupTxRaw.filter fun callId _ => s.calls.contains callId)[k]? with
    | none => rw [Option.getD_none, signal_buildGroupTx]
    | some header => exact hnamed k header (FinMap.getElem?_filter.mp hkept).1
  unfold lateEntry
  split
  · exact ⟨Sends.silent_nil.wordless, fun k r' c hr hk hc => .inl ⟨r', hr, hk, rfl, hc⟩⟩
  · split
    · exact ⟨Sends.silent_nil.wordless, fun k r' c hr hk hc => .inl ⟨r', hr, hk, rfl, hc⟩⟩
    · next entry _ =>
      dsimp only
      have hsaid : ∀ e : Uuid × ActiveCall, signal (adaptToVersion
          (if (s.consoles.contains source && emergencyPriority ≤ e.2.priority) = true then
            withEmergencyPriority (((s.groupTxRaw.filter fun callId _ => s.calls.contains callId)[e.1]?).getD
              (buildGroupTx e.1 e.2.sourceIssi e.2.destination e.2.priority))
          else ((s.groupTxRaw.filter fun callId _ => s.calls.contains callId)[e.1]?).getD
              (buildGroupTx e.1 e.2.sourceIssi e.2.destination e.2.priority)) entry.forwardVersion) =
          some (.announce, e.1) := by
        intro e
        rw [signal_adaptToVersion]
        split
        · rw [signal_withEmergencyPriority, hheader]
        · exact hheader e.1 e.2
      constructor
      · intro m hm k hk
        obtain ⟨e, -, hm⟩ := List.mem_flatMap.mp hm
        split at hm
        · rw [List.mem_singleton] at hm
          rw [hm, hsaid e] at hk
          cases hk
        · cases hm
      · intro k r' c hr hk hc
        rw [Inner.roster, FinMap.getElem?_map, Option.map_map] at hr
        obtain ⟨call, hcall, rfl⟩ := Option.map_eq_some_iff.mp hr
        have hlive := Inner.roster_of_call hcall
        dsimp only [Function.comp] at hk hc ⊢
        by_cases hjoin : joins source groups call = true
        · rw [if_pos hjoin] at hc hk ⊢
          rcases FinSet.mem_insert.mp hc with rfl | hc
          · refine .inr ⟨_, List.mem_flatMap.mpr ⟨(k, call), FinMap.mem_toList.mpr hcall, ?_⟩, hsaid (k, call)⟩
            dsimp only
            rw [if_pos hjoin]
            exact List.mem_singleton_self _
          · exact .inl ⟨call.roster, hlive, hk, rfl, hc⟩
        · rw [if_neg hjoin] at hc hk ⊢
          exact .inl ⟨call.roster, hlive, hk, rfl, hc⟩

theorem announces_installGroupTx {gt : GroupTransmission} {c : ClientId} (hsaid : signal raw = some (.announce, id))
    (hc : c ∈ groupTargets cfg s source id gt (isEmergencyCall env gt.source gt.priority)) (hclient : c ∈ s.clients) :
    Sends.Announces (installGroupTx cfg env s source id gt raw).2 c id := by
  obtain ⟨client, hget⟩ := FinMap.mem_iff.mp hclient
  have hsent : ∃ raw', (c, raw') ∈ (installGroupTx cfg env s source id gt raw).2 := by
    simp only [installGroupTx, List.mem_flatMap]
    refine ⟨?raw, c, Std.ExtTreeSet.mem_toList.mpr hc, ?mem⟩
    case mem =>
      rw [hget]
      exact List.mem_singleton_self _
  obtain ⟨raw', hm⟩ := hsent
  exact ⟨raw', hm, (mem_installGroupTx hm).2.trans hsaid⟩

theorem wordless_releases {gt : GroupTransmission} : (releases cfg s id gt).Wordless := by
  unfold releases
  split
  · exact Sends.wordless_cause
  · exact Sends.silent_nil.wordless

/-- Call control: a transmission is announced to everyone it reaches. -/
theorem introduces_control {cc : CallControlMessage} {sends : Sends} {held : ℕ} (hp : Present s) (hheld : SilentHeld s)
    (h : ControlChange cfg env s source cc raw s' sends) : Introduces s s' sends held (some source) said := by
  cases h with
  | off off => exact .of_offCall off hheld
  | @close call live party said =>
    refine .of_shrink (fun k r' hr => ?_) (Sends.wordless_sendMany fun k hk => ?_)
    · rw [roster_removeCall] at hr
      split at hr
      · cases hr
      · exact ⟨r', hr, rfl, rfl, fun _ hc => hc⟩
    · rcases said with ⟨-, h⟩ | ⟨-, h⟩
      · rw [h] at hk
        cases hk
      · rw [h] at hk
        cases hk
  | @announce gt state payload accepted said =>
    constructor
    · intro k r' c hr hk hc
      rw [roster_installGroupTx] at hr
      split at hr
      · next hid =>
        cases hr
        refine .inr (.inr ⟨?_, fun q hq => (Option.some.inj hq).symm⟩)
        rw [← hid]
        exact Sends.announces_append.mpr (.inr (announces_installGroupTx said hc (hp.freeFloor.mem_groupTargets hc)))
      · rw [roster_freeFloor] at hr
        split at hr
        · cases hr
        · exact .inl ⟨r', hr, hk, rfl, hc⟩
    · intro m hm k r hsaid hr hk
      rcases List.mem_append.mp hm with hm | hm
      · exact absurd hsaid (wordless_releases m hm k)
      · rw [(mem_installGroupTx hm).2, said] at hsaid
        cases hsaid
  | @setUp s' sends req call state request accepted opened reached routes silent =>
    refine ⟨fun k r' c hr hk hc => .inl ?_, fun m hm k r hsaid => absurd hsaid (silent.wordless m hm k)⟩
    rw [roster_setUp opened] at hr
    split at hr
    · cases hr
      have hkind : call.kind = .group := hk
      rw [opened.kind] at hkind
      cases hkind
    · exact ⟨r', hr, hk, rfl, hc⟩

theorem introduces_receivePrune {src : UInt32} {held : ℕ} :
    Introduces s (receivePrune s source id src) [] held (some source) said := by
  refine .of_shrink (fun k r' hr => ?_) Sends.silent_nil.wordless
  rcases @roster_receivePrune s source id src k with heq | ⟨-, heq⟩
  · exact ⟨r', heq.symm.trans hr, rfl, rfl, fun _ hc => hc⟩
  · rw [heq] at hr
    obtain ⟨r, hold, rfl⟩ := Option.map_eq_some_iff.mp hr
    exact ⟨r, hold, rfl, rfl, fun c hc => (FinSet.mem_erase.mp hc).2⟩

/-- The talker's frames go to the peers. -/
theorem introduces_speech {call : ActiveCall} {held : ℕ} (live : s.calls[id]? = some call)
    (may : mayInject call source = true) (said : signal raw = some (.speech, id)) :
    Introduces s (touch env s id call) (s.sendMany (otherParties call source) raw) held (some source)
      (signal raw) := by
  constructor
  · intro k r' c hr hk hc
    rw [roster_touch live] at hr
    exact .inl ⟨r', hr, hk, rfl, hc⟩
  · intro m hm k r hsaid hr hk
    obtain ⟨hraw, hto, -⟩ := Inner.mem_sendMany.mp hm
    rw [hraw, said] at hsaid
    cases hsaid
    rw [Inner.roster_of_call live] at hr
    cases hr
    have hgroup : call.kind = .group := hk
    have howner : call.owner = source := by
      rw [mayInject, hgroup] at may
      exact beq_iff_eq.mp may
    have hpeer := (FinSet.mem_erase.mp hto).2
    rw [if_neg (by rw [hgroup]; decide)] at hpeer
    exact ⟨said, congrArg some howner.symm, hpeer⟩

theorem heldOfPacket_subscribes {msg : SubscriberMessage} (h : asSubscriber raw = some msg) :
    heldOfPacket cfg env s source raw = (routePacket cfg env s source raw).sends.length := by
  obtain ⟨d, hparse⟩ := (asSubscriber_iff (v := clientVersion (purgeEphemeral env s) source)).mp h
  have hhead : raw.head? = some classSubscriber := head?_of_parse hparse
  have hnone : arriving env s source raw = none := by
    rw [arriving, if_neg (by rw [hhead]; decide), hparse]
  rw [heldOfPacket, hnone]
  dsimp only
  rw [if_neg (by rw [hhead]; decide)]

theorem heldOfPacket_withoutRoute
    (h : routePacket cfg env s source raw = routePacket cfg (withoutRoute env) s source raw) :
    heldOfPacket cfg (withoutRoute env) s source raw = heldOfPacket cfg env s source raw := by
  unfold heldOfPacket
  rw [h]
  rfl

theorem introduces_subscribes {msg : SubscriberMessage} (hnamed : HeadersNamed s)
    (h : asSubscriber raw = some msg) :
    Introduces s (routePacket cfg env s source raw).inner (routePacket cfg env s source raw).sends
      (heldOfPacket cfg env s source raw) (some source) (signal raw) := by
  obtain ⟨t, -, hoff, hroute⟩ := @routePacket_subscribes cfg env s source raw msg h
  rw [heldOfPacket_subscribes h, hroute]
  refine Introduces.after ?_ hoff
  rcases handleSubscriber_joined t env.nowMs source msg with heq | ⟨ticked, new, -, hentry, heq⟩
  · rw [heq]
    exact .of_rosters (fun _ => rfl) Sends.silent_nil.wordless
  · rw [heq]
    have hreg : Registers t (applyEntry ticked msg.issi new) := hentry.registers.trans registers_applyEntry
    have hnamed' : HeadersNamed (applyEntry ticked msg.issi new) :=
      (KeepsTexts.of_registers hreg).headers ((KeepsTexts.of_offCall hoff).headers hnamed)
    obtain ⟨hwordless, hheaders⟩ := @headers_lateEntry _ source hnamed'
      (joinedGroups (applyEntry ticked msg.issi new) source msg)
    have hall : Sends.Wordless (ofHandled ((lateEntry (applyEntry ticked msg.issi new) source
        (joinedGroups (applyEntry ticked msg.issi new) source msg)).1,
        (publish (applyEntry ticked msg.issi new) msg.issi t.subscribers[msg.issi]?).1 ++
          (lateEntry (applyEntry ticked msg.issi new) source
            (joinedGroups (applyEntry ticked msg.issi new) source msg)).2,
        (published (applyEntry ticked msg.issi new) msg.issi t.subscribers[msg.issi]?).2.2)).sends :=
      silent_publish.wordless.append hwordless
    refine ⟨fun k r' c hr hk hc => ?_, fun m hm k r hsaid => absurd hsaid (hall m hm k)⟩
    rcases hheaders k r' c hr hk hc with ⟨r, hold, hkind, howner, hpeer⟩ | hann
    · exact .inl ⟨r, (Inner.roster_congr hreg.calls k).symm.trans hold, hkind, howner, hpeer⟩
    · refine .inr (.inl ?_)
      rw [List.take_length]
      exact Sends.announces_append.mpr (.inr hann)

/-- A packet. -/
theorem introduces_packet (hp : Present s) (hnamed : HeadersNamed s) (hheld : SilentHeld s) :
    Introduces s (routePacket cfg env s source raw).inner (routePacket cfg env s source raw).sends
      (heldOfPacket cfg env s source raw) (some source) (signal raw) := by
  have hplain : ∀ e : Env, e.sip.placement = none → asSubscriber raw = none →
      Introduces s (routePacket cfg e s source raw).inner (routePacket cfg e s source raw).sends
        (heldOfPacket cfg e s source raw) (some source) (signal raw) := by
    intro e hsip hsub
    have hcalls : PacketCalls cfg e s source raw _ _ := packetCalls_routePacket hsip hsub
    generalize (routePacket cfg e s source raw).inner = s', (routePacket cfg e s source raw).sends = sends at hcalls ⊢
    cases hcalls with
    | off off => exact .of_offCall off hheld
    | prune before off fed asked => exact introduces_receivePrune.after off
    | speech before off live may said => exact (introduces_speech live may said).after off
    | control before off arrives change =>
      obtain ⟨⟨v, ht⟩, -⟩ := arriving_eq arrives
      have hcontinues : Continues s _ := ht ▸ continues_purgeEphemeral.trans continues_promoteClientVersion
      exact (introduces_control (hp.continues (.of_passive before) hcontinues) (off.held hheld) change).after off
  cases hsub : asSubscriber raw with
  | some msg => exact introduces_subscribes hnamed hsub
  | none =>
    rcases routePacket_placement cfg env s source raw with
      ⟨t, cc, callId, v, src, -, hoff, -, -, -, heq⟩ | hsip | heq
    · rw [heq]
      refine Introduces.after ?_ hoff
      have hcalls : (placeOutbound env (noteCall t cc.identifier src source env.now) source cc.identifier callId v).inner.calls =
          t.calls.insert cc.identifier _ := rfl
      have hwordless : (placeOutbound env (noteCall t cc.identifier src source env.now) source cc.identifier callId
          v).sends.Wordless := by
        refine Sends.Silent.wordless (Sends.silent_send ?_)
        rw [buildCallControlEmpty, ← List.append_nil ([classCallControl, callSetupAccept] ++ cc.identifier.asBytes),
          List.append_assoc, signal_built]
        rfl
      refine ⟨fun k r' c hr hk hc => .inl ?_, fun m hm k r hsaid => absurd hsaid (hwordless m hm k)⟩
      rw [Inner.roster_insert hcalls] at hr
      split at hr
      · cases hr
        cases hk
      · exact ⟨r', hr, hk, rfl, hc⟩
    · exact hplain env hsip hsub
    · rw [heq, ← heldOfPacket_withoutRoute heq]
      exact hplain (withoutRoute env) rfl hsub

theorem wordless_leaveCalls {c : ClientId} : (leaveCalls s c).sends.Wordless := by
  refine leaveCalls_induct (P := fun r => r.sends.Wordless) Sends.silent_nil.wordless fun r hr e _ _ => ?_
  unfold leaveCall
  dsimp only
  split
  · exact hr
  · exact hr.append Sends.wordless_cause

theorem introduces_cleanupClient {c : ClientId} {held : ℕ} {who : Option ClientId} :
    Introduces s (cleanupClient s c).inner (cleanupClient s c).sends held who said := by
  refine .of_shrink (fun k r' hr => ?_) ?_
  · rw [roster_cleanupClient] at hr
    obtain ⟨r, hold, hleft⟩ := Option.bind_eq_some_iff.mp hr
    unfold Roster.depart at hleft
    split at hleft
    · split at hleft
      · cases hleft
        exact ⟨r, hold, rfl, rfl, fun d hd => (FinSet.mem_erase.mp hd).2⟩
      · cases hleft
    · cases hleft
      exact ⟨r', hold, rfl, rfl, fun _ hd => hd⟩
  · have hsilent : (dropRegistrations s c).2.Silent := by
      rw [dropRegistrations_sends]
      exact Sends.silent_flatMap fun _ _ => silent_publish
    rw [(cleanupClient_eq s c).2.1]
    exact hsilent.wordless.append wordless_leaveCalls

theorem introduces_sweepEnd {swept : ActiveCall} {held : ℕ} {who : Option ClientId} :
    Introduces s (sweepEnd env s id swept).inner (sweepEnd env s id swept).sends held who said := by
  rcases sweepEnd_cases env s id swept with heq | ⟨call, raw, -, -, hclose, hinner, hsends⟩
  · rw [heq]
    exact .of_rosters (fun _ => rfl) Sends.silent_nil.wordless
  · rw [hinner, hsends]
    refine .of_shrink (fun k r' hr => ?_) (Sends.wordless_sendMany fun k hk => ?_)
    · rw [roster_removeCall] at hr
      split at hr
      · cases hr
      · exact ⟨r', hr, rfl, rfl, fun _ hc => hc⟩
    · rw [hclose] at hk
      cases hk

/-- An alarm has the header sent to everyone it brings in. -/
theorem introduces_alarm {issi : UInt32} {held : ℕ} (hp : Present s) :
    Introduces s (emergencyRaised s issi).1 (emergencyRaised s issi).2 held none said := by
  constructor
  · intro k r' c hr hk hc
    rw [Inner.roster, emergencyRaised, FinMap.getElem?_map, Option.map_map] at hr
    obtain ⟨call, hcall, rfl⟩ := Option.map_eq_some_iff.mp hr
    have hlive := Inner.roster_of_call hcall
    dsimp only [Function.comp] at hk hc ⊢
    split at hc
    · next hraises =>
      rw [if_pos hraises] at hk ⊢
      rcases Std.ExtTreeSet.mem_union_iff.mp hc with hold | hnew
      · exact .inl ⟨call.roster, hlive, hk, rfl, hold⟩
      · have hnew := FinSet.mem_ofList.mp hnew
        have hbrought := (List.mem_filter.mp hnew).1
        have hreached : (s.consoles.contains c || s.isPeer c) = true ∧ c ∈ s.clients := by
          rcases List.mem_append.mp hbrought with hconsole | hpeer
          · have hmem := Std.ExtTreeSet.mem_toList.mp hconsole
            rw [Std.ExtTreeSet.contains_iff_mem.mpr hmem]
            exact ⟨rfl, hp.consoles c hmem⟩
          · obtain ⟨e, he, rfl⟩ := List.mem_map.mp hpeer
            obtain ⟨he, hmode⟩ := List.mem_filter.mp he
            have hget := FinMap.mem_toList.mp he
            refine ⟨?_, FinMap.mem_of_getElem? hget⟩
            rw [Inner.isPeer, hget, Bool.or_eq_true]
            exact .inr hmode
        refine .inr (.inr ⟨⟨buildGroupTx k issi call.destination emergencyPriority, ?_, signal_buildGroupTx ..⟩,
          fun q hq => by cases hq⟩)
        refine List.mem_flatMap.mpr ⟨(k, call), FinMap.mem_toList.mpr hcall, ?_⟩
        dsimp only
        rw [if_pos hraises]
        refine List.mem_flatMap.mpr ⟨c, List.mem_append_right _ hnew, ?_⟩
        rw [if_pos hreached.1]
        exact Inner.mem_send.mpr ⟨rfl, hreached.2⟩
    · next hraises =>
      rw [if_neg hraises] at hk ⊢
      exact .inl ⟨call.roster, hlive, hk, rfl, hc⟩
  · intro m hm k r hsaid
    obtain ⟨e, -, hm⟩ := List.mem_flatMap.mp hm
    dsimp only at hm
    split at hm
    · obtain ⟨c, -, hm⟩ := List.mem_flatMap.mp hm
      split at hm
      · rw [(Prod.mk.inj (Inner.mem_send.mp hm).1).2, signal_buildGroupTx] at hsaid
        cases hsaid
      · cases hm
    · cases hm

/-- Every section owes the header to whoever it makes a peer. -/
theorem introduces {sec : Section} (hp : Present s) (hnamed : HeadersNamed s) (hheld : SilentHeld s) :
    Introduces s (sec.effect cfg s).inner (sec.effect cfg s).sends (sec.held cfg s) sec.who sec.said := by
  cases sec with
  | expire env id call => exact introduces_sweepEnd
  | event ev =>
    cases ev with
    | connect c client neighbour console =>
      refine .of_rosters (Inner.roster_congr ?_) (@silent_openSession s c client neighbour console).wordless
      rw [Section.effect, routeEvent]
      unfold openSession attachClient
      cases neighbour <;> cases console <;> rfl
    | packet env source raw => exact introduces_packet hp hnamed hheld
    | disconnect c => exact introduces_cleanupClient
    | alarm issi => exact introduces_alarm hp
    | smsDeliver env id src dest lengthBits data => exact .of_offCall offCall_deliverStored hheld
    | advertiseBts nowMs key name lat lon online => exact .of_offCall offCall_advertiseBts hheld
    | advertiseEmergency nowMs issi dest bts active => exact .of_offCall offCall_advertiseEmergency hheld
    | sweep env => exact .of_rosters (fun _ => rfl) Sends.silent_nil.wordless
    | sipPrivate env callId issi v id rtpPort => exact .of_rosters (fun _ => rfl) Sends.silent_nil.wordless
    | sipGroup env callId g v id rtpPort => exact .of_rosters (fun _ => rfl) Sends.silent_nil.wordless
    | sipEnd callId => exact .of_rosters (fun _ => rfl) Sends.silent_nil.wordless

end Sections

/-! ## Every run -/

namespace Interleaving

/-- A connection has been queued the header of a call. -/
def Heard (log : List Entry) (c : ClientId) (id : Uuid) : Prop :=
  ∃ h ∈ log, h.client = c ∧ signal h.raw = some (.announce, id)

instance (log : List Entry) (c : ClientId) (id : Uuid) : Decidable (Heard log c id) :=
  @List.decidableBEx _ _ (fun h : Entry => inferInstanceAs (Decidable (h.client = c ∧ signal h.raw = some (.announce, id)))) log

theorem Heard.mono {log log' : List Entry} {c : ClientId} {id : Uuid} (h : Heard log c id) (hsub : ∀ e ∈ log, e ∈ log') :
    Heard log' c id := by
  obtain ⟨e, he, hrest⟩ := h
  exact ⟨e, hsub e he, hrest⟩

/-- When the talker of a group call speaks, no header that an alarm has still to queue
is the first its recipient gets of the call. -/
def Introduced (w : Interleaving) : Move → Prop
  | .handle (.event (.packet _ source raw)) =>
    ∀ said ∈ signal raw, said.1 = .speech → ∀ r ∈ w.inner.roster said.2, r.kind = .group → r.owner = source →
      ∀ h ∈ w.waiting, h.who = none → signal h.raw = some (.announce, said.2) → h.client ∈ r.peers →
        Heard w.log h.client said.2
  | _ => True

instance (w : Interleaving) (m : Move) : Decidable (Introduced w m) :=
  match m with
  | .handle (.event (.packet _ source raw)) =>
    @Option.decidableForallMem _ _ (fun said : Signal × Uuid =>
      have : DecidablePred fun r : Roster => r.kind = .group → r.owner = source → ∀ h ∈ w.waiting, h.who = none →
          signal h.raw = some (.announce, said.2) → h.client ∈ r.peers → Heard w.log h.client said.2 := fun r =>
        have : Decidable (∀ h ∈ w.waiting, h.who = none → signal h.raw = some (.announce, said.2) → h.client ∈ r.peers →
            Heard w.log h.client said.2) := @List.decidableBAll _ _ (fun _ => inferInstance) w.waiting
        inferInstance
      have : Decidable (∀ r ∈ w.inner.roster said.2, r.kind = .group → r.owner = source → ∀ h ∈ w.waiting, h.who = none →
          signal h.raw = some (.announce, said.2) → h.client ∈ r.peers → Heard w.log h.client said.2) :=
        Option.decidableForallMem _
      inferInstance) (signal raw)
  | .handle (.event (.connect ..)) | .handle (.event (.disconnect ..)) | .handle (.event (.alarm ..))
  | .handle (.event (.smsDeliver ..)) | .handle (.event (.advertiseBts ..)) | .handle (.event (.advertiseEmergency ..))
  | .handle (.event (.sweep ..)) | .handle (.event (.sipPrivate ..)) | .handle (.event (.sipGroup ..))
  | .handle (.event (.sipEnd ..)) | .handle (.expire ..) | .send .. => isTrue trivial

variable {cfg : Config} {w : Interleaving} {sec : Section}

/-- What holds in every state: whoever is a peer of a group call has been queued its
header or is still to be, by the talker's handler or an alarm's, and no frame waits
for, or has been queued to, anyone who has not. -/
structure Greeted (w : Interleaving) : Prop where
  routed : WellRouted w.inner
  present : Present w.inner
  named : HeadersNamed w.inner
  held : SilentHeld w.inner
  peers : ∀ (id : Uuid) (r : Roster) (c : ClientId), w.inner.roster id = some r → r.kind = .group → c ∈ r.peers →
    Heard w.log c id ∨
      ∃ e ∈ w.waiting, e.client = c ∧ signal e.raw = some (.announce, id) ∧ ∀ q ∈ e.who, q = r.owner
  frames : ∀ e ∈ w.waiting, ∀ id : Uuid, e.voice = some id → Heard w.log e.client id
  ordered : ∀ (i : ℕ) (e : Entry), w.log[i]? = some e → ∀ id : Uuid, e.voice = some id →
    Heard (w.log.take i) e.client id

theorem keepsTexts_effect : KeepsTexts w.inner (sec.effect cfg w.inner).inner := by
  cases sec with
  | expire env id call =>
    rw [Section.effect]
    rcases sweepEnd_cases env w.inner id call with heq | ⟨call', raw, -, -, -, hinner, -⟩
    · rw [heq]
      exact .refl w.inner
    · rw [hinner]
      exact keepsTexts_removeCall
  | event ev =>
    rw [Section.effect]
    cases ev with
    | connect c client neighbour console =>
      rw [routeEvent]
      unfold openSession attachClient
      cases neighbour <;> cases console <;> exact .of_same rfl rfl
    | packet env source raw =>
      rw [routeEvent]
      rcases routePacket_placement cfg env w.inner source raw with
        ⟨t, cc, callId, v, src, -, hoff, -, -, -, heq⟩ | hsip | heq
      · rw [heq]
        exact (KeepsTexts.of_offCall hoff).trans (.of_same rfl rfl)
      · exact keepsTexts_packet hsip
      · rw [heq]
        exact @keepsTexts_packet _ (withoutRoute env) _ _ _ rfl
    | disconnect c => exact keepsTexts_cleanupClient
    | alarm issi => exact .of_same rfl rfl
    | smsDeliver env id src dest lengthBits data => exact .of_offCall offCall_deliverStored
    | advertiseBts nowMs key name lat lon online => exact .of_offCall offCall_advertiseBts
    | advertiseEmergency nowMs issi dest bts active => exact .of_offCall offCall_advertiseEmergency
    | sweep env => exact .refl w.inner
    | sipPrivate env callId issi v id rtpPort => exact .refl w.inner
    | sipGroup env callId g v id rtpPort => exact .refl w.inner
    | sipEnd callId => exact .refl w.inner

theorem wellRouted_effect (h : WellRouted w.inner) (hok : Move.Allowed w (.handle sec)) :
    WellRouted (sec.effect cfg w.inner).inner := by
  cases sec with
  | expire env id call => exact h.aside passive_sweepEnd.aside
  | event ev =>
    have hstep : EventStep Joining w.inner ev (routeEvent cfg w.inner ev).inner (routeEvent cfg w.inner ev).sends :=
      eventStep_routeEvent Passive.joining fun env source raw hev => by
        subst hev
        exact packetStep_joining hok.2.1.2.2
    exact WellRouted.eventStep (a := { inner := w.inner }) h hok.2.1 hstep

theorem present_effect (h : Present w.inner) (hw : WellRouted w.inner) (hok : Move.Allowed w (.handle sec)) :
    Present (sec.effect cfg w.inner).inner := by
  cases sec with
  | expire env id call => exact h.sweepEnd
  | event ev => exact h.routeEvent hw hok.2.1

/-- A message that is queued under the lock. -/
theorem heard_of_held {c : ClientId} {id : Uuid}
    (h : Sends.Announces ((sec.effect cfg w.inner).sends.take (sec.held cfg w.inner)) c id) :
    Heard (w.handle cfg sec).log c id := by
  obtain ⟨raw, hm, hsaid⟩ := h
  rw [Interleaving.handle, entries, ← List.map_take]
  exact ⟨_, List.mem_append_right _ (List.mem_map.mpr ⟨_, hm, rfl⟩), rfl, hsaid⟩

/-- A message of a section has been queued or waits. -/
theorem owed_of_announces {c : ClientId} {id : Uuid} (h : Sends.Announces (sec.effect cfg w.inner).sends c id) :
    Heard (w.handle cfg sec).log c id ∨
      ∃ e ∈ (w.handle cfg sec).waiting, e.client = c ∧ signal e.raw = some (.announce, id) ∧ e.who = sec.who := by
  obtain ⟨raw, hm, hsaid⟩ := h
  rw [← List.take_append_drop (sec.held cfg w.inner) (sec.effect cfg w.inner).sends] at hm
  rcases List.mem_append.mp hm with hm | hm
  · exact .inl (heard_of_held ⟨raw, hm, hsaid⟩)
  · refine .inr ?_
    rw [Interleaving.handle, entries, ← List.map_drop]
    exact ⟨_, List.mem_append_right _ (List.mem_map.mpr ⟨_, hm, rfl⟩), rfl, hsaid, rfl⟩

theorem heard_handle {c : ClientId} {id : Uuid} (h : Heard w.log c id) : Heard (w.handle cfg sec).log c id :=
  h.mono fun _ he => List.mem_append_left _ he

theorem speech_of_voice {m : ClientId × Bytes} {id : Uuid}
    (h : ((signal m.2).bind fun sig => if sig.1 = .speech ∧ w.inner.groupCall sig.2 then some sig.2 else none) = some id) :
    signal m.2 = some (.speech, id) ∧ w.inner.groupCall id = true := by
  obtain ⟨⟨sig, id'⟩, hsaid, hcall⟩ := Option.bind_eq_some_iff.mp h
  dsimp only at hcall
  split at hcall
  · next hspeech =>
    cases hcall
    obtain ⟨rfl, hgroup⟩ := hspeech
    exact ⟨hsaid, hgroup⟩
  · cases hcall

theorem roster_of_groupCall {s : Inner} {id : Uuid} (h : s.groupCall id = true) :
    ∃ r, s.roster id = some r ∧ r.kind = .group := by
  obtain ⟨call, hcall, hkind⟩ := (Option.any_eq_true _ _).mp h
  exact ⟨call.roster, Inner.roster_of_call hcall, of_decide_eq_true hkind⟩

/-- Only a packet says anything. -/
theorem packet_of_said {said : Signal × Uuid} (h : sec.said = some said) :
    ∃ env source raw, sec = .event (.packet env source raw) := by
  cases sec with
  | expire env id call => cases h
  | event ev => cases ev <;> first | exact ⟨_, _, _, rfl⟩ | cases h

namespace Greeted

/-- A frame goes to those who have been queued the header. -/
theorem heard_entry (h : Greeted w) (hok : Move.Allowed w (.handle sec)) (hin : Introduced w (.handle sec)) {e : Entry}
    (he : e ∈ entries cfg w sec) {id : Uuid} (hvoice : e.voice = some id) : Heard w.log e.client id := by
  obtain ⟨m, hm, rfl⟩ := List.mem_map.mp he
  obtain ⟨hsaid, hgroup⟩ := speech_of_voice hvoice
  obtain ⟨r, hr, hkind⟩ := roster_of_groupCall hgroup
  have howes : Introduces w.inner (sec.effect cfg w.inner).inner (sec.effect cfg w.inner).sends
      (sec.held cfg w.inner) sec.who sec.said := introduces h.present h.named h.held
  obtain ⟨hspeech, hwho, hpeer⟩ := howes.frames m hm id r hsaid hr hkind
  obtain ⟨env, source, raw, rfl⟩ := packet_of_said hspeech
  obtain rfl : source = r.owner := Option.some.inj hwho
  rcases h.peers id r m.1 hr hkind hpeer with hheard | ⟨x, hx, hclient, hannounce, hx'⟩
  · exact hheard
  · cases hfrom : x.who with
    | none =>
      have hfirst := hin (.speech, id) hspeech rfl r hr hkind rfl x hx hfrom hannounce
      rw [hclient] at hfirst
      exact hfirst hpeer
    | some q =>
      -- the talker's own header: its handler is done before the frame is handled
      have hq : x.who = some r.owner := hfrom.trans (congrArg some (hx' q hfrom))
      exact absurd hq (hok.2.2 x hx (by rw [hfrom]; rfl))

theorem handle (h : Greeted w) (hok : Move.Allowed w (.handle sec)) (hin : Introduced w (.handle sec)) :
    Greeted (w.handle cfg sec) := by
  have howes : Introduces w.inner (sec.effect cfg w.inner).inner (sec.effect cfg w.inner).sends
      (sec.held cfg w.inner) sec.who sec.said := introduces h.present h.named h.held
  constructor
  · exact wellRouted_effect h.routed hok
  · exact present_effect h.present h.routed hok
  · exact keepsTexts_effect.headers h.named
  · exact keepsTexts_effect.held h.held
  · intro id r' c hr hk hc
    rcases howes.peers id r' c hr hk hc with ⟨r, hold, hkind, howner, hpeer⟩ | hnow | ⟨hann, hwho⟩
    · rcases h.peers id r c hold hkind hpeer with hheard | ⟨e, he, hclient, hsaid, hwho⟩
      · exact .inl (heard_handle hheard)
      · exact .inr ⟨e, List.mem_append_left _ he, hclient, hsaid, fun q hq => (hwho q hq).trans howner⟩
    · exact .inl (heard_of_held hnow)
    · rcases owed_of_announces hann with hheard | ⟨e, he, hclient, hsaid, hsec⟩
      · exact .inl hheard
      · exact .inr ⟨e, he, hclient, hsaid, hsec ▸ hwho⟩
  · intro e he id hvoice
    rcases List.mem_append.mp he with he | he
    · exact heard_handle (h.frames e he id hvoice)
    · exact heard_handle (h.heard_entry hok hin (List.mem_of_mem_drop he) hvoice)
  · intro i e he id hvoice
    change (w.log ++ _)[i]? = some e at he
    rw [List.getElem?_append] at he
    split at he
    · next hi =>
      refine (h.ordered i e he id hvoice).mono fun x hx => ?_
      change x ∈ (w.log ++ _).take i
      rw [List.take_append_of_le_length hi.le]
      exact hx
    · next hi =>
      refine (h.heard_entry hok hin (List.mem_of_mem_take (List.mem_of_getElem? he)) hvoice).mono fun x hx => ?_
      change x ∈ (w.log ++ _).take i
      rw [List.take_append]
      exact List.mem_append_left _ (by rwa [List.take_of_length_le (Nat.le_of_not_lt hi)])

theorem send (h : Greeted w) (handler : ℕ) (client : ClientId) : Greeted (w.send handler client) := by
  cases hdue : w.due handler client with
  | none =>
    rw [Interleaving.send, hdue]
    exact h
  | some d =>
    have hsend : w.send handler client = { w with waiting := w.waiting.erase d, log := w.log ++ [d] } := by
      rw [Interleaving.send, hdue]
    have hmono : ∀ {c : ClientId} {id : Uuid}, Heard w.log c id → Heard (w.log ++ [d]) c id := fun hh =>
      hh.mono fun _ he => List.mem_append_left _ he
    rw [hsend]
    refine ⟨h.routed, h.present, h.named, h.held, fun id r c hr hk hc => ?_, fun e he id hvoice => ?_,
      fun i e he id hvoice => ?_⟩
    · rcases h.peers id r c hr hk hc with hheard | ⟨e, he, hclient, hsaid, hwho⟩
      · exact .inl (hmono hheard)
      · by_cases hd : e = d
        · exact .inl ⟨d, List.mem_append_right _ (List.mem_singleton_self d), hd ▸ hclient, hd ▸ hsaid⟩
        · exact .inr ⟨e, (List.mem_erase_of_ne hd).mpr he, hclient, hsaid, hwho⟩
    · exact hmono (h.frames e (List.mem_of_mem_erase he) id hvoice)
    · dsimp only at he ⊢
      rw [List.getElem?_append] at he
      split at he
      · next hi =>
        rw [List.take_append_of_le_length hi.le]
        exact h.ordered i e he id hvoice
      · next hi =>
        have hd : e = d := List.mem_singleton.mp (List.mem_of_getElem? he)
        refine (h.frames e (hd ▸ (mem_due hdue).1) id hvoice).mono fun x hx => ?_
        rw [List.take_append]
        exact List.mem_append_left _ (by rwa [List.take_of_length_le (Nat.le_of_not_lt hi)])

end Greeted

theorem greeted_start (selfId : UInt64) : Greeted (start selfId) := by
  have hcall : ∀ id : Uuid, (Inner.empty selfId).roster id = none := by
    intro id
    change ((∅ : FinMap Uuid ActiveCall)[id]?).map ActiveCall.roster = none
    rw [Std.ExtTreeMap.getElem?_empty, Option.map_none]
  constructor
  · exact (sound_start selfId).routed
  · exact .empty selfId
  · intro id raw hraw
    change (∅ : FinMap Uuid Bytes)[id]? = some raw at hraw
    rw [Std.ExtTreeMap.getElem?_empty] at hraw
    cases hraw
  · intro id r hdr hr
    change (∅ : FinMap Uuid SdsRoute)[id]? = some r at hr
    rw [Std.ExtTreeMap.getElem?_empty] at hr
    cases hr
  · intro id r c hr
    cases (hcall id).symm.trans hr
  · exact fun e he => absurd he List.not_mem_nil
  · exact fun i e he => absurd (List.mem_of_getElem? he) List.not_mem_nil

/-- In every run in which no talker speaks while an alarm has still to announce the
call to a peer, every frame of a group call comes after the call's header. -/
theorem heard_of_reach {selfId : UInt64}
    (h : Reach (Interleaving.start selfId) (fun w m => m.Allowed w ∧ Introduced w m) (Interleaving.next cfg) w) :
    ∀ (i : ℕ) (e : Entry), w.log[i]? = some e → ∀ id : Uuid, e.voice = some id →
      Heard (w.log.take i) e.client id := by
  have hinv : Greeted w := by
    refine h.invariant (P := Greeted) (greeted_start selfId) ?_
    rintro w m hw ⟨hok, hin⟩
    cases m with
    | handle sec => exact hw.handle hok hin
    | send handler client => exact hw.send handler client
  exact hinv.ordered

/-- A listener is sent the header and then the frame. -/
theorem heard_transmission :
    let w := ([.handle (.event (.connect 1 (.accepted .basestation) none false)),
      .handle (.event (.connect 2 (.accepted .basestation) none false)),
      .handle (.event (.packet (.plain 5) 1 (buildGroupTx 3 7 91 0))), .send 2 2,
      .handle (.event (.packet (.plain 6) 1 (Silence.voiceOf 3))), .send 3 2] : List Move).foldl
        (Interleaving.next {}) (.start 9)
    (w.log[1]?).bind (·.voice) = some 3 ∧ Heard (w.log.take 1) 2 3 := by
  intro w
  have hrun : Reach (Interleaving.start 9) (fun w m => m.Allowed w ∧ Introduced w m) (Interleaving.next {}) w :=
    .of_list _ .init (by decide +kernel)
  have hvoice : (w.log[1]?).bind (·.voice) = some 3 := by decide +kernel
  obtain ⟨e, he, hid⟩ := Option.bind_eq_some_iff.mp hvoice
  have hclient : (w.log[1]?).map (·.client) = some 2 := by decide +kernel
  rw [he] at hclient
  exact ⟨hvoice, Option.some.inj hclient ▸ heard_of_reach hrun 1 e he 3 hid⟩

/-- An alarm brings a console into a running call; the talker's next frame reaches
the console before the header the alarm has for it. -/
theorem not_heard :
    ¬ ∀ (cfg : Config) (selfId : UInt64) (w : Interleaving),
      Reach (Interleaving.start selfId) (fun w m => m.Allowed w) (Interleaving.next cfg) w →
      ∀ (i : ℕ) (e : Entry), w.log[i]? = some e → ∀ id : Uuid, e.voice = some id →
        Heard (w.log.take i) e.client id := by
  intro hall
  let moves : List Move := [.handle (.event (.connect 1 (.accepted .basestation) none false)),
    .handle (.event (.connect 2 (.accepted .basestation) none false)),
    .handle (.event (.connect 5 (.accepted .basestation) none true)),
    .handle (.event (.packet (.plain 5) 2 (buildSubscriberMessage subAffiliate 8 [91]))),
    .handle (.event (.packet (.plain 5) 1 (buildGroupTx 3 7 91 0))), .send 4 2, .handle (.event (.alarm 7)),
    .handle (.event (.packet (.plain 6) 1 (Silence.voiceOf 3))), .send 6 5]
  have hrun : Reach (Interleaving.start 9) (fun w m => m.Allowed w) (Interleaving.next {})
      (moves.foldl (Interleaving.next {}) (.start 9)) := .of_list moves .init (by decide +kernel)
  obtain ⟨e, he⟩ : ∃ e, (moves.foldl (Interleaving.next {}) (.start 9)).log[1]? = some e :=
    Option.isSome_iff_exists.mp (by decide +kernel)
  have hvoice : (((moves.foldl (Interleaving.next {}) (.start 9)).log[1]?).map fun e => (e.client, e.voice)) =
      some (5, some 3) := by decide +kernel
  rw [he] at hvoice
  obtain ⟨hclient, hid⟩ := Prod.mk.inj (Option.some.inj hvoice)
  have hheard := hall {} 9 _ hrun 1 e he 3 hid
  rw [hclient] at hheard
  revert hheard
  decide +kernel

end Interleaving

end BrewServer
