import BrewServer.Floor
import BrewServer.ForcedEnd

/-!
# Group calls from the SIP side

An accepted INVITE takes the floor of its group without asking who holds it, and the
end of its leg takes everything back but the group itself.
-/

namespace BrewServer

open Protocol Fedroute Router Sip

/-- A group call to `g` is live under `id`. -/
def LiveOn (s : Inner) (g : UInt32) (id : Uuid) (call : ActiveCall) : Prop :=
  s.calls[id]? = some call ∧ call.kind = .group ∧ call.destination = g

instance (s : Inner) (g : UInt32) (id : Uuid) (call : ActiveCall) : Decidable (LiveOn s g id call) :=
  inferInstanceAs (Decidable (s.calls[id]? = some call ∧ call.kind = .group ∧ call.destination = g))

/-- Whether any group call to `g` is live. -/
def liveOn (s : Inner) (g : UInt32) : Bool := s.calls.toList.any fun e => e.2.kind = .group && e.2.destination == g

/-- Whether an INVITE to a group becomes a call. -/
def acceptsGroup (cfg : Config) (s : Inner) (gssi : UInt32) (rtpPort : Bool) : Bool :=
  !((s.members gssi).isEmpty && !cfg.fallbackBroadcastWhenNoAffiliations) && rtpPort

/-- What an INVITE to a group owes the calls on it: it is refused, or they end and
everyone in them is told. -/
structure YieldsFloor (cfg : Config) (a : AppState) (gssi : UInt32) (r : AppState × Sends) : Prop where
  one : ∀ (id id' : Uuid) (call call' : ActiveCall),
    LiveOn r.1.inner gssi id call → LiveOn r.1.inner gssi id' call' → id = id'
  others : ∀ (id : Uuid) (call : ActiveCall), LiveOn a.inner gssi id call →
    r = (a, []) ∨ (r.1.inner.calls[id]? = none ∧ ∀ c : ClientId, call.isParty c → c ∈ a.inner.clients →
      (c, buildCallCause callGroupIdle id cfg.preemptCause) ∈ r.2)

/-- An INVITE to a group is refused, or no group call is live on it. -/
def Event.FindsFloorFree (cfg : Config) (a : AppState) : Event → Prop
  | .sipGroup _ _ gssi _ _ rtpPort => acceptsGroup cfg a.inner gssi rtpPort = true → liveOn a.inner gssi = false
  | _ => True

instance (cfg : Config) (a : AppState) (ev : Event) : Decidable (ev.FindsFloorFree cfg a) :=
  match ev with
  | .sipGroup _ _ gssi _ _ rtpPort =>
    inferInstanceAs (Decidable (acceptsGroup cfg a.inner gssi rtpPort = true → liveOn a.inner gssi = false))
  | .connect .. | .packet .. | .disconnect _ | .alarm _ | .sweep _ | .smsDeliver .. | .advertiseBts ..
  | .advertiseEmergency .. | .sipPrivate .. | .sipEnd _ => isTrue trivial

section Seizure

variable {cfg : Config} {env : Env} {a : AppState} {callId : String} {gssi : UInt32} {virtualClient : ClientId}
  {brewCallId id : Uuid} {rtpPort : Bool} {call : ActiveCall} {s : Inner}

theorem liveOn_eq_false : liveOn s gssi = false ↔ ∀ (id : Uuid) (call : ActiveCall), ¬ LiveOn s gssi id call := by
  unfold liveOn LiveOn
  rw [List.any_eq_false]
  constructor
  · intro h id call hlive
    apply h (id, call) (FinMap.mem_toList.mpr hlive.1)
    simp [hlive.2.1, hlive.2.2]
  · intro h e he hgroup
    simp only [Bool.and_eq_true, decide_eq_true_eq, beq_iff_eq] at hgroup
    exact h e.1 e.2 ⟨FinMap.mem_toList.mp he, hgroup⟩

/-- A refused INVITE changes nothing. -/
theorem sipToBrewGroup_refused (h : acceptsGroup cfg a.inner gssi rtpPort = false) :
    sipToBrewGroup cfg env a callId gssi virtualClient brewCallId rtpPort = (a, []) := by
  unfold sipToBrewGroup
  unfold acceptsGroup at h
  split
  · rfl
  · next hmembers =>
    rw [Bool.eq_false_iff.mpr hmembers] at h
    rw [if_pos (by simpa using h)]

/-- What an accepted one does to the tables. -/
theorem sipToBrewGroup_accepted (h : acceptsGroup cfg a.inner gssi rtpPort = true) :
    (sipToBrewGroup cfg env a callId gssi virtualClient brewCallId rtpPort).1 =
      { inner := { a.inner with
          clients := a.inner.clients.insert virtualClient virtualClientEntry
          groupClients := join a.inner.groupClients virtualClient gssi
          calls := a.inner.calls.insert brewCallId
            ⟨.group, virtualClient, 0, gssi, 0, (a.inner.members gssi).erase virtualClient, env.now, env.nowMs⟩
          groupFloor := a.inner.groupFloor.insert gssi brewCallId }
        legs := a.legs.insert callId ⟨virtualClient, brewCallId, some gssi⟩ } := by
  unfold acceptsGroup at h
  rw [Bool.and_eq_true, Bool.not_eq_true'] at h
  unfold sipToBrewGroup
  rw [if_neg (Bool.eq_false_iff.mp h.1), if_neg (by simp [h.2])]
  rfl

/-- Whoever takes a free floor is alone on it. -/
theorem FloorHeld.sipGroup (hheld : FloorHeld a.inner)
    (hfree : Event.FindsFloorFree cfg a (.sipGroup env callId gssi virtualClient brewCallId rtpPort)) :
    FloorHeld (sipToBrewGroup cfg env a callId gssi virtualClient brewCallId rtpPort).1.inner := by
  cases haccept : acceptsGroup cfg a.inner gssi rtpPort with
  | false =>
    rw [sipToBrewGroup_refused haccept]
    exact hheld
  | true =>
    have hnone := liveOn_eq_false.mp (hfree haccept)
    rw [sipToBrewGroup_accepted haccept]
    intro other call hcall hkind
    change (a.inner.calls.insert brewCallId _)[other]? = some call at hcall
    show (a.inner.groupFloor.insert gssi brewCallId)[call.destination]? = some other
    rw [FinMap.getElem?_insert] at hcall ⊢
    split at hcall
    · next hid =>
      cases hcall
      rw [if_pos rfl, hid]
    · rw [if_neg, hheld other call hcall hkind]
      intro hdest
      exact hnone other call ⟨hcall, hkind, hdest.symm⟩

/-- A private call touches no floor. -/
theorem FloorHeld.sipPrivate {issi : UInt32} (hheld : FloorHeld a.inner) :
    FloorHeld (sipToBrewPrivate env a callId issi virtualClient brewCallId rtpPort).1.inner := by
  unfold sipToBrewPrivate
  split
  · exact hheld
  · split
    · exact hheld
    · split
      · exact hheld
      · intro other call hcall hkind
        change (a.inner.calls.insert brewCallId _)[other]? = some call at hcall
        rw [FinMap.getElem?_insert] at hcall
        split at hcall
        · cases hcall
          cases hkind
        · exact hheld other call hcall hkind

theorem FloorHeld.next (hcfg : cfg.allowMultipleCallsPerGroup = false) {ev : Event} (hheld : FloorHeld a.inner)
    (hfree : ev.FindsFloorFree cfg a) : FloorHeld (a.next cfg ev).inner := by
  by_cases hinvite : ev.NoInvite
  · cases eventCalls cfg a hinvite with
    | same hc hf => exact hheld.congr hc hf
    | continues hc => exact hheld.continues hc
    | packet event step after => exact (hheld.callStep hcfg step).continues after
  · cases ev with
    | sipPrivate env callId issi virtualClient brewCallId rtpPort => exact hheld.sipPrivate
    | sipGroup env callId gssi virtualClient brewCallId rtpPort => exact hheld.sipGroup hfree
    | connect | packet | disconnect | alarm | sweep | smsDeliver | advertiseBts | advertiseEmergency | sipEnd =>
      exact absurd trivial hinvite

theorem floorHeld_start (selfId : UInt64) : FloorHeld (AppState.start selfId).inner := by
  intro id call hcall
  rw [AppState.start, Inner.empty, Std.ExtTreeMap.getElem?_empty] at hcall
  cases hcall

/-- The call of an accepted INVITE is live beside those that were. -/
theorem exists_seized (h : acceptsGroup cfg a.inner gssi rtpPort = true) :
    ∃ seized : ActiveCall,
      LiveOn (sipToBrewGroup cfg env a callId gssi virtualClient brewCallId rtpPort).1.inner gssi brewCallId seized ∧
      ∀ (id : Uuid) (call : ActiveCall), brewCallId ≠ id → LiveOn a.inner gssi id call →
        LiveOn (sipToBrewGroup cfg env a callId gssi virtualClient brewCallId rtpPort).1.inner gssi id call := by
  rw [sipToBrewGroup_accepted h]
  refine ⟨_, ⟨(FinMap.getElem?_insert).trans (if_pos rfl), rfl, rfl⟩, ?_⟩
  intro id call hne hlive
  exact ⟨(FinMap.getElem?_insert).trans ((if_neg hne).trans hlive.1), hlive.2⟩

/-- An INVITE yields the floor exactly where it takes it from nobody. -/
theorem yieldsFloor_iff (hheld : FloorHeld a.inner) (hfresh : brewCallId ∉ a.inner.calls) :
    YieldsFloor cfg a gssi (sipToBrewGroup cfg env a callId gssi virtualClient brewCallId rtpPort) ↔
      Event.FindsFloorFree cfg a (.sipGroup env callId gssi virtualClient brewCallId rtpPort) := by
  constructor
  · intro hyields haccept
    apply liveOn_eq_false.mpr
    intro id call hlive
    have hne : brewCallId ≠ id := fun heq => hfresh (heq ▸ FinMap.mem_of_getElem? hlive.1)
    obtain ⟨seized, hseized, hkept⟩ := exists_seized haccept
    exact hne (hyields.one brewCallId id seized call hseized (hkept id call hne hlive))
  · intro hfree
    have hafter := FloorHeld.sipGroup hheld hfree
    constructor
    · intro id id' call call' hlive hlive'
      have hfloor := hafter id call hlive.1 hlive.2.1
      have hfloor' := hafter id' call' hlive'.1 hlive'.2.1
      rw [hlive.2.2] at hfloor
      rw [hlive'.2.2, hfloor] at hfloor'
      exact Option.some.inj hfloor'
    · intro id call hlive
      left
      apply sipToBrewGroup_refused
      apply Bool.eq_false_iff.mpr
      intro haccept
      exact liveOn_eq_false.mp (hfree haccept) id call hlive

/-- In a run whose INVITEs to groups find the floor free, a group has one live call at
most, and the next INVITE yields the floor exactly if it finds it free too. -/
theorem yieldsFloor_of_reach (hcfg : cfg.allowMultipleCallsPerGroup = false) {selfId : UInt64}
    (hreach : Reach (AppState.start selfId) (fun a ev => ev.FindsFloorFree cfg a) (AppState.next cfg) a)
    (hfresh : brewCallId ∉ a.inner.calls) :
    (∀ (g : UInt32) (id id' : Uuid) (call call' : ActiveCall),
      LiveOn a.inner g id call → LiveOn a.inner g id' call' → id = id') ∧
      (YieldsFloor cfg a gssi (sipToBrewGroup cfg env a callId gssi virtualClient brewCallId rtpPort) ↔
        Event.FindsFloorFree cfg a (.sipGroup env callId gssi virtualClient brewCallId rtpPort)) := by
  have hheld : FloorHeld a.inner :=
    hreach.invariant (P := fun a => FloorHeld a.inner) (floorHeld_start selfId) fun _ _ hheld hfree => hheld.next hcfg hfree
  constructor
  · intro g id id' call call' hlive hlive'
    have hfloor := hheld id call hlive.1 hlive.2.1
    have hfloor' := hheld id' call' hlive'.1 hlive'.2.1
    rw [hlive.2.2] at hfloor
    rw [hlive'.2.2, hfloor] at hfloor'
    exact Option.some.inj hfloor'
  · exact yieldsFloor_iff hheld hfresh

end Seizure

/-- Client 1 is connected. -/
def oneClient : List Event := [.connect 1 (.accepted .terminal) none false]

/-- An INVITE to a group nobody talks on. -/
theorem yieldsFloor_idle :
    YieldsFloor {} (oneClient.foldl (AppState.next {}) (.start 9)) 91
      (sipToBrewGroup {} (.plain 6) (oneClient.foldl (AppState.next {}) (.start 9)) "a@sip" 91 10 20 true) := by
  have hrun : Reach (AppState.start 9) (fun a ev => ev.FindsFloorFree {} a) (AppState.next {})
      (oneClient.foldl (AppState.next {}) (.start 9)) := .of_list oneClient .init (by decide +kernel)
  exact (yieldsFloor_of_reach rfl hrun (by decide +kernel)).2.mpr (by decide +kernel)

/-- Client 1 talks on group 91. -/
def talking : List Event := oneClient ++ [.packet (.plain 5) 1 (buildGroupTx 3 7 91 0)]

/-- An INVITE to the group leaves two calls live on it. -/
theorem not_yieldsFloor_talking :
    ¬ ∀ (cfg : Config) (env : Env) (selfId : UInt64) (a : AppState) (callId : String) (gssi : UInt32)
        (virtualClient : ClientId) (brewCallId : Uuid) (rtpPort : Bool), cfg.allowMultipleCallsPerGroup = false →
      Reach (AppState.start selfId) (fun a ev => ev.Allowed a) (AppState.next cfg) a →
      Event.Allowed a (.sipGroup env callId gssi virtualClient brewCallId rtpPort) →
      YieldsFloor cfg a gssi (sipToBrewGroup cfg env a callId gssi virtualClient brewCallId rtpPort) := by
  intro hall
  have hrun : Reach (AppState.start 9) (fun a ev => ev.Allowed a) (AppState.next {})
      (talking.foldl (AppState.next {}) (.start 9)) := .of_list talking .init (by decide +kernel)
  have hyields := hall {} (.plain 6) 9 _ "a@sip" 91 10 20 true rfl hrun (by decide +kernel)
  have htwo := hyields.one 3 20 ⟨.group, 1, 7, 91, 0, ∅, 0, 5⟩ ⟨.group, 10, 0, 91, 0, ∅, 0, 6⟩ (by decide +kernel)
    (by decide +kernel)
  exact absurd htwo (by decide)

/-! ## Taking a group call back -/

/-- The tables a leg takes part in are the same. -/
structure SameTables (s t : Inner) : Prop where
  clients : s.clients = t.clients
  calls : s.calls = t.calls
  groupClients : s.groupClients = t.groupClients
  groupFloor : s.groupFloor = t.groupFloor

section Teardown

variable {cfg : Config} {env : Env} {a : AppState} {callId : String} {gssi : UInt32} {virtualClient : ClientId}
  {brewCallId : Uuid} {rtpPort : Bool}

/-- What the end of a group leg takes out of the tables. -/
theorem fst_removeLeg {s : Inner} {g : UInt32} :
    (removeLeg s ⟨virtualClient, brewCallId, some g⟩).1 =
      { s with
        clients := s.clients.erase virtualClient
        calls := s.calls.erase brewCallId
        groupClients := s.groupClients.modify g (·.erase virtualClient)
        groupFloor := if s.groupFloor[g]? = some brewCallId then s.groupFloor.erase g else s.groupFloor } := by
  unfold removeLeg
  cases s.calls[brewCallId]? <;> rfl

/-- A group call from the SIP side that ends at once leaves nothing behind exactly where
the group had an entry before. -/
theorem sipToBrewGroup_teardown_iff (haccept : acceptsGroup cfg a.inner gssi rtpPort = true)
    (hclient : virtualClient ∉ a.inner.clients) (hmember : virtualClient ∉ a.inner.members gssi)
    (hcall : brewCallId ∉ a.inner.calls) (hfloor : a.inner.groupFloor[gssi]? = none) :
    SameTables (teardown (sipToBrewGroup cfg env a callId gssi virtualClient brewCallId rtpPort).1 callId).1.inner
      a.inner ↔ gssi ∈ a.inner.groupClients := by
  have hleg : (a.legs.insert callId ⟨virtualClient, brewCallId, some gssi⟩)[callId]? =
      some ⟨virtualClient, brewCallId, some gssi⟩ := FinMap.getElem?_insert.trans (if_pos rfl)
  have hseized : (a.inner.groupFloor.insert gssi brewCallId)[gssi]? = some brewCallId :=
    FinMap.getElem?_insert.trans (if_pos rfl)
  have hgroups : (join a.inner.groupClients virtualClient gssi).modify gssi (·.erase virtualClient) =
      a.inner.groupClients.insert gssi (a.inner.members gssi) := modify_erase_join hmember
  rw [sipToBrewGroup_accepted haccept, teardown, hleg]
  dsimp only
  rw [fst_removeLeg]
  dsimp only
  rw [if_pos hseized, hgroups]
  constructor
  · intro h
    exact insert_membersOf.mp h.groupClients
  · intro h
    constructor
    · exact FinMap.erase_insert (Std.ExtTreeMap.getElem?_eq_none hclient)
    · exact FinMap.erase_insert (Std.ExtTreeMap.getElem?_eq_none hcall)
    · exact insert_membersOf.mpr h
    · exact FinMap.erase_insert hfloor

end Teardown

/-- Client 1 is affiliated to group 91. -/
def affiliated : AppState :=
  { inner := { Inner.empty 9 with
      clients := (∅ : FinMap ClientId Client).insert 1 (.accepted .terminal)
      groupClients := join ∅ 1 91 } }

theorem sameTables_affiliated :
    SameTables (teardown (sipToBrewGroup {} (.plain 6) affiliated "a@sip" 91 10 20 true).1 "a@sip").1.inner
      affiliated.inner :=
  (sipToBrewGroup_teardown_iff (by decide +kernel) (by decide +kernel) (by decide +kernel) (by decide +kernel)
    (by decide +kernel)).mpr (by decide +kernel)

/-- With nobody affiliated the group keeps an empty set of members. -/
theorem not_sameTables_empty :
    ¬ ∀ (cfg : Config) (env : Env) (a : AppState) (callId : String) (gssi : UInt32) (virtualClient : ClientId)
        (brewCallId : Uuid) (rtpPort : Bool), acceptsGroup cfg a.inner gssi rtpPort = true →
      liveOn a.inner gssi = false → a.inner.groupFloor[gssi]? = none → virtualClient ∉ a.inner.clients →
      virtualClient ∉ a.inner.members gssi → brewCallId ∉ a.inner.calls →
      SameTables (teardown (sipToBrewGroup cfg env a callId gssi virtualClient brewCallId rtpPort).1 callId).1.inner
        a.inner := by
  intro hall
  have hsame := hall {} (.plain 6) (.start 9) "a@sip" 91 10 20 true (by decide +kernel) (by decide +kernel)
    (by decide +kernel) (by decide +kernel) (by decide +kernel) (by decide +kernel)
  have hgroups : (teardown (sipToBrewGroup {} (.plain 6) (.start 9) "a@sip" 91 10 20 true).1 "a@sip").1.inner.groupClients.toList =
      [(91, ∅)] := by decide +kernel
  rw [hsame.groupClients] at hgroups
  exact absurd hgroups (by decide +kernel)

end BrewServer
