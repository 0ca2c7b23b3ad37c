import BrewServer.LateEntry

/-!
# Who knows of a call

Whoever is told that a call started has to learn of its end. What a connection
knows of the calls is what the messages to it and its own messages say, and it
has to be a party of each call it knows to run.
-/

namespace BrewServer

open Protocol Fedroute Router Sip

/-- A connection takes part in the live call `id`. -/
def Inner.takesPart (s : Inner) (c : ClientId) (id : Uuid) : Bool := (s.roster id).any fun r => decide (r.Has c)

theorem Inner.takesPart_iff {s : Inner} {c : ClientId} {id : Uuid} :
    s.takesPart c id = true ↔ ∃ r, s.roster id = some r ∧ r.Has c := by
  rw [Inner.takesPart, Option.any_eq_true]
  exact exists_congr fun r => and_congr_right fun _ => decide_eq_true_iff

theorem Inner.takesPart_congr {s s' : Inner} {id : Uuid} (h : s'.roster id = s.roster id) (c : ClientId) :
    s'.takesPart c id = s.takesPart c id := by rw [Inner.takesPart, h, Inner.takesPart]

namespace Sends

def Announces (sends : Sends) (c : ClientId) (id : Uuid) : Prop :=
  ∃ raw : Bytes, (c, raw) ∈ sends ∧ signal raw = some (.announce, id)

def Closes (sends : Sends) (c : ClientId) (id : Uuid) : Prop :=
  ∃ raw : Bytes, (c, raw) ∈ sends ∧ signal raw = some (.close, id)

variable {a b sends : Sends} {s : Inner} {c : ClientId} {cs : FinSet ClientId} {id : Uuid} {raw : Bytes}

theorem announces_append : Announces (a ++ b) c id ↔ Announces a c id ∨ Announces b c id := by
  unfold Announces
  simp only [List.mem_append, or_and_right, exists_or]

theorem closes_append : Closes (a ++ b) c id ↔ Closes a c id ∨ Closes b c id := by
  unfold Closes
  simp only [List.mem_append, or_and_right, exists_or]

theorem Silent.not_announces (h : sends.Silent) : ¬ sends.Announces c id := by
  rintro ⟨raw, hm, hsaid⟩
  rw [h _ hm] at hsaid
  cases hsaid

theorem not_announces_sendMany (h : ∀ k, signal raw ≠ some (.announce, k)) : ¬ (s.sendMany cs raw).Announces c id := by
  rintro ⟨raw', hm, hsaid⟩
  obtain rfl : raw' = raw := (Inner.mem_sendMany.mp hm).1
  exact h id hsaid

theorem closes_sendMany (h : signal raw = some (.close, id)) (hc : c ∈ cs) (hclient : c ∈ s.clients) :
    (s.sendMany cs raw).Closes c id := ⟨raw, Inner.mem_sendMany.mpr ⟨rfl, hc, hclient⟩, h⟩

end Sends

/-- What a message tells its connection of the calls. -/
def hear (told : List (ClientId × Uuid)) (m : ClientId × Bytes) : List (ClientId × Uuid) :=
  match signal m.2 with
  | some (.announce, id) => (m.1, id) :: told
  | some (.close, id) => told.filter fun e => e ≠ (m.1, id)
  | _ => told

/-- What is known after some messages was announced by one, or known before and
closed by none. -/
theorem mem_foldl_hear {sends : Sends} {told : List (ClientId × Uuid)} {c : ClientId} {id : Uuid}
    (h : (c, id) ∈ sends.foldl hear told) :
    sends.Announces c id ∨ ((c, id) ∈ told ∧ ¬ sends.Closes c id) := by
  induction sends generalizing told with
  | nil => exact .inr ⟨h, fun ⟨_, hm, _⟩ => absurd hm List.not_mem_nil⟩
  | cons m sends ih =>
    rcases ih h with ⟨raw, hm, hsaid⟩ | ⟨hknown, hopen⟩
    · exact .inl ⟨raw, List.mem_cons_of_mem m hm, hsaid⟩
    · unfold hear at hknown
      split at hknown
      · next k hsaid =>
        rcases List.mem_cons.mp hknown with heq | hknown
        · cases heq
          exact .inl ⟨m.2, List.mem_cons_self, hsaid⟩
        · refine .inr ⟨hknown, fun ⟨raw, hm, hclose⟩ => ?_⟩
          rcases List.mem_cons.mp hm with heq | hm
          · rw [← heq, hclose] at hsaid
            cases hsaid
          · exact hopen ⟨raw, hm, hclose⟩
      · next k hsaid =>
        obtain ⟨hknown, hne⟩ := List.mem_filter.mp hknown
        refine .inr ⟨hknown, fun ⟨raw, hm, hclose⟩ => ?_⟩
        rcases List.mem_cons.mp hm with heq | hm
        · rw [← heq, hclose] at hsaid
          cases hsaid
          exact of_decide_eq_true hne (by rw [← heq])
        · exact hopen ⟨raw, hm, hclose⟩
      · next hno =>
        refine .inr ⟨hknown, fun ⟨raw, hm, hclose⟩ => ?_⟩
        rcases List.mem_cons.mp hm with heq | hm
        · exact hno id (by rw [← heq]; exact hclose)
        · exact hopen ⟨raw, hm, hclose⟩

/-- The call a packet would take its sender out of: one it ends or refuses, or is
pruned off. -/
def asksOut (env : Env) (s : Inner) (source : ClientId) (raw : Bytes) : Option Uuid :=
  if raw.head? = some classFederation then
    (s.fed.links[source]?).bind fun n =>
      match parse raw n with
      | some (.ok (.prune id _)) => some id
      | _ => none
  else
    (arriving env s source raw).bind fun e =>
      if e.2.callState ∈ [callGroupIdle, callRelease, callSetupReject] then some e.2.identifier else none

/-- A connection's own packet takes it out of a call. -/
def quits (s s' : Inner) (ev : Event) (e : ClientId × Uuid) : Bool :=
  match ev with
  | .packet env source raw =>
    source == e.1 && asksOut env s source raw == some e.2 && s.takesPart e.1 e.2 && !s'.takesPart e.1 e.2
  | _ => false

/-- The talkers of the group calls. -/
def talkers (s : Inner) : List (ClientId × Uuid) :=
  (s.calls.toList.filter fun e => e.2.kind = .group).map fun e => (e.2.owner, e.1)

/-- A server, and of which calls each connection was told and has since neither
been told of the end nor left by itself. -/
structure Audience where
  app : AppState
  told : List (ClientId × Uuid)

namespace Audience

def start (selfId : UInt64) : Audience := { app := .start selfId, told := [] }

def next (cfg : Config) (w : Audience) (ev : Event) : Audience :=
  { app := w.app.next cfg ev
    told := ((w.app.sent cfg ev).foldl hear w.told ++ talkers (w.app.next cfg ev).inner).filter fun e =>
      decide (e.1 ∈ (w.app.next cfg ev).inner.clients) && !quits w.app.inner (w.app.next cfg ev).inner ev e }

end Audience

/-- Call control of `source` does not cut `c` off the call it names: a transmission
and a setup reach `c`, and a refusal ends nothing. -/
def Spares (cfg : Config) (env : Env) (s : Inner) (source : ClientId) (cc : CallControlMessage) (c : ClientId) : Prop :=
  if cc.callState = callGroupTx then
    match cc.payload with
    | .groupTransmission gt =>
      acceptsGroupTx cfg env s source cc.identifier gt = true →
        Reached cfg s source cc.identifier gt (isEmergencyCall env gt.source gt.priority) c
    | _ => True
  else if cc.callState = callSetupRequest then
    match setupRequest cc.payload with
    | some req =>
      acceptsSetup env s source cc.identifier req = true →
        (s.subscribers[req.destination]?).any (fun sub => sub.clientId = c) = true
    | none => True
  else if cc.callState = callSetupReject then
    (s.calls[cc.identifier]?).any (fun call =>
      call.owner = source ∨ (call.kind = .«private» ∧ source ∈ call.peers)) = false
  else True

instance (cfg : Config) (env : Env) (s : Inner) (source : ClientId) (cc : CallControlMessage) (c : ClientId) :
    Decidable (Spares cfg env s source cc c) := by
  unfold Spares
  split
  · split <;> infer_instance
  · split
    · split <;> infer_instance
    · infer_instance

/-- An event strands nobody: the sweep ends no call of a connection that knows of
it, and call control under the id of a call leaves whoever else knows of it with
the call. -/
def Heeds (cfg : Config) (w : Audience) : Event → Prop
  | .sweep env => ∀ e ∈ sweptCalls cfg env w.app.inner, (e.2.owner, e.1) ∉ w.told
  | .packet env source raw =>
    ∀ m ∈ arriving env w.app.inner source raw, ∀ e ∈ w.told, e.2 = m.2.identifier → e.1 ≠ source →
      Spares cfg env m.1 source m.2 e.1
  | _ => True

instance (cfg : Config) (w : Audience) (ev : Event) : Decidable (Heeds cfg w ev) :=
  match ev with
  | .sweep env => @List.decidableBAll _ _ (fun _ => inferInstance) (sweptCalls cfg env w.app.inner)
  | .packet env source raw =>
    @Option.decidableForallMem _ _ (fun _ => @List.decidableBAll _ _ (fun _ => inferInstance) w.told)
      (arriving env w.app.inner source raw)
  | .connect .. | .disconnect _ | .alarm _ | .smsDeliver .. | .advertiseBts .. | .advertiseEmergency ..
  | .sipPrivate .. | .sipGroup .. | .sipEnd _ => isTrue trivial

/-- What a step owes to those who know of a call: whoever is told of one takes
part, and whoever knows of one still takes part, is told of its end or left. -/
structure Accounts (knows left : ClientId → Uuid → Prop) (s s' : Inner) (sends : Sends) : Prop where
  announced : ∀ (c : ClientId) (k : Uuid), sends.Announces c k → s'.takesPart c k = true
  kept : ∀ (c : ClientId) (k : Uuid), knows c k → c ∈ s.clients → s.takesPart c k = true →
    s'.takesPart c k = true ∨ sends.Closes c k ∨ left c k

section Steps

variable {knows left : ClientId → Uuid → Prop} {cfg : Config} {env : Env} {s s' t : Inner} {source c : ClientId}
  {id : Uuid} {raw : Bytes} {sends : Sends}

namespace Accounts

theorem of_rosters (h : ∀ k : Uuid, s'.roster k = s.roster k) (ha : ∀ c k, ¬ sends.Announces c k) :
    Accounts knows left s s' sends :=
  ⟨fun c k hc => absurd hc (ha c k), fun c k _ _ hc => .inl ((Inner.takesPart_congr (h k) c).trans hc)⟩

theorem of_offCall (h : OffCall s s' sends) (hheld : SilentHeld s) : Accounts knows left s s' sends :=
  .of_rosters h.rosters fun _ _ => (h.silent hheld).not_announces

theorem after (h : Accounts knows left t s' sends) (hp : Passive s t []) (hoff : OffCall s t []) :
    Accounts knows left s s' sends := by
  exact ⟨h.announced, fun c k hk hc hpart =>
    h.kept c k hk (hp.mem_clients.mpr hc) ((Inner.takesPart_congr (hoff.rosters k) c).trans hpart)⟩

theorem trans {a b : Sends} (h : Accounts knows left s t a) (h' : Accounts knows left t s' b)
    (hclients : ∀ c ∈ s.clients, c ∈ t.clients) (hquiet : ∀ c k, ¬ a.Announces c k) :
    Accounts knows left s s' (a ++ b) := by
  refine ⟨fun c k hann => ?_, fun c k hk hc hpart => ?_⟩
  · exact h'.announced c k ((Sends.announces_append.mp hann).resolve_left (hquiet c k))
  · rcases h.kept c k hk hc hpart with hmid | hclosed | hleft
    · rcases h'.kept c k hk (hclients c hc) hmid with hafter | hclosed | hleft
      · exact .inl hafter
      · exact .inr (.inl (Sends.closes_append.mpr (.inr hclosed)))
      · exact .inr (.inr hleft)
    · exact .inr (.inl (Sends.closes_append.mpr (.inl hclosed)))
    · exact .inr (.inr hleft)

/-- The calls only take connections on. -/
theorem of_grow (h : ∀ c k, s.takesPart c k = true → s'.takesPart c k = true)
    (ha : ∀ c k, sends.Announces c k → s'.takesPart c k = true) : Accounts knows left s s' sends :=
  ⟨ha, fun c k _ _ hc => .inl (h c k hc)⟩

end Accounts

theorem floorHolder_some {gt : GroupTransmission} {holder : Uuid × ActiveCall} (h : floorHolder cfg s id gt = some holder) :
    holder.1 ≠ id ∧ s.calls[holder.1]? = some holder.2 := by
  unfold floorHolder at h
  split at h
  · cases h
  · split at h
    · cases h
    · split at h
      · cases h
      · next hne =>
        obtain ⟨call, hcall, rfl⟩ := Option.map_eq_some_iff.mp h
        exact ⟨hne, hcall⟩

theorem calls_freeFloor {gt : GroupTransmission} : (freeFloor cfg s id gt).calls[id]? = s.calls[id]? := by
  unfold freeFloor
  cases hholder : floorHolder cfg s id gt with
  | none => rfl
  | some holder =>
    have hget : (preempt cfg s holder.1 holder.2).1.calls[id]? = if holder.1 = id then none else s.calls[id]? :=
      FinMap.getElem?_erase
    rw [hget, if_neg (floorHolder_some hholder).1]

theorem reached_freeFloor {gt : GroupTransmission} {emergency : Bool} (h : Reached cfg s source id gt emergency c) :
    Reached cfg (freeFloor cfg s id gt) source id gt emergency c := by
  unfold Reached at h ⊢
  rw [calls_freeFloor]
  unfold freeFloor
  split
  · exact h
  · exact h

theorem mem_installGroupTx {gt : GroupTransmission} {m : ClientId × Bytes}
    (h : m ∈ (installGroupTx cfg env s source id gt raw).2) :
    m.1 ∈ groupTargets cfg s source id gt (isEmergencyCall env gt.source gt.priority) ∧ signal m.2 = signal raw := by
  obtain ⟨c, hc, hm⟩ := List.mem_flatMap.mp h
  split at hm
  · cases hm
  · rw [List.mem_singleton] at hm
    subst hm
    refine ⟨Std.ExtTreeSet.mem_toList.mp hc, ?_⟩
    rw [signal_adaptToVersion]
    split
    · split
      · exact signal_withEmergencyPriority raw
      · rfl
    · rfl

/-- Whoever is a party of the call that holds the floor is told of its end. -/
theorem closes_releases {gt : GroupTransmission} {k : Uuid} (hclient : c ∈ s.clients) (hpart : s.takesPart c k = true)
    (hheld : (floorHolder cfg s id gt).any (·.1 == k) = true) : (releases cfg s id gt).Closes c k := by
  obtain ⟨holder, hholder, hk⟩ := (Option.any_eq_true _ _).mp hheld
  obtain rfl : holder.1 = k := beq_iff_eq.mp hk
  rw [releases, hholder]
  obtain ⟨r, hr, hhas⟩ := Inner.takesPart_iff.mp hpart
  rw [Inner.roster_of_call (floorHolder_some hholder).2] at hr
  cases hr
  refine Sends.closes_sendMany (by rw [signal_buildCallCause]; rfl) (FinSet.mem_insert.mpr ?_) hclient
  exact hhas

/-- A transmission that reaches whoever knows of its call. -/
theorem accounts_announce {gt : GroupTransmission} (hsaid : signal raw = some (.announce, id))
    (hreached : ∀ c, knows c id → c ≠ source → Reached cfg s source id gt (isEmergencyCall env gt.source gt.priority) c) :
    Accounts knows left s (installGroupTx cfg env (freeFloor cfg s id gt) source id gt raw).1
      (releases cfg s id gt ++ (installGroupTx cfg env (freeFloor cfg s id gt) source id gt raw).2) := by
  have hclients : (freeFloor cfg s id gt).clients = s.clients := by
    unfold freeFloor
    split <;> rfl
  have htarget : ∀ c, c ∈ groupTargets cfg (freeFloor cfg s id gt) source id gt (isEmergencyCall env gt.source gt.priority) →
      (installGroupTx cfg env (freeFloor cfg s id gt) source id gt raw).1.takesPart c id = true := by
    intro c hc
    refine Inner.takesPart_iff.mpr ⟨_, (roster_installGroupTx id).trans (if_pos rfl), .inr hc⟩
  refine ⟨fun c k hann => ?_, fun c k hk hc hpart => ?_⟩
  · rcases Sends.announces_append.mp hann with hrel | ⟨raw', hm, hsaid'⟩
    · unfold releases at hrel
      split at hrel
      · exact absurd hrel (Sends.not_announces_sendMany fun k h => by rw [signal_buildCallCause] at h; cases h)
      · exact absurd hrel Sends.silent_nil.not_announces
    · obtain ⟨hc, hsig⟩ := mem_installGroupTx hm
      rw [hsig, hsaid] at hsaid'
      cases hsaid'
      exact htarget c hc
  · by_cases hid : id = k
    · subst hid
      refine .inl ?_
      by_cases hs : c = source
      · exact Inner.takesPart_iff.mpr ⟨_, (roster_installGroupTx id).trans (if_pos rfl), .inl hs.symm⟩
      · refine htarget c (mem_groupTargets (reached_freeFloor (hreached c hk hs)) (hclients ▸ hc) (Ne.symm hs))
    · cases hheld : (floorHolder cfg s id gt).any (·.1 == k) with
      | true => exact .inr (.inl (Sends.closes_append.mpr (.inl (closes_releases hc hpart hheld))))
      | false =>
        refine .inl ((Inner.takesPart_congr ?_ c).trans hpart)
        rw [roster_installGroupTx, if_neg hid, roster_freeFloor, hheld]
        rfl

/-- Everyone in a call that a party of it ends is told, but that party. -/
theorem mem_otherParties {call : ActiveCall} (hlive : s.calls[id]? = some call)
    (hparty : call.owner = source ∨ (call.kind = .«private» ∧ source ∈ call.peers)) (hc : c ≠ source)
    (hpart : s.takesPart c id = true) : c ∈ otherParties call source := by
  obtain ⟨r, hr, hhas⟩ := Inner.takesPart_iff.mp hpart
  rw [Inner.roster_of_call hlive] at hr
  cases hr
  refine FinSet.mem_erase.mpr ⟨Ne.symm hc, ?_⟩
  split
  · exact FinSet.mem_insert.mpr hhas
  · next hkind =>
    rcases hparty with ho | ⟨hk, -⟩
    · exact hhas.resolve_left fun h => hc (h.symm.trans ho)
    · exact absurd hk hkind

/-- Whoever a packet takes out of a call with `source` left it. -/
def Left (env : Env) (s : Inner) (source : ClientId) (raw : Bytes) (c : ClientId) (k : Uuid) : Prop :=
  c = source ∧ asksOut env s source raw = some k

theorem accounts_setUp {call : ActiveCall} {sub : Subscriber} (opened : SetUp env s s' source id call)
    (hpeers : call.peers = FinSet.ofList [sub.clientId]) (hsilent : sends.Silent)
    (hspares : ∀ c, knows c id → c ≠ source → sub.clientId = c) : Accounts knows left s s' sends := by
  refine ⟨fun c k hann => absurd hann hsilent.not_announces, fun c k hk _ hpart => .inl ?_⟩
  by_cases hid : id = k
  · subst hid
    refine Inner.takesPart_iff.mpr ⟨_, (roster_setUp opened id).trans (if_pos rfl), ?_⟩
    by_cases hs : c = source
    · exact .inl (opened.owner.trans hs.symm)
    · refine .inr ?_
      rw [ActiveCall.roster, hpeers, hspares c hk hs]
      exact FinSet.mem_ofList.mpr (List.mem_singleton.mpr rfl)
  · exact (Inner.takesPart_congr ((roster_setUp opened k).trans (if_neg hid)) c).trans hpart

theorem accounts_control {cc : CallControlMessage} (hheld : SilentHeld s)
    (hspares : ∀ c, knows c cc.identifier → c ≠ source → Spares cfg env s source cc c)
    (hleft : cc.callState = callGroupIdle ∨ cc.callState = callRelease ∨ cc.callState = callSetupReject →
      left source cc.identifier)
    (h : ControlChange cfg env s source cc raw s' sends) : Accounts knows left s s' sends := by
  cases h with
  | off off => exact .of_offCall off hheld
  | announce state payload accepted said =>
    refine accounts_announce said fun c hk hs => ?_
    have := hspares c hk hs
    rw [Spares, if_pos state, payload] at this
    exact this accepted
  | setUp state request accepted opened reached routes silent =>
    obtain ⟨sub, hsub, hpeers⟩ := reached
    refine accounts_setUp opened hpeers silent fun c hk hs => ?_
    have := hspares c hk hs
    rw [Spares, if_neg (by rw [state]; decide), if_pos state, request] at this
    have := this accepted
    rw [hsub, Option.any_some] at this
    exact of_decide_eq_true this
  | @close call live party said =>
    have hnone : ∀ k, signal raw ≠ some (.announce, k) := by
      intro k hk
      rcases said with ⟨-, h⟩ | ⟨-, h⟩
      · rw [h] at hk
        cases hk
      · rw [h] at hk
        cases hk
    refine ⟨fun c k hann => absurd hann (Sends.not_announces_sendMany hnone), fun c k hk hc hpart => ?_⟩
    by_cases hid : cc.identifier = k
    · subst hid
      by_cases hs : c = source
      · subst hs
        refine .inr (.inr (hleft ?_))
        rcases said with ⟨h, -⟩ | ⟨h | h, -⟩
        · exact .inr (.inr h)
        · exact .inl h
        · exact .inr (.inl h)
      · rcases said with ⟨hreject, -⟩ | ⟨-, hclose⟩
        · have := hspares c hk hs
          rw [Spares, if_neg (by rw [hreject]; decide), if_neg (by rw [hreject]; decide), if_pos hreject, live,
            Option.any_some, decide_eq_false_iff_not] at this
          exact absurd party this
        · exact .inr (.inl (Sends.closes_sendMany hclose (mem_otherParties live party hs hpart) hc))
    · refine .inl ((Inner.takesPart_congr ?_ c).trans hpart)
      rw [roster_removeCall, if_neg hid]

theorem accounts_receivePrune {src : UInt32} (hleft : left source id) :
    Accounts knows left s (receivePrune s source id src) [] := by
  refine ⟨fun c k hann => absurd hann Sends.silent_nil.not_announces, fun c k _ _ hpart => ?_⟩
  rcases @roster_receivePrune s source id src k with heq | ⟨rfl, heq⟩
  · exact .inl ((Inner.takesPart_congr heq c).trans hpart)
  · by_cases hs : c = source
    · exact .inr (.inr (hs ▸ hleft))
    · obtain ⟨r, hr, hhas⟩ := Inner.takesPart_iff.mp hpart
      refine .inl (Inner.takesPart_iff.mpr ⟨_, heq.trans (congrArg _ hr), ?_⟩)
      exact hhas.imp_right fun h => FinSet.mem_erase.mpr ⟨Ne.symm hs, h⟩

theorem Sends.Announces.mem_announced (h : sends.Announces c id) : id ∈ sends.announced c := by
  obtain ⟨raw, hm, hsaid⟩ := h
  refine List.mem_filterMap.mpr ⟨raw, Sends.mem_on.mpr hm, ?_⟩
  rw [hsaid]
  rfl

theorem accounts_lateEntry {groups : FinSet UInt32} (hc : source ∈ s.clients) (hnamed : HeadersNamed s) :
    Accounts knows left s (lateEntry s source groups).1 (lateEntry s source groups).2 := by
  cases hpeer : s.isPeer source with
  | true =>
    rw [lateEntry_of_peer hpeer]
    exact .of_rosters (fun _ => rfl) fun _ _ => Sends.silent_nil.not_announces
  | false =>
    refine .of_grow (fun c k hpart => ?_) fun c k hann => ?_
    · obtain ⟨r, hr, hhas⟩ := Inner.takesPart_iff.mp hpart
      exact Inner.takesPart_iff.mpr ⟨_, (roster_lateEntry hpeer hc k).trans (congrArg _ hr), hhas.enter⟩
    · obtain ⟨raw, hm, -⟩ := id hann
      obtain rfl : c = source := ((lateEntry_same s source groups).2.2.2.2 _ hm).1
      have hmem := hann.mem_announced
      rw [announced_lateEntry hnamed hpeer hc] at hmem
      obtain ⟨e, he, rfl⟩ := List.mem_map.mp hmem
      obtain ⟨hlive, hj⟩ := List.mem_filter.mp he
      obtain ⟨hk, hg, -⟩ := joins_iff.mp hj
      have hroster := Inner.roster_of_call (FinMap.mem_toList.mp hlive)
      exact Inner.takesPart_iff.mpr ⟨_, (roster_lateEntry hpeer hc e.1).trans (congrArg _ hroster),
        Roster.enter_has hk hg⟩

theorem accounts_handleSubscriber {nowMs : UInt64} {msg : SubscriberMessage} (hnamed : HeadersNamed s)
    (hc : source ∈ s.clients) :
    Accounts knows left s (handleSubscriber s nowMs source msg).1 (handleSubscriber s nowMs source msg).2.1 := by
  rcases handleSubscriber_joined s nowMs source msg with heq | ⟨ticked, new, -, hentry, heq⟩
  · rw [heq]
    exact .of_rosters (fun _ => rfl) fun _ _ => Sends.silent_nil.not_announces
  · rw [heq]
    have hreg : Registers s (applyEntry ticked msg.issi new) := hentry.registers.trans registers_applyEntry
    refine Accounts.trans (t := applyEntry ticked msg.issi new) ?_ (accounts_lateEntry (hreg.clients ▸ hc)
      ((KeepsTexts.of_registers hreg).headers hnamed)) (fun c hc => hreg.clients ▸ hc)
      fun _ _ => silent_publish.not_announces
    exact .of_rosters (Inner.roster_congr hreg.calls) fun _ _ => silent_publish.not_announces

/-- A packet that cuts nobody off. -/
theorem accounts_packet (hsip : env.sip.placement = none) (hheld : SilentHeld s) (hnamed : HeadersNamed s)
    (hc : source ∈ s.clients)
    (hspares : ∀ t cc, arriving env s source raw = some (t, cc) →
      ∀ c, knows c cc.identifier → c ≠ source → Spares cfg env t source cc c) :
    Accounts knows (Left env s source raw) s (routePacket cfg env s source raw).inner
      (routePacket cfg env s source raw).sends := by
  cases hsub : asSubscriber raw with
  | some msg =>
    obtain ⟨t, hp, hoff, hroute⟩ := @routePacket_subscribes cfg env s source raw msg hsub
    rw [hroute]
    exact (accounts_handleSubscriber ((KeepsTexts.of_offCall hoff).headers hnamed) (hp.mem_clients.mpr hc)).after hp hoff
  | none =>
    have hcalls : PacketCalls cfg env s source raw _ _ := packetCalls_routePacket hsip hsub
    generalize (routePacket cfg env s source raw).inner = s', (routePacket cfg env s source raw).sends = sends
      at hcalls
    cases hcalls with
    | off off => exact .of_offCall off hheld
    | prune before off fed asked =>
      refine (accounts_receivePrune ⟨rfl, ?_⟩).after before off
      obtain ⟨n, hlink, hparse⟩ := asked
      rw [asksOut, if_pos fed, hlink, Option.bind_some, hparse]
    | speech before off live may said =>
      refine (Accounts.of_rosters (roster_touch live) fun c k => ?_).after before off
      exact Sends.not_announces_sendMany fun k h => by rw [said] at h; cases h
    | @control t _ _ cc before off arrives change =>
      refine (accounts_control (off.held hheld) (hspares t cc arrives) (fun hstate => ⟨rfl, ?_⟩) change).after before off
      have hfed : raw.head? ≠ some classFederation := by
        intro hfed
        rw [arriving, if_pos hfed] at arrives
        cases arrives
      rw [asksOut, if_neg hfed, arrives, Option.bind_some, if_pos]
      simpa only [List.mem_cons, List.not_mem_nil, or_false] using hstate

theorem foldl_leaveCall {es : List (Uuid × ActiveCall)} {r : Effect} :
    (es.foldl (leaveCall source) r).inner.clients = r.inner.clients ∧
      ∃ more : Sends, (es.foldl (leaveCall source) r).sends = r.sends ++ more := by
  induction es generalizing r with
  | nil => exact ⟨rfl, [], (List.append_nil _).symm⟩
  | cons e es ih =>
    obtain ⟨hclients, more, heq⟩ := ih (r := leaveCall source r e)
    obtain ⟨first, heq', -⟩ := @passive_leaveCall source r e
    exact ⟨hclients.trans leaveCall_clients, first ++ more, by rw [List.foldl_cons, heq, heq', List.append_assoc]⟩

/-- The parties of a call that a closing connection ends are told. -/
theorem closes_leaveCalls {r : Roster} {k : Uuid} (hlive : s.roster k = some r) (hhas : r.Has source)
    (hends : r.depart source = none) (hc : c ≠ source) (hparty : r.Has c) (hclient : c ∈ s.clients) :
    (leaveCalls s source).sends.Closes c k := by
  obtain ⟨call, hcall, rfl⟩ := Inner.roster_eq_some.mp hlive
  have hmem : (k, call) ∈ s.calls.toList.filter fun e => involves source e.2 := by
    refine List.mem_filter.mpr ⟨FinMap.mem_toList.mpr hcall, ?_⟩
    rw [involves, Bool.or_eq_true, beq_iff_eq, Std.ExtTreeSet.contains_iff_mem]
    exact hhas
  obtain ⟨before, after, hsplit⟩ := List.append_of_mem hmem
  have hone : ¬ (call.kind = .group ∧ call.owner ≠ source) := by
    intro hlisten
    have hlisten' : call.roster.kind = .group ∧ call.roster.owner ≠ source := hlisten
    rw [Roster.depart, if_pos hhas, if_pos hlisten'] at hends
    cases hends
  have hclosed : ∀ r : Effect, r.inner.clients = s.clients → (leaveCall source r (k, call)).sends.Closes c k := by
    intro r hr
    unfold leaveCall
    dsimp only
    rw [if_neg hone]
    refine Sends.closes_append.mpr (.inr (Sends.closes_sendMany ?_ ?_ (hr ▸ hclient)))
    · rw [signal_buildCallCause]
      split <;> rfl
    · refine FinSet.mem_erase.mpr ⟨Ne.symm hc, ?_⟩
      split
      · exact FinSet.mem_insert.mpr hparty
      · next hkind =>
        refine hparty.resolve_left fun ho => hone ⟨?_, fun hs => hc (ho.symm.trans hs)⟩
        cases hk : call.kind with
        | group => rfl
        | «private» => exact absurd hk hkind
  unfold leaveCalls
  rw [hsplit, List.foldl_append, List.foldl_cons]
  obtain ⟨more, heq⟩ := (@foldl_leaveCall source after
    (leaveCall source (before.foldl (leaveCall source) { inner := s }) (k, call))).2
  rw [heq]
  exact Sends.closes_append.mpr (.inl (hclosed _ foldl_leaveCall.1))

theorem not_announces_leaveCalls {k : Uuid} : ¬ (leaveCalls s source).sends.Announces c k := by
  refine leaveCalls_induct (P := fun r => ¬ r.sends.Announces c k) Sends.silent_nil.not_announces fun r h e _ _ => ?_
  unfold leaveCall
  dsimp only
  split
  · exact h
  · rw [Sends.announces_append]
    refine not_or.mpr ⟨h, Sends.not_announces_sendMany fun k hk => ?_⟩
    rw [signal_buildCallCause] at hk
    split at hk <;> cases hk

theorem Roster.depart_has {r r' : Roster} (h : r.depart source = some r') (hc : c ≠ source) (hhas : r.Has c) :
    r'.Has c := by
  unfold Roster.depart at h
  split at h
  · split at h
    · cases h
      exact hhas.imp_right fun hp => FinSet.mem_erase.mpr ⟨Ne.symm hc, hp⟩
    · cases h
  · cases h
    exact hhas

theorem accounts_cleanupClient :
    Accounts knows (fun c _ => c = source) s (cleanupClient s source).inner (cleanupClient s source).sends := by
  have hsilent : (dropRegistrations s source).2.Silent := by
    rw [dropRegistrations_sends]
    exact Sends.silent_flatMap fun _ _ => silent_publish
  have hdropped : ∀ k, (dropRegistrations s source).1.roster k = s.roster k := fun k => by
    rw [Inner.roster_congr registers_dropRegistrations.calls]
    exact Inner.roster_congr rfl k
  refine ⟨fun c k hann => ?_, fun c k _ hc hpart => ?_⟩
  · rw [(cleanupClient_eq s source).2.1, Sends.announces_append] at hann
    exact absurd hann (not_or.mpr ⟨hsilent.not_announces, not_announces_leaveCalls⟩)
  · by_cases hs : c = source
    · exact .inr (.inr hs)
    · obtain ⟨r, hr, hhas⟩ := Inner.takesPart_iff.mp hpart
      have hafter : (cleanupClient s source).inner.roster k = r.depart source := by
        rw [roster_cleanupClient, hr, Option.bind_some]
      by_cases hgone : r.Has source
      · cases hdepart : r.depart source with
        | none =>
          refine .inr (.inl ?_)
          rw [(cleanupClient_eq s source).2.1]
          refine Sends.closes_append.mpr (.inr (closes_leaveCalls ((hdropped k).trans hr) hgone hdepart hs hhas ?_))
          rw [registers_dropRegistrations.clients]
          exact FinMap.mem_erase.mpr ⟨Ne.symm hs, hc⟩
        | some r' =>
          refine .inl (Inner.takesPart_iff.mpr ⟨r', hafter.trans hdepart, ?_⟩)
          exact Roster.depart_has hdepart hs hhas
      · refine .inl (Inner.takesPart_iff.mpr ⟨r, ?_, hhas⟩)
        rw [hafter, Roster.depart, if_neg hgone]

theorem accounts_alarm {issi : UInt32} :
    Accounts knows left s (emergencyRaised s issi).1 (emergencyRaised s issi).2 := by
  refine .of_grow (fun c k hpart => ?_) fun c k hann => ?_
  · obtain ⟨r, hr, hhas⟩ := Inner.takesPart_iff.mp hpart
    rcases @roster_emergencyRaised s issi k with ⟨-, hnone⟩ | ⟨r', brought, hr', hafter⟩
    · rw [hr] at hnone
      cases hnone
    · obtain rfl : r = r' := Option.some.inj (hr.symm.trans hr')
      exact Inner.takesPart_iff.mpr ⟨_, hafter, hhas.imp_right fun h => Std.ExtTreeSet.mem_union_iff.mpr (.inl h)⟩
  · obtain ⟨raw, hm, hsaid⟩ := hann
    obtain ⟨⟨id, call⟩, hlive, hm⟩ := List.mem_flatMap.mp hm
    have hget : (emergencyRaised s issi).1.calls[id]? = _ := FinMap.getElem?_map
    rw [FinMap.mem_toList.mp hlive, Option.map_some] at hget
    dsimp only at hm
    split at hm
    · next hraises =>
      obtain ⟨c', hc', hm⟩ := List.mem_flatMap.mp hm
      split at hm
      · obtain ⟨heq, -⟩ := Inner.mem_send.mp hm
        cases heq
        rw [signal_buildGroupTx] at hsaid
        cases hsaid
        rw [if_pos hraises] at hget
        refine Inner.takesPart_iff.mpr ⟨_, Inner.roster_of_call hget, .inr (Std.ExtTreeSet.mem_union_iff.mpr ?_)⟩
        rcases List.mem_append.mp hc' with h | h
        · exact .inl (Std.ExtTreeSet.mem_toList.mp h)
        · exact .inr (FinSet.mem_ofList.mpr h)
      · cases hm
    · cases hm

theorem not_announces_sweepEnd {k : Uuid} {e : Uuid × ActiveCall} :
    ¬ (sweepEnd env s e.1 e.2).sends.Announces c k := by
  rcases sweepEnd_cases env s e.1 e.2 with heq | ⟨call, raw, -, -, hclose, -, hsends⟩
  · rw [heq]
    exact Sends.silent_nil.not_announces
  · rw [hsends]
    exact Sends.not_announces_sendMany fun k h => by rw [hclose] at h; cases h

/-- Of a call that is swept everyone learns but the connection it is ended for. -/
theorem accounts_sweepEnd {e : Uuid × ActiveCall} (hspares : ¬ knows e.2.owner e.1) :
    Accounts knows left s (sweepEnd env s e.1 e.2).inner (sweepEnd env s e.1 e.2).sends := by
  refine ⟨fun c k hann => absurd hann not_announces_sweepEnd, fun c k hk hc hpart => ?_⟩
  rcases sweepEnd_cases env s e.1 e.2 with heq | ⟨call, raw, hlive, hparty, hclose, hinner, hsends⟩
  · rw [heq]
    exact .inl hpart
  · by_cases hid : e.1 = k
    · subst hid
      have hne : c ≠ e.2.owner := fun h => hspares (h ▸ hk)
      rw [hsends]
      exact .inr (.inl (Sends.closes_sendMany hclose (mem_otherParties hlive hparty hne hpart) hc))
    · refine .inl ((Inner.takesPart_congr ?_ c).trans hpart)
      rw [hinner, roster_removeCall, if_neg hid]

theorem accounts_sweepAll (hspares : ∀ e ∈ sweptCalls cfg env s, ¬ knows e.2.owner e.1)
    (h : sweepAll cfg env s = (s', sends)) : Accounts knows left s s' sends := by
  have hall : (∀ c ∈ s.clients, c ∈ (sweepAll cfg env s).1.clients) ∧
      (∀ c k, ¬ (sweepAll cfg env s).2.Announces c k) ∧
        Accounts knows left s (sweepAll cfg env s).1 (sweepAll cfg env s).2 := by
    refine sweepAll_induct (P := fun q => (∀ c ∈ s.clients, c ∈ q.1.clients) ∧ (∀ c k, ¬ q.2.Announces c k) ∧
      Accounts knows left s q.1 q.2) ⟨fun _ hc => hc, fun _ _ => Sends.silent_nil.not_announces,
        .of_rosters (fun _ => rfl) fun _ _ => Sends.silent_nil.not_announces⟩ ?_
    rintro q ⟨hclients, hquiet, hq⟩ e he
    refine ⟨fun c hc => passive_sweepEnd.mem_clients.mpr (hclients c hc), fun c k hann => ?_,
      hq.trans (accounts_sweepEnd (hspares e he)) hclients hquiet⟩
    exact (Sends.announces_append.mp hann).elim (hquiet c k) not_announces_sweepEnd
  rw [h] at hall
  exact hall.2.2

theorem silent_openSession {client : Client} {neighbour : Option UInt64} {console : Bool} :
    (openSession s source client neighbour console).2.Silent := by
  have hsync : ∀ t : Inner, Sends.Silent ((syncMessages t source).map fun m => (source, m)) := by
    intro t m hm
    obtain ⟨raw, hraw, rfl⟩ := List.mem_map.mp hm
    unfold syncMessages at hraw
    split at hraw
    · obtain ⟨hraw, -⟩ := List.mem_filter.mp hraw
      obtain ⟨issi, -, rfl⟩ := List.mem_map.mp hraw
      exact signal_fedUpdate
    · obtain ⟨issi, -, hraw⟩ := List.mem_flatMap.mp hraw
      exact signal_legacyUpdates hraw
  unfold openSession attachClient
  refine Sends.Silent.append ?_ ?_
  · cases neighbour with
    | none => exact Sends.silent_nil
    | some n =>
      intro m hm
      rw [List.mem_singleton.mp hm]
      exact signal_of_head rfl (by decide) (by decide)
  · dsimp only
    split
    · exact hsync _
    · exact Sends.silent_nil

theorem accounts_openSession {client : Client} {neighbour : Option UInt64} {console : Bool} :
    Accounts knows left s (openSession s source client neighbour console).1
      (openSession s source client neighbour console).2 := by
  refine .of_rosters (Inner.roster_congr ?_) fun _ _ => silent_openSession.not_announces
  unfold openSession attachClient
  cases neighbour <;> cases console <;> rfl

/-- Who leaves a call by an event of its own. -/
def Departs (s : Inner) : Event → ClientId → Uuid → Prop
  | .packet env source raw => Left env s source raw
  | .disconnect id => fun c _ => c = id
  | _ => fun _ _ => False

/-- Without the bridge, an event that strands nobody accounts for all who know of a
call. -/
theorem accounts_next {w : Audience} {ev : Event} (hl : w.app.legs = ∅) (hnamed : HeadersNamed w.app.inner)
    (hheld : SilentHeld w.app.inner) (hok : ev.Allowed w.app) (hsip : ev.WithoutSip) (hheeds : Heeds cfg w ev) :
    Accounts (fun c k => (c, k) ∈ w.told) (Departs w.app.inner ev) w.app.inner (w.app.next cfg ev).inner
      (w.app.sent cfg ev) := by
  cases ev with
  | connect id client neighbour console =>
    rw [AppState.next, AppState.sent, run_connect hl]
    exact accounts_openSession
  | packet env source raw =>
    rw [AppState.next, AppState.sent, run_packet hl source raw hsip]
    refine accounts_packet hsip hheld hnamed hok.1 fun t cc arrives c hk hs => ?_
    exact hheeds (t, cc) arrives (c, cc.identifier) hk rfl hs
  | disconnect id =>
    rw [AppState.next, AppState.sent, run_disconnect hl]
    exact accounts_cleanupClient
  | alarm issi =>
    rw [AppState.next, AppState.sent, run_alarm hl]
    exact accounts_alarm
  | sweep env =>
    obtain ⟨s', sends, hswept, hrun, -⟩ := run_sweep_of_empty cfg hl env
    rw [AppState.next, AppState.sent, hrun]
    exact accounts_sweepAll hheeds hswept
  | smsDeliver env id src dest lengthBits data =>
    have haside : Event.Aside (.smsDeliver env id src dest lengthBits data) := trivial
    obtain ⟨s', sends, hrun, -, hoff⟩ := run_aside cfg hl haside
    rw [AppState.next, AppState.sent, hrun]
    exact .of_offCall hoff hheld
  | advertiseBts nowMs key name lat lon online =>
    have haside : Event.Aside (.advertiseBts nowMs key name lat lon online) := trivial
    obtain ⟨s', sends, hrun, -, hoff⟩ := run_aside cfg hl haside
    rw [AppState.next, AppState.sent, hrun]
    exact .of_offCall hoff hheld
  | advertiseEmergency nowMs issi dest bts active =>
    have haside : Event.Aside (.advertiseEmergency nowMs issi dest bts active) := trivial
    obtain ⟨s', sends, hrun, -, hoff⟩ := run_aside cfg hl haside
    rw [AppState.next, AppState.sent, hrun]
    exact .of_offCall hoff hheld
  | sipPrivate env callId issi v id rtpPort => exact hsip.elim
  | sipGroup env callId g v id rtpPort => exact hsip.elim
  | sipEnd callId => exact hsip.elim

end Steps

section Run

variable {cfg : Config} {w : Audience} {ev : Event}

/-- Whoever knows of a call is connected and takes part in it. -/
def Informed (w : Audience) : Prop :=
  ∀ e ∈ w.told, e.1 ∈ w.app.inner.clients ∧ w.app.inner.takesPart e.1 e.2 = true

theorem takesPart_of_talker {s : Inner} {e : ClientId × Uuid} (h : e ∈ talkers s) : s.takesPart e.1 e.2 = true := by
  obtain ⟨⟨id, call⟩, he, rfl⟩ := List.mem_map.mp h
  exact Inner.takesPart_iff.mpr
    ⟨_, Inner.roster_of_call (FinMap.mem_toList.mp (List.mem_filter.mp he).1), .inl rfl⟩

/-- A connection that is still there has left a call only by its own packet. -/
theorem takesPart_of_departs {e : ClientId × Uuid} (hl : w.app.legs = ∅)
    (hclient : e.1 ∈ (w.app.next cfg ev).inner.clients)
    (hstays : quits w.app.inner (w.app.next cfg ev).inner ev e = false) (hpart : w.app.inner.takesPart e.1 e.2 = true)
    (h : Departs w.app.inner ev e.1 e.2) : (w.app.next cfg ev).inner.takesPart e.1 e.2 = true := by
  cases ev with
  | packet env source raw =>
    obtain ⟨hs, hasks⟩ := h
    have hsame : (source == e.1) = true := beq_iff_eq.mpr hs.symm
    rw [quits, hsame, hasks, beq_self_eq_true, hpart, Bool.true_and, Bool.true_and, Bool.true_and,
      Bool.not_eq_false'] at hstays
    exact hstays
  | disconnect id =>
    rw [AppState.next, run_disconnect hl, clients_cleanupClient] at hclient
    exact absurd h.symm (FinMap.mem_erase.mp hclient).1
  | _ => exact h.elim

theorem Informed.next (h : Informed w) (hl : w.app.legs = ∅) (hnamed : HeadersNamed w.app.inner)
    (hheld : SilentHeld w.app.inner) (hok : ev.Allowed w.app) (hsip : ev.WithoutSip) (hheeds : Heeds cfg w ev) :
    Informed (w.next cfg ev) := by
  have hacc := accounts_next hl hnamed hheld hok hsip hheeds
  intro e he
  obtain ⟨he, hfilter⟩ := List.mem_filter.mp he
  rw [Bool.and_eq_true, decide_eq_true_eq, Bool.not_eq_true'] at hfilter
  refine ⟨hfilter.1, ?_⟩
  rcases List.mem_append.mp he with he | he
  · rcases mem_foldl_hear he with hann | ⟨hknown, hopen⟩
    · exact hacc.announced e.1 e.2 hann
    · obtain ⟨hclient, hpart⟩ := h e hknown
      rcases hacc.kept e.1 e.2 hknown hclient hpart with hafter | hclosed | hleft
      · exact hafter
      · exact absurd hclosed hopen
      · exact takesPart_of_departs hl hfilter.1 hfilter.2 hpart hleft
  · exact takesPart_of_talker he

/-- In a run without the bridge in which no event strands anybody, whoever was told
of a call, or was its talker, and has since neither been told of its end nor
left by itself, is a party of the live call. -/
theorem informed_of_reach {cfg : Config} {selfId : UInt64} {w : Audience}
    (h : Reach (Audience.start selfId) (fun w ev => ev.Allowed w.app ∧ ev.WithoutSip ∧ Heeds cfg w ev)
      (Audience.next cfg) w) :
    ∀ e ∈ w.told, ∃ call : ActiveCall, w.app.inner.calls[e.2]? = some call ∧ (call.owner = e.1 ∨ e.1 ∈ call.peers) := by
  have hinv : w.app.legs = ∅ ∧ HeadersNamed w.app.inner ∧ SilentHeld w.app.inner ∧ Informed w := by
    refine h.invariant (P := fun w => w.app.legs = ∅ ∧ HeadersNamed w.app.inner ∧ SilentHeld w.app.inner ∧ Informed w)
      ⟨rfl, fun id raw hraw => ?_, fun id r hdr hr => ?_, fun e he => absurd he List.not_mem_nil⟩ ?_
    · rw [Audience.start, AppState.start, Inner.empty, Std.ExtTreeMap.getElem?_empty] at hraw
      cases hraw
    · rw [Audience.start, AppState.start, Inner.empty, Std.ExtTreeMap.getElem?_empty] at hr
      cases hr
    · rintro w ev ⟨hl, hnamed, hheld, hinformed⟩ ⟨hok, hsip, hheeds⟩
      have htexts := keepsTexts_next cfg hl hsip
      exact ⟨(ran_withoutSip cfg hl hsip).1, htexts.headers hnamed, htexts.held hheld,
        hinformed.next hl hnamed hheld hok hsip hheeds⟩
  intro e he
  obtain ⟨r, hr, hhas⟩ := Inner.takesPart_iff.mp (hinv.2.2.2 e he).2
  obtain ⟨call, hlive, rfl⟩ := Inner.roster_eq_some.mp hr
  exact ⟨call, hlive, hhas⟩

/-- A listener and the talker, and what they were told. -/
theorem informed_listener :
    let w := (((Audience.start 9).next {} (.connect 1 (.accepted .basestation) none false)).next {}
      (.connect 2 (.accepted .basestation) none false)).next {} (.packet (.plain 5) 1 (buildGroupTx 3 7 91 0))
    (2, 3) ∈ w.told ∧ ∃ call : ActiveCall, w.app.inner.calls[(3 : Uuid)]? = some call ∧
      (call.owner = 2 ∨ 2 ∈ call.peers) := by
  intro w
  have hrun : Reach (Audience.start 9) (fun w ev => ev.Allowed w.app ∧ ev.WithoutSip ∧ Heeds {} w ev)
      (Audience.next {}) w :=
    .step (.step (.step .init (by decide +kernel)) (by decide +kernel)) (by decide +kernel)
  have htold : (2, 3) ∈ w.told := by decide +kernel
  exact ⟨htold, informed_of_reach hrun (2, 3) htold⟩

/-- The talker of a call that the sweep ends is not told. -/
theorem not_informed :
    ¬ ∀ (cfg : Config) (selfId : UInt64) (w : Audience),
      Reach (Audience.start selfId) (fun w ev => ev.Allowed w.app ∧ ev.WithoutSip) (Audience.next cfg) w →
      ∀ e ∈ w.told, ∃ call : ActiveCall, w.app.inner.calls[e.2]? = some call ∧
        (call.owner = e.1 ∨ e.1 ∈ call.peers) := by
  intro hall
  obtain ⟨call, hlive, -⟩ := hall {} 9
    ((((Audience.start 9).next {} (.connect 1 (.accepted .basestation) none false)).next {}
      (.packet (.plain 5) 1 (buildGroupTx 3 7 91 0))).next {} (.sweep (.plain 70000)))
    (.step (.step (.step .init (by decide +kernel)) (by decide +kernel)) (by decide +kernel)) (1, 3) (by decide +kernel)
  have hnone : ((((Audience.start 9).next {} (.connect 1 (.accepted .basestation) none false)).next {}
      (.packet (.plain 5) 1 (buildGroupTx 3 7 91 0))).next {} (.sweep (.plain 70000))).app.inner.calls[(3 : Uuid)]? = none := by
    decide +kernel
  rw [hnone] at hlive
  cases hlive

end Run

end BrewServer
