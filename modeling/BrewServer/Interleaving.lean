import BrewServer.LateEntry

/-!
# Handlers side by side

A handler works on the tables under their lock, and queues part of its messages
only after it has let the lock go. The handlers of other connections run in
between, so what they queue can overtake it.
-/

namespace BrewServer

open Protocol Fedroute Router Sip

/-- Whether a group call runs under `id`. -/
def Inner.groupCall (s : Inner) (id : Uuid) : Bool := (s.calls[id]?).any fun call => call.kind = .group

namespace Interleaving

/-- A message of a handler. -/
structure Entry where
  /-- The handler, by the order in which they took the lock. -/
  handler : ℕ
  /-- The connection whose packet or cleanup is handled. -/
  who : Option ClientId
  client : ClientId
  raw : Bytes
  /-- The handler whose transmission installed the call that this message ends. -/
  ends : Option ℕ
  /-- The group call that this is a voice or DTMF frame of. -/
  voice : Option Uuid
  deriving DecidableEq

/-- Whether a message is a `CALL_GROUP_TX`. -/
def Entry.header (e : Entry) : Bool := (signal e.raw).any (·.1 = .announce)

/-- What is done while the lock is held. -/
inductive Section
  | event (ev : Event)
  /-- The sweep ends one of the calls it found on its tick. -/
  | expire (env : Env) (id : Uuid) (call : ActiveCall)

/-- The id behind the class and the type of a message. -/
def named (raw : Bytes) : Uuid := Uuid.fromBytes ((raw.drop 2).take 16)

/-- How many of a packet's messages are queued under the lock: the releases of a
pre-emption, but not the transmission itself; a prune, the answers of federation,
what a registration publishes and the headers of late entry. -/
def heldOfPacket (cfg : Config) (env : Env) (s : Inner) (source : ClientId) (raw : Bytes) : ℕ :=
  let sends := (routePacket cfg env s source raw).sends
  match arriving env s source raw with
  | none => if raw.head? = some classFrame then 0 else sends.length
  | some (t, cc) =>
    if cc.callState = callGroupTx then
      match cc.payload with
      | .groupTransmission gt =>
        if acceptsGroupTx cfg env t source cc.identifier gt then (releases cfg t cc.identifier gt).length
        else sends.length
      | _ => 0
    else 0

namespace Section

def effect (cfg : Config) (s : Inner) : Section → Effect
  | event ev => routeEvent cfg s ev
  | expire env id call => sweepEnd env s id call

def who : Section → Option ClientId
  | event (.packet _ source _) => some source
  | event (.disconnect id) => some id
  | _ => none

def held (cfg : Config) (s : Inner) : Section → ℕ
  | event (.packet env source raw) => heldOfPacket cfg env s source raw
  | event (.disconnect id) => (dropRegistrations s id).2.length
  | event (.connect id client neighbour console) => (openSession s id client neighbour console).2.length
  | event (.advertiseBts nowMs key name lat lon online) => (advertiseBts s nowMs key name lat lon online).2.length
  | event (.advertiseEmergency nowMs issi dest bts active) =>
    (advertiseEmergency s nowMs issi dest bts active).2.length
  | _ => 0

/-- The group call that a packet installs. -/
def installs (cfg : Config) (s : Inner) : Section → Option Uuid
  | event (.packet env source raw) =>
    (arriving env s source raw).bind fun (t, cc) =>
      if cc.callState = callGroupTx then
        match cc.payload with
        | .groupTransmission gt =>
          if acceptsGroupTx cfg env t source cc.identifier gt then some cc.identifier else none
        | _ => none
      else none
  | _ => none

/-- Whether `source` may end a call: the talker of a group call, either party of a
private one. -/
def endable (s : Inner) (source : ClientId) (id : Uuid) : Bool :=
  (s.calls[id]?).any fun call => call.owner = source ∨ (call.kind = .«private» ∧ source ∈ call.peers)

/-- The calls that are ended under the lock. -/
def endings (cfg : Config) (s : Inner) : Section → List Uuid
  | event (.packet env source raw) =>
    (arriving env s source raw).elim [] fun (t, cc) =>
      if cc.callState = callGroupTx then
        match cc.payload with
        | .groupTransmission gt =>
          if acceptsGroupTx cfg env t source cc.identifier gt then
            ((floorHolder cfg t cc.identifier gt).map (·.1)).toList
          else []
        | _ => []
      else if cc.callState ∈ [callGroupIdle, callRelease, callSetupReject] ∧ endable t source cc.identifier then
        [cc.identifier]
      else []
  | event (.disconnect id) => s.calls.keys.filter (endable s id)
  | expire _ id call => if endable s call.owner id then [id] else []
  | _ => []

end Section

end Interleaving

open Interleaving in
/-- A server whose handlers run side by side, and what they have still to queue. -/
structure Interleaving where
  inner : Inner
  count : ℕ := 0
  /-- The handler whose transmission installed each group call. -/
  installer : FinMap Uuid ℕ := ∅
  waiting : List Entry := []
  /-- What has been queued, in order. -/
  log : List Entry := []
  deriving DecidableEq

namespace Interleaving

inductive Move
  | handle (sec : Section)
  /-- The handler queues the next of its messages to `client`; the order among
  its recipients is any. -/
  | send (handler : ℕ) (client : ClientId)

def start (selfId : UInt64) : Interleaving := { inner := Inner.empty selfId }

variable (cfg : Config) (w : Interleaving)

/-- What a section says, each message with what it means for the calls. -/
def entries (sec : Section) : List Entry :=
  (sec.effect cfg w.inner).sends.map fun m =>
    { handler := w.count, who := sec.who, client := m.1, raw := m.2
      ends :=
        if named m.2 ∈ w.inner.calls ∧ named m.2 ∉ (sec.effect cfg w.inner).inner.calls then
          w.installer[named m.2]?
        else none
      voice :=
        (signal m.2).bind fun sig =>
          if sig.1 = .speech ∧ w.inner.groupCall sig.2 then some sig.2 else none }

def installers (sec : Section) : FinMap Uuid ℕ :=
  (match sec.installs cfg w.inner with
    | some id => w.installer.insert id w.count
    | none => w.installer).filter fun id _ => (sec.effect cfg w.inner).inner.groupCall id

def handle (sec : Section) : Interleaving :=
  { inner := (sec.effect cfg w.inner).inner
    count := w.count + 1
    installer := installers cfg w sec
    waiting := w.waiting ++ (entries cfg w sec).drop (sec.held cfg w.inner)
    log := w.log ++ (entries cfg w sec).take (sec.held cfg w.inner) }

/-- The next message of a handler to a connection. -/
def due (handler : ℕ) (client : ClientId) : Option Entry :=
  w.waiting.find? fun e => e.handler = handler ∧ e.client = client

def send (handler : ℕ) (client : ClientId) : Interleaving :=
  match w.due handler client with
  | some e => { w with waiting := w.waiting.erase e, log := w.log ++ [e] }
  | none => w

def next : Move → Interleaving
  | .handle sec => w.handle cfg sec
  | .send handler client => w.send handler client

/-- What the connections guarantee: each handles its packets one after another,
and its cleanup comes last. -/
def Move.Allowed (w : Interleaving) : Move → Prop
  | .handle (.event ev) => ev.Routed ∧ ev.Allowed { inner := w.inner } ∧
      ∀ e ∈ w.waiting, e.who.isSome → e.who ≠ (Section.event ev).who
  | _ => True

instance (w : Interleaving) (m : Move) : Decidable (m.Allowed w) :=
  match m with
  | .handle (.event ev) =>
    have : Decidable ev.Routed := by cases ev <;> unfold Event.Routed <;> infer_instance
    inferInstanceAs (Decidable (ev.Routed ∧ ev.Allowed { inner := w.inner } ∧
      ∀ e ∈ w.waiting, e.who.isSome → e.who ≠ (Section.event ev).who))
  | .handle (.expire ..) | .send .. => isTrue trivial

/-- No call is ended while a handler has still to queue the transmission that
installed it. -/
def Unhurried (cfg : Config) (w : Interleaving) : Move → Prop
  | .handle sec => ∀ id ∈ sec.endings cfg w.inner, ∀ n ∈ w.installer[id]?, ∀ e ∈ w.waiting,
      e.handler = n → e.header = false
  | .send _ _ => True

instance (cfg : Config) (w : Interleaving) (m : Move) : Decidable (Unhurried cfg w m) :=
  match m with
  | .handle sec => @List.decidableBAll _ _ (fun id => Option.decidableForallMem w.installer[id]?) (sec.endings cfg w.inner)
  | .send .. => isTrue trivial

end Interleaving

section Endings

variable {cfg : Config} {env : Env} {s : Inner} {source : ClientId} {raw : Bytes}

open Interleaving

theorem endable_iff {c : ClientId} {id : Uuid} :
    Section.endable s c id = true ↔ ∃ call : ActiveCall, s.calls[id]? = some call ∧
      (call.owner = c ∨ (call.kind = .«private» ∧ c ∈ call.peers)) := by
  unfold Section.endable
  rw [Option.any_eq_true]
  exact exists_congr fun call => and_congr_right fun _ => decide_eq_true_iff

/-- A SUB message ends no call. -/
theorem roster_handleSubscriber_of_some {nowMs : UInt64} {msg : SubscriberMessage} {id : Uuid} {r : Roster}
    (h : s.roster id = some r) : (handleSubscriber s nowMs source msg).1.roster id ≠ none := by
  rcases handleSubscriber_joined s nowMs source msg with heq | ⟨ticked, new, -, hentry, heq⟩
  · rw [heq, h]
    exact Option.some_ne_none r
  · have hreg : Registers s (applyEntry ticked msg.issi new) := hentry.registers.trans registers_applyEntry
    rw [← Inner.roster_congr hreg.calls] at h
    obtain ⟨call, hcall, rfl⟩ := Inner.roster_eq_some.mp h
    rw [heq]
    unfold lateEntry
    split
    · rw [h]
      exact Option.some_ne_none _
    · split
      · rw [h]
        exact Option.some_ne_none _
      · dsimp only
        rw [Inner.roster, FinMap.getElem?_map, hcall]
        exact Option.some_ne_none _

theorem mem_endings_of_control {cc : CallControlMessage} {t s' : Inner} {sends : Sends} {id : Uuid} {r : Roster}
    (harrives : arriving env s source raw = some (t, cc)) (h : ControlChange cfg env t source cc raw s' sends)
    (hr : t.roster id = some r) (hgone : s'.roster id = none) :
    id ∈ (Section.event (.packet env source raw)).endings cfg s := by
  rw [Section.endings, harrives]
  dsimp only [Option.elim_some]
  cases h with
  | off off =>
    rw [off.rosters, hr] at hgone
    cases hgone
  | @close call live party said =>
    rw [roster_removeCall] at hgone
    split at hgone
    · next hid =>
      have hgroup : cc.callState ≠ callGroupTx := by
        intro hstate
        rw [hstate] at said
        rcases said with ⟨hreject, -⟩ | ⟨hidle | hrelease, -⟩
        · exact absurd hreject (by decide)
        · exact absurd hidle (by decide)
        · exact absurd hrelease (by decide)
      have hends : cc.callState ∈ [callGroupIdle, callRelease, callSetupReject] := by
        rcases said with ⟨hreject, -⟩ | ⟨hidle | hrelease, -⟩
        · rw [hreject]; decide
        · rw [hidle]; decide
        · rw [hrelease]; decide
      rw [if_neg hgroup, if_pos ⟨hends, endable_iff.mpr ⟨call, live, party⟩⟩, hid]
      exact List.mem_singleton_self id
    · rw [hr] at hgone
      cases hgone
  | @announce gt state payload accepted said =>
    rw [roster_installGroupTx] at hgone
    split at hgone
    · cases hgone
    · rw [roster_freeFloor] at hgone
      split at hgone
      · next hany =>
        obtain ⟨holder, hholder, hid⟩ := (Option.any_eq_true _ _).mp hany
        rw [if_pos state, payload]
        dsimp only
        rw [if_pos accepted, hholder, ← beq_iff_eq.mp hid]
        exact List.mem_singleton_self holder.1
      · rw [hr] at hgone
        cases hgone
  | setUp state request accepted opened reached routes silent =>
    rw [roster_setUp opened] at hgone
    split at hgone
    · cases hgone
    · rw [hr] at hgone
      cases hgone

/-- Only the calls a packet may end are gone after it. -/
theorem mem_endings_of_packet {id : Uuid} {r : Roster} (hr : s.roster id = some r)
    (hgone : (routePacket cfg env s source raw).inner.roster id = none) :
    id ∈ (Section.event (.packet env source raw)).endings cfg s := by
  have hplain : ∀ e : Env, e.sip.placement = none → asSubscriber raw = none →
      (routePacket cfg e s source raw).inner.roster id = none →
      id ∈ (Section.event (.packet e source raw)).endings cfg s := by
    intro e hsip hsub hgone
    have hcalls : PacketCalls cfg e s source raw _ _ := packetCalls_routePacket hsip hsub
    generalize (routePacket cfg e s source raw).inner = s', (routePacket cfg e s source raw).sends = sends at hcalls hgone
    cases hcalls with
    | off off =>
      rw [off.rosters, hr] at hgone
      cases hgone
    | prune before off fed asked =>
      rw [← off.rosters] at hr
      rcases roster_receivePrune (s := _) id with heq | ⟨-, heq⟩
      · rw [heq, hr] at hgone
        cases hgone
      · rw [heq, hr] at hgone
        cases hgone
    | speech before off live may said =>
      rw [roster_touch live, off.rosters, hr] at hgone
      cases hgone
    | control before off arrives change =>
      exact mem_endings_of_control arrives change ((off.rosters id).trans hr) hgone
  cases hsub : asSubscriber raw with
  | some msg =>
    obtain ⟨t, -, hoff, hroute⟩ := @routePacket_subscribes cfg env s source raw msg hsub
    rw [hroute] at hgone
    exact absurd hgone (roster_handleSubscriber_of_some ((hoff.rosters id).trans hr))
  | none =>
    rcases routePacket_placement cfg env s source raw with
      ⟨t, cc, callId, v, src, -, hoff, -, -, -, heq⟩ | hsip | heq
    · rw [heq] at hgone
      have hcalls : (placeOutbound env (noteCall t cc.identifier src source env.now) source cc.identifier callId v).inner.calls =
          t.calls.insert cc.identifier _ := rfl
      rw [Inner.roster_insert hcalls] at hgone
      split at hgone
      · cases hgone
      · rw [hoff.rosters, hr] at hgone
        cases hgone
    · exact hplain env hsip hsub hgone
    · rw [heq] at hgone
      exact hplain (withoutRoute env) rfl hsub hgone

/-- Only the calls a section may end are gone after it. -/
theorem mem_endings {sec : Section} {id : Uuid} {r : Roster} (hr : s.roster id = some r)
    (hgone : (sec.effect cfg s).inner.roster id = none) : id ∈ sec.endings cfg s := by
  have hkept : (sec.effect cfg s).inner.roster id = s.roster id → id ∈ sec.endings cfg s := by
    intro heq
    rw [heq, hr] at hgone
    cases hgone
  cases sec with
  | expire env id' swept =>
    rw [Section.effect] at hgone hkept
    rcases sweepEnd_cases env s id' swept with heq | ⟨call, raw, hlive, hparty, -, hinner, -⟩
    · exact hkept (by rw [heq])
    · rw [hinner, roster_removeCall] at hgone
      split at hgone
      · next hid =>
        rw [Section.endings, if_pos (endable_iff.mpr ⟨call, hlive, hparty⟩), hid]
        exact List.mem_singleton_self id
      · rw [hr] at hgone
        cases hgone
  | event ev =>
    rw [Section.effect] at hgone hkept
    cases ev with
    | packet env source raw => exact mem_endings_of_packet hr hgone
    | disconnect c =>
      rw [routeEvent, roster_cleanupClient, hr, Option.bind_some, Roster.depart] at hgone
      obtain ⟨call, hlive, rfl⟩ := Inner.roster_eq_some.mp hr
      rw [Section.endings, List.mem_filter]
      refine ⟨Std.ExtTreeMap.mem_keys.mpr (FinMap.mem_of_getElem? hlive), endable_iff.mpr ⟨call, hlive, ?_⟩⟩
      split at hgone
      · next hhas =>
        split at hgone
        · cases hgone
        · next hlisten =>
          rw [not_and_or, not_not] at hlisten
          rcases hlisten with hkind | howner
          · rcases hhas with ho | hp
            · exact .inl ho
            · refine .inr ⟨?_, hp⟩
              cases hk : call.kind with
              | group => exact absurd hk hkind
              | «private» => rfl
          · exact .inl howner
      · cases hgone
    | alarm issi =>
      rcases @roster_emergencyRaised s issi id with ⟨-, hnone⟩ | ⟨r', brought, -, hsome⟩
      · rw [hr] at hnone
        cases hnone
      · rw [routeEvent] at hgone
        dsimp only at hgone
        rw [hsome] at hgone
        cases hgone
    | connect c client neighbour console => 
      refine hkept (Inner.roster_congr ?_ id)
      rw [routeEvent]
      unfold openSession attachClient
      cases neighbour <;> cases console <;> rfl
    | smsDeliver env id' src dest lengthBits data => exact hkept (offCall_deliverStored.rosters id)
    | advertiseBts nowMs key name lat lon online => exact hkept (offCall_advertiseBts.rosters id)
    | advertiseEmergency nowMs issi dest bts active => exact hkept (offCall_advertiseEmergency.rosters id)
    | sweep env => exact hkept rfl
    | sipPrivate env callId issi v id' rtpPort => exact hkept rfl
    | sipGroup env callId g v id' rtpPort => exact hkept rfl
    | sipEnd callId => exact hkept rfl

end Endings

namespace Interleaving

variable {cfg : Config} {w : Interleaving} {sec : Section} {e : Entry}

theorem mem_entries (h : e ∈ entries cfg w sec) :
    e.handler = w.count ∧ e.who = sec.who ∧ (e.client, e.raw) ∈ (sec.effect cfg w.inner).sends := by
  obtain ⟨m, hm, rfl⟩ := List.mem_map.mp h
  exact ⟨rfl, rfl, hm⟩

/-- An end is of a call the section ends. -/
theorem ends_of_entry {n : ℕ} (h : e ∈ entries cfg w sec) (hends : e.ends = some n) :
    ∃ id ∈ sec.endings cfg w.inner, w.installer[id]? = some n := by
  obtain ⟨m, -, rfl⟩ := List.mem_map.mp h
  dsimp only at hends
  split at hends
  · next hended =>
    obtain ⟨call, hlive⟩ := FinMap.mem_iff.mp hended.1
    have hgone : (sec.effect cfg w.inner).inner.roster (named m.2) = none := by
      rw [Inner.roster, Std.ExtTreeMap.getElem?_eq_none hended.2]
      rfl
    exact ⟨named m.2, mem_endings (Inner.roster_of_call hlive) hgone, hends⟩
  · cases hends

theorem mem_due {handler : ℕ} {client : ClientId} (h : w.due handler client = some e) :
    e ∈ w.waiting ∧ e.handler = handler ∧ e.client = client := by
  have hp := List.find?_some h
  rw [decide_eq_true_iff] at hp
  exact ⟨List.mem_of_find?_eq_some h, hp⟩

/-- What is queued or waits after a section was there before or is its own. -/
theorem mem_of_handle (h : e ∈ (w.handle cfg sec).log ++ (w.handle cfg sec).waiting) :
    e ∈ w.log ++ w.waiting ∨ e ∈ entries cfg w sec := by
  simp only [handle, List.mem_append] at h ⊢
  rcases h with (h | h) | (h | h)
  · exact .inl (.inl h)
  · exact .inr (List.mem_of_mem_take h)
  · exact .inl (.inr h)
  · exact .inr (List.mem_of_mem_drop h)

theorem mem_of_send {handler : ℕ} {client : ClientId} (h : e ∈ (w.send handler client).log ++ (w.send handler client).waiting) :
    e ∈ w.log ++ w.waiting := by
  unfold send at h
  cases hdue : w.due handler client with
  | none =>
    rw [hdue] at h
    exact h
  | some d =>
    rw [hdue] at h
    simp only [List.mem_append, List.mem_singleton] at h ⊢
    rcases h with (h | rfl) | h
    · exact .inl h
    · exact .inr (mem_due hdue).1
    · exact .inr (List.mem_of_mem_erase h)

/-- A message comes too late: it sets up a call whose end was queued before. -/
def TooLate (e e' : Entry) : Prop := e.ends = some e'.handler ∧ e.client = e'.client ∧ e'.header = true

instance : DecidableRel TooLate := fun e e' => by unfold TooLate; infer_instance

/-- Handlers come one after another, and none that installed a call that has been
ended still waits to announce it. -/
structure Sequenced (w : Interleaving) : Prop where
  installed : ∀ (id : Uuid) (n : ℕ), w.installer[id]? = some n → n < w.count
  settled : ∀ e ∈ w.log ++ w.waiting, ∀ n : ℕ, e.ends = some n →
    n < w.count ∧ ∀ h ∈ w.waiting, h.handler = n → h.header = false
  ordered : w.log.Pairwise fun e e' => ¬ TooLate e e'

namespace Sequenced

theorem installed_handle (h : Sequenced w) {id : Uuid} {n : ℕ} (hn : (w.handle cfg sec).installer[id]? = some n) :
    n < w.count + 1 := by
  have hold : ∀ {k : Uuid} {m : ℕ}, w.installer[k]? = some m → m < w.count + 1 :=
    fun hm => Nat.lt_succ_of_lt (h.installed _ _ hm)
  change (installers cfg w sec)[id]? = some n at hn
  have hmem := (FinMap.getElem?_filter.mp hn).1
  split at hmem
  · rw [FinMap.getElem?_insert] at hmem
    split at hmem
    · cases hmem
      exact Nat.lt_succ_self _
    · exact hold hmem
  · exact hold hmem

theorem handle (h : Sequenced w) (hok : Unhurried cfg w (.handle sec)) : Sequenced (w.handle cfg sec) := by
  -- what the section queues ends calls of earlier handlers that wait for nothing
  have hnew : ∀ e ∈ entries cfg w sec, ∀ n : ℕ, e.ends = some n →
      n < w.count ∧ ∀ x ∈ w.waiting, x.handler = n → x.header = false := by
    intro e he n hn
    obtain ⟨id, hid, hinst⟩ := ends_of_entry he hn
    exact ⟨h.installed id n hinst, hok id hid n hinst⟩
  constructor
  · exact fun id n hn => h.installed_handle hn
  · intro e he n hn
    have hold : n < w.count ∧ ∀ x ∈ w.waiting, x.handler = n → x.header = false := by
      rcases mem_of_handle he with he | he
      · exact h.settled e he n hn
      · exact hnew e he n hn
    refine ⟨Nat.lt_succ_of_lt hold.1, fun x hx hxn => ?_⟩
    rcases List.mem_append.mp hx with hx | hx
    · exact hold.2 x hx hxn
    · have hlate := (mem_entries (List.mem_of_mem_drop hx)).1
      omega
  · have hfirst : ∀ x : Entry, ∀ y ∈ entries cfg w sec, (∀ n : ℕ, x.ends = some n → n < w.count) → ¬ TooLate x y := by
      rintro x y hy hx ⟨hends, -⟩
      have hlt := hx y.handler hends
      rw [(mem_entries hy).1] at hlt
      omega
    refine List.pairwise_append.mpr ⟨h.ordered, ?_, fun x hx y hy => ?_⟩
    · refine List.Pairwise.imp_of_mem ?_ (List.pairwise_of_forall (R := fun _ _ => True) fun _ _ => trivial)
      intro x y hx hy _
      exact hfirst x y (List.mem_of_mem_take hy) fun n hn => (hnew x (List.mem_of_mem_take hx) n hn).1
    · exact hfirst x y (List.mem_of_mem_take hy) fun n hn =>
        (h.settled x (List.mem_append_left _ hx) n hn).1

theorem send (h : Sequenced w) (handler : ℕ) (client : ClientId) : Sequenced (w.send handler client) := by
  cases hdue : w.due handler client with
  | none =>
    rw [Interleaving.send, hdue]
    exact h
  | some d =>
    have hsend : w.send handler client = { w with waiting := w.waiting.erase d, log := w.log ++ [d] } := by
      rw [Interleaving.send, hdue]
    have hd := (mem_due hdue).1
    have hsettled : ∀ e ∈ w.log, ∀ n : ℕ, e.ends = some n → d.handler = n → d.header = false := fun e he n hn =>
      (h.settled e (List.mem_append_left _ he) n hn).2 d hd
    constructor
    · rw [hsend]
      exact h.installed
    · intro e he n hn
      obtain ⟨hlt, hnone⟩ := h.settled e (mem_of_send he) n hn
      rw [hsend]
      exact ⟨hlt, fun x hx => hnone x (List.mem_of_mem_erase hx)⟩
    · rw [hsend]
      refine List.pairwise_append.mpr ⟨h.ordered, List.pairwise_singleton _ d, fun x hx y hy => ?_⟩
      rintro ⟨hends, -, hheader⟩
      rw [List.mem_singleton.mp hy] at hends hheader
      rw [hsettled x hx d.handler hends rfl] at hheader
      cases hheader

end Sequenced

/-- In every run in which no call is ended while its transmission is still being
queued, nobody is sent a transmission after the end of the call it installed. -/
theorem ordered_of_reach {selfId : UInt64}
    (h : Reach (Interleaving.start selfId) (fun w m => m.Allowed w ∧ Unhurried cfg w m) (Interleaving.next cfg) w) :
    w.log.Pairwise fun e e' => ¬ (e.ends = some e'.handler ∧ e.client = e'.client ∧ e'.header = true) := by
  have hinv : Sequenced w := by
    refine h.invariant (P := Sequenced) ⟨fun id n hn => ?_, fun e he => absurd he List.not_mem_nil, List.Pairwise.nil⟩ ?_
    · rw [start, Std.ExtTreeMap.getElem?_empty] at hn
      cases hn
    · rintro w m hw ⟨-, hok⟩
      cases m with
      | handle sec => exact hw.handle hok
      | send handler client => exact hw.send handler client
  exact hinv.ordered

/-- A transmission, and its end once it has reached its listener. -/
theorem ordered_transmission :
    let w := ([.handle (.event (.connect 1 (.accepted .basestation) none false)),
      .handle (.event (.connect 2 (.accepted .basestation) none false)),
      .handle (.event (.packet (.plain 5) 1 (buildGroupTx 3 7 91 0))), .send 2 2,
      .handle (.event (.packet (.plain 6) 1 (buildCallCause callGroupIdle 3 0))), .send 3 2] : List Move).foldl
        (Interleaving.next {}) (.start 9)
    w.log.map (fun e => (e.handler, e.client, e.header, e.ends)) = [(2, 2, true, none), (3, 2, false, some 2)] ∧
      w.log.Pairwise fun e e' => ¬ (e.ends = some e'.handler ∧ e.client = e'.client ∧ e'.header = true) := by
  intro w
  have hrun : Reach (Interleaving.start 9) (fun w m => m.Allowed w ∧ Unhurried {} w m) (Interleaving.next {}) w :=
    .of_list _ .init (by decide +kernel)
  exact ⟨by decide +kernel, ordered_of_reach hrun⟩

/-- A call that is pre-empted while its transmission is still being queued: a
listener is told of its end and then that it starts. -/
theorem not_ordered :
    ¬ ∀ (cfg : Config) (selfId : UInt64) (w : Interleaving),
      Reach (Interleaving.start selfId) (fun w m => m.Allowed w) (Interleaving.next cfg) w →
      w.log.Pairwise fun e e' => ¬ (e.ends = some e'.handler ∧ e.client = e'.client ∧ e'.header = true) := by
  intro hall
  let moves : List Move := [.handle (.event (.connect 1 (.accepted .basestation) none false)),
    .handle (.event (.connect 2 (.accepted .basestation) none false)),
    .handle (.event (.connect 3 (.accepted .basestation) none false)),
    .handle (.event (.packet (.plain 5) 1 (buildGroupTx 3 7 91 0))),
    .handle (.event (.packet (.plain 5) 3 (buildGroupTx 4 8 91 5))), .send 3 2]
  have hrun : Reach (Interleaving.start 9) (fun w m => m.Allowed w) (Interleaving.next {})
      (moves.foldl (Interleaving.next {}) (.start 9)) := .of_list moves .init (by decide +kernel)
  exact absurd (hall {} 9 _ hrun) (by decide +kernel)

end Interleaving

end BrewServer
