import BrewServer.GroupCopies
import BrewServer.Lib.FirstCopy

/-!
# A group call across a network

A client of one server sends a group transmission with a new uuid, and its copies race over
the peer links. Each server is the model's own, handed the bytes that its neighbours queued;
a run of the network is a run of `Lib.FirstCopy`. Where a server that refuses a copy is sent
no other, the call is left on a tree: each voice frame reaches each server at most once.
-/

namespace BrewServer.GroupTree

open Protocol Fedroute Router Sip GroupCopies
open Flooding (Graph Packet)

/-! ## The network -/

/-- The servers of a network while a transmission crosses it. -/
structure Exchange where
  servers : UInt64 → AppState
  flight : List Packet := []
  /-- The servers that accepted a copy, each as often as it did. -/
  accepted : List UInt64 := []
  refused : List UInt64 := []
  delivered : ℕ := 0

/-- The transmission on `id` that a packet is, and the tables it is handled on. -/
def copyOf (id : Uuid) (env : Env) (a : AppState) (link : ClientId) (raw : Bytes) :
    Option (Inner × GroupTransmission) :=
  match groupTxOf env a.inner link raw with
  | some (t, id', gt) => if id' = id then some (t, gt) else none
  | none => none

namespace Exchange

/-- Server `n` goes to a new state and queues what it sends to its links. -/
def put (G : Graph) (e : Exchange) (n : UInt64) (a : AppState) (sends : Sends) : Exchange :=
  { e with
    servers := fun n' => if n' = n then a else e.servers n'
    flight := e.flight ++ (onLinks (G.links n) sends).map fun m => { sender := n, link := m.1, raw := m.2 } }

/-- What server `n` made of a copy. -/
def mark (e : Exchange) (n : UInt64) (accepted refused : Bool) : Exchange :=
  { e with
    accepted := if accepted then n :: e.accepted else e.accepted
    refused := if refused then n :: e.refused else e.refused }

/-- Server `n` handles a packet. -/
def handled (G : Graph) (cfg : UInt64 → Config) (id : Uuid) (e : Exchange) (env : Env) (n : UInt64) (link : ClientId)
    (raw : Bytes) : Exchange :=
  let copy := copyOf id env (e.servers n) link raw
  (e.put G n (handlePacket (cfg n) env (e.servers n) link raw).1
      (handlePacket (cfg n) env (e.servers n) link raw).2).mark n
    (copy.any fun c => acceptsGroupTx (cfg n) env c.1 link id c.2)
    (copy.any fun c => refuses (cfg n) env c.1 link id c.2)

/-- A client of server `o` sends the transmission. -/
def sent (G : Graph) (cfg : UInt64 → Config) (id : Uuid) (servers : UInt64 → AppState) (env : Env) (o : UInt64)
    (client : ClientId) (raw : Bytes) : Exchange :=
  handled G cfg id { servers } env o client raw

/-- A message arrives, in whatever order: the event names its place among those in flight. -/
def next (G : Graph) (cfg : UInt64 → Config) (id : Uuid) (e : Exchange) (x : Env × ℕ) : Exchange :=
  match e.flight[x.2]? with
  | none => e
  | some p =>
    handled G cfg id { e with flight := e.flight.eraseIdx x.2, delivered := e.delivered + 1 } x.1
      (G.far p.sender p.link).1 (G.far p.sender p.link).2 p.raw

/-- The server that a packet arrives at has refused no copy, and refuses this one only where
it has not taken another. -/
def Spares (G : Graph) (cfg : UInt64 → Config) (id : Uuid) (e : Exchange) (env : Env) (p : Packet) : Prop :=
  ∀ c ∈ copyOf id env (e.servers (G.far p.sender p.link).1) (G.far p.sender p.link).2 p.raw,
    (G.far p.sender p.link).1 ∉ e.refused ∧
      (refuses (cfg (G.far p.sender p.link).1) env c.1 (G.far p.sender p.link).2 id c.2 = true →
        id ∉ (e.servers (G.far p.sender p.link).1).inner.calls)

/-- A server that refuses a copy is sent no other, before or after. -/
def Sparing (G : Graph) (cfg : UInt64 → Config) (id : Uuid) (e : Exchange) (x : Env × ℕ) : Prop :=
  ∀ p ∈ e.flight[x.2]?, e.Spares G cfg id x.1 p

instance (G : Graph) (cfg : UInt64 → Config) (id : Uuid) (e : Exchange) (env : Env) (p : Packet) :
    Decidable (e.Spares G cfg id env p) :=
  Option.decidableForallMem (copyOf id env (e.servers (G.far p.sender p.link).1) (G.far p.sender p.link).2 p.raw)

instance (G : Graph) (cfg : UInt64 → Config) (id : Uuid) (e : Exchange) (x : Env × ℕ) : Decidable (e.Sparing G cfg id x) :=
  Option.decidableForallMem e.flight[x.2]?

end Exchange

/-! ## A run of the network is a run of the first copies -/

/-- The message of the exchange that a packet is: a copy or a prune, and nothing if it is
the end of another call. -/
def signalOf (p : Packet) : Option (FirstCopy.Signal UInt64 ClientId) :=
  if p.raw.head? = some classFederation then some (.prune p.sender p.link)
  else if p.raw[1]? = some callGroupTx then some (.copy p.sender p.link)
  else none

/-- The link that a server has the call from. -/
def sourceAt (G : Graph) (id : Uuid) (e : Exchange) (n : UInt64) : Option (Option ClientId) :=
  ((e.servers n).inner.calls[id]?).map fun call => if call.owner ∈ G.links n then some call.owner else none

/-- The peer links that a server sends the call over. -/
def onwardAt (G : Graph) (id : Uuid) (e : Exchange) (n : UInt64) : Set ClientId :=
  {l | l ∈ G.links n ∧ ∃ call, (e.servers n).inner.calls[id]? = some call ∧ l ∈ call.peers}

/-- The ends of other calls in flight. -/
def oversIn (flight : List Packet) : ℕ := flight.countP fun p => (signalOf p).isNone

/-- As many ends as the other calls of the servers can still send. -/
def endsLeft (G : Graph) (id : Uuid) (servers : UInt64 → AppState) : ℕ :=
  ∑ n ∈ G.members, (G.links n).length * others id (servers n).inner

/-- A packet of the exchange. -/
structure Known (G : Graph) (id : Uuid) (src : UInt32) (p : Packet) : Prop where
  member : p.sender ∈ G.members
  link : p.link ∈ G.links p.sender
  kind : Copy id src p.raw ∨ p.raw = buildPrune id src ∨ Over id p.raw

/-- The first copies are what the network does. -/
structure Simulates (G : Graph) (id : Uuid) (src : UInt32) (bound : ℕ) (e : Exchange)
    (w : FirstCopy.State UInt64 ClientId) : Prop where
  serves : ∀ n ∈ G.members, Serves id src (G.links n) (e.servers n)
  source : ∀ n ∈ G.members, sourceAt G id e n = w.source n
  onward : ∀ n ∈ G.members, onwardAt G id e n = w.onward n
  flight : (↑(e.flight.filterMap signalOf) : Multiset (FirstCopy.Signal UInt64 ClientId)) = w.flight
  known : ∀ p ∈ e.flight, Known G id src p
  accepted : e.accepted = w.taken
  refused : ∀ n, n ∈ e.refused ↔ ∃ x ∈ w.refused, (G.far x.1 x.2).1 = n
  spent : e.delivered + oversIn e.flight + endsLeft G id e.servers ≤ w.delivered + bound

section Signals

variable {id : Uuid} {src : UInt32} {n : UInt64} {l : ClientId} {raw : Bytes}

theorem signalOf_copy (h : Copy id src raw) : signalOf ⟨n, l, raw⟩ = some (.copy n l) := by
  obtain ⟨payload, -, rfl, -⟩ := h
  have hhead : ([classCallControl, callGroupTx] ++ id.asBytes ++ payload).head? = some classCallControl := rfl
  have hsub : ([classCallControl, callGroupTx] ++ id.asBytes ++ payload)[1]? = some callGroupTx := rfl
  have hne : ¬ some classCallControl = some classFederation := by decide
  simp only [signalOf, hhead, hsub, if_neg hne, if_pos]

theorem signalOf_prune : signalOf ⟨n, l, buildPrune id src⟩ = some (.prune n l) := rfl

theorem signalOf_over (h : Over id raw) : signalOf ⟨n, l, raw⟩ = none := by
  obtain ⟨state, k, cause, rfl, -, hstate⟩ := h
  have hhead : (buildCallCause state k cause).head? = some classCallControl := rfl
  have hsub : (buildCallCause state k cause)[1]? = some state := rfl
  have hne : ¬ some classCallControl = some classFederation := by decide
  have hstate' : ¬ some state = some callGroupTx := by
    rcases hstate with rfl | rfl <;> decide
  simp only [signalOf, hhead, hsub, if_neg hne, if_neg hstate']

/-- What is in flight when a message leaves. -/
theorem filterMap_eraseIdx {flight : List Packet} {i : ℕ} {p : Packet} (hi : flight[i]? = some p) :
    ((signalOf p).toList ++ (flight.eraseIdx i).filterMap signalOf).Perm (flight.filterMap signalOf) := by
  obtain ⟨hlt, rfl⟩ := List.getElem?_eq_some_iff.mp hi
  have hperm := (List.getElem_cons_eraseIdx_perm hlt).filterMap signalOf
  refine List.Perm.trans (List.Perm.of_eq ?_) hperm
  rw [List.filterMap_cons]
  cases signalOf flight[i] <;> rfl

theorem oversIn_eraseIdx {flight : List Packet} {i : ℕ} {p : Packet} (hi : flight[i]? = some p) :
    (if (signalOf p).isNone then 1 else 0) + oversIn (flight.eraseIdx i) = oversIn flight := by
  obtain ⟨hlt, rfl⟩ := List.getElem?_eq_some_iff.mp hi
  have hperm := (List.getElem_cons_eraseIdx_perm hlt).countP_eq fun p => (signalOf p).isNone
  rw [List.countP_cons] at hperm
  unfold oversIn
  rw [← hperm, Nat.add_comm]

end Signals

section Simulation

variable {G : Graph} {cfg : UInt64 → Config} {id : Uuid} {src : UInt32} {bound : ℕ} {e : Exchange}
  {w : FirstCopy.State UInt64 ClientId} {n : UInt64} {a : AppState} {sends : Sends}

/-- The call at a server that another server's step leaves alone. -/
theorem sourceAt_put (m : UInt64) : sourceAt G id (e.put G n a sends) m =
    if m = n then (a.inner.calls[id]?).map fun call => if call.owner ∈ G.links n then some call.owner else none
    else sourceAt G id e m := by
  unfold sourceAt Exchange.put
  dsimp only
  split
  · next heq => rw [heq]
  · rfl

theorem onwardAt_put (m : UInt64) : onwardAt G id (e.put G n a sends) m =
    if m = n then {l | l ∈ G.links n ∧ ∃ call, a.inner.calls[id]? = some call ∧ l ∈ call.peers}
    else onwardAt G id e m := by
  unfold onwardAt Exchange.put
  dsimp only
  split
  · next heq => rw [heq]
  · rfl

/-- What a server's step does to the ends that can still be sent. -/
theorem endsLeft_put (hn : n ∈ G.members) :
    endsLeft G id (e.put G n a sends).servers + (G.links n).length * others id (e.servers n).inner =
      endsLeft G id e.servers + (G.links n).length * others id a.inner := by
  unfold endsLeft Exchange.put
  dsimp only
  rw [← Finset.add_sum_erase _ _ hn, ← Finset.add_sum_erase G.members (fun m => (G.links m).length * others id (e.servers m).inner) hn,
    if_pos rfl]
  have hrest : ∑ m ∈ G.members.erase n, (G.links m).length * others id (if m = n then a else e.servers m).inner =
      ∑ m ∈ G.members.erase n, (G.links m).length * others id (e.servers m).inner :=
    Finset.sum_congr rfl fun m hm => by rw [if_neg (Finset.ne_of_mem_erase hm)]
  rw [hrest]
  omega

/-- The messages that a server puts on its links. -/
def packetsOf (G : Graph) (n : UInt64) (sends : Sends) : List Packet :=
  (onLinks (G.links n) sends).map fun m => { sender := n, link := m.1, raw := m.2 }

theorem known_packetsOf (hn : n ∈ G.members)
    (hkind : ∀ m ∈ onLinks (G.links n) sends, Copy id src m.2 ∨ m.2 = buildPrune id src ∨ Over id m.2) :
    ∀ p ∈ packetsOf G n sends, Known G id src p := by
  intro p hp
  obtain ⟨m, hm, rfl⟩ := List.mem_map.mp hp
  exact ⟨hn, List.contains_iff_mem.mp (List.mem_filter.mp hm).2, hkind m hm⟩

theorem filterMap_overs {ms : Sends} (hover : ∀ m ∈ ms, Over id m.2) :
    (ms.map fun m => ({ sender := n, link := m.1, raw := m.2 } : Packet)).filterMap signalOf = [] := by
  rw [List.filterMap_map, List.filterMap_eq_nil_iff]
  exact fun m hm => signalOf_over (hover m hm)

theorem oversIn_le (flight : List Packet) : oversIn flight ≤ flight.length := List.countP_le_length

/-- A step that moves nothing of the exchange. -/
theorem Simulates.unmoved (h : Simulates G id src bound e w) (hn : n ∈ G.members) (hserves : Serves id src (G.links n) a)
    (hu : Unmoved id src (G.links n) (e.servers n).inner a.inner sends) :
    Simulates G id src bound (e.put G n a sends) w where
  serves m hm := by
    unfold Exchange.put
    dsimp only
    split
    · next heq => exact heq ▸ hserves
    · exact h.serves m hm
  source m hm := by
    rw [sourceAt_put]
    split
    · next heq =>
      rw [hu.call, heq]
      exact h.source n hn
    · exact h.source m hm
  onward m hm := by
    rw [onwardAt_put]
    split
    · next heq =>
      rw [hu.call, heq]
      exact h.onward n hn
    · exact h.onward m hm
  flight := by
    show (↑((e.flight ++ packetsOf G n sends).filterMap signalOf) : Multiset _) = w.flight
    rw [List.filterMap_append, packetsOf, filterMap_overs hu.ends, List.append_nil]
    exact h.flight
  known p hp := by
    rcases List.mem_append.mp hp with hp | hp
    · exact h.known p hp
    · exact known_packetsOf hn (fun m hm => .inr (.inr (hu.ends m hm))) p hp
  accepted := h.accepted
  refused := h.refused
  spent := by
    have hspent := h.spent
    have hput : endsLeft G id (e.put G n a sends).servers + (G.links n).length * others id (e.servers n).inner =
        endsLeft G id e.servers + (G.links n).length * others id a.inner := endsLeft_put hn
    have hlen := oversIn_le (packetsOf G n sends)
    have hover : oversIn (e.flight ++ packetsOf G n sends) = oversIn e.flight + oversIn (packetsOf G n sends) :=
      List.countP_append
    have hu' := hu.spent
    rw [packetsOf, List.length_map] at hlen
    show e.delivered + oversIn (e.flight ++ packetsOf G n sends) + _ ≤ _
    rw [hover]
    simp only [packetsOf] at *
    omega

/-- A message of the exchange leaves the network. -/
theorem Simulates.leaves (h : Simulates G id src bound e w) {i : ℕ} {p : Packet} (hi : e.flight[i]? = some p)
    {x : FirstCopy.Signal UInt64 ClientId} (hx : signalOf p = some x) :
    x ∈ w.flight ∧ Simulates G id src bound { e with flight := e.flight.eraseIdx i, delivered := e.delivered + 1 }
      { w with flight := w.flight.erase x, delivered := w.delivered + 1 } := by
  have hperm := filterMap_eraseIdx hi
  have hovers := oversIn_eraseIdx hi
  rw [hx] at hperm hovers
  have hflight : w.flight = x ::ₘ ↑((e.flight.eraseIdx i).filterMap signalOf) := by
    rw [← h.flight]
    exact (Multiset.coe_eq_coe.mpr hperm).symm
  refine ⟨hflight ▸ Multiset.mem_cons_self _ _, ?_⟩
  exact
    { serves := h.serves
      source := h.source
      onward := h.onward
      flight := by
        rw [hflight, Multiset.erase_cons_head]
      known := fun q hq => h.known q (List.mem_of_mem_eraseIdx hq)
      accepted := h.accepted
      refused := h.refused
      spent := by
        have hspent := h.spent
        simp only [Option.isNone_some, Bool.false_eq_true, if_false, Nat.zero_add] at hovers
        show e.delivered + 1 + oversIn (e.flight.eraseIdx i) + endsLeft G id e.servers ≤ w.delivered + 1 + bound
        rw [hovers]
        omega }

/-- The end of another call leaves the network. -/
theorem Simulates.leaves_over (h : Simulates G id src bound e w) {i : ℕ} {p : Packet} (hi : e.flight[i]? = some p)
    (hx : signalOf p = none) :
    Simulates G id src bound { e with flight := e.flight.eraseIdx i, delivered := e.delivered + 1 } w := by
  have hperm := filterMap_eraseIdx hi
  have hovers := oversIn_eraseIdx hi
  rw [hx] at hperm hovers
  exact
    { serves := h.serves
      source := h.source
      onward := h.onward
      flight := by
        rw [← h.flight]
        exact Multiset.coe_eq_coe.mpr hperm
      known := fun q hq => h.known q (List.mem_of_mem_eraseIdx hq)
      accepted := h.accepted
      refused := h.refused
      spent := by
        have hspent := h.spent
        simp only [Option.isNone_none, if_true] at hovers
        show e.delivered + 1 + oversIn (e.flight.eraseIdx i) + endsLeft G id e.servers ≤ w.delivered + bound
        omega }

/-- A server refuses the copy that came from `x`. -/
theorem Simulates.refuse (h : Simulates G id src bound e w) {x : UInt64 × ClientId} (hx : (G.far x.1 x.2).1 = n) :
    Simulates G id src bound (e.mark n false true) { w with refused := insert x w.refused } where
  serves := h.serves
  source := h.source
  onward := h.onward
  flight := h.flight
  known := h.known
  accepted := h.accepted
  refused m := by
    show m ∈ n :: e.refused ↔ _
    rw [List.mem_cons, h.refused m]
    constructor
    · rintro (rfl | ⟨y, hy, hfar⟩)
      · exact ⟨x, Finset.mem_insert_self _ _, hx⟩
      · exact ⟨y, Finset.mem_insert_of_mem hy, hfar⟩
    · rintro ⟨y, hy, hfar⟩
      rcases Finset.mem_insert.mp hy with rfl | hy
      · exact .inl (hfar.symm.trans hx)
      · exact .inr ⟨y, hy, hfar⟩
  spent := h.spent

/-- A server answers a copy with a prune. -/
theorem Simulates.bounce (h : Simulates G id src bound e w) (hn : n ∈ G.members) {link : ClientId}
    (hlink : link ∈ G.links n) (hserves : Serves id src (G.links n) a)
    (hu : Unmoved id src (G.links n) (e.servers n).inner a.inner []) :
    Simulates G id src bound (e.put G n a [(link, buildPrune id src)])
      { w with flight := .prune n link ::ₘ w.flight } := by
  have hsame : Simulates G id src bound (e.put G n a []) w := h.unmoved hn hserves hu
  have hsends : onLinks (G.links n) [(link, buildPrune id src)] = [(link, buildPrune id src)] := by
    rw [onLinks, List.filter_singleton, List.contains_iff_mem.mpr hlink]
    rfl
  have hflight : (e.put G n a [(link, buildPrune id src)]).flight =
      (e.put G n a []).flight ++ [⟨n, link, buildPrune id src⟩] := by
    show e.flight ++ (onLinks (G.links n) [(link, buildPrune id src)]).map _ = e.flight ++ [] ++ _
    rw [hsends, List.append_nil]
    rfl
  exact
    { serves := hsame.serves
      source := hsame.source
      onward := hsame.onward
      flight := by
        have hprune : signalOf ⟨n, link, buildPrune id src⟩ = some (.prune n link) := signalOf_prune
        rw [hflight, List.filterMap_append, ← Multiset.coe_add, hsame.flight, List.filterMap_cons, hprune,
          List.filterMap_nil]
        exact Multiset.add_comm _ _
      known := by
        intro p hp
        rw [hflight] at hp
        rcases List.mem_append.mp hp with hp | hp
        · exact hsame.known p hp
        · rw [List.mem_singleton] at hp
          rw [hp]
          exact ⟨hn, hlink, .inr (.inl rfl)⟩
      accepted := hsame.accepted
      refused := hsame.refused
      spent := by
        have hspent := hsame.spent
        have hnone : oversIn [⟨n, link, buildPrune id src⟩] = 0 := rfl
        have hovers : oversIn (e.put G n a [(link, buildPrune id src)]).flight = oversIn (e.put G n a []).flight := by
          rw [hflight, oversIn, List.countP_append]
          exact (Nat.add_eq_left).mpr hnone
        rw [hovers]
        exact hspent }

/-- A server prunes a link off its call. -/
theorem Simulates.cut (h : Simulates G id src bound e w) (hn : n ∈ G.members) {link : ClientId}
    (hserves : Serves id src (G.links n) a) (hothers : others id a.inner = others id (e.servers n).inner)
    (hcall : a.inner.calls[id]? =
      ((e.servers n).inner.calls[id]?).map fun call => { call with peers := call.peers.erase link }) :
    Simulates G id src bound (e.put G n a [])
      { w with onward := Function.update w.onward n (w.onward n \ {link}) } where
  serves m hm := by
    unfold Exchange.put
    dsimp only
    split
    · next heq => exact heq ▸ hserves
    · exact h.serves m hm
  source m hm := by
    rw [sourceAt_put]
    split
    · next heq =>
      rw [hcall, Option.map_map, heq]
      exact h.source n hn
    · exact h.source m hm
  onward m hm := by
    show onwardAt G id (e.put G n a []) m = Function.update w.onward n (w.onward n \ {link}) m
    rw [onwardAt_put]
    split
    · next heq =>
      rw [heq, Function.update_self, ← h.onward n hn, hcall]
      ext l
      simp only [onwardAt, Set.mem_ofPred_eq, Set.mem_sdiff, Set.mem_singleton_iff, Option.map_eq_some_iff]
      constructor
      · rintro ⟨hl, _, ⟨call, hget, rfl⟩, hpeer⟩
        obtain ⟨hne, hpeer⟩ := FinSet.mem_erase.mp hpeer
        exact ⟨⟨hl, call, hget, hpeer⟩, fun heq => hne heq.symm⟩
      · rintro ⟨⟨hl, call, hget, hpeer⟩, hne⟩
        exact ⟨hl, _, ⟨call, hget, rfl⟩, FinSet.mem_erase.mpr ⟨fun heq => hne heq.symm, hpeer⟩⟩
    · next hne =>
      rw [Function.update_of_ne hne]
      exact h.onward m hm
  flight := by
    show (↑((e.flight ++ []).filterMap signalOf) : Multiset _) = w.flight
    rw [List.append_nil]
    exact h.flight
  known p hp := h.known p (by
    rcases List.mem_append.mp hp with hp | hp
    · exact hp
    · exact absurd hp List.not_mem_nil)
  accepted := h.accepted
  refused := h.refused
  spent := by
    have hspent := h.spent
    have hput : endsLeft G id (e.put G n a []).servers + (G.links n).length * others id (e.servers n).inner =
        endsLeft G id e.servers + (G.links n).length * others id a.inner := endsLeft_put hn
    rw [hothers] at hput
    show e.delivered + oversIn (e.flight ++ []) + _ ≤ w.delivered + bound
    rw [List.append_nil]
    omega

/-! What a server that takes a copy puts on its links. -/

section Took

variable {link : ClientId} {out : List ClientId} {before : AppState}

/-- The copies among it go out over `out`. -/
theorem signals_took (ht : Took id src (G.links n) link before a sends out) :
    (packetsOf G n sends).filterMap signalOf = out.map (FirstCopy.Signal.copy n) := by
  obtain ⟨first, copies, last, hqueued, hfst, hcopies, hovers, -⟩ := ht.queued
  have hsignals : ∀ ms : Sends, (∀ m ∈ ms, Copy id src m.2) →
      (ms.map fun m => ({ sender := n, link := m.1, raw := m.2 } : Packet)).filterMap signalOf =
        (ms.map (·.1)).map (FirstCopy.Signal.copy n) := by
    intro ms hms
    induction ms with
    | nil => rfl
    | cons m ms ih =>
      have hone : signalOf ⟨n, m.1, m.2⟩ = some (.copy n m.1) := signalOf_copy (hms m List.mem_cons_self)
      rw [List.map_cons, List.filterMap_cons, hone, ih fun m hm => hms m (List.mem_cons_of_mem _ hm)]
      rfl
  rw [packetsOf, hqueued, List.map_append, List.map_append, List.filterMap_append, List.filterMap_append,
    hsignals copies hcopies, hfst, filterMap_overs fun m hm => hovers m (List.mem_append_left _ hm),
    filterMap_overs fun m hm => hovers m (List.mem_append_right _ hm), List.nil_append, List.append_nil]

theorem known_took (hn : n ∈ G.members) (ht : Took id src (G.links n) link before a sends out) :
    ∀ p ∈ packetsOf G n sends, Known G id src p := by
  obtain ⟨first, copies, last, hqueued, -, hcopies, hovers, -⟩ := ht.queued
  refine known_packetsOf hn fun m hm => ?_
  rw [hqueued, List.append_assoc] at hm
  rcases List.mem_append.mp hm with hm | hm
  · exact .inr (.inr (hovers m (List.mem_append_left _ hm)))
  · rcases List.mem_append.mp hm with hm | hm
    · exact .inl (hcopies m hm)
    · exact .inr (.inr (hovers m (List.mem_append_right _ hm)))

/-- The ends among it are of calls that the server has no more. -/
theorem overs_took (ht : Took id src (G.links n) link before a sends out) :
    oversIn (packetsOf G n sends) + (G.links n).length * others id a.inner ≤
      (G.links n).length * others id before.inner := by
  obtain ⟨first, copies, last, hqueued, -, hcopies, -, hspent⟩ := ht.queued
  have hcopied : oversIn (copies.map fun m => ({ sender := n, link := m.1, raw := m.2 } : Packet)) = 0 := by
    rw [oversIn, List.countP_eq_zero]
    intro p hp
    obtain ⟨m, hm, rfl⟩ := List.mem_map.mp hp
    have hone : signalOf ⟨n, m.1, m.2⟩ = some (.copy n m.1) := signalOf_copy (hcopies m hm)
    rw [hone]
    exact Bool.false_ne_true
  have hfirst := oversIn_le (first.map fun m => ({ sender := n, link := m.1, raw := m.2 } : Packet))
  have hlast := oversIn_le (last.map fun m => ({ sender := n, link := m.1, raw := m.2 } : Packet))
  rw [List.length_map] at hfirst hlast
  rw [List.length_append] at hspent
  rw [packetsOf, hqueued, List.map_append, List.map_append, oversIn, List.countP_append, List.countP_append]
  simp only [oversIn] at *
  omega

end Took

/-! A server takes a copy and sends it on. -/

section Take

variable {link : ClientId} {out : List ClientId}

theorem Simulates.source_take (h : Simulates G id src bound e w)
    (ht : Took id src (G.links n) link (e.servers n) a sends out) {m : UInt64} (hm : m ∈ G.members) :
    sourceAt G id (e.put G n a sends) m =
      Function.update w.source n (some (if link ∈ G.links n then some link else none)) m := by
  obtain ⟨call, hget, howner, -⟩ := ht.call
  rw [sourceAt_put]
  split
  · next heq => rw [heq, Function.update_self, hget, Option.map_some, howner]
  · next hne =>
    rw [Function.update_of_ne hne]
    exact h.source m hm

theorem Simulates.onward_take (h : Simulates G id src bound e w)
    (ht : Took id src (G.links n) link (e.servers n) a sends out) {m : UInt64} (hm : m ∈ G.members) :
    onwardAt G id (e.put G n a sends) m = Function.update w.onward n {l | l ∈ out} m := by
  obtain ⟨call, hget, -, hpeers⟩ := ht.call
  rw [onwardAt_put]
  split
  · next heq =>
    rw [heq, Function.update_self, hget]
    ext l
    simp only [Set.mem_ofPred_eq, Option.some.injEq, exists_eq_left']
    constructor
    · rintro ⟨hl, hpeer⟩
      exact (hpeers l hl).mp hpeer
    · intro hl
      exact ⟨(ht.away l hl).1, (hpeers l (ht.away l hl).1).mpr hl⟩
  · next hne =>
    rw [Function.update_of_ne hne]
    exact h.onward m hm

theorem Simulates.spent_take (h : Simulates G id src bound e w) (hn : n ∈ G.members)
    (ht : Took id src (G.links n) link (e.servers n) a sends out) :
    e.delivered + oversIn (e.put G n a sends).flight + endsLeft G id (e.put G n a sends).servers ≤
      w.delivered + bound := by
  have hleft := h.spent
  have hput : endsLeft G id (e.put G n a sends).servers + (G.links n).length * others id (e.servers n).inner =
      endsLeft G id e.servers + (G.links n).length * others id a.inner := endsLeft_put hn
  have hovers := overs_took ht
  have hflight : oversIn (e.put G n a sends).flight = oversIn e.flight + oversIn (packetsOf G n sends) :=
    List.countP_append
  omega

theorem Simulates.take (h : Simulates G id src bound e w) (hn : n ∈ G.members)
    (ht : Took id src (G.links n) link (e.servers n) a sends out) :
    Simulates G id src bound ((e.put G n a sends).mark n true false)
      { w with
        source := Function.update w.source n (some (if link ∈ G.links n then some link else none))
        onward := Function.update w.onward n {l | l ∈ out}
        flight := w.flight + FirstCopy.copies n out
        sent := w.sent ∪ FirstCopy.ends n out
        taken := n :: w.taken } where
  serves m hm := by
    show Serves id src (G.links m) (if m = n then a else e.servers m)
    split
    · next heq => exact heq ▸ ht.serves
    · exact h.serves m hm
  source _ hm := h.source_take ht hm
  onward _ hm := h.onward_take ht hm
  flight := by
    show (↑((e.flight ++ packetsOf G n sends).filterMap signalOf) : Multiset _) = w.flight + FirstCopy.copies n out
    rw [List.filterMap_append, signals_took ht, ← Multiset.coe_add, h.flight]
    rfl
  known p hp := (List.mem_append.mp hp).elim (h.known p) (known_took hn ht p)
  accepted := by
    show n :: e.accepted = n :: w.taken
    rw [h.accepted]
  refused := h.refused
  spent := h.spent_take hn ht

end Take

/-! ### One message -/

variable {env : Env} {link : ClientId} {raw : Bytes} {o : UInt64}

/-- What a server reads as a transmission on `id` counts as a copy in flight. -/
theorem signalOf_of_copyOf {c : Inner × GroupTransmission} (hc : copyOf id env a link raw = some c) (l : ClientId) :
    signalOf ⟨n, l, raw⟩ = some (.copy n l) := by
  unfold copyOf at hc
  split at hc
  · next t id' gt htx =>
    split at hc
    · next heq =>
      subst heq
      exact signalOf_copy (copy_of_groupTxOf htx)
    · cases hc
  · cases hc

theorem copyOf_eq_none (p : Packet) (hne : signalOf p ≠ some (.copy p.sender p.link)) :
    copyOf id env a link p.raw = none := by
  rw [Option.eq_none_iff_forall_ne_some]
  exact fun c hc => hne (signalOf_of_copyOf hc p.link)

/-- A message that is no copy leaves no mark. -/
theorem handled_eq_put (hnone : copyOf id env (e.servers n) link raw = none) :
    Exchange.handled G cfg id e env n link raw =
      e.put G n (handlePacket (cfg n) env (e.servers n) link raw).1 (handlePacket (cfg n) env (e.servers n) link raw).2 := by
  unfold Exchange.handled
  rw [hnone]
  rfl

/-- A server knows of the call what the first copies say. -/
theorem Simulates.source_eq_none (h : Simulates G id src bound e w) (hn : n ∈ G.members) :
    w.source n = none ↔ (e.servers n).inner.calls[id]? = none := by
  rw [← h.source n hn, sourceAt, Option.map_eq_none_iff]

theorem Simulates.source_eq_some (h : Simulates G id src bound e w) (hn : n ∈ G.members) {call : ActiveCall}
    (hcall : (e.servers n).inner.calls[id]? = some call) :
    w.source n = some (if call.owner ∈ G.links n then some call.owner else none) := by
  rw [← h.source n hn, sourceAt, hcall, Option.map_some]

/-- A copy arrives. -/
theorem Simulates.copy (h : Simulates G id src bound e w) (hs : FirstCopy.Sound G o w) {i : ℕ} {p : Packet}
    (hi : e.flight[i]? = some p) (hcopy : Copy id src p.raw) (hx : e.Sparing G cfg id (env, i)) :
    ∃ w', FirstCopy.Sound G o w' ∧ Simulates G id src bound (e.next G cfg id (env, i)) w' := by
  have hsignal : signalOf p = some (.copy p.sender p.link) := signalOf_copy hcopy
  obtain ⟨hflies, hleft⟩ := h.leaves hi hsignal
  obtain ⟨hmember, hlink⟩ := hs.member_of_copy hflies
  have hlive := (hs.live p.sender p.link hflies).2.1
  have hn := G.far_mem _ hmember _ hlink
  have hl := G.far_link _ hmember _ hlink
  obtain ⟨gt, d, hsrc, htx⟩ := hcopy.groupTxOf env (e.servers (G.far p.sender p.link).1).inner (G.far p.sender p.link).2
  obtain ⟨t, ht⟩ : ∃ t, promoteClientVersion (purgeEphemeral env (e.servers (G.far p.sender p.link).1).inner)
    (G.far p.sender p.link).2 d = t := ⟨_, rfl⟩
  rw [ht] at htx
  have hread : copyOf id env (e.servers (G.far p.sender p.link).1) (G.far p.sender p.link).2 p.raw = some (t, gt) := by
    rw [copyOf, htx]
    exact if_pos rfl
  obtain ⟨hunrefused, hspares⟩ := hx p hi (t, gt) hread
  have hfinds : (e.servers (G.far p.sender p.link).1).inner.calls[id]? = none → w.Finds G p.sender p.link := by
    intro hnone
    refine ⟨hflies, (h.source_eq_none hn).mpr hnone, fun y hy heq => ?_⟩
    exact hunrefused ((h.refused _).mpr ⟨y, hy, heq⟩)
  have hserves := h.serves _ hn
  have hnext : e.next G cfg id (env, i) =
      (({ e with flight := e.flight.eraseIdx i, delivered := e.delivered + 1 } : Exchange).put G (G.far p.sender p.link).1
        (handlePacket (cfg (G.far p.sender p.link).1) env (e.servers (G.far p.sender p.link).1) (G.far p.sender p.link).2
          p.raw).1
        (handlePacket (cfg (G.far p.sender p.link).1) env (e.servers (G.far p.sender p.link).1) (G.far p.sender p.link).2
          p.raw).2).mark (G.far p.sender p.link).1
        (acceptsGroupTx (cfg (G.far p.sender p.link).1) env t (G.far p.sender p.link).2 id gt)
        (refuses (cfg (G.far p.sender p.link).1) env t (G.far p.sender p.link).2 id gt) := by
    simp only [Exchange.next, hi, Exchange.handled, hread, Option.any_some]
  rw [hnext]
  have hother : ∀ call, (e.servers (G.far p.sender p.link).1).inner.calls[id]? = some call →
      call.owner ≠ (G.far p.sender p.link).2 := by
    rintro call hcall heq
    rw [h.source_eq_some hn hcall, heq, if_pos hl] at hlive
    exact hlive rfl
  have hmoved : Unmoved id src (G.links (G.far p.sender p.link).1) (e.servers (G.far p.sender p.link).1).inner t [] :=
    unmoved_of_groupTxOf htx
  rcases handleGroupTx_verdict (cfg (G.far p.sender p.link).1) env t (G.far p.sender p.link).2 id gt p.raw with
    ⟨hrefused, hno, -⟩ | ⟨hrefused, hno, ⟨-, hdup⟩, -⟩ | ⟨hrefused, haccepted, -⟩
  · have hnone : (e.servers (G.far p.sender p.link).1).inner.calls[id]? = none := by
      rw [Option.eq_none_iff_forall_ne_some]
      exact fun call hcall => hspares hrefused (FinMap.mem_of_getElem? hcall)
    obtain ⟨hserves', hu, hsends⟩ := hserves.refused htx hrefused
    rw [hno, hrefused, hsends]
    exact ⟨_, hs.refuse (hfinds hnone), (hleft.unmoved hn hserves' hu).refuse (x := (p.sender, p.link)) rfl⟩
  · cases hcall : (e.servers (G.far p.sender p.link).1).inner.calls[id]? with
    | none =>
      rw [hsrc, hserves.not_duplicate hmoved hcall] at hdup
      cases hdup
    | some call =>
      obtain ⟨hserves', hu, hsends⟩ := hserves.bounced htx hsrc hl hrefused hcall (hother call hcall)
      rw [hno, hrefused, hsends]
      refine ⟨_, hs.bounce ⟨hflies, _, h.source_eq_some hn hcall, ?_⟩, hleft.bounce hn hl hserves' hu⟩
      split
      · exact fun heq => hother call hcall (Option.some.inj heq)
      · exact (Option.some_ne_none _).symm
  · cases hcall : (e.servers (G.far p.sender p.link).1).inner.calls[id]? with
    | some call =>
      have hpeer : t.isPeer (G.far p.sender p.link).2 = true := by
        rw [hmoved.peer]
        exact (hserves.link _).mpr hl
      rw [acceptsGroupTx, hsrc, hpeer, hserves.duplicate hmoved hcall (hother call hcall)] at haccepted
      simp at haccepted
    | none =>
      have htook := hserves.took htx hsrc haccepted
      have htake := hleft.take hn htook
      rw [if_pos hl] at htake
      rw [haccepted, hrefused]
      exact ⟨_, hs.take ⟨hfinds hcall, htook.nodup, htook.away⟩, htake⟩

/-- One message of the network is one of the first copies, or the end of another call. -/
theorem Simulates.next (h : Simulates G id src bound e w) (hs : FirstCopy.Sound G o w) {x : Env × ℕ}
    (hx : e.Sparing G cfg id x) : ∃ w', FirstCopy.Sound G o w' ∧ Simulates G id src bound (e.next G cfg id x) w' := by
  obtain ⟨env, i⟩ := x
  cases hi : e.flight[i]? with
  | none =>
    have hsame : e.next G cfg id (env, i) = e := by simp only [Exchange.next, hi]
    rw [hsame]
    exact ⟨w, hs, h⟩
  | some p =>
    obtain ⟨hmember, hlink, hkind⟩ := h.known p (List.mem_of_getElem? hi)
    have hn := G.far_mem _ hmember _ hlink
    have hl := G.far_link _ hmember _ hlink
    rcases hkind with hcopy | hprune | hover
    · exact h.copy hs hi hcopy hx
    · have hsignal : signalOf p = some (.prune p.sender p.link) := by
        obtain ⟨sender, link, raw⟩ := p
        subst hprune
        rfl
      obtain ⟨hflies, hleft⟩ := h.leaves hi hsignal
      obtain ⟨hserves, hsends, hothers, hcall⟩ :=
        @Serves.pruned id src _ (cfg (G.far p.sender p.link).1) env _ _ (h.serves _ hn) hl
      have hnext : e.next G cfg id (env, i) =
          ({ e with flight := e.flight.eraseIdx i, delivered := e.delivered + 1 } : Exchange).put G
            (G.far p.sender p.link).1 (handlePacket (cfg (G.far p.sender p.link).1) env
              (e.servers (G.far p.sender p.link).1) (G.far p.sender p.link).2 (buildPrune id src)).1 [] := by
        simp only [Exchange.next, hi]
        rw [handled_eq_put, hprune, hsends]
        exact copyOf_eq_none p (by simp [hsignal])
      rw [hnext]
      exact ⟨_, hs.cut hflies, hleft.cut hn hserves hothers hcall⟩
    · have hsignal : signalOf p = none := signalOf_over hover
      have hleft := h.leaves_over hi hsignal
      obtain ⟨hserves, hu⟩ :=
        @Serves.ended id src _ (cfg (G.far p.sender p.link).1) env _ (G.far p.sender p.link).2 _ (h.serves _ hn) hover
      have hnext : e.next G cfg id (env, i) =
          ({ e with flight := e.flight.eraseIdx i, delivered := e.delivered + 1 } : Exchange).put G
            (G.far p.sender p.link).1
            (handlePacket (cfg (G.far p.sender p.link).1) env (e.servers (G.far p.sender p.link).1)
              (G.far p.sender p.link).2 p.raw).1
            (handlePacket (cfg (G.far p.sender p.link).1) env (e.servers (G.far p.sender p.link).1)
              (G.far p.sender p.link).2 p.raw).2 := by
        simp only [Exchange.next, hi]
        rw [handled_eq_put]
        exact copyOf_eq_none p (by simp [hsignal])
      rw [hnext]
      exact ⟨w, hs, hleft.unmoved hn hserves hu⟩

end Simulation

/-! ## Runs -/

/-- Before the transmission: every server serves the network's links and none knows of call
`id`. -/
structure Fresh (G : Graph) (id : Uuid) (src : UInt32) (servers : UInt64 → AppState) : Prop where
  link : ∀ n ∈ G.members, ∀ l, (servers n).inner.isPeer l = true ↔ l ∈ G.links n
  safe : ∀ n ∈ G.members, ∀ l ∈ G.links n, l ∈ (servers n).inner.fed.links
  legs : ∀ n ∈ G.members, LegsApart (servers n)
  calls : ∀ n ∈ G.members, (servers n).inner.calls[id]? = none
  sdsRoutes : ∀ n ∈ G.members, (servers n).inner.sdsRoutes[id]? = none
  recentCalls : ∀ n ∈ G.members, (servers n).inner.recentCalls[(id, src)]? = none

/-- A client of a server sends a transmission of `src` on `id`. -/
structure Talker (G : Graph) (id : Uuid) (src : UInt32) (servers : UInt64 → AppState) (env : Env) (o : UInt64)
    (client : ClientId) (raw : Bytes) : Prop where
  member : o ∈ G.members
  outside : client ∉ G.links o
  transmission : ∃ c ∈ copyOf id env (servers o) client raw, c.2.source = src

/-- The call leads from one server to another: over the link that is its owner. -/
def OwnerStep (G : Graph) (id : Uuid) (servers : UInt64 → AppState) (m n : UInt64) : Prop :=
  ∃ call, (servers m).inner.calls[id]? = some call ∧ call.owner ∈ G.links m ∧ (G.far m call.owner).1 = n

section Runs

variable {G : Graph} {cfg : UInt64 → Config} {id : Uuid} {src : UInt32} {servers : UInt64 → AppState} {env : Env}
  {o : UInt64} {client : ClientId} {raw : Bytes} {e : Exchange}

theorem Fresh.serves (h : Fresh G id src servers) {n : UInt64} (hn : n ∈ G.members) :
    Serves id src (G.links n) (servers n) where
  link := h.link n hn
  safe := h.safe n hn
  legs := h.legs n hn
  talker call hcall := by
    rw [h.calls n hn] at hcall
    cases hcall
  unseen _ := ⟨h.sdsRoutes n hn, h.recentCalls n hn⟩

/-- Nothing is known of the transmission yet. -/
def nothing : FirstCopy.State UInt64 ClientId :=
  { source := fun _ => none, onward := fun _ => ∅, flight := 0, sent := ∅, taken := [], refused := ∅, delivered := 0 }

theorem Fresh.simulates (h : Fresh G id src servers) :
    Simulates G id src (endsLeft G id servers) { servers } nothing where
  serves _ hn := h.serves hn
  source n hn := by
    rw [sourceAt, h.calls n hn]
    rfl
  onward n hn := by
    ext l
    simp [onwardAt, h.calls n hn, nothing]
  flight := rfl
  known p hp := absurd hp List.not_mem_nil
  accepted := rfl
  refused n := by simp [nothing]
  spent := by
    show 0 + 0 + endsLeft G id servers ≤ 0 + endsLeft G id servers
    omega

/-- The origin's server dropped the transmission, and nothing was sent. -/
structure Dropped (G : Graph) (id : Uuid) (src : UInt32) (e : Exchange) : Prop where
  flight : e.flight = []
  accepted : e.accepted = []
  delivered : e.delivered = 0
  serves : ∀ n ∈ G.members, Serves id src (G.links n) (e.servers n)
  calls : ∀ n ∈ G.members, (e.servers n).inner.calls[id]? = none

/-- The transmission is taken and goes out as first copies, or it is dropped. -/
theorem Fresh.sent (h : Fresh G id src servers) (ht : Talker G id src servers env o client raw) :
    (∃ w, FirstCopy.Sound G o w ∧
        Simulates G id src (endsLeft G id servers) (Exchange.sent G cfg id servers env o client raw) w) ∨
      Dropped G id src (Exchange.sent G cfg id servers env o client raw) := by
  obtain ⟨ho, hclient, ⟨t, gt⟩, hcopy, hsrc⟩ := ht
  have hserves := h.serves ho
  have htx : groupTxOf env (servers o).inner client raw = some (t, id, gt) := by
    unfold copyOf at hcopy
    split at hcopy
    · next t' id' gt' htx =>
      split at hcopy
      · next heq =>
        cases hcopy
        rw [htx, heq]
      · cases hcopy
    · cases hcopy
  have hsent : Exchange.sent G cfg id servers env o client raw =
      (({ servers } : Exchange).put G o (handlePacket (cfg o) env (servers o) client raw).1
        (handlePacket (cfg o) env (servers o) client raw).2).mark o
        (acceptsGroupTx (cfg o) env t client id gt) (refuses (cfg o) env t client id gt) := by
    have hread : copyOf id env (servers o) client raw = some (t, gt) := hcopy
    simp only [Exchange.sent, Exchange.handled, hread, Option.any_some]
  rw [hsent]
  rcases handleGroupTx_verdict (cfg o) env t client id gt raw with
    ⟨hrefused, hno, -⟩ | ⟨-, -, ⟨hpeer, -⟩, -⟩ | ⟨hrefused, haccepted, -⟩
  · obtain ⟨hserves', hu, hsends⟩ := hserves.refused htx hrefused
    refine .inr ⟨?_, ?_, rfl, fun n hn => ?_, fun n hn => ?_⟩
    · rw [hsends]
      rfl
    · rw [hno]
      rfl
    · show Serves id src (G.links n) (if n = o then (handlePacket (cfg o) env (servers o) client raw).1 else servers n)
      split
      · next heq => exact heq ▸ hserves'
      · exact h.serves hn
    · show (if n = o then (handlePacket (cfg o) env (servers o) client raw).1 else servers n).inner.calls[id]? = none
      split
      · rw [hu.call]
        exact h.calls o ho
      · exact h.calls n hn
  · have hmoved : Unmoved id src (G.links o) (servers o).inner t [] := unmoved_of_groupTxOf htx
    rw [hmoved.peer, h.link o ho] at hpeer
    exact absurd hpeer hclient
  · have htook := hserves.took htx hsrc haccepted
    have htake := h.simulates.take ho htook
    rw [if_neg hclient] at htake
    rw [haccepted, hrefused]
    refine .inl ⟨FirstCopy.State.start o (outLinks (cfg o) env (G.links o) (freeFloor (cfg o) t id gt) client id gt),
      FirstCopy.sound_start ho htook.nodup fun l hl => (htook.away l hl).1, ?_⟩
    have hstart : FirstCopy.State.start o (outLinks (cfg o) env (G.links o) (freeFloor (cfg o) t id gt) client id gt) =
        { nothing with
          source := Function.update nothing.source o (some none)
          onward := Function.update nothing.onward o
            {l | l ∈ outLinks (cfg o) env (G.links o) (freeFloor (cfg o) t id gt) client id gt}
          flight := nothing.flight + FirstCopy.copies o (outLinks (cfg o) env (G.links o) (freeFloor (cfg o) t id gt) client id gt)
          sent := nothing.sent ∪ FirstCopy.ends o (outLinks (cfg o) env (G.links o) (freeFloor (cfg o) t id gt) client id gt)
          taken := o :: nothing.taken } := by
      simp only [FirstCopy.State.start, nothing, zero_add, Finset.empty_union]
      congr 1
      · funext n
        rw [Function.update_apply]
      · funext n
        rw [Function.update_apply]
    rw [hstart]
    exact htake

/-- Every state of the network is one of the first copies, or no server took the
transmission. -/
theorem simulates_of_reach (h : Fresh G id src servers) (ht : Talker G id src servers env o client raw)
    (hreach : Reach (Exchange.sent G cfg id servers env o client raw) (Exchange.Sparing G cfg id) (Exchange.next G cfg id) e) :
    (∃ w, FirstCopy.Sound G o w ∧ Simulates G id src (endsLeft G id servers) e w) ∨ Dropped G id src e := by
  refine hreach.invariant
    (P := fun e => (∃ w, FirstCopy.Sound G o w ∧ Simulates G id src (endsLeft G id servers) e w) ∨ Dropped G id src e)
    (h.sent ht) ?_
  rintro e x (⟨w, hs, hw⟩ | hdropped) hx
  · exact .inl (hw.next hs hx)
  · have hsame : e.next G cfg id x = e := by simp [Exchange.next, hdropped.flight]
    rw [hsame]
    exact .inr hdropped

end Runs

/-! ## Voice over what is left -/

/-- The servers while the talker's frames, numbered, cross the network. -/
structure Talk where
  servers : UInt64 → AppState
  flight : List (ℕ × Packet) := []
  /-- Which frame reached which server, each as often as it did. -/
  reached : List (ℕ × UInt64) := []
  spoken : ℕ := 0

/-- The talker sends its next frame, or a frame arrives. -/
inductive Utterance
  | speak (env : Env) (raw : Bytes)
  | deliver (env : Env) (i : ℕ)

namespace Talk

/-- Server `n` handles the packet of frame `j`. -/
def handled (G : Graph) (cfg : UInt64 → Config) (v : Talk) (j : ℕ) (env : Env) (n : UInt64) (link : ClientId)
    (raw : Bytes) : Talk :=
  { v with
    servers := fun n' => if n' = n then (handlePacket (cfg n) env (v.servers n) link raw).1 else v.servers n'
    flight := v.flight ++ (onLinks (G.links n) (handlePacket (cfg n) env (v.servers n) link raw).2).map fun m =>
      (j, { sender := n, link := m.1, raw := m.2 }) }

def next (G : Graph) (cfg : UInt64 → Config) (o : UInt64) (client : ClientId) (v : Talk) : Utterance → Talk
  | .speak env raw => { v with spoken := v.spoken + 1 }.handled G cfg v.spoken env o client raw
  | .deliver env i =>
    match v.flight[i]? with
    | none => v
    | some (j, p) =>
      { v with flight := v.flight.eraseIdx i, reached := (j, (G.far p.sender p.link).1) :: v.reached }.handled G cfg j env
        (G.far p.sender p.link).1 (G.far p.sender p.link).2 p.raw

/-- What the talker sends are voice frames of the call. -/
def Voice (id : Uuid) (_ : Talk) : Utterance → Prop
  | .speak _ raw => Speech id raw
  | .deliver _ _ => True

end Talk

section Talking

variable {G : Graph} {cfg : UInt64 → Config} {id : Uuid} {src : UInt32} {o : UInt64} {client : ClientId}
  {onward : UInt64 → Set ClientId} {source : UInt64 → Option (Option ClientId)} {v : Talk}
  {w : FirstCopy.Stream UInt64 ClientId}

/-- The stream of messages over the tree is what the frames do. -/
structure Streams (G : Graph) (id : Uuid) (src : UInt32) (onward : UInt64 → Set ClientId) (v : Talk)
    (w : FirstCopy.Stream UInt64 ClientId) : Prop where
  serves : ∀ n ∈ G.members, Serves id src (G.links n) (v.servers n)
  onward : ∀ n ∈ G.members, ∀ l ∈ G.links n,
    (∃ call, (v.servers n).inner.calls[id]? = some call ∧ l ∈ call.peers) → l ∈ onward n
  flight : (↑(v.flight.map fun x => (x.1, x.2.sender, x.2.link)) : Multiset (ℕ × UInt64 × ClientId)) = w.flight
  known : ∀ x ∈ v.flight, x.2.sender ∈ G.members ∧ x.2.link ∈ G.links x.2.sender ∧ Speech id x.2.raw
  reached : v.reached = w.reached
  spoken : v.spoken = w.spoken

/-- A server handles a frame: what it passes on goes over links that carry the call. -/
theorem Streams.handled (h : Streams G id src onward v w) {n : UInt64} (hn : n ∈ G.members) (j : ℕ) (env : Env)
    (link : ClientId) {raw : Bytes} (hspeech : Speech id raw) :
    ∃ out : List ClientId, out.Nodup ∧ (∀ l ∈ out, l ∈ onward n) ∧
      Streams G id src onward (v.handled G cfg j env n link raw)
        { w with flight := w.flight + FirstCopy.Stream.onLinks j n out } := by
  obtain ⟨hserves, hcalls, out, hnodup, hsends, hout⟩ :=
    @Serves.speech id src (G.links n) (cfg n) env (v.servers n) link raw (h.serves n hn) hspeech
  refine ⟨out, hnodup, fun l hl => h.onward n hn l (hout l hl).1 (hout l hl).2, ?_⟩
  have hflight : (v.handled G cfg j env n link raw).flight =
      v.flight ++ out.map fun l => (j, { sender := n, link := l, raw }) := by
    simp only [Talk.handled, hsends, List.map_map]
    rfl
  exact
    { serves := by
        intro m hm
        show Serves id src (G.links m) (if m = n then _ else v.servers m)
        split
        · next heq => exact heq ▸ hserves
        · exact h.serves m hm
      onward := by
        intro m hm l hl
        show (∃ call, (if m = n then (handlePacket (cfg n) env (v.servers n) link raw).1 else v.servers m).inner.calls[id]? =
          some call ∧ l ∈ call.peers) → l ∈ onward m
        split
        · next heq =>
          subst heq
          exact fun hcall => h.onward m hm l hl ((hcalls l).mp hcall)
        · exact h.onward m hm l hl
      flight := by
        rw [hflight, List.map_append, ← Multiset.coe_add, h.flight, List.map_map]
        rfl
      known := by
        intro x hx
        rw [hflight] at hx
        rcases List.mem_append.mp hx with hx | hx
        · exact h.known x hx
        · obtain ⟨l, hl, rfl⟩ := List.mem_map.mp hx
          exact ⟨hn, (hout l hl).1, hspeech⟩
      reached := h.reached
      spoken := h.spoken }

theorem Streams.next (h : Streams G id src onward v w) (hs : FirstCopy.Single G o onward w)
    (ht : FirstCopy.Tree G o source onward) (ho : o ∈ G.members) {u : Utterance} (hu : v.Voice id u) :
    ∃ w', FirstCopy.Single G o onward w' ∧ Streams G id src onward (v.next G cfg o client u) w' := by
  cases u with
  | speak env raw =>
    have hnext : Streams G id src onward { v with spoken := v.spoken + 1 } { w with spoken := w.spoken + 1 } :=
      { serves := h.serves
        onward := h.onward
        flight := h.flight
        known := h.known
        reached := h.reached
        spoken := congrArg (· + 1) h.spoken }
    obtain ⟨out, hnodup, hout, hstream⟩ := @Streams.handled G cfg id src onward _ _ hnext o ho v.spoken env client raw hu
    rw [h.spoken] at hstream
    refine ⟨_, hs.speak ⟨hnodup, hout⟩, ?_⟩
    simp only [Talk.next, h.spoken]
    exact hstream
  | deliver env i =>
    cases hi : v.flight[i]? with
    | none =>
      have hsame : v.next G cfg o client (.deliver env i) = v := by simp only [Talk.next, hi]
      rw [hsame]
      exact ⟨w, hs, h⟩
    | some x =>
      obtain ⟨j, p⟩ := x
      obtain ⟨hmember, hlink, hspeech⟩ := h.known _ (List.mem_of_getElem? hi)
      have hn := G.far_mem _ hmember _ hlink
      have hflight : w.flight = (j, p.sender, p.link) ::ₘ
          ↑((v.flight.eraseIdx i).map fun x => (x.1, x.2.sender, x.2.link)) := by
        obtain ⟨hlt, heq⟩ := List.getElem?_eq_some_iff.mp hi
        have hperm := (List.getElem_cons_eraseIdx_perm hlt).map fun x : ℕ × Packet => (x.1, x.2.sender, x.2.link)
        rw [← h.flight, ← Multiset.coe_eq_coe.mpr hperm, heq]
        rfl
      have hleft : Streams G id src onward
          { v with flight := v.flight.eraseIdx i, reached := (j, (G.far p.sender p.link).1) :: v.reached }
          { w with
            flight := w.flight.erase (j, p.sender, p.link)
            reached := (j, (G.far p.sender p.link).1) :: w.reached } :=
        { serves := h.serves
          onward := h.onward
          flight := by rw [hflight, Multiset.erase_cons_head]
          known := fun x hx => h.known x (List.mem_of_mem_eraseIdx hx)
          reached := congrArg _ h.reached
          spoken := h.spoken }
      obtain ⟨out, hnodup, hout, hstream⟩ :=
        @Streams.handled G cfg id src onward _ _ hleft _ hn j env (G.far p.sender p.link).2 p.raw hspeech
      have hflies : (j, p.sender, p.link) ∈ w.flight := by
        rw [hflight]
        exact Multiset.mem_cons_self _ _
      refine ⟨_, hs.pass ht ⟨hflies, hnodup, hout⟩, ?_⟩
      simp only [Talk.next, hi]
      exact hstream

/-- Over a tree, each frame reaches each server at most once. -/
theorem Streams.nodup_reached {servers : UInt64 → AppState} (h : Streams G id src onward { servers } {})
    (ht : FirstCopy.Tree G o source onward) (ho : o ∈ G.members)
    (hreach : Reach { servers } (Talk.Voice id) (Talk.next G cfg o client) v) : v.reached.Nodup := by
  obtain ⟨w, hs, hw⟩ : ∃ w, FirstCopy.Single G o onward w ∧ Streams G id src onward v w := by
    refine hreach.invariant (P := fun v => ∃ w, FirstCopy.Single G o onward w ∧ Streams G id src onward v w)
      ⟨{}, FirstCopy.single_empty, h⟩ ?_
    rintro v u ⟨w, hs, hw⟩ hu
    exact hw.next hs ht ho hu
  rw [hw.reached]
  exact hs.nodup_reached

end Talking

/-! ## One stream per server -/

/-- The call at rest: its owner links lead to the origin, each peer link that carries it is
the owner link of the far server or leads to one without the call, and each owner link
carries it at the far end. -/
structure AtRest (G : Graph) (id : Uuid) (o : UInt64) (e : Exchange) : Prop where
  leads : ∀ n ∈ G.members, id ∈ (e.servers n).inner.calls → Relation.ReflTransGen (OwnerStep G id e.servers) n o
  down : ∀ n ∈ G.members, ∀ l ∈ onwardAt G id e n, ∀ call,
    (e.servers (G.far n l).1).inner.calls[id]? = some call → call.owner = (G.far n l).2
  joined : ∀ n ∈ G.members, ∀ call, (e.servers n).inner.calls[id]? = some call → call.owner ∈ G.links n →
    (G.far n call.owner).2 ∈ onwardAt G id e (G.far n call.owner).1

section Results

variable {G : Graph} {cfg : UInt64 → Config} {id : Uuid} {src : UInt32} {servers : UInt64 → AppState} {env : Env}
  {o : UInt64} {client : ClientId} {raw : Bytes} {e : Exchange} {w : FirstCopy.State UInt64 ClientId} {bound : ℕ}

theorem Simulates.atRest (h : Simulates G id src bound e w) (hs : FirstCopy.Sound G o w)
    (ht : FirstCopy.Tree G o w.source w.onward) : AtRest G id o e where
  leads n hn hcall := by
    obtain ⟨call, hcall⟩ := FinMap.mem_iff.mp hcall
    have hsource := h.source_eq_some hn hcall
    refine Relation.ReflTransGen.mono ?_ _ _ (ht.leads n (by rw [hsource]; exact Option.some_ne_none _))
    rintro m m' ⟨k, hk, hfar⟩
    obtain ⟨hm, hlink, -⟩ := hs.up m k hk
    have hat := h.source m hm
    rw [hk, sourceAt, Option.map_eq_some_iff] at hat
    obtain ⟨call, hcall, howner⟩ := hat
    split at howner
    · obtain rfl := Option.some.inj howner
      exact ⟨call, hcall, hlink, hfar⟩
    · cases howner
  down n hn l hl call hcall := by
    rw [h.onward n hn] at hl
    have hm := G.far_mem n hn l (hs.member n l (hs.carried n l hl)).2
    have hsource := h.source_eq_some hm hcall
    rcases ht.down n l hl with hs' | hs'
    · rw [hsource, Option.some.injEq] at hs'
      split at hs'
      · exact Option.some.inj hs'
      · cases hs'
    · rw [hsource] at hs'
      cases hs'
  joined n hn call hcall howner := by
    have hsource := h.source_eq_some hn hcall
    rw [if_pos howner] at hsource
    rw [h.onward _ (G.far_mem n hn _ howner)]
    exact ht.joined n call.owner hsource

/-- Where a server that refuses a copy of a transmission is sent no other, each server accepts
the transmission at most once and the messages run out. Then the call is left on a tree, over
which each voice frame reaches each server at most once. -/
theorem one_stream_of_reach (h : Fresh G id src servers) (ht : Talker G id src servers env o client raw)
    (hreach : Reach (Exchange.sent G cfg id servers env o client raw) (Exchange.Sparing G cfg id) (Exchange.next G cfg id) e) :
    e.accepted.Nodup ∧
      e.delivered ≤ 2 * (∑ n ∈ G.members, (G.links n).length) + endsLeft G id servers ∧
      (e.flight = [] → AtRest G id o e ∧
        ∀ v, Reach { servers := e.servers } (Talk.Voice id) (Talk.next G cfg o client) v → v.reached.Nodup) := by
  rcases simulates_of_reach h ht hreach with ⟨w, hs, hw⟩ | hdropped
  · refine ⟨?_, ?_, fun hquiet => ?_⟩
    · rw [hw.accepted]
      exact hs.nodup_taken
    · have hspent := hw.spent
      have hle := hs.delivered_le
      omega
    · have hrest : w.flight = 0 := by
        rw [← hw.flight, hquiet]
        rfl
      have htree := hs.tree hrest
      refine ⟨hw.atRest hs htree, fun v hv => ?_⟩
      have hstart : Streams G id src w.onward { servers := e.servers } {} :=
        { serves := hw.serves
          onward := fun n hn l hl hcall => by
            rw [← hw.onward n hn]
            exact ⟨hl, hcall⟩
          flight := rfl
          known := fun x hx => absurd hx List.not_mem_nil
          reached := rfl
          spoken := rfl }
      exact hstart.nodup_reached htree ht.member hv
  · have hnone : ∀ n ∈ G.members, ∀ call, ¬ (e.servers n).inner.calls[id]? = some call := by
      intro n hn call hcall
      rw [hdropped.calls n hn] at hcall
      cases hcall
    refine ⟨?_, ?_, fun _ => ⟨?_, fun v hv => ?_⟩⟩
    · rw [hdropped.accepted]
      exact List.nodup_nil
    · rw [hdropped.delivered]
      exact Nat.zero_le _
    · exact
        { leads := fun n hn hcall => by
            obtain ⟨call, hcall⟩ := FinMap.mem_iff.mp hcall
            exact absurd hcall (hnone n hn call)
          down := fun n hn l ⟨_, call, hcall, _⟩ => absurd hcall (hnone n hn call)
          joined := fun n hn call hcall => absurd hcall (hnone n hn call) }
    · have hstart : Streams G id src (fun _ => ∅) { servers := e.servers } {} :=
        { serves := hdropped.serves
          onward := fun n hn l _ ⟨call, hcall, _⟩ => absurd hcall (hnone n hn call)
          flight := rfl
          known := fun x hx => absurd hx List.not_mem_nil
          reached := rfl
          spoken := rfl }
      exact hstart.nodup_reached FirstCopy.tree_empty ht.member hv

end Results

/-! ### A ring of three -/

/-- A server of the ring: group 91 is routed over both its links, and server 1 has the
talker. -/
def ringServer (n : UInt64) : AppState :=
  let s := Flooding.ringServer n
  let talker : Client := { mode := .basestation, version := .v1, versionAnnounced := true, remoteAddr := none }
  { inner :=
      { s with
        clients := if n = 1 then s.clients.insert 10 talker else s.clients
        groupClients := s.groupClients.insert 91 (FinSet.ofList (Flooding.ringLinks n)) } }

def ringSent (env : Env) : Exchange :=
  Exchange.sent Flooding.ring (fun _ => {}) 7 ringServer env 1 10 (buildGroupTx 7 1001 91 0)

def ringAfter (xs : List (Env × ℕ)) : Exchange :=
  xs.foldl (Exchange.next Flooding.ring (fun _ => {}) 7) (ringSent (.plain 0))

theorem fresh_ring : Fresh Flooding.ring 7 1001 ringServer where
  link := by
    have hclients : ∀ n ∈ Flooding.ringMembers, ((ringServer n).inner.clients.toList.all fun x =>
          x.2.mode != .peer || (Flooding.ringLinks n).contains x.1) = true ∧
        ((Flooding.ringLinks n).all fun l => (ringServer n).inner.isPeer l) = true :=
      List.all_iff_forall_prop.mp (by decide +kernel)
    intro n hn l
    obtain ⟨hpeers, hlinks⟩ := hclients n (List.mem_toFinset.mp hn)
    constructor
    · intro hpeer
      rw [Inner.isPeer, Option.any_eq_true] at hpeer
      obtain ⟨c, hc, hmode⟩ := hpeer
      have hone := List.all_eq_true.mp hpeers (l, c) (FinMap.mem_toList.mpr hc)
      rw [beq_iff_eq.mp hmode] at hone
      exact List.contains_iff_mem.mp hone
    · exact List.all_eq_true.mp hlinks l
  safe := by
    have hsafe : ∀ n ∈ Flooding.ringMembers,
        ((Flooding.ringLinks n).all fun l => (ringServer n).inner.fed.links.contains l) = true :=
      List.all_iff_forall_prop.mp (by decide +kernel)
    intro n hn l hl
    exact Std.ExtTreeMap.mem_iff_contains.mpr (List.all_eq_true.mp (hsafe n (List.mem_toFinset.mp hn)) l hl)
  legs n _ callId leg hleg := by
    have hnone : (ringServer n).legs[callId]? = none := Std.ExtTreeMap.getElem?_empty
    rw [hnone] at hleg
    cases hleg
  calls _ _ := rfl
  sdsRoutes _ _ := rfl
  recentCalls _ _ := rfl

theorem talker_ring {env : Env}
    (hread : ((copyOf 7 env (ringServer 1) 10 (buildGroupTx 7 1001 91 0)).any fun c => c.2.source == 1001) = true) :
    Talker Flooding.ring 7 1001 ringServer env 1 10 (buildGroupTx 7 1001 91 0) where
  member := by decide
  outside := by decide
  transmission := by
    obtain ⟨c, hc, hsrc⟩ := (Option.any_eq_true _ _).mp hread
    exact ⟨c, hc, beq_iff_eq.mp hsrc⟩

/-- The transmission crosses the ring, and each of the other servers prunes the other. -/
def ringRun : List (Env × ℕ) :=
  [(.plain 1, 1), (.plain 2, 0), (.plain 3, 0), (.plain 4, 0), (.plain 5, 0), (.plain 6, 0)]

theorem one_stream_in_ring :
    (ringAfter ringRun).accepted = [2, 3, 1] ∧ (ringAfter ringRun).accepted.Nodup ∧
      AtRest Flooding.ring 7 1 (ringAfter ringRun) := by
  have hrun : Reach (ringSent (.plain 0)) (Exchange.Sparing Flooding.ring (fun _ => {}) 7)
      (Exchange.next Flooding.ring (fun _ => {}) 7) (ringAfter ringRun) := by
    unfold ringAfter
    exact Reach.of_list ringRun .init (by decide +kernel)
  obtain ⟨honce, -, hrest⟩ := one_stream_of_reach fresh_ring (talker_ring (by decide +kernel)) hrun
  exact ⟨by decide +kernel, honce, (hrest (by decide +kernel)).1⟩

/-- A message arrives at a server, which has an outside of its own. -/
def Exchange.arrive (G : Graph) (cfg : UInt64 → Config) (id : Uuid) (outside : UInt64 → UInt64 → Env) (e : Exchange)
    (x : UInt64 × ℕ) : Exchange :=
  e.next G cfg id (outside ((e.flight[x.2]?).elim 0 fun p => (G.far p.sender p.link).1) x.1, x.2)

/-- Server 2 knows of an alarm of the talker, and server 3 has the talker blacklisted. -/
def refusing (n nowMs : UInt64) : Env :=
  { Env.plain nowMs with
    alarm := fun issi => n == 2 && issi == 1001
    blocked := fun issi => n == 3 && issi == 1001 }

/-- Server 3 takes the raised copy of server 2, and drops that of server 1 without a
prune. -/
def ringRefusing : Exchange :=
  [(1, 0), (2, 1), (3, 1), (4, 0), (5, 0)].foldl (Exchange.arrive Flooding.ring (fun _ => {}) 7 refusing)
    (ringSent (refusing 1 0))

/-- A server that refuses a copy after it took another keeps a second stream. -/
theorem not_one_stream :
    ¬ ∀ (G : Graph) (cfg : UInt64 → Config) (id : Uuid) (src : UInt32) (servers : UInt64 → AppState)
        (outside : UInt64 → UInt64 → Env) (o : UInt64) (client : ClientId) (raw : Bytes) (e : Exchange),
      Fresh G id src servers → Talker G id src servers (outside o 0) o client raw →
      Reach (Exchange.sent G cfg id servers (outside o 0) o client raw) (fun _ _ => True)
        (Exchange.arrive G cfg id outside) e → e.flight = [] → AtRest G id o e := by
  intro hall
  have hrun : Reach (ringSent (refusing 1 0)) (fun _ _ => True) (Exchange.arrive Flooding.ring (fun _ => {}) 7 refusing)
      ringRefusing := .of_list _ .init (by decide +kernel)
  have hrest := hall _ _ _ _ _ refusing 1 _ _ _ fresh_ring (talker_ring (by decide +kernel)) hrun (by decide +kernel)
  have hcall : (ringRefusing.servers 1).inner.calls[(7 : Uuid)]?.any (fun call => call.peers.contains 3) = true ∧
      (ringRefusing.servers 3).inner.calls[(7 : Uuid)]?.any (fun call => call.owner != 1) = true := by
    decide +kernel
  obtain ⟨call, hcall₁, hpeer⟩ := (Option.any_eq_true _ _).mp hcall.1
  obtain ⟨call', hcall₃, hother⟩ := (Option.any_eq_true _ _).mp hcall.2
  have howner := hrest.down 1 (by decide) 3 ⟨by decide, call, hcall₁, Std.ExtTreeSet.contains_iff_mem.mp hpeer⟩ call' hcall₃
  rw [howner] at hother
  exact absurd hother (by decide)

end BrewServer.GroupTree
