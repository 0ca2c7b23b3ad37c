import BrewServer.Fedroute.Wire
import BrewServer.Lib.InvertedIndex

/-!
# Route selection and the effective table

`select` picks one route per ISSI from the local registration and the
neighbours' offers; only that choice is kept in `subscribers` and in the group
membership index, and only a change of it is published to the peer links.
-/

namespace BrewServer

def u64Max : UInt64 := 0xffffffffffffffff

/-- Addition that stops at the largest value. -/
def satAdd (a b : UInt64) : UInt64 := if a.toNat + b.toNat < 2 ^ 64 then a + b else u64Max

/-- Subtraction that stops at zero. -/
def satSub (a b : UInt64) : UInt64 := if b ≤ a then a - b else 0

def maxU64 (a b : UInt64) : UInt64 := if a < b then b else a

theorem toNat_satAdd (a b : UInt64) : (satAdd a b).toNat = min (a.toNat + b.toNat) (2 ^ 64 - 1) := by
  unfold satAdd
  split
  · next h =>
    rw [UInt64.toNat_add, Nat.mod_eq_of_lt h]
    omega
  · next h =>
    have : u64Max.toNat = 2 ^ 64 - 1 := rfl
    omega

theorem toNat_maxU64 (a b : UInt64) : (maxU64 a b).toNat = max a.toNat b.toNat := by
  unfold maxU64
  split
  · next h => have := UInt64.lt_iff_toNat_lt.mp h; omega
  · next h => have := mt UInt64.lt_iff_toNat_lt.mpr h; omega

/-- The number of a server's next advert of something it has advertised as `held`. -/
def nextSeq (held : Option UInt64) (nowMs : UInt64) : UInt64 := maxU64 nowMs (satAdd (held.getD 0) 1)

namespace FedState

/-- Registration clock for a local (re)registration. -/
def tick (f : FedState) (nowMs : UInt64) : FedState × UInt64 :=
  let clock := maxU64 (satAdd f.clock 1) nowMs
  ({ f with clock }, clock)

/-- Takes an accepted remote registration clock into account. -/
def observe (f : FedState) (reg : UInt64) : FedState := { f with clock := maxU64 f.clock reg }

end FedState

namespace Fedroute

open Protocol

/-- Outcome of `select` for one ISSI. -/
inductive Choice
  | «local»
  | remote (link : ClientId)
  | unreachable
  deriving DecidableEq

/-- How recent a registration is: its clock, then its server. -/
def rank (r : UInt64 × UInt64) : ℕ ×ₗ ℕ := toLex (r.1.toNat, r.2.toNat)

/-- Clock and origin of an offer. -/
def offerKey (a : Advert) : Option (UInt64 × UInt64) := a.path.getLast?.map fun origin => (a.reg, origin)

/-- How near an offer is: path length, then neighbour, then link. -/
def nearness (links : FinMap ClientId UInt64) (o : ClientId × Advert) : ℕ ×ₗ ℕ ×ₗ ℕ :=
  toLex (o.2.path.length, toLex (((links[o.1]?).getD u64Max).toNat, o.1.toNat))

/-- Picks the effective route: the origin with the newest registration, and
among the offers from that origin the shortest path. -/
def select (selfId : UInt64) (own : Option UInt64) (links : FinMap ClientId UInt64)
    (cands : Option (FinMap ClientId Advert)) : Choice :=
  let offers := (cands.map (·.toList)).getD []
  let newestRemote := (offers.filterMap fun o => offerKey o.2).argmax rank
  match newestRemote.filter fun key => own.all fun own => decide (rank (own, selfId) < rank key) with
  | some (_, origin) =>
    match (offers.filter fun o => decide (o.2.path.getLast? = some origin)).argmin (nearness links) with
    | some o => .remote o.1
    | none => .unreachable
  | none => if own.isSome then .local else .unreachable

/-- Whether two effective entries route the same way. -/
def same : Option Subscriber → Option Subscriber → Bool
  | none, none => true
  | some a, some b => decide (a.clientId = b.clientId ∧ a.groups = b.groups ∧ a.route = b.route)
  | _, _ => false

/-- Groups in ascending order. -/
def sorted (groups : FinSet UInt32) : List UInt32 := groups.toList

/-- Replaces the effective route of `issi`, `none` for unreachable, and keeps
the group members in step. -/
def setEffective (s : Inner) (issi : UInt32) (new : Option Subscriber) : Inner :=
  let old := s.subscribers[issi]?
  let subscribers := match new with
    | some n => s.subscribers.insert issi n
    | none => s.subscribers.erase issi
  let left := old.elim s.groupClients (unindex Subscriber.clientId Subscriber.groups subscribers s.groupClients)
  let groupClients := new.elim left (index Subscriber.clientId Subscriber.groups left)
  { s with subscribers, groupClients }

/-- The entry an offer gives. -/
def subscriberOf (link : ClientId) (a : Advert) : Subscriber :=
  { clientId := link, groups := FinSet.ofList a.groups, mode := .peer, route := { reg := a.reg, path := a.path } }

/-- The local registration of `issi`, if the effective entry is one. -/
def localEntry (s : Inner) (issi : UInt32) : Option Subscriber :=
  (s.subscribers[issi]?).filter fun sub => !s.fed.links.contains sub.clientId

/-- The entry `select` gives `issi`. -/
def chosen (s : Inner) (issi : UInt32) : Option Subscriber :=
  let own := localEntry s issi
  let cands := s.fed.ribIn[issi]?
  match select s.fed.selfId (own.map (·.route.reg)) s.fed.links cands with
  | .local => own
  | .remote link => (cands.bind (·[link]?)).map (subscriberOf link)
  | .unreachable => none

/-- Re-runs `select` for `issi` and applies the result; whether the effective
route changed. -/
def reroute (s : Inner) (issi : UInt32) : Inner × Bool :=
  let new := chosen s issi
  if same (s.subscribers[issi]?) new then (s, false) else (setEffective s issi new, true)

/-- What a negotiated link to `nbrId` is told about `issi`: the route with this
server in front, or a withdrawal. -/
def fedUpdate (selfId : UInt64) (nbrLink : ClientId) (nbrId : UInt64) (issi : UInt32)
    (eff : Option Subscriber) : Bytes :=
  match eff with
  | some e =>
    if e.clientId ≠ nbrLink ∧ nbrId ∉ e.route.path ∧ e.route.path.length < maxPath then
      buildRoute issi e.route.reg (selfId :: e.route.path) (sorted e.groups)
    else buildWithdraw issi
  | none => buildWithdraw issi

/-- The SUB messages a legacy peer link gets when the effective entry of `issi`
goes from `old` to `new`. -/
def legacyUpdates (issi : UInt32) (old new : Option Subscriber) (peer : ClientId) : List Bytes :=
  let before := old.filter (·.clientId ≠ peer)
  let after := new.filter (·.clientId ≠ peer)
  let sub (t : UInt8) (groups : List UInt32) := buildSubscriberMessage t issi groups
  let ifSome (t : UInt8) (groups : FinSet UInt32) := if groups.isEmpty then [] else [sub t (sorted groups)]
  match before, after with
  | none, none => []
  | some _, none => if new.isNone then [sub subDeregister []] else []
  | none, some n => sub subRegister [] :: ifSome subAffiliate n.groups
  | some o, some n =>
    let added := n.groups.filter fun g => !o.groups.contains g
    let removed := o.groups.filter fun g => !n.groups.contains g
    (if o.route.reg ≠ n.route.reg then sub subRegister [] :: ifSome subAffiliate n.groups
     else ifSome subAffiliate added) ++ ifSome subDeaffiliate removed

/-- What one connection is sent when the entry of `issi` goes from `old` to
what the table holds now. -/
def linkUpdates (s : Inner) (issi : UInt32) (old : Option Subscriber) (link : ClientId) (client : Client) :
    List Bytes :=
  if client.mode ≠ .peer then []
  else
    match s.fed.links[link]? with
    | some nbrId => [fedUpdate s.fed.selfId link nbrId issi (s.subscribers[issi]?)]
    | none => legacyUpdates issi old (s.subscribers[issi]?) link

/-- Queues the updates for a change of the entry of `issi` from `old`, and says
whether a registration appeared. -/
def publish (s : Inner) (issi : UInt32) (old : Option Subscriber) : Sends × Bool :=
  let new := s.subscribers[issi]?
  if same old new then ([], false)
  else
    (s.clients.toList.flatMap fun e => (linkUpdates s issi old e.1 e.2).map fun msg => (e.1, msg),
      new.any fun n => old.all fun o => o.route.reg != n.route.reg)

/-- The full table a newly attached peer link starts from. -/
def syncMessages (s : Inner) (link : ClientId) : List Bytes :=
  match s.fed.links[link]? with
  | some nbrId =>
    (s.subscribers.keys.map fun issi => fedUpdate s.fed.selfId link nbrId issi (s.subscribers[issi]?)).filter
      fun msg => msg[1]? = some fedRoute
  | none => s.subscribers.keys.flatMap fun issi => legacyUpdates issi none (s.subscribers[issi]?) link

end Fedroute

end BrewServer
