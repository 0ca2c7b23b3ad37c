import BrewServer.Fedroute.Adverts

/-!
# Messages received over a loop-safe link

Also the de-duplication of calls and SDS that reach a server more than once.
-/

namespace BrewServer.Fedroute

open Protocol

/-- Drops `link`'s offer for `issi`; whether it had one. -/
def withdrawOffer (s : Inner) (issi : UInt32) (link : ClientId) : Inner × Bool :=
  match s.fed.ribIn[issi]? with
  | none => (s, false)
  | some offers =>
    let rest := offers.erase link
    let ribIn := if rest.isEmpty then s.fed.ribIn.erase issi else s.fed.ribIn.insert issi rest
    ({ s with fed := { s.fed with ribIn } }, offers.contains link)

/-- Stores `link`'s offer for `issi`. -/
def storeOffer (s : Inner) (issi : UInt32) (link : ClientId) (a : Advert) : Inner :=
  let fed := s.fed.observe a.reg
  let offers := ((fed.ribIn[issi]?).getD ∅).insert link a
  { s with fed := { fed with ribIn := fed.ribIn.insert issi offers } }

/-- Whether an advert is registered too far ahead of the clock. -/
def tooNew (nowMs : UInt64) (a : Advert) : Bool := satAdd nowMs maxFutureMs < a.reg

/-- What handling a message gives: the new state, what is queued, and the ISSI
that registered, if one did. -/
abbrev Handled := Inner × Sends × Option UInt32

/-- The entry of `issi` went from `old` to what `s` holds. -/
def published (s : Inner) (issi : UInt32) (old : Option Subscriber) : Handled :=
  let (sends, registered) := publish s issi old
  (s, sends, if registered then some issi else none)

/-- Takes in a route that `source` offers: a path through ourselves is a loop, so
that link has no usable route to the ISSI. -/
def takeOffer (s : Inner) (nowMs : UInt64) (source : ClientId) (issi : UInt32) (a : Advert) : Inner :=
  if tooNew nowMs a || a.path.contains s.fed.selfId then (withdrawOffer s issi source).1
  else storeOffer s issi source a

/-- Selects `issi` anew; a change from `old` is published. -/
def settleRoute (s : Inner) (issi : UInt32) (old : Option Subscriber) : Handled :=
  let (s, changed) := reroute s issi
  if changed then published s issi old else (s, [], none)

/-- `FED_ROUTE`. -/
def receiveRoute (s : Inner) (nowMs : UInt64) (source : ClientId) (issi : UInt32) (a : Advert) : Handled :=
  settleRoute (takeOffer s nowMs source issi a) issi (s.subscribers[issi]?)

/-- `FED_WITHDRAW`. -/
def receiveWithdraw (s : Inner) (source : ClientId) (issi : UInt32) : Handled :=
  let (withdrawn, had) := withdrawOffer s issi source
  if had then settleRoute withdrawn issi (s.subscribers[issi]?) else (withdrawn, [], none)

/-- `FED_PRUNE`: only for the turn it was meant for. -/
def receivePrune (s : Inner) (source : ClientId) (id : Uuid) (sourceIssi : UInt32) : Inner :=
  match s.calls[id]? with
  | none => s
  | some call =>
    if call.kind = .group ∧ call.sourceIssi = sourceIssi then
      { s with calls := s.calls.insert id { call with peers := call.peers.erase source } }
    else s

/-- `FED_BTS_HELLO`: each announced kind is synced at once. -/
def receiveHello (s : Inner) (nowMs : UInt64) (source : ClientId) (nbrId : UInt64) (version : UInt8) :
    Inner × Sends :=
  let btsLinks := s.fed.btsLinks.insert source
  let msLinks := if 2 ≤ version then s.fed.msLinks.insert source else s.fed.msLinks
  let emLinks := if 3 ≤ version then s.fed.emLinks.insert source else s.fed.emLinks
  let msgs := btsSync s nowMs nbrId ++ (if 2 ≤ version then msSync s nbrId else []) ++
    (if 3 ≤ version then emSync s nowMs nbrId else [])
  ({ s with fed := { s.fed with btsLinks, msLinks, emLinks } }, msgs.flatMap fun m => s.send source m)

def handleMessage (s : Inner) (nowMs : UInt64) (source : ClientId) (nbrId : UInt64) (msg : FedMessage) : Handled :=
  let unregistered (r : Inner × Sends) : Handled := (r.1, r.2, none)
  match msg with
  | .route issi a => receiveRoute s nowMs source issi a
  | .withdraw issi => receiveWithdraw s source issi
  | .prune id sourceIssi => unregistered (receivePrune s source id sourceIssi, [])
  | .btsHello version => unregistered (receiveHello s nowMs source nbrId version)
  | .emergency a => unregistered (acceptEm s nowMs source a)
  | .msPos a => unregistered (acceptMs s source a)
  | .bts a => unregistered (acceptBts s nowMs source a)
  | .unknown _ => (s, [], none)

/-- Handles a federation message from `source`. -/
def handle (s : Inner) (nowMs : UInt64) (source : ClientId) (raw : Bytes) : Handled :=
  match s.fed.links[source]? with
  | none => (s, [], none)
  | some nbrId =>
    match parse raw nbrId with
    | some (.ok msg) => handleMessage s nowMs source nbrId msg
    | _ => (s, [], none)

/-- How long an accepted call or SDS is remembered, in nanoseconds. -/
def callDedupWindow : Nat := 5 * 10 ^ 9

/-- Whether `id` from talker `src`, arriving over peer link `link`, is a copy of
a call or SDS already accepted over another link. -/
def isDuplicate (s : Inner) (id : Uuid) (src : UInt32) (link : ClientId) (now : Nat) : Bool :=
  let live := ((s.calls[id]?).map fun c => (c.sourceIssi, c.owner)).or
    ((s.sdsRoutes[id]?).map fun r => (r.sourceIssi, r.sourceClient))
  (live.any fun (talker, owner) => talker == src && owner != link) ||
    (s.recentCalls[(id, src)]?).any fun (first, seen) => first != link && decide (now - seen < callDedupWindow)

/-- Remembers that (`id`, `src`) was accepted from `link`. -/
def noteCall (s : Inner) (id : Uuid) (src : UInt32) (link : ClientId) (now : Nat) : Inner :=
  { s with recentCalls := s.recentCalls.insert (id, src) (link, now) }

end BrewServer.Fedroute
