import BrewServer.Router.Group

/-!
# Registrations and affiliations

Whatever registers on a connection that is not loop-safe is a local
registration, stamped with this server's registration clock.
-/

namespace BrewServer.Router

open Protocol Fedroute

/-- The entry a message of `source` about `issi` leaves, with the clock ticked
if it registers anew; `none` if the message is ignored. -/
def subscriberEntry (s : Inner) (nowMs : UInt64) (source : ClientId) (msg : SubscriberMessage) :
    Option (Inner × Option Subscriber) :=
  let old := s.subscribers[msg.issi]?
  let mode := ((s.clients[source]?).map (·.mode)).getD .basestation
  let (ticked, reg) := s.fed.tick nowMs
  let registered (groups : FinSet UInt32) : Inner × Subscriber :=
    ({ s with fed := ticked }, { clientId := source, groups, mode, route := { reg, path := [] } })
  if msg.msgType = subRegister ∨ msg.msgType = subReregister then
    let (s, sub) := registered ((old.map (·.groups)).getD ∅)
    some (s, some sub)
  else if msg.msgType = subDeregister then
    match old with
    | some o => if o.clientId = source then some (s, none) else none
    | none => none
  else if msg.msgType = subAffiliate then
    match old with
    | some o =>
      if o.clientId ≠ source then none
      else some (s, some { o with groups := msg.groups.foldl (·.insert ·) o.groups })
    | none =>
      let (s, sub) := registered ∅
      some (s, some { sub with groups := msg.groups.foldl (·.insert ·) sub.groups })
  else if msg.msgType = subDeaffiliate then
    match old with
    | some o =>
      if o.clientId = source then some (s, some { o with groups := msg.groups.foldl (·.erase ·) o.groups })
      else none
    | none => none
  else none

/-- The groups a message of `source` may have brought its connection into. -/
def joinedGroups (s : Inner) (source : ClientId) (msg : SubscriberMessage) : FinSet UInt32 :=
  if msg.msgType = subRegister ∨ msg.msgType = subReregister ∨ msg.msgType = subAffiliate then
    (((s.subscribers[msg.issi]?).filter (·.clientId = source)).map (·.groups)).getD ∅
  else ∅

/-- The entry of `issi` becomes `new`; one that went may still be reachable
elsewhere, if a loop-safe peer offers it. -/
def applyEntry (s : Inner) (issi : UInt32) (new : Option Subscriber) : Inner :=
  if new.isNone then (reroute (setEffective s issi new) issi).1 else setEffective s issi new

def handleSubscriber (s : Inner) (nowMs : UInt64) (source : ClientId) (msg : SubscriberMessage) : Handled :=
  if source ∈ s.fed.links then (s, [], none)
  else
    match subscriberEntry s nowMs source msg with
    | none => (s, [], none)
    | some (ticked, new) =>
      let old := s.subscribers[msg.issi]?
      let (settled, sends, registered) := published (applyEntry ticked msg.issi new) msg.issi old
      let (joined, headers) := lateEntry settled source (joinedGroups settled source msg)
      (joined, sends ++ headers, registered)

end BrewServer.Router
