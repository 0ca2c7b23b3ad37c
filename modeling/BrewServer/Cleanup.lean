import BrewServer.Fedroute.Handle

/-!
# A connection that closes
-/

namespace BrewServer

open Protocol Fedroute

/-- The connection leaves the tables that are keyed by connection. -/
def detach (s : Inner) (id : ClientId) : Inner :=
  { s with
    clients := s.clients.erase id
    consoles := s.consoles.erase id
    fed := { s.fed with
      links := s.fed.links.erase id
      btsLinks := s.fed.btsLinks.erase id
      msLinks := s.fed.msLinks.erase id
      emLinks := s.fed.emLinks.erase id } }

/-- Every ISSI routed over the connection, or offered by it. -/
def affectedIssis (s : Inner) (id : ClientId) : FinSet UInt32 :=
  let routed := (s.subscribers.toList.filter fun e => e.2.clientId = id).map (·.1)
  let offered :=
    if id ∈ s.fed.links then (s.fed.ribIn.toList.filter fun e => e.2.contains id).map (·.1) else []
  FinSet.ofList (routed ++ offered)

/-- Drops what the connection contributed to one ISSI. -/
def forget (id : ClientId) (s : Inner) (e : UInt32 × Option Subscriber) : Inner :=
  let s := (withdrawOffer s e.1 id).1
  if e.2.any (·.clientId = id) then { s with subscribers := s.subscribers.erase e.1 } else s

/-- Selects one ISSI anew and tells the peer links. -/
def reselect (r : Inner × Sends) (e : UInt32 × Option Subscriber) : Inner × Sends :=
  let s := (reroute r.1 e.1).1
  (s, r.2 ++ (publish s e.1 e.2).1)

/-- The connection's registrations go in bulk, so that each ISSI is selected
anew against the final state. -/
def dropRegistrations (s : Inner) (id : ClientId) : Inner × Sends :=
  let previous := (affectedIssis s id).toList.map fun issi => (issi, s.subscribers[issi]?)
  let forgotten := previous.foldl (forget id) (detach s id)
  let unaffiliated := { forgotten with groupClients := dropMember forgotten.groupClients id }
  previous.foldl reselect (unaffiliated, [])

/-- The end of one call the connection took part in: a group call ends only with
its talker, a listener is dropped from it. -/
def leaveCall (id : ClientId) (r : Effect) (e : Uuid × ActiveCall) : Effect :=
  let (uuid, call) := e
  let s := r.inner
  if call.kind = .group ∧ call.owner ≠ id then
    { r with inner := { s with calls := s.calls.insert uuid { call with peers := call.peers.erase id } } }
  else
    let removed := { s with
      calls := s.calls.erase uuid
      groupFloor :=
        if call.kind = .group ∧ s.groupFloor[call.destination]? = some uuid then s.groupFloor.erase call.destination
        else s.groupFloor }
    let endState := if call.kind = .group then callGroupIdle else callRelease
    let msg := buildCallCause endState uuid causeSwmiRequestedDisconnection
    let recipients := (if call.kind = .«private» then call.peers.insert call.owner else call.peers).erase id
    { r with inner := removed, sends := r.sends ++ removed.sendMany recipients msg, ended := r.ended ++ [uuid] }

/-- Whether the connection takes part in a call. -/
def involves (id : ClientId) (call : ActiveCall) : Bool := call.owner == id || call.peers.contains id

def leaveCalls (s : Inner) (id : ClientId) : Effect :=
  (s.calls.toList.filter fun e => involves id e.2).foldl (leaveCall id) { inner := s }

/-- What leaving one call keeps, leaving them all keeps. -/
theorem leaveCalls_induct {P : Effect → Prop} {s : Inner} {id : ClientId} (hstart : P { inner := s })
    (hstep : ∀ r, P r → ∀ e ∈ s.calls.toList, involves id e.2 = true → P (leaveCall id r e)) : P (leaveCalls s id) :=
  List.foldlRecOn _ _ hstart fun r hr e he => hstep r hr e (List.mem_filter.mp he).1 (List.mem_filter.mp he).2

def cleanupClient (s : Inner) (id : ClientId) : Effect :=
  let (dropped, updates) := dropRegistrations s id
  let left := leaveCalls dropped id
  let inner := { left.inner with
    sdsRoutes := left.inner.sdsRoutes.filter fun _ route => route.sourceClient != id && !route.targets.contains id
    recentCalls := left.inner.recentCalls.filter fun _ e => e.1 != id }
  { inner, sends := updates ++ left.sends, ended := left.ended }

/-- A new connection; a peer link starts from the full table, queued at once. -/
def attachClient (s : Inner) (id : ClientId) (client : Client) (neighbour : Option UInt64) : Inner × Sends :=
  let connected := { s with clients := s.clients.insert id client }
  let (linked, hello) := match neighbour with
    | some nbrId =>
      ({ connected with fed := { connected.fed with links := connected.fed.links.insert id nbrId } },
        [(id, buildBtsHello)])
    | none => (connected, [])
  let sync := if client.mode = .peer then (syncMessages linked id).map fun m => (id, m) else []
  (linked, hello ++ sync)

end BrewServer
