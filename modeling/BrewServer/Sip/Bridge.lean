import BrewServer.Router.Private

/-!
# Calls bridged to SIP

A bridged call has a virtual client that stands in for the SIP side in the
routing tables, and a leg that remembers it. The two handlers of an INVITE are each
one step here: the lookup, the write of the call and the note of the leg, which the
code does under a lock of its own each.
-/

namespace BrewServer

/-- The state of a server: the routing tables and the legs of the SIP bridge, by
Call-ID. -/
structure AppState where
  inner : Inner
  legs : FinMap String BridgedLeg := ∅
  deriving DecidableEq

namespace Sip

open Protocol Router

/-- Takes a leg's virtual client and call out of the tables, and tells the
call's remaining parties. -/
def removeLeg (s : Inner) (leg : BridgedLeg) : Inner × Sends :=
  let call := s.calls[leg.brewCallId]?
  let cleared := { s with
    clients := s.clients.erase leg.virtualClient
    calls := s.calls.erase leg.brewCallId
    groupClients := match leg.group with
      | some g => s.groupClients.modify g (·.erase leg.virtualClient)
      | none => s.groupClients
    groupFloor := match leg.group with
      | some g => if s.groupFloor[g]? = some leg.brewCallId then s.groupFloor.erase g else s.groupFloor
      | none => s.groupFloor }
  match call with
  | none => (cleared, [])
  | some call =>
    let targets := (call.peers.insert call.owner).erase leg.virtualClient
    let releaseState := if call.kind = .group then callGroupIdle else callRelease
    (cleared, cleared.sendMany targets (buildCallCause releaseState leg.brewCallId 0))

def teardown (a : AppState) (callId : String) : AppState × Sends :=
  match a.legs[callId]? with
  | none => (a, [])
  | some leg =>
    let (inner, sends) := removeLeg a.inner leg
    ({ inner, legs := a.legs.erase callId }, sends)

/-- The Brew side ended a call: the leg placed on it goes too. -/
def teardownByBrewCall (a : AppState) (brewCallId : Uuid) : AppState × Sends :=
  match a.legs.toList.find? fun e => e.2.brewCallId = brewCallId with
  | none => (a, [])
  | some (callId, _) => teardown a callId

/-- The write of an INVITE to an ISSI: the virtual client joins with a call to the
connection the ISSI was found on. -/
def ringIssi (env : Env) (s : Inner) (issi : UInt32) (target virtualClient : ClientId) (brewCallId : Uuid) : Inner :=
  let call : ActiveCall :=
    { kind := .«private», owner := virtualClient, sourceIssi := 0, destination := issi, priority := 0,
      peers := FinSet.ofList [target], startedAt := env.now, lastActivityMs := env.nowMs }
  { s with
    clients := s.clients.insert virtualClient virtualClientEntry
    calls := s.calls.insert brewCallId call }

/-- The write of an INVITE to a group: the virtual client joins it and takes its
floor. -/
def seizeFloor (env : Env) (s : Inner) (gssi : UInt32) (virtualClient : ClientId) (brewCallId : Uuid) : Inner :=
  let call : ActiveCall :=
    { kind := .group, owner := virtualClient, sourceIssi := 0, destination := gssi, priority := 0,
      peers := (s.members gssi).erase virtualClient, startedAt := env.now, lastActivityMs := env.nowMs }
  { s with
    clients := s.clients.insert virtualClient virtualClientEntry
    groupClients := join s.groupClients virtualClient gssi
    calls := s.calls.insert brewCallId call
    groupFloor := s.groupFloor.insert gssi brewCallId }

/-- An accepted INVITE to an ISSI, its locks taken one after the other as one step. -/
def sipToBrewPrivate (env : Env) (a : AppState) (callId : String) (issi : UInt32)
    (virtualClient : ClientId) (brewCallId : Uuid) (rtpPort : Bool) : AppState × Sends :=
  if env.blocked issi then (a, [])
  else
    match a.inner.subscribers[issi]? with
    | none => (a, [])
    | some sub =>
      if !rtpPort then (a, [])
      else
        let inner := ringIssi env a.inner issi sub.clientId virtualClient brewCallId
        ({ inner, legs := a.legs.insert callId { virtualClient, brewCallId, group := none } },
          inner.send sub.clientId (buildCircularCallSetup brewCallId 0 issi 0))

/-- An accepted INVITE to a group, likewise. -/
def sipToBrewGroup (cfg : Config) (env : Env) (a : AppState) (callId : String) (gssi : UInt32)
    (virtualClient : ClientId) (brewCallId : Uuid) (rtpPort : Bool) : AppState × Sends :=
  if (a.inner.members gssi).isEmpty && !cfg.fallbackBroadcastWhenNoAffiliations then (a, [])
  else if !rtpPort then (a, [])
  else
    let inner := seizeFloor env a.inner gssi virtualClient brewCallId
    ({ inner, legs := a.legs.insert callId { virtualClient, brewCallId, group := some gssi } },
      inner.sendMany ((a.inner.members gssi).erase virtualClient) (buildGroupTx brewCallId 0 gssi 0))

/-- What a handler left to the bridge: the leg of a placed call, and the calls
that ended. -/
def settle (a : AppState) (e : Effect) : AppState × Sends :=
  let legs := match e.placed with
    | some (callId, leg) => a.legs.insert callId leg
    | none => a.legs
  e.ended.foldl
    (fun (a, sends) id =>
      let (a, more) := teardownByBrewCall a id
      (a, sends ++ more))
    ({ inner := e.inner, legs }, e.sends)

end Sip

end BrewServer
