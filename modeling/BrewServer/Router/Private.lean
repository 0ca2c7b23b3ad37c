import BrewServer.Router.Group

/-!
# Private calls
-/

namespace BrewServer.Router

open Protocol Fedroute

/-- The service byte that asks for ambience listening. -/
def ambienceListeningService : UInt8 := 9

/-- Refuses a setup that cannot be routed. -/
def rejectSetup (s : Inner) (source : ClientId) (id : Uuid) : Sends :=
  s.send source (buildCallCause callSetupReject id causeCalledPartyNotReachable)

/-- What a setup request asks for. -/
structure SetupRequest where
  source : UInt32
  destination : UInt32
  service : UInt8
  priority : UInt8

def setupRequest (payload : CallPayload) : Option SetupRequest :=
  match payload with
  | .circularCall c =>
    some { source := c.source, destination := c.destination, service := c.service, priority := c.priority }
  | other => (rawPeerPair other).map fun (source, destination) => { source, destination, service := 0, priority := 0 }

/-- A virtual client of the SIP bridge. -/
def virtualClientEntry : Client :=
  { mode := .terminal, version := .v1, versionAnnounced := false, remoteAddr := none }

/-- A call placed to SIP: a virtual client joins it as the far party. -/
def placeOutbound (env : Env) (s : Inner) (client : ClientId) (id : Uuid) (callId : String)
    (virtualClient : ClientId) : Effect :=
  let call : ActiveCall :=
    { kind := .«private», owner := client, sourceIssi := 0, destination := 0, priority := 0,
      peers := FinSet.ofList [virtualClient], startedAt := env.now, lastActivityMs := env.nowMs }
  let s := { s with
    clients := s.clients.insert virtualClient virtualClientEntry
    calls := s.calls.insert id call }
  { inner := s, sends := s.send client (buildCallControlEmpty callSetupAccept id),
    placed := some (callId, { virtualClient, brewCallId := id, group := none }) }

/-- A setup whose destination is no registered subscriber is offered to SIP
before it is refused. -/
def offerToSip (env : Env) (s : Inner) (source : ClientId) (id : Uuid) : Effect :=
  match env.sip with
  | .noRoute => { inner := s, sends := rejectSetup s source id }
  | .noRtpPort => { inner := s }
  | .placed callId virtualClient => placeOutbound env s source id callId virtualClient

/-- The setup goes to the connection its destination is registered on. -/
def connectPrivate (env : Env) (s : Inner) (source : ClientId) (id : Uuid) (req : SetupRequest) (raw : Bytes)
    (target : ClientId) : Inner × Sends :=
  let call : ActiveCall :=
    { kind := .«private», owner := source, sourceIssi := req.source, destination := req.destination,
      priority := req.priority, peers := FinSet.ofList [target], startedAt := env.now,
      lastActivityMs := env.nowMs }
  ({ s with calls := s.calls.insert id call },
    match s.clients[target]? with
    | some c => [(target, adaptToVersion raw c.forwardVersion)]
    | none => [])

/-- Whether the blacklist holds a setup back. -/
def barred (env : Env) (req : SetupRequest) : Bool :=
  (env.blocked req.source || (env.blocked req.destination && req.service != ambienceListeningService)) &&
    !isEmergencyCall env req.source req.priority

def handlePrivateSetup (env : Env) (s : Inner) (source : ClientId) (id : Uuid) (payload : CallPayload)
    (raw : Bytes) : Effect :=
  match setupRequest payload with
  | none => { inner := s }
  | some req =>
    if s.isPeer source && isDuplicate s id req.source source env.now then { inner := s }
    else
      let noted := noteCall s id req.source source env.now
      if barred env req then { inner := noted, sends := rejectSetup noted source id }
      else
        match s.subscribers[req.destination]? with
        | none => offerToSip env noted source id
        | some sub =>
          if sub.clientId = source then
            -- A looped copy of a peer's setup is dropped, a stale entry refused.
            { inner := noted, sends := if s.isPeer source then [] else rejectSetup noted source id }
          else
            let (connected, sends) := connectPrivate env noted source id req raw sub.clientId
            { inner := connected, sends }

/-- Accept, reject, alert and the like: a reject ends the call. -/
def routePrivateControl (env : Env) (s : Inner) (source : ClientId) (id : Uuid) (raw : Bytes) : Effect :=
  if raw[1]? = some callSetupReject then endCall env s source id raw
  else
    match s.calls[id]? with
    | none => { inner := s }
    | some call =>
      if call.kind ≠ .«private» then { inner := s }
      else { inner := touch env s id call, sends := s.sendMany (otherParties call source) raw }

end BrewServer.Router
