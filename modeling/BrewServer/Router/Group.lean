import BrewServer.Fedroute.Handle

/-!
# Group calls

Floor arbitration and the installation of a call, its frames and its end, late
entry into a running call, and the alarm raised during one.
-/

namespace BrewServer.Router

open Protocol Fedroute

/-- Offset of the priority byte in a `CALL_GROUP_TX`. -/
def groupTxPriorityAt : Nat := 2 + 16 + 4 + 4

/-- Call priority of an emergency call. -/
def emergencyPriority : UInt8 := 15

/-- Whether a call is an emergency call: by its priority, or by an alarm of its
talker. -/
def isEmergencyCall (env : Env) (sourceIssi : UInt32) (priority : UInt8) : Bool :=
  emergencyPriority ≤ priority || env.alarm sourceIssi

/-- A `CALL_GROUP_TX` with its priority raised to the emergency level. -/
def withEmergencyPriority (raw : Bytes) : Bytes := raw.set groupTxPriorityAt emergencyPriority

/-- The connections of other servers. -/
def peerLinks (s : Inner) : FinSet ClientId :=
  FinSet.ofList ((s.clients.toList.filter fun e => e.2.mode = .peer).map (·.1))

/-- The other live call that holds the floor of a transmission's group. -/
def floorHolder (cfg : Config) (s : Inner) (id : Uuid) (gt : GroupTransmission) : Option (Uuid × ActiveCall) :=
  if cfg.allowMultipleCallsPerGroup then none
  else
    match s.groupFloor[gt.destination]? with
    | none => none
    | some existingId => if existingId = id then none else (s.calls[existingId]?).map fun c => (existingId, c)

/-- Whether a transmission takes the floor from a live call. -/
def wins (cfg : Config) (gt : GroupTransmission) (existing : ActiveCall) : Bool :=
  if cfg.higherPriorityNumberWins then existing.priority < gt.priority else gt.priority < existing.priority

/-- Every connection the transmission goes to. -/
def groupTargets (cfg : Config) (s : Inner) (source : ClientId) (id : Uuid) (gt : GroupTransmission)
    (emergency : Bool) : FinSet ClientId :=
  let everyone := FinMap.keySet s.clients
  let affiliated := if cfg.routeWithoutAffiliations then everyone else s.members gt.destination
  let reached :=
    if affiliated.isEmpty && !cfg.routeWithoutAffiliations && cfg.fallbackBroadcastWhenNoAffiliations then everyone
    else affiliated
  -- A new over of the same call keeps the peer links that already carry it.
  let kept :=
    match s.calls[id]? with
    | some existing =>
      if existing.owner = source ∧ existing.sourceIssi = gt.source then
        reached ∪ existing.peers.filter fun p => s.isPeer p
      else reached
    | none => reached
  let pushed := if emergency then kept ∪ s.consoles ∪ peerLinks s else kept
  pushed.erase source

/-- Installs the call of an accepted transmission and forwards it. -/
def installGroupTx (cfg : Config) (env : Env) (s : Inner) (source : ClientId) (id : Uuid)
    (gt : GroupTransmission) (raw : Bytes) : Inner × Sends :=
  let emergency := isEmergencyCall env gt.source gt.priority
  let targets := groupTargets cfg s source id gt emergency
  let call : ActiveCall :=
    { kind := .group, owner := source, sourceIssi := gt.source, destination := gt.destination,
      priority := if emergency then max gt.priority emergencyPriority else gt.priority,
      peers := targets, startedAt := env.now, lastActivityMs := env.nowMs }
  let calls := s.calls.insert id call
  let installed := noteCall
    { s with
      groupFloor := s.groupFloor.insert gt.destination id
      calls
      groupTxRaw := (s.groupTxRaw.filter fun callId _ => calls.contains callId).insert id raw }
    id gt.source source env.now
  let raised := if emergency && gt.priority < emergencyPriority then some (withEmergencyPriority raw) else none
  let packetFor (c : ClientId) (client : Client) : Bytes :=
    let packet := if s.consoles.contains c || client.mode == .peer then raised.getD raw else raw
    adaptToVersion packet client.forwardVersion
  (installed, targets.toList.flatMap fun c =>
    match s.clients[c]? with
    | none => []
    | some client => [(c, packetFor c client)])

/-- Ends a live call to make room on its group. -/
def preempt (cfg : Config) (s : Inner) (existingId : Uuid) (existing : ActiveCall) : Inner × Sends :=
  ({ s with calls := s.calls.erase existingId },
    s.sendMany (existing.peers.insert existing.owner) (buildCallCause callGroupIdle existingId cfg.preemptCause))

def handleGroupTx (cfg : Config) (env : Env) (s : Inner) (source : ClientId) (id : Uuid) (payload : CallPayload)
    (raw : Bytes) : Effect :=
  match payload with
  | .groupTransmission gt =>
    if env.blocked gt.source && !isEmergencyCall env gt.source gt.priority then { inner := s }
    else if s.isPeer source && isDuplicate s id gt.source source env.now then
      -- A loop-safe peer is asked to stop sending this turn's voice our way.
      { inner := s, sends := if source ∈ s.fed.links then s.send source (buildPrune id gt.source) else [] }
    else
      match floorHolder cfg s id gt with
      | some (existingId, existing) =>
        if !wins cfg gt existing then { inner := s }
        else
          let (freed, release) := preempt cfg s existingId existing
          let (installed, sends) := installGroupTx cfg env freed source id gt raw
          { inner := installed, sends := release ++ sends, ended := [existingId] }
      | none =>
        let (installed, sends) := installGroupTx cfg env s source id gt raw
        { inner := installed, sends }
  | _ => { inner := s }

/-- Everyone in a call but `source`. -/
def otherParties (call : ActiveCall) (source : ClientId) : FinSet ClientId :=
  (if call.kind = .«private» then call.peers.insert call.owner else call.peers).erase source

/-- Marks a call active now. -/
def touch (env : Env) (s : Inner) (id : Uuid) (call : ActiveCall) : Inner :=
  { s with calls := s.calls.insert id { call with lastActivityMs := env.nowMs } }

/-- Only the talker of a group call, or a party of a private one, may send a
frame. -/
def mayInject (call : ActiveCall) (source : ClientId) : Bool :=
  match call.kind with
  | .group => call.owner == source
  | .«private» => call.peers.contains source || call.owner == source

/-- A voice or DTMF frame. -/
def routeCallFrame (env : Env) (s : Inner) (source : ClientId) (id : Uuid) (raw : Bytes) : Effect :=
  match s.calls[id]? with
  | none => { inner := s }
  | some call =>
    if mayInject call source then
      { inner := touch env s id call, sends := s.sendMany (otherParties call source) raw }
    else { inner := s }

/-- Takes a call out of the tables. -/
def removeCall (s : Inner) (id : Uuid) (call : ActiveCall) : Inner :=
  { s with
    calls := s.calls.erase id
    groupFloor :=
      if call.kind = .group ∧ s.groupFloor[call.destination]? = some id then s.groupFloor.erase call.destination
      else s.groupFloor }

def endCall (env : Env) (s : Inner) (source : ClientId) (id : Uuid) (raw : Bytes) : Effect :=
  match s.calls[id]? with
  | none => { inner := s }
  | some call =>
    if ¬ (call.owner = source ∨ source ∈ call.peers) then { inner := s }
    else if call.kind = .group ∧ call.owner ≠ source then { inner := s }
    else
      let removed := noteCall (removeCall s id call) id call.sourceIssi call.owner env.now
      { inner := removed, sends := removed.sendMany (otherParties call source) raw, ended := [id] }

/-- The alarm of `issi` came up: a group call it has running becomes an
emergency call, and the consoles and peers not yet part of it are brought in. -/
def emergencyRaised (s : Inner) (issi : UInt32) : Inner × Sends :=
  let brought := s.consoles.toList ++ (s.clients.toList.filter fun e => e.2.mode = .peer).map (·.1)
  let raises (call : ActiveCall) : Bool :=
    call.kind = .group && call.sourceIssi == issi && call.priority < emergencyPriority
  let newFor (call : ActiveCall) : List ClientId :=
    brought.filter fun c => c != call.owner && !call.peers.contains c
  let calls := s.calls.map fun _ call =>
    if raises call then
      { call with priority := emergencyPriority, peers := call.peers ∪ FinSet.ofList (newFor call) }
    else call
  let sends := s.calls.toList.flatMap fun (id, call) =>
    if raises call then
      let msg := buildGroupTx id issi call.destination emergencyPriority
      (call.peers.toList ++ newFor call).flatMap fun c =>
        if s.consoles.contains c || s.isPeer c then s.send c msg else []
    else []
  ({ s with calls }, sends)

/-- Whether a running call takes on a client that joined `groups`. -/
def joins (client : ClientId) (groups : FinSet UInt32) (call : ActiveCall) : Bool :=
  call.kind = .group && groups.contains call.destination && call.owner != client && !call.peers.contains client

/-- `client` has just joined `groups`: every group call to one of them that does
not reach it yet takes it on, and it is handed the call's header. -/
def lateEntry (s : Inner) (client : ClientId) (groups : FinSet UInt32) : Inner × Sends :=
  if groups.isEmpty || s.isPeer client then (s, [])
  else
    match s.clients[client]? with
    | none => (s, [])
    | some c =>
      let groupTxRaw := s.groupTxRaw.filter fun callId _ => s.calls.contains callId
      let headerOf (id : Uuid) (call : ActiveCall) : Bytes :=
        let header := (groupTxRaw[id]?).getD (buildGroupTx id call.sourceIssi call.destination call.priority)
        if s.consoles.contains client && emergencyPriority ≤ call.priority then withEmergencyPriority header
        else header
      let calls := s.calls.map fun _ call =>
        if joins client groups call then { call with peers := call.peers.insert client } else call
      ({ s with calls, groupTxRaw },
        s.calls.toList.flatMap fun (id, call) =>
          if joins client groups call then [(client, adaptToVersion (headerOf id call) c.forwardVersion)] else [])

/-- The virtual clients of the SIP bridge are the only terminals without an
address. -/
def isBridged (s : Inner) (c : ClientId) : Bool :=
  (s.clients[c]?).any fun client => client.mode == .terminal && client.remoteAddr.isNone

/-- Calls that have run for at least `limit` nanoseconds; zero is no limit. -/
def expiredCalls (env : Env) (s : Inner) (limit : Nat) : List (Uuid × ActiveCall) :=
  if limit = 0 then [] else s.calls.toList.filter fun e => limit ≤ env.now - e.2.startedAt

/-- Calls idle for at least `idleMs`, those of the SIP bridge left out. -/
def idleCalls (env : Env) (s : Inner) (idleMs : Nat) : List (Uuid × ActiveCall) :=
  if idleMs = 0 then []
  else
    s.calls.toList.filter fun e =>
      idleMs ≤ (satSub env.nowMs e.2.lastActivityMs).toNat && !isBridged s e.2.owner &&
        !e.2.peers.toList.any (isBridged s)

/-- The calls one tick of the sweep ends, each with its owner and kind. -/
def sweptCalls (cfg : Config) (env : Env) (s : Inner) : List (Uuid × ActiveCall) :=
  let expired := expiredCalls env s (cfg.maxCallDurationSeconds * 10 ^ 9)
  let idle := idleCalls env s (cfg.callInactivityTimeoutSeconds * 1000)
  expired ++ idle.filter fun e => !expired.any fun e' => e'.1 = e.1

/-- The end the sweep sends in the owner's name. -/
def sweepEnd (env : Env) (s : Inner) (id : Uuid) (call : ActiveCall) : Effect :=
  let releaseState := if call.kind = .group then callGroupIdle else callRelease
  endCall env s call.owner id (buildCallCause releaseState id 0)

end BrewServer.Router
