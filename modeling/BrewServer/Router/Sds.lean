import BrewServer.Router.Group

/-!
# Short data

An SDS header opens a route that its payload and its delivery report follow. A
blacklisted party holds the header back until the payload shows whether it is a
position report.
-/

namespace BrewServer.Router

open Protocol Fedroute

/-- The client id the SMS Center sends under. -/
def smsCenterClient : ClientId := 0

/-- Relays a position decoded here, unless a peer forwarded the SDS. -/
def advertiseIfLocal (env : Env) (s : Inner) (source : ClientId) (issi : UInt32) (lat lon : F64) : Inner × Sends :=
  if s.isPeer source then (s, []) else advertiseMs s issi lat lon env.nowMs "brew-sds"

/-- What a decoded position does to the routing state. -/
def reportPosition (env : Env) (s : Inner) (source : ClientId) (issi : UInt32) (raw : Bytes) : Inner × Sends :=
  match env.position raw with
  | none => (s, [])
  | some (lat, lon) => advertiseIfLocal env s source issi lat lon

/-- Everyone an SDS for `destination` goes to. -/
def sdsTargets (s : Inner) (source : ClientId) (destination : UInt32) : FinSet ClientId :=
  let owner := match s.subscribers[destination]? with
    | some sub => FinSet.ofList [sub.clientId]
    | none => ∅
  (owner ∪ s.members destination).erase source

/-- Remembers where an SDS goes, and forwards its header unless it is held. -/
def openSdsRoute (env : Env) (s : Inner) (source : ClientId) (id : Uuid) (sourceIssi destination : UInt32)
    (lipOnly : Bool) (raw : Bytes) : Inner × Sends :=
  let targets := sdsTargets s source destination
  let storeOffline := !lipOnly && targets.isEmpty && !s.groupClients.contains destination && env.smsWants destination
  let route : SdsRoute :=
    { sourceClient := source, targets, sourceIssi, destination, createdAt := env.now, storeOffline, lipOnly,
      heldHeader := if lipOnly then some raw else none }
  let routed := { s with sdsRoutes := s.sdsRoutes.insert id route }
  (routed, if lipOnly then [] else routed.sendMany targets raw)

def handleSdsHeader (env : Env) (s : Inner) (source : ClientId) (id : Uuid) (payload : CallPayload)
    (raw : Bytes) : Effect :=
  match payload with
  | .shortTransfer sourceIssi destination =>
    if s.isPeer source && isDuplicate s id sourceIssi source env.now then { inner := s }
    else
      let noted := noteCall s id sourceIssi source env.now
      -- A blacklisted party: nothing is decoded or sent from the header.
      let lipOnly := env.blocked sourceIssi || env.blocked destination
      let (tracked, adverts) := if lipOnly then (noted, []) else reportPosition env noted source sourceIssi raw
      let (routed, sends) := openSdsRoute env tracked source id sourceIssi destination lipOnly raw
      { inner := routed, sends := adverts ++ sends }
  | _ => { inner := s }

/-- The SMS Center sends an SDS of its own to `client`. -/
def originate (env : Env) (s : Inner) (client : ClientId) (id : Uuid) (sourceIssi destination : UInt32)
    (lengthBits : UInt16) (data : Bytes) : Inner × Sends :=
  if env.blocked destination || client ∉ s.clients then (s, [])
  else
    let route : SdsRoute :=
      { sourceClient := smsCenterClient, targets := FinSet.ofList [client], sourceIssi, destination,
        createdAt := env.now, storeOffline := false, lipOnly := false, heldHeader := none }
    let s := { s with sdsRoutes := s.sdsRoutes.insert id route }
    (s, s.send client (buildShortTransfer id sourceIssi destination) ++
      s.send client (buildSdsTransferFrame id lengthBits data))

/-- The SMS Center's answer to the sender of an SDS it was handed. -/
def reportStored (env : Env) (s : Inner) (source : ClientId) (sourceIssi destination : UInt32) : Inner × Sends :=
  match env.smsReport with
  | none => (s, [])
  | some (id, report) => originate env s source id destination sourceIssi 32 report

/-- Whether a payload is a position report (by its first user-data byte). -/
def isLipPayload (raw : Bytes) : Bool := raw[20]? == some 0x0a || raw[20]? == some 0x83

/-- A copy of an SDS accepted over another link, its route gone or not stored yet. -/
def seenOverOtherLink (env : Env) (s : Inner) (source : ClientId) (id : Uuid) : Bool :=
  s.recentCalls.toList.any fun ((call, _), (link, seen)) =>
    call == id && link != source && decide (env.now - seen < callDedupWindow)

/-- The route once its payload came: nothing is stored or held any more. -/
def takeRoute (s : Inner) (id : Uuid) (route : SdsRoute) : Inner :=
  { s with sdsRoutes := s.sdsRoutes.insert id { route with storeOffline := false, heldHeader := none } }

/-- The payload of an open SDS route: its held header goes out just before it. -/
def forwardSds (env : Env) (s : Inner) (source : ClientId) (id : Uuid) (route : SdsRoute) (raw : Bytes) :
    Inner × Sends :=
  let taken := takeRoute s id route
  let header := (route.heldHeader.map (taken.sendMany route.targets)).getD []
  let (stored, report) :=
    if route.storeOffline then reportStored env taken source route.sourceIssi route.destination else (taken, [])
  (stored, header ++ taken.sendMany route.targets raw ++ report)

def handleSdsTransfer (env : Env) (s : Inner) (source : ClientId) (id : Uuid) (raw : Bytes) : Effect :=
  match s.sdsRoutes[id]? with
  | some route =>
    if route.sourceClient ≠ source then { inner := s }
    else if route.lipOnly && !isLipPayload raw then { inner := { s with sdsRoutes := s.sdsRoutes.erase id } }
    else
      let (forwarded, sends) := forwardSds env s source id route raw
      let (tracked, adverts) := reportPosition env forwarded source route.sourceIssi raw
      { inner := tracked, sends := sends ++ adverts }
  | none =>
    if s.isPeer source && seenOverOtherLink env s source id then { inner := s }
    else
      let (tracked, adverts) := reportPosition env s source 0 raw
      { inner := tracked, sends := adverts }

def handleSdsReport (s : Inner) (source : ClientId) (id : Uuid) (raw : Bytes) : Effect :=
  match s.sdsRoutes[id]? with
  | none => { inner := s }
  | some route =>
    if source ∉ route.targets then { inner := s }
    else
      let reported := if route.targets.size = 1 then { s with sdsRoutes := s.sdsRoutes.erase id } else s
      { inner := reported, sends := s.send route.sourceClient raw }

end BrewServer.Router
