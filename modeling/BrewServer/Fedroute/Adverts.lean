import BrewServer.Fedroute.Table

/-!
# Position and emergency adverts

Three kinds of advert are flooded the same way: an advert newer than what is
held replaces it and goes to every link that announced support, with this
server in front of its path.
-/

namespace BrewServer.Fedroute

open Protocol

/-- The magnitude of a floating-point number, as an ordered bit pattern. -/
def absBits (x : F64) : UInt64 := x &&& 0x7fffffffffffffff

def isFinite (x : F64) : Bool := absBits x < 0x7ff0000000000000

/-- Whether a position is a real fix: finite, in range and not the empty 0/0. -/
def validPosition (lat lon : F64) : Bool :=
  isFinite lat && isFinite lon && absBits lat ≤ 0x4056800000000000 && absBits lon ≤ 0x4066800000000000 &&
    (absBits lat != 0 || absBits lon != 0)

/-- Sends `build (self :: path)` to every link of `links` except `except`, leaving
out neighbours already on the path and a path that would outgrow `maxPath`. -/
def relay (s : Inner) (links : FinSet ClientId) (except : Option ClientId) (path : List UInt64)
    (build : List UInt64 → Bytes) : Sends :=
  if maxPath ≤ path.length then []
  else
    links.toList.flatMap fun link =>
      if some link = except then []
      else
        match s.fed.links[link]? with
        | none => []
        | some nbrId => if nbrId ∈ path then [] else s.send link (build (s.fed.selfId :: path))

/-- Whether a held advert is passed to neighbour `nbrId` in a sync. -/
def passesTo (nbrId : UInt64) (path : List UInt64) : Bool := !path.contains nbrId && path.length < maxPath

def relayBts (s : Inner) (except : Option ClientId) (a : BtsAdvert) : Sends :=
  relay s s.fed.btsLinks except a.path fun path => buildBts { a with path }

def relayEm (s : Inner) (except : Option ClientId) (a : EmAdvert) : Sends :=
  relay s s.fed.emLinks except a.path fun path => buildEmergency { a with path }

def relayMs (s : Inner) (except : Option ClientId) (a : MsAdvert) : Sends :=
  relay s s.fed.msLinks except a.path fun path => buildMsPos { a with path }

/-- What a link that announced Basestation positions is told. -/
def btsSync (s : Inner) (nowMs : UInt64) (nbrId : UInt64) : List Bytes :=
  let own : List BtsAdvert := s.fed.btsLocal.toList.map fun (key, b) =>
    { key, name := b.name, lat := b.lat, lon := b.lon, online := true, seq := b.seq, path := [s.fed.selfId] }
  let live := s.fed.btsRemote.toList.filter fun (_, b) =>
    b.online && satSub nowMs b.seenMs < btsStaleMs && passesTo nbrId b.path
  let learned : List BtsAdvert := live.map fun ((_, key), b) =>
    { key, name := b.name, lat := b.lat, lon := b.lon, online := true, seq := b.seq,
      path := s.fed.selfId :: b.path }
  (own ++ learned).map buildBts

/-- What a link that announced emergency alarms is told. -/
def emSync (s : Inner) (nowMs : UInt64) (nbrId : UInt64) : List Bytes :=
  let own : List EmAdvert := s.fed.emLocal.toList.map fun (issi, e) =>
    { issi, dest := e.dest, bts := e.bts, active := true, seq := e.seq, path := [s.fed.selfId] }
  let live := s.fed.emRemote.toList.filter fun (_, e) =>
    e.active && satSub nowMs e.seenMs < emStaleMs && passesTo nbrId e.path
  let learned : List EmAdvert := live.map fun ((_, issi), e) =>
    { issi, dest := e.dest, bts := e.bts, active := true, seq := e.seq, path := s.fed.selfId :: e.path }
  (own ++ learned).map buildEmergency

/-- What a link that announced mobile station positions is told. -/
def msSync (s : Inner) (nbrId : UInt64) : List Bytes :=
  let held := s.fed.msPos.toList.filter fun (_, e) => passesTo nbrId e.path
  held.map fun (issi, e) =>
    buildMsPos { issi, lat := e.lat, lon := e.lon, atMs := e.atMs, station := e.station,
                 path := s.fed.selfId :: e.path }

/-- Whether an advert came from this server or through it. -/
def fromSelf (s : Inner) (path : List UInt64) : Bool :=
  path.getLast? == some s.fed.selfId || path.contains s.fed.selfId

def acceptBts (s : Inner) (nowMs : UInt64) (source : ClientId) (a : BtsAdvert) : Inner × Sends :=
  match a.path.getLast? with
  | none => (s, [])
  | some origin =>
    if fromSelf s a.path then (s, [])
    else if a.online && !validPosition a.lat a.lon then (s, [])
    else if (s.fed.btsRemote[(origin, a.key)]?).any (a.seq ≤ ·.seq) then (s, [])
    else
      let entry : RemoteBts :=
        { name := a.name, lat := a.lat, lon := a.lon, online := a.online, seq := a.seq, path := a.path,
          seenMs := nowMs }
      let s := { s with fed := { s.fed with btsRemote := s.fed.btsRemote.insert (origin, a.key) entry } }
      (s, relayBts s (some source) a)

def acceptEm (s : Inner) (nowMs : UInt64) (source : ClientId) (a : EmAdvert) : Inner × Sends :=
  match a.path.getLast? with
  | none => (s, [])
  | some origin =>
    if fromSelf s a.path then (s, [])
    else if (s.fed.emRemote[(origin, a.issi)]?).any (a.seq ≤ ·.seq) then (s, [])
    else
      let entry : RemoteEm :=
        { dest := a.dest, bts := a.bts, active := a.active, seq := a.seq, path := a.path, seenMs := nowMs }
      let s := { s with fed := { s.fed with emRemote := s.fed.emRemote.insert (origin, a.issi) entry } }
      (s, relayEm s (some source) a)

def acceptMs (s : Inner) (source : ClientId) (a : MsAdvert) : Inner × Sends :=
  match a.path.getLast? with
  | none => (s, [])
  | some _ =>
    if fromSelf s a.path then (s, [])
    else if !validPosition a.lat a.lon then (s, [])
    else if (s.fed.msPos[a.issi]?).any (a.atMs ≤ ·.atMs) then (s, [])
    else
      let entry : MsEntry := { lat := a.lat, lon := a.lon, atMs := a.atMs, station := a.station, path := a.path }
      let s := { s with fed := { s.fed with msPos := s.fed.msPos.insert a.issi entry } }
      (s, relayMs s (some source) a)

/-- Advertises one of this server's own Basestations, or withdraws it. -/
def advertiseBts (s : Inner) (nowMs : UInt64) (key name : String) (lat lon : F64) (online : Bool) :
    Inner × Sends :=
  let prev := ((s.fed.btsLocal[key]?).map (·.seq)).getD 0
  let seq := maxU64 nowMs (satAdd prev 1)
  let advert : BtsAdvert := { key, name, lat, lon, online, seq, path := [] }
  if online then
    if !validPosition lat lon then (s, [])
    else
      let s := { s with fed := { s.fed with btsLocal := s.fed.btsLocal.insert key { name, lat, lon, seq } } }
      (s, relayBts s none advert)
  else if key ∉ s.fed.btsLocal then (s, [])
  else
    let s := { s with fed := { s.fed with btsLocal := s.fed.btsLocal.erase key } }
    (s, relayBts s none advert)

/-- Advertises one of this server's own emergency alarms, or clears it. -/
def advertiseEmergency (s : Inner) (nowMs : UInt64) (issi : UInt32) (dest : Option UInt32) (bts : String)
    (active : Bool) : Inner × Sends :=
  let prev := ((s.fed.emLocal[issi]?).map (·.seq)).getD 0
  let seq := maxU64 nowMs (satAdd prev 1)
  let advert : EmAdvert := { issi, dest, bts, active, seq, path := [] }
  if active then
    let s := { s with fed := { s.fed with emLocal := s.fed.emLocal.insert issi { dest, bts, seq } } }
    (s, relayEm s none advert)
  else if issi ∉ s.fed.emLocal then (s, [])
  else
    let s := { s with fed := { s.fed with emLocal := s.fed.emLocal.erase issi } }
    (s, relayEm s none advert)

/-- Advertises a mobile station position this server decoded itself. -/
def advertiseMs (s : Inner) (issi : UInt32) (lat lon : F64) (atMs : UInt64) (station : String) :
    Inner × Sends :=
  if !validPosition lat lon then (s, [])
  else if (s.fed.msPos[issi]?).any (atMs ≤ ·.atMs) then (s, [])
  else
    let s := { s with fed := { s.fed with msPos := s.fed.msPos.insert issi { lat, lon, atMs, station, path := [] } } }
    (s, relayMs s none { issi, lat, lon, atMs, station, path := [] })

/-- Drops relayed alarms and learned positions not refreshed for long. -/
def purgeBts (s : Inner) (nowMs : UInt64) : Inner :=
  { s with fed := { s.fed with
      emRemote := s.fed.emRemote.filter fun _ e => satSub nowMs e.seenMs < emStaleMs
      btsRemote := s.fed.btsRemote.filter fun _ b => satSub nowMs b.seenMs < btsStaleMs } }

end BrewServer.Fedroute
