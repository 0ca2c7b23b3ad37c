import BrewServer.Cleanup
import BrewServer.Router.Packet
import BrewServer.Lib.Transition

/-!
# A server's runs

Every operation on a server is an event. `Event.Allowed` is what the sessions
around it guarantee: a connection's id is new, its packets come while it is
connected, and its cleanup comes once.
-/

namespace BrewServer

open Protocol Fedroute Router Sip

inductive Event
  /-- A connection opens; `neighbour` is the server at the far end of a
  loop-safe peer link. -/
  | connect (id : ClientId) (client : Client) (neighbour : Option UInt64) (console : Bool)
  | packet (env : Env) (source : ClientId) (raw : Bytes)
  | disconnect (id : ClientId)
  /-- An emergency alarm comes up. -/
  | alarm (issi : UInt32)
  /-- One tick of the call sweep. -/
  | sweep (env : Env)
  /-- The SMS Center delivers a stored message to the owner of its destination. -/
  | smsDeliver (env : Env) (id : Uuid) (sourceIssi destination : UInt32) (lengthBits : UInt16) (data : Bytes)
  | advertiseBts (nowMs : UInt64) (key name : String) (lat lon : F64) (online : Bool)
  | advertiseEmergency (nowMs : UInt64) (issi : UInt32) (dest : Option UInt32) (bts : String) (active : Bool)
  | sipPrivate (env : Env) (callId : String) (issi : UInt32) (virtualClient : ClientId) (brewCallId : Uuid)
      (rtpPort : Bool)
  | sipGroup (env : Env) (callId : String) (gssi : UInt32) (virtualClient : ClientId) (brewCallId : Uuid)
      (rtpPort : Bool)
  /-- The SIP side of a bridged call ends. -/
  | sipEnd (callId : String)

/-- A connected peer link starts from the full table; a console is noted. -/
def openSession (s : Inner) (id : ClientId) (client : Client) (neighbour : Option UInt64) (console : Bool) :
    Inner × Sends :=
  let (attached, sends) := attachClient s id client neighbour
  (if console then { attached with consoles := attached.consoles.insert id } else attached, sends)

/-- The SMS Center sends to the connection its destination is registered on. -/
def deliverStored (env : Env) (s : Inner) (id : Uuid) (sourceIssi destination : UInt32) (lengthBits : UInt16)
    (data : Bytes) : Inner × Sends :=
  match s.subscribers[destination]? with
  | none => (s, [])
  | some sub => originate env s sub.clientId id sourceIssi destination lengthBits data

/-- What an event does to the routing tables, those of the SIP bridge and the
sweep left out. -/
def routeEvent (cfg : Config) (s : Inner) : Event → Effect
  | .connect id client neighbour console =>
    let (s, sends) := openSession s id client neighbour console
    { inner := s, sends }
  | .packet env source raw => routePacket cfg env s source raw
  | .disconnect id => cleanupClient s id
  | .alarm issi =>
    let (s, sends) := emergencyRaised s issi
    { inner := s, sends }
  | .smsDeliver env id sourceIssi destination lengthBits data =>
    let (s, sends) := deliverStored env s id sourceIssi destination lengthBits data
    { inner := s, sends }
  | .advertiseBts nowMs key name lat lon online =>
    let (s, sends) := Fedroute.advertiseBts s nowMs key name lat lon online
    { inner := s, sends }
  | .advertiseEmergency nowMs issi dest bts active =>
    let (s, sends) := Fedroute.advertiseEmergency s nowMs issi dest bts active
    { inner := s, sends }
  | .sweep _ | .sipPrivate .. | .sipGroup .. | .sipEnd _ => { inner := s }

/-- One tick of the sweep ends the calls it found, one after the other. -/
def runCallDurationSweep (cfg : Config) (env : Env) (a : AppState) : AppState × Sends :=
  (sweptCalls cfg env a.inner).foldl
    (fun (a, sends) e =>
      let (a, more) := settle a (sweepEnd env a.inner e.1 e.2)
      (a, sends ++ more))
    (a, [])

/-- A call placed to SIP gets a virtual client of its own. -/
def SipOffer.Fresh (s : Inner) : SipOffer → Prop
  | .placed _ virtualClient => virtualClient ∉ s.clients
  | _ => True

instance (s : Inner) (offer : SipOffer) : Decidable (offer.Fresh s) := by
  cases offer <;> unfold SipOffer.Fresh <;> infer_instance

/-- What the sessions around a server guarantee. -/
def Event.Allowed (a : AppState) : Event → Prop
  | .connect id client neighbour _ =>
    id ∉ a.inner.clients ∧ (client.mode = .terminal → client.remoteAddr.isSome) ∧
      ∀ n ∈ neighbour, client.mode = .peer ∧ n ≠ a.inner.fed.selfId
  | .packet env source _ =>
    source ∈ a.inner.clients ∧ isBridged a.inner source = false ∧ env.sip.Fresh a.inner
  | .disconnect id => id ∈ a.inner.clients ∧ isBridged a.inner id = false
  | .sipPrivate _ _ _ virtualClient brewCallId _ | .sipGroup _ _ _ virtualClient brewCallId _ =>
    virtualClient ∉ a.inner.clients ∧ brewCallId ∉ a.inner.calls
  | _ => True

instance (a : AppState) (ev : Event) : Decidable (ev.Allowed a) :=
  match ev with
  | .connect id client neighbour _ =>
    have : Decidable (∀ n ∈ neighbour, client.mode = .peer ∧ n ≠ a.inner.fed.selfId) :=
      Option.decidableForallMem neighbour
    inferInstanceAs (Decidable (id ∉ a.inner.clients ∧ (client.mode = .terminal → client.remoteAddr.isSome) ∧
      ∀ n ∈ neighbour, client.mode = .peer ∧ n ≠ a.inner.fed.selfId))
  | .packet env source _ =>
    inferInstanceAs (Decidable (source ∈ a.inner.clients ∧ isBridged a.inner source = false ∧ env.sip.Fresh a.inner))
  | .disconnect id => inferInstanceAs (Decidable (id ∈ a.inner.clients ∧ isBridged a.inner id = false))
  | .sipPrivate _ _ _ virtualClient brewCallId _ | .sipGroup _ _ _ virtualClient brewCallId _ =>
    inferInstanceAs (Decidable (virtualClient ∉ a.inner.clients ∧ brewCallId ∉ a.inner.calls))
  | .alarm _ | .sweep _ | .smsDeliver .. | .advertiseBts .. | .advertiseEmergency .. | .sipEnd _ => isTrue trivial

def SipOffer.placement : SipOffer → Option (String × ClientId)
  | .placed callId virtualClient => some (callId, virtualClient)
  | _ => none

/-- An outside with nothing in it: no blacklist, no alarm, no SMS Center, no
position and no SIP route. -/
def Env.plain (nowMs : UInt64) : Env where
  nowMs
  now := 0
  blocked _ := false
  alarm _ := false
  smsWants _ := false
  smsReport := none
  position _ := none
  sip := .noRoute

/-- A connection that has just been accepted. -/
def Client.accepted (mode : ClientMode) : Client :=
  { mode, version := .v0, versionAnnounced := false, remoteAddr := some "" }

/-- Events in which the SIP bridge takes no part. -/
def Event.WithoutSip : Event → Prop
  | .packet env _ _ => env.sip.placement = none
  | .sipPrivate .. | .sipGroup .. | .sipEnd _ => False
  | _ => True

instance (ev : Event) : Decidable ev.WithoutSip :=
  match ev with
  | .packet env _ _ => inferInstanceAs (Decidable (env.sip.placement = none))
  | .sipPrivate .. | .sipGroup .. | .sipEnd _ => isFalse id
  | .connect .. | .disconnect _ | .alarm _ | .sweep _ | .smsDeliver .. | .advertiseBts .. | .advertiseEmergency .. =>
    isTrue trivial

namespace AppState

/-- A server that has just started. -/
def start (selfId : UInt64) : AppState := { inner := Inner.empty selfId }

def run (cfg : Config) (a : AppState) (ev : Event) : AppState × Sends :=
  match ev with
  | .sipPrivate env callId issi virtualClient brewCallId rtpPort =>
    sipToBrewPrivate env a callId issi virtualClient brewCallId rtpPort
  | .sipGroup env callId gssi virtualClient brewCallId rtpPort =>
    sipToBrewGroup cfg env a callId gssi virtualClient brewCallId rtpPort
  | .sipEnd callId => teardown a callId
  | .sweep env => runCallDurationSweep cfg env a
  | ev => settle a (routeEvent cfg a.inner ev)

def next (cfg : Config) (a : AppState) (ev : Event) : AppState := (a.run cfg ev).1

def sent (cfg : Config) (a : AppState) (ev : Event) : Sends := (a.run cfg ev).2

end AppState

end BrewServer
