import BrewServer.Router.Subscriber
import BrewServer.Router.Sds
import BrewServer.Sip.Bridge

/-!
# One packet from one connection
-/

namespace BrewServer.Router

open Protocol Fedroute

/-- How long an SDS route is kept, in nanoseconds. -/
def sdsRouteTtl : Nat := 60 * 10 ^ 9

/-- Drops what has outlived its time. -/
def purgeEphemeral (env : Env) (s : Inner) : Inner :=
  purgeBts
    { s with
      sdsRoutes := s.sdsRoutes.filter fun _ route => env.now - route.createdAt < sdsRouteTtl
      recentCalls := s.recentCalls.filter fun _ e => env.now - e.2 < callDedupWindow }
    env.nowMs

/-- The version of a connection, the default for an unknown one. -/
def clientVersion (s : Inner) (source : ClientId) : ConnVersion :=
  ((s.clients[source]?).map (·.version)).getD .v0

/-- Raises a connection's version to the one a message showed. -/
def promoteClientVersion (s : Inner) (source : ClientId) (observed : ConnVersion) : Inner :=
  if (clientVersion s source).asU8 < observed.asU8 then
    { s with clients := s.clients.modify source fun c => { c with version := observed } }
  else s

def ofHandled (h : Handled) : Effect := { inner := h.1, sends := h.2.1 }

/-- Call control, by the call state it names. -/
def callControl (cfg : Config) (env : Env) (s : Inner) (source : ClientId) (cc : CallControlMessage)
    (raw : Bytes) : Effect :=
  if cc.callState = callGroupTx then handleGroupTx cfg env s source cc.identifier cc.payload raw
  else if cc.callState = callShortTransfer then handleSdsHeader env s source cc.identifier cc.payload raw
  else if cc.callState = callSetupRequest then handlePrivateSetup env s source cc.identifier cc.payload raw
  else if cc.callState ∈ [callSetupAccept, callSetupReject, callAlert, callConnectRequest, callConnectConfirm,
      callSimplexGranted, callSimplexIdle] then
    routePrivateControl env s source cc.identifier raw
  else if cc.callState = callGroupIdle ∨ cc.callState = callRelease then endCall env s source cc.identifier raw
  else { inner := s }

/-- A frame, by its type. -/
def frame (env : Env) (s : Inner) (source : ClientId) (f : FrameMessage) (raw : Bytes) : Effect :=
  if f.frameType = frameSdsTransfer then handleSdsTransfer env s source f.identifier raw
  else if f.frameType = frameSdsReport then handleSdsReport s source f.identifier raw
  else if f.frameType = frameTrafficChannel ∨ f.frameType = frameDtmf then
    routeCallFrame env s source f.identifier raw
  else { inner := s }

def dispatch (cfg : Config) (env : Env) (s : Inner) (source : ClientId) (raw : Bytes) : BrewMessage → Effect
  | .subscriber msg => ofHandled (handleSubscriber s env.nowMs source msg)
  | .callControl cc => callControl cfg env s source cc raw
  | .frame f => frame env s source f raw
  | .service _ => { inner := s }
  | .error _ => { inner := s }

/-- What a packet does to the routing tables. -/
def routePacket (cfg : Config) (env : Env) (s : Inner) (source : ClientId) (raw : Bytes) : Effect :=
  let s := purgeEphemeral env s
  if raw.head? = some classFederation then ofHandled (handle s env.nowMs source raw)
  else
    match parseWithVersion raw (clientVersion s source) with
    | some (.ok (msg, detected)) => dispatch cfg env (promoteClientVersion s source detected) source raw msg
    | _ => { inner := s }

def handlePacket (cfg : Config) (env : Env) (a : AppState) (source : ClientId) (raw : Bytes) :
    AppState × Sends :=
  Sip.settle a (routePacket cfg env a.inner source raw)

end BrewServer.Router
