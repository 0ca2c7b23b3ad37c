import BrewServer.Lib.FinMap
import BrewServer.Protocol

/-!
# The server's routing state

`Inner` holds the tables every handler works on, under one lock in the source.
A connection's outgoing channel is modelled by what is queued to it (`Sends`).
-/

namespace BrewServer

open Protocol (ConnVersion)

abbrev ClientId := Uuid

-- The orders of the tables' keys.
instance transOrdUuid : Std.TransOrd Uuid := BitVec.instTransOrd

instance lawfulEqOrdUuid : Std.LawfulEqOrd Uuid := inferInstance

instance lawfulBEqUuid : LawfulBEq Uuid := inferInstance

instance transCmpTurn : Std.TransCmp (@lexOrd Uuid UInt32 _ _).compare := inferInstance

instance transCmpEmergency : Std.TransCmp (@lexOrd UInt64 UInt32 _ _).compare := inferInstance

instance transCmpBts : Std.TransCmp (@lexOrd UInt64 String _ _).compare := inferInstance

inductive ClientMode
  | terminal
  | basestation
  | peer
  deriving DecidableEq

structure Client where
  mode : ClientMode
  version : ConnVersion
  /-- Whether the client announced `version` rather than it being the default. -/
  versionAnnounced : Bool
  /-- `none` for the virtual clients of the SIP bridge. -/
  remoteAddr : Option String
  deriving DecidableEq

/-- The layout a `CALL_GROUP_TX` or `CALL_SETUP_REQUEST` is forwarded in. -/
def Client.forwardVersion (c : Client) : ConnVersion :=
  if c.versionAnnounced then c.version else .v1

/-- Where an effective route leads: `path` is next hop first and origin last,
empty for an ISSI registered here. -/
structure Route where
  reg : UInt64
  path : List UInt64
  deriving DecidableEq

structure Subscriber where
  clientId : ClientId
  groups : FinSet UInt32
  mode : ClientMode
  route : Route
  deriving DecidableEq

inductive CallKind
  | group
  | «private»
  deriving DecidableEq

structure ActiveCall where
  kind : CallKind
  owner : ClientId
  sourceIssi : UInt32
  destination : UInt32
  priority : UInt8
  peers : FinSet ClientId
  /-- When the call was set up, in nanoseconds. -/
  startedAt : Nat
  /-- Last voice, DTMF or call control seen, in milliseconds. -/
  lastActivityMs : UInt64
  deriving DecidableEq

/-- `c` is the owner of a call or one of its peers. -/
def ActiveCall.isParty (call : ActiveCall) (c : ClientId) : Prop := c = call.owner ∨ c ∈ call.peers

instance (call : ActiveCall) (c : ClientId) : Decidable (call.isParty c) := inferInstanceAs (Decidable (_ ∨ _))

structure SdsRoute where
  sourceClient : ClientId
  targets : FinSet ClientId
  sourceIssi : UInt32
  destination : UInt32
  createdAt : Nat
  storeOffline : Bool
  lipOnly : Bool
  heldHeader : Option Bytes
  deriving DecidableEq

/-- One neighbour's current offer for an ISSI: `path` starts at the neighbour
and ends at the origin. -/
structure Advert where
  reg : UInt64
  path : List UInt64
  groups : List UInt32
  deriving DecidableEq

/-- A floating-point number by its IEEE 754 bit pattern. -/
abbrev F64 := UInt64

structure LocalEm where
  dest : Option UInt32
  bts : String
  seq : UInt64
  deriving DecidableEq

structure RemoteEm where
  dest : Option UInt32
  bts : String
  active : Bool
  seq : UInt64
  path : List UInt64
  seenMs : UInt64
  deriving DecidableEq

structure MsEntry where
  lat : F64
  lon : F64
  atMs : UInt64
  station : String
  path : List UInt64
  deriving DecidableEq

structure LocalBts where
  name : String
  lat : F64
  lon : F64
  seq : UInt64
  deriving DecidableEq

structure RemoteBts where
  name : String
  lat : F64
  lon : F64
  online : Bool
  seq : UInt64
  path : List UInt64
  seenMs : UInt64
  deriving DecidableEq

structure FedState where
  selfId : UInt64
  clock : UInt64 := 0
  /-- Negotiated peer links and the server at their far end. -/
  links : FinMap ClientId UInt64 := ∅
  ribIn : FinMap UInt32 (FinMap ClientId Advert) := ∅
  btsLinks : FinSet ClientId := ∅
  msLinks : FinSet ClientId := ∅
  msPos : FinMap UInt32 MsEntry := ∅
  emLinks : FinSet ClientId := ∅
  emLocal : FinMap UInt32 LocalEm := ∅
  emRemote : PairMap UInt64 UInt32 RemoteEm := ∅
  btsLocal : FinMap String LocalBts := ∅
  btsRemote : PairMap UInt64 String RemoteBts := ∅
  deriving DecidableEq

structure Inner where
  clients : FinMap ClientId Client := ∅
  subscribers : FinMap UInt32 Subscriber := ∅
  groupClients : FinMap UInt32 (FinSet ClientId) := ∅
  calls : FinMap Uuid ActiveCall := ∅
  groupFloor : FinMap UInt32 Uuid := ∅
  /-- The `CALL_GROUP_TX` that set up each running group call. -/
  groupTxRaw : FinMap Uuid Bytes := ∅
  sdsRoutes : FinMap Uuid SdsRoute := ∅
  /-- The link each (uuid, source ISSI) was accepted from, and when. -/
  recentCalls : PairMap Uuid UInt32 (ClientId × Nat) := ∅
  fed : FedState
  consoles : FinSet ClientId := ∅
  deriving DecidableEq

/-- The state of a server that has just started. -/
def Inner.empty (selfId : UInt64) : Inner := { fed := { selfId } }

/-- Messages in the order they were queued, each to one connection. -/
abbrev Sends := List (ClientId × Bytes)

/-- What was queued to one connection. -/
def Sends.on (sends : Sends) (link : ClientId) : List Bytes :=
  sends.filterMap fun m => if m.1 = link then some m.2 else none

namespace Sends

@[simp] theorem on_nil (link : ClientId) : Sends.on [] link = [] := rfl

@[simp] theorem on_append (a b : Sends) (link : ClientId) :
    Sends.on (a ++ b) link = Sends.on a link ++ Sends.on b link :=
  List.filterMap_append

@[simp] theorem on_cons (c link : ClientId) (raw : Bytes) (rest : Sends) :
    Sends.on ((c, raw) :: rest) link = (if c = link then [raw] else []) ++ Sends.on rest link := by
  by_cases h : c = link <;> simp [Sends.on, h]

theorem mem_on {sends : Sends} {link : ClientId} {raw : Bytes} :
    raw ∈ sends.on link ↔ (link, raw) ∈ sends := by
  simp only [Sends.on, List.mem_filterMap]
  constructor
  · rintro ⟨⟨c, r⟩, hm, h⟩
    split at h
    · next hc => cases h; exact hc ▸ hm
    · cases h
  · intro h
    exact ⟨(link, raw), h, if_pos rfl⟩

theorem on_eq_nil {sends : Sends} {link : ClientId} (h : ∀ m ∈ sends, m.1 ≠ link) :
    sends.on link = [] := by
  rw [List.eq_nil_iff_forall_not_mem]
  intro raw hr
  exact h _ (mem_on.mp hr) rfl

end Sends

/-- Queues `raw` to one connection, if there is one. -/
def Inner.send (s : Inner) (c : ClientId) (raw : Bytes) : Sends :=
  if c ∈ s.clients then [(c, raw)] else []

/-- Queues one message to each of a set of connections. -/
def Inner.sendMany (s : Inner) (cs : FinSet ClientId) (raw : Bytes) : Sends :=
  cs.toList.flatMap fun c => s.send c raw

theorem Inner.mem_send {s : Inner} {c : ClientId} {raw : Bytes} {m : ClientId × Bytes} :
    m ∈ s.send c raw ↔ m = (c, raw) ∧ c ∈ s.clients := by
  unfold Inner.send
  split <;> simp_all

theorem Inner.mem_sendMany {s : Inner} {cs : FinSet ClientId} {raw : Bytes} {m : ClientId × Bytes} :
    m ∈ s.sendMany cs raw ↔ m.2 = raw ∧ m.1 ∈ cs ∧ m.1 ∈ s.clients := by
  simp only [Inner.sendMany, List.mem_flatMap, Std.ExtTreeSet.mem_toList, Inner.mem_send]
  constructor
  · rintro ⟨c, hc, rfl, hm⟩
    exact ⟨rfl, hc, hm⟩
  · rintro ⟨hr, hc, hm⟩
    exact ⟨m.1, hc, Prod.ext rfl hr, hm⟩

/-- The settings the handlers read. -/
structure Config where
  routeWithoutAffiliations : Bool := false
  fallbackBroadcastWhenNoAffiliations : Bool := true
  allowMultipleCallsPerGroup : Bool := false
  higherPriorityNumberWins : Bool := true
  preemptCause : UInt8 := 1
  maxCallDurationSeconds : Nat := 14400
  callInactivityTimeoutSeconds : Nat := 60

/-- How the SIP side answers a private call that is offered to it. -/
inductive SipOffer
  /-- No route matches, or its destination cannot be resolved. -/
  | noRoute
  /-- A route matches but there is no port for the media. -/
  | noRtpPort
  /-- An INVITE goes out under this Call-ID, with this virtual client. -/
  | placed (callId : String) (virtualClient : ClientId)

/-- What a handler reads outside `Inner` and the configuration: the clocks, the
blacklist, the alarms of this server's Basestations, the SMS Center, the
position decoder and the SIP side. -/
structure Env where
  /-- `telemetry::now_ms`. -/
  nowMs : UInt64
  /-- `Instant::now`, in nanoseconds. -/
  now : Nat
  blocked : UInt32 → Bool
  alarm : UInt32 → Bool
  /-- Whether the SMS Center keeps an SDS for this offline ISSI. -/
  smsWants : UInt32 → Bool
  /-- The status report the SMS Center originates for an SDS it was handed. -/
  smsReport : Option (Uuid × Bytes)
  /-- `extract_sds_position`. -/
  position : Bytes → Option (F64 × F64)
  sip : SipOffer

/-- A virtual participant the SIP bridge added to a call. -/
structure BridgedLeg where
  virtualClient : ClientId
  brewCallId : Uuid
  group : Option UInt32
  deriving DecidableEq

/-- What handling a packet gives. -/
structure Effect where
  inner : Inner
  sends : Sends := []
  /-- Calls the SIP bridge is told have ended. -/
  ended : List Uuid := []
  /-- The leg of a call placed to SIP. -/
  placed : Option (String × BridgedLeg) := none

/-- Whether `client` is a federation peer link. -/
def Inner.isPeer (s : Inner) (client : ClientId) : Bool :=
  (s.clients[client]?).any (·.mode == .peer)

/-- The members of a group. -/
def Inner.members (s : Inner) (g : UInt32) : FinSet ClientId := (s.groupClients[g]?).getD ∅

end BrewServer
