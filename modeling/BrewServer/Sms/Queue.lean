import BrewServer.Fedroute.Table
import BrewServer.Lib.Transition

/-!
# The SMS Center's queue

Messages for individual destinations that are offline. A delivery attempt marks
its message in flight; the attempt ends with a delivery report, by being
released, or when the sweep finds that no report came in time.
-/

namespace BrewServer.Sms

open Fedroute

structure SmsCenterConfig where
  enabled : Bool := true
  messageTtlSeconds : UInt64 := 604800
  onlyKnownDestinations : Bool := true
  excludeProtocolIds : List UInt8 := [0x0a]
  maxMessagesPerDestination : ℕ := 50
  maxMessagesTotal : ℕ := 5000
  ackTimeoutSeconds : UInt64 := 30
  retryIntervalSeconds : UInt64 := 60
  /-- Delivery attempts before a message is dropped; 0 is unlimited. -/
  maxAttempts : UInt32 := 10

/-- One queued message. -/
structure StoredSms where
  id : Uuid
  sourceIssi : UInt32
  destination : UInt32
  lengthBits : UInt16
  data : Bytes
  storedAtMs : UInt64
  expiresAtMs : UInt64
  attempts : UInt32
  lastAttemptMs : Option UInt64
  /-- The attempt awaiting its delivery report. -/
  inFlight : Option Uuid
  deriving DecidableEq

structure SmsFile where
  /-- Every ISSI that has registered on this server at least once. -/
  knownIssis : FinSet UInt32 := ∅
  messages : List StoredSms := []

inductive StoreOutcome
  | stored (m : StoredSms)
  /-- The same message already queued recently. -/
  | duplicate (m : StoredSms)
  | queueFull
  | skipped (why : String)

/-- What a sweep leaves and what it removes. -/
structure SweepResult where
  kept : List StoredSms := []
  expired : List StoredSms := []
  failed : List StoredSms := []

/-- Window in which an identical SDS is treated as a retransmission. -/
def duplicateWindowMs : UInt64 := 60000

def saturatingAdd (a b : UInt64) : UInt64 := UInt64.ofNat (min (a.toNat + b.toNat) (2 ^ 64 - 1))

def saturatingMul (a b : UInt64) : UInt64 := UInt64.ofNat (min (a.toNat * b.toNat) (2 ^ 64 - 1))

/-- `t` is at least `span` ago. -/
def elapsed (now : UInt64) (span : UInt64) (t : Option UInt64) : Bool := t.all fun t => span ≤ satSub now t

namespace SmsFile

variable (cfg : SmsCenterConfig)

def noteKnown (d : SmsFile) (issi : UInt32) : SmsFile :=
  if cfg.enabled then { d with knownIssis := d.knownIssis.insert issi } else d

/-- Whether an SDS to an unreachable destination should be kept. -/
def wants (d : SmsFile) (destination : UInt32) : Bool :=
  cfg.enabled && (!cfg.onlyKnownDestinations || d.knownIssis.contains destination)

def hasPendingFor (d : SmsFile) (issi : UInt32) : Bool :=
  cfg.enabled && d.messages.any fun m => m.destination = issi

/-- Keeps a message; `id` is the fresh id it gets. -/
def store (d : SmsFile) (id : Uuid) (sourceIssi destination : UInt32) (lengthBits : UInt16) (data : Bytes)
    (now : UInt64) : SmsFile × StoreOutcome :=
  if !cfg.enabled then (d, .skipped "disabled")
  else
    match data.head? with
    | none => (d, .skipped "empty payload")
    | some pid =>
      if pid ∈ cfg.excludeProtocolIds then (d, .skipped "excluded protocol id")
      else if data.length < (lengthBits.toNat + 7) / 8 then (d, .skipped "length exceeds payload")
      else
        match d.messages.find? fun m => m.sourceIssi = sourceIssi ∧ m.destination = destination ∧ m.data = data ∧
          satSub now m.storedAtMs < duplicateWindowMs with
        | some m => (d, .duplicate m)
        | none =>
          let perDest := d.messages.countP fun m => m.destination = destination
          if cfg.maxMessagesPerDestination ≤ perDest ∨ cfg.maxMessagesTotal ≤ d.messages.length then (d, .queueFull)
          else
            let m : StoredSms :=
              { id, sourceIssi, destination, lengthBits, data, storedAtMs := now,
                expiresAtMs := saturatingAdd now (saturatingMul cfg.messageTtlSeconds 1000), attempts := 0,
                lastAttemptMs := none, inFlight := none }
            ({ d with messages := d.messages ++ [m] }, .stored m)

def retryMs : UInt64 := saturatingMul cfg.retryIntervalSeconds 1000

/-- A message that may be sent to `issi` now. -/
def isDue (issi : UInt32) (force : Bool) (now : UInt64) (m : StoredSms) : Bool :=
  m.destination = issi && m.inFlight.isNone && now < m.expiresAtMs &&
    (force || elapsed now (retryMs cfg) m.lastAttemptMs)

/-- The place of the oldest due message. -/
def oldestDue (d : SmsFile) (issi : UInt32) (force : Bool) (now : UInt64) : Option ℕ :=
  ((d.messages.zipIdx.filter fun e => isDue cfg issi force now e.1).argmin fun e => e.1.storedAtMs.toNat).map Prod.snd

/-- A message marked in flight. -/
def attempt (uuid : Uuid) (now : UInt64) (m : StoredSms) : StoredSms :=
  { m with inFlight := some uuid, attempts := m.attempts + 1, lastAttemptMs := some now }

/-- Picks the oldest due message and marks it in flight under a fresh uuid. -/
def takeNextDue (d : SmsFile) (issi : UInt32) (force : Bool) (now : UInt64) (uuid : Uuid) :
    Option (SmsFile × StoredSms) :=
  if !cfg.enabled then none
  else
    (oldestDue cfg d issi force now).bind fun i =>
      d.messages[i]?.map fun m => ({ d with messages := d.messages.set i (attempt uuid now m) }, attempt uuid now m)

/-- Destinations with a message waiting that is due for a try. -/
def dueDestinations (d : SmsFile) (now : UInt64) : FinSet UInt32 :=
  if !cfg.enabled then ∅
  else
    FinSet.ofList ((d.messages.filter fun m => m.inFlight.isNone && elapsed now (retryMs cfg) m.lastAttemptMs).map
      StoredSms.destination)

/-- The place of the message an attempt is in flight for. -/
def attemptOf (d : SmsFile) (uuid : Uuid) : Option ℕ := d.messages.findIdx? fun m => m.inFlight = some uuid

/-- An attempt given back without being counted. -/
def giveBack (m : StoredSms) : StoredSms :=
  { m with inFlight := none, attempts := if m.attempts = 0 then 0 else m.attempts - 1 }

/-- An attempt that could not even be sent. -/
def release (d : SmsFile) (uuid : Uuid) : SmsFile :=
  match attemptOf d uuid with
  | none => d
  | some i => { d with messages := d.messages.modify i giveBack }

/-- The destination acknowledged an attempt: its message is done. -/
def onReport (d : SmsFile) (uuid : Uuid) : SmsFile :=
  match attemptOf d uuid with
  | none => d
  | some i => { d with messages := d.messages.eraseIdx i }

/-- An attempt whose report never arrived is freed. -/
def free (now : UInt64) (m : StoredSms) : StoredSms :=
  if m.inFlight.isSome && elapsed now (saturatingMul cfg.ackTimeoutSeconds 1000) m.lastAttemptMs then
    { m with inFlight := none }
  else m

/-- Where a message goes in a sweep. -/
def sortOut (now : UInt64) (out : SweepResult) (m : StoredSms) : SweepResult :=
  let m := free cfg now m
  if m.inFlight.isNone && m.expiresAtMs ≤ now then { out with expired := out.expired ++ [m] }
  else if m.inFlight.isNone && 0 < cfg.maxAttempts && cfg.maxAttempts ≤ m.attempts then
    { out with failed := out.failed ++ [m] }
  else { out with kept := out.kept ++ [m] }

/-- Drops expired messages, frees attempts and gives up on exhausted ones. -/
def sweep (d : SmsFile) (now : UInt64) : SmsFile × SweepResult :=
  if !cfg.enabled then (d, { kept := d.messages })
  else
    let out := d.messages.foldl (sortOut cfg now) {}
    ({ d with messages := out.kept }, out)

def delete (d : SmsFile) (id : Uuid) : SmsFile := { d with messages := d.messages.filter fun m => m.id ≠ id }

end SmsFile

/-- One call on the queue. -/
inductive Op
  | store (id : Uuid) (sourceIssi destination : UInt32) (lengthBits : UInt16) (data : Bytes) (now : UInt64)
  | takeNextDue (issi : UInt32) (force : Bool) (now : UInt64) (uuid : Uuid)
  | release (uuid : Uuid)
  | onReport (uuid : Uuid)
  | sweep (now : UInt64)
  | delete (id : Uuid)

namespace SmsFile

def apply (cfg : SmsCenterConfig) (d : SmsFile) : Op → SmsFile
  | .store id sourceIssi destination lengthBits data now =>
    (d.store cfg id sourceIssi destination lengthBits data now).1
  | .takeNextDue issi force now uuid => ((d.takeNextDue cfg issi force now uuid).map Prod.fst).getD d
  | .release uuid => d.release uuid
  | .onReport uuid => d.onReport uuid
  | .sweep now => (d.sweep cfg now).1
  | .delete id => d.delete id

/-- The attempts awaiting a report. -/
def inFlight (d : SmsFile) : List Uuid := d.messages.filterMap StoredSms.inFlight

end SmsFile

/-- A delivery gets a uuid that no attempt in flight has. -/
def Op.Fresh (d : SmsFile) : Op → Prop
  | .takeNextDue _ _ _ uuid => uuid ∉ d.inFlight
  | _ => True

instance (d : SmsFile) (op : Op) : Decidable (op.Fresh d) := by cases op <;> unfold Op.Fresh <;> infer_instance

end BrewServer.Sms
