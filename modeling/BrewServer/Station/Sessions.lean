import BrewServer.Lib.SessionTable
import BrewServer.Lib.Transition

/-!
# Basestation sessions

The telemetry and control channels of the Basestations, each with a table keyed by
the identity a connection authenticated as, and the roaming kick that connects
the two.
-/

namespace BrewServer.Station

abbrev ConnId := ℕ

inductive RegKind
  | register
  | deregister
  | timeout
  | roamed
  deriving DecidableEq

structure RegLogEntry where
  atMs : UInt64
  issi : UInt32
  kind : RegKind
  roamedTo : Option String := none
  deriving DecidableEq

/-- What a Basestation reports over telemetry, so far as the events below touch it. -/
structure TelemetryBts where
  id : String
  ip : Option String
  lastEventAtMs : UInt64
  registrations : FinSet UInt32 := ∅
  recentRegs : List RegLogEntry := []
  msCell : FinMap UInt32 UInt8 := ∅
  emergencies : FinSet UInt32 := ∅
  deriving DecidableEq

structure CellInfo where
  id : UInt8
  registeredIssis : Option (List UInt32)

inductive TelemetryEvent
  | msRegistration (issi : UInt32)
  | msDeregistration (issi : UInt32)
  | msCell (issi : UInt32) (cell : UInt8)
  | msTimeoutDrop (issi : UInt32)
  | cellsSnapshot (cells : List CellInfo)
  | emergencyAlarm (sourceIssi : UInt32)
  | emergencyCancel (sourceIssi : UInt32)
  /-- An event that only refreshes what the dashboard shows. -/
  | other

/-- A control session. Its queue takes frames while the writer behind it runs. -/
structure ControlSession where
  writer : Bool := true
  /-- Who waits for the response to a kick. -/
  pendingKick : FinMap UInt32 ℕ := ∅
  deriving DecidableEq

/-- A kick on its way to a Basestation the radio left. -/
structure Kick where
  issi : UInt32
  old : String
  /-- Whether the delay is over and the radio was found not to be back. -/
  checked : Bool := false
  deriving DecidableEq

/-- What has happened, in order. -/
inductive Entry
  | registered (issi : UInt32) (bts : String)
  /-- A registration took the ISSI away from a Basestation. -/
  | took (kick : ℕ) (issi : UInt32) (bts : String)
  /-- A kick falls due. -/
  | due (kick : ℕ)
  /-- A kick is sent, to a Basestation that takes frames or not. -/
  | tried (kick : ℕ) (takesFrames : Bool)
  /-- A `KickMs` was queued. -/
  | kicked (kick : ℕ) (issi : UInt32) (bts : String)
  deriving DecidableEq

structure Stations where
  telemetry : SessionTable ConnId String TelemetryBts := {}
  /-- The Basestation each ISSI most recently registered on. -/
  lastRegistration : FinMap UInt32 String := ∅
  control : SessionTable ConnId String ControlSession := {}
  kicks : FinMap ℕ Kick := ∅
  nextKick : ℕ := 0
  log : List Entry := []

namespace TelemetryBts

def pushRegEntry (b : TelemetryBts) (entry : RegLogEntry) : TelemetryBts :=
  { b with recentRegs := (entry :: b.recentRegs).take 50 }

def pushReg (b : TelemetryBts) (nowMs : UInt64) (issi : UInt32) (kind : RegKind) : TelemetryBts :=
  b.pushRegEntry { atMs := nowMs, issi, kind }

def syncRegistrations (b : TelemetryBts) : TelemetryBts :=
  { b with msCell := b.msCell.filter fun issi _ => b.registrations.contains issi }

/-- When every cell lists its registered ISSIs, the registrations are those. -/
def applyCellsSnapshot (b : TelemetryBts) (cells : List CellInfo) : TelemetryBts :=
  if cells.all fun c => c.registeredIssis.isSome then
    let listed := cells.flatMap fun c => (c.registeredIssis.getD []).map fun issi => (issi, c.id)
    syncRegistrations { b with
      registrations := FinSet.ofList (listed.map Prod.fst)
      msCell := if 1 < cells.length then listed.foldl (fun m e => m.insert e.1 e.2) ∅ else ∅ }
  else b

/-- What an event does to its Basestation. -/
def apply (kickOldIssi : Bool) (nowMs : UInt64) (b : TelemetryBts) : TelemetryEvent → TelemetryBts
  | .msRegistration issi =>
    (syncRegistrations { b with registrations := b.registrations.insert issi }).pushReg nowMs issi .register
  | .msDeregistration issi =>
    let removed := syncRegistrations { b with registrations := b.registrations.erase issi }
    -- Already logged when it moved away and was kicked here.
    if b.registrations.contains issi || !kickOldIssi then removed.pushReg nowMs issi .deregister else removed
  | .msCell issi cell =>
    if b.registrations.contains issi then syncRegistrations { b with msCell := b.msCell.insert issi cell } else b
  | .msTimeoutDrop issi =>
    (syncRegistrations { b with registrations := b.registrations.erase issi }).pushReg nowMs issi .timeout
  | .cellsSnapshot cells => b.applyCellsSnapshot cells
  | .emergencyAlarm sourceIssi => { b with emergencies := b.emergencies.insert sourceIssi }
  | .emergencyCancel sourceIssi => { b with emergencies := b.emergencies.erase sourceIssi }
  | .other => b

/-- A radio that registered on `newBts` is dropped from another Basestation. -/
def roam (nowMs : UInt64) (issi : UInt32) (newBts : String) (b : TelemetryBts) : TelemetryBts :=
  (syncRegistrations { b with registrations := b.registrations.erase issi, msCell := b.msCell.erase issi }).pushRegEntry
    { atMs := nowMs, issi, kind := .roamed, roamedTo := some newBts }

end TelemetryBts

/-- Whether a Basestation is one that a radio leaves by registering on `newBts`. -/
def leaves (issi : UInt32) (newBts id : String) (b : TelemetryBts) : Bool :=
  id != newBts && b.registrations.contains issi

/-- `issi` just registered on `newBts`: every other Basestation that still lists
it drops it, and those are to be kicked. -/
def takeRoamed (t : SessionTable ConnId String TelemetryBts) (nowMs : UInt64) (issi : UInt32) (newBts : String) :
    SessionTable ConnId String TelemetryBts × List String :=
  (t.amend fun id b => if leaves issi newBts id b then b.roam nowMs issi newBts else b,
    (t.entries.toList.filter fun e => leaves issi newBts e.1 e.2.2).map Prod.fst)

/-- Whether a Basestation lists an ISSI. -/
def lists (t : SessionTable ConnId String TelemetryBts) (issi : UInt32) (id : String) : Bool :=
  (t.entries[id]?).any fun e => e.2.registrations.contains issi

/-- The Basestations that listed an ISSI before and do not now. -/
def lost (t t' : SessionTable ConnId String TelemetryBts) (issi : UInt32) : List String :=
  t.entries.keys.filter fun id => lists t issi id && !lists t' issi id

/-- The kicks a registration starts, by number. -/
def startKicks (s : Stations) (issi : UInt32) (olds : List String) : Stations :=
  { s with
    kicks := (olds.zipIdx s.nextKick).foldl (fun m e => m.insert e.2 { issi, old := e.1 }) s.kicks
    nextKick := s.nextKick + olds.length }

/-- `handle_event` for a connection of the Basestation `id`. -/
def handleEvent (kickOldIssi : Bool) (s : Stations) (nowMs : UInt64) (id : String) (event : TelemetryEvent) : Stations :=
  match s.telemetry.entries[id]? with
  | none => s
  | some _ =>
    let applied := s.telemetry.amend fun id' b =>
      if id' = id then TelemetryBts.apply kickOldIssi nowMs { b with lastEventAtMs := nowMs } event else b
    match event with
    | .msRegistration issi =>
      let (telemetry, olds) := if kickOldIssi then takeRoamed applied nowMs issi id else (applied, [])
      let started := startKicks s issi olds
      { started with
        telemetry
        lastRegistration := s.lastRegistration.insert issi id
        log := s.log ++ [.registered issi id] ++
          ((lost s.telemetry telemetry issi).zipIdx s.nextKick).map fun e => .took e.2 issi e.1 }
    | _ => { s with telemetry := applied }

/-- Whether a Basestation has a control session whose writer runs. -/
def takesFrames (s : Stations) (id : String) : Bool := (s.control.entries[id]?).any fun e => e.2.writer

/-- `send_command` with the `KickMs` of a kick: whether its frame was queued. -/
def sendKick (t : SessionTable ConnId String ControlSession) (n : ℕ) (k : Kick) :
    SessionTable ConnId String ControlSession × Bool :=
  match t.entries[k.old]? with
  | none => (t, false)
  | some e =>
    (t.amend fun id c => if id = k.old then { c with pendingKick := c.pendingKick.insert k.issi n } else c, e.2.writer)

/-- The delay of a kick is over: unless the radio is back, it goes on. -/
def checkKick (s : Stations) (n : ℕ) : Stations :=
  match s.kicks[n]? with
  | none => s
  | some k =>
    if k.checked then s
    else
      { s with
        kicks := if s.lastRegistration[k.issi]? = some k.old then s.kicks.erase n
          else s.kicks.insert n { k with checked := true }
        log := s.log ++ [.due n] }

/-- A kick that goes on is sent. -/
def finishKick (s : Stations) (n : ℕ) : Stations :=
  match s.kicks[n]? with
  | none => s
  | some k =>
    if !k.checked then s
    else
      let (control, queued) := sendKick s.control n k
      { s with
        control
        kicks := s.kicks.erase n
        log := s.log ++ [.tried n (takesFrames s k.old)] ++ if queued then [.kicked n k.issi k.old] else [] }

/-- One critical section of a session or of a kick. -/
inductive Step
  | telemetryOpen (conn : ConnId) (id : String) (ip : Option String) (nowMs : UInt64)
  | telemetryEvent (conn : ConnId) (nowMs : UInt64) (event : TelemetryEvent)
  | telemetryClose (conn : ConnId)
  | controlOpen (conn : ConnId) (id : String)
  /-- The Basestation answers a kick. -/
  | kickResponse (conn : ConnId) (issi : UInt32)
  /-- The writer of a Basestation's session ends. -/
  | writerStops (id : String)
  | controlClose (conn : ConnId)
  | kickDue (kick : ℕ)
  | kickSend (kick : ℕ)

namespace Stations

def next (kickOldIssi : Bool) (s : Stations) : Step → Stations
  | .telemetryOpen conn id ip nowMs =>
    { s with telemetry := s.telemetry.start conn id { id, ip, lastEventAtMs := nowMs } }
  | .telemetryEvent conn nowMs event =>
    match s.telemetry.identityOf conn with
    | none => s
    | some id => handleEvent kickOldIssi s nowMs id event
  | .telemetryClose conn => { s with telemetry := s.telemetry.stop conn }
  | .controlOpen conn id => { s with control := s.control.start conn id {} }
  | .kickResponse conn issi =>
    match s.control.identityOf conn with
    | none => s
    | some id => { s with control := s.control.amend fun id' c =>
        if id' = id then { c with pendingKick := c.pendingKick.erase issi } else c }
  | .writerStops id =>
    { s with control := s.control.amend fun id' c => if id' = id then { c with writer := false } else c }
  | .controlClose conn => { s with control := s.control.stop conn }
  | .kickDue n => checkKick s n
  | .kickSend n => finishKick s n

/-- The entry of every identity is that of its newest connection while that is
open, on both channels. -/
def Live (s : Stations) : Prop := s.telemetry.Live ∧ s.control.Live

end Stations

/-- A close comes after those of every newer connection of its identity. -/
def Step.InOrder (s : Stations) : Step → Prop
  | .telemetryClose conn => s.telemetry.InOrder conn
  | .controlClose conn => s.control.InOrder conn
  | _ => True

section Live

variable {kick : Bool} {s : Stations}

theorem live_handleEvent (h : s.Live) (nowMs : UInt64) (id : String) (event : TelemetryEvent) :
    (handleEvent kick s nowMs id event).Live := by
  unfold handleEvent
  split
  · exact h
  · split
    · refine ⟨?_, h.2⟩
      cases kick with
      | false => exact h.1.amend
      | true => exact h.1.amend.amend
    · exact ⟨h.1.amend, h.2⟩

theorem live_sendKick {t : SessionTable ConnId String ControlSession} (h : t.Live) (n : ℕ) (k : Kick) :
    (sendKick t n k).1.Live := by
  unfold sendKick
  split
  · exact h
  · exact h.amend

theorem live_finishKick (h : s.Live) (n : ℕ) : (finishKick s n).Live := by
  unfold finishKick
  split
  · exact h
  · split
    · exact h
    · exact ⟨h.1, live_sendKick h.2 n _⟩

/-- A step keeps the tables live exactly when it is in order. -/
theorem live_next_iff (h : s.Live) (x : Step) : (s.next kick x).Live ↔ x.InOrder s := by
  cases x with
  | telemetryClose conn =>
    exact ⟨fun hlive => (SessionTable.live_stop_iff h.1).mp hlive.1,
      fun horder => ⟨(SessionTable.live_stop_iff h.1).mpr horder, h.2⟩⟩
  | controlClose conn =>
    exact ⟨fun hlive => (SessionTable.live_stop_iff h.2).mp hlive.2,
      fun horder => ⟨h.1, (SessionTable.live_stop_iff h.2).mpr horder⟩⟩
  | telemetryOpen conn id ip nowMs => exact ⟨fun _ => trivial, fun _ => ⟨h.1.start, h.2⟩⟩
  | controlOpen conn id => exact ⟨fun _ => trivial, fun _ => ⟨h.1, h.2.start⟩⟩
  | telemetryEvent conn nowMs event =>
    refine ⟨fun _ => trivial, fun _ => ?_⟩
    rw [Stations.next]
    split
    · exact h
    · exact live_handleEvent h nowMs _ event
  | kickResponse conn issi =>
    refine ⟨fun _ => trivial, fun _ => ?_⟩
    rw [Stations.next]
    split
    · exact h
    · exact ⟨h.1, h.2.amend⟩
  | writerStops id => exact ⟨fun _ => trivial, fun _ => ⟨h.1, h.2.amend⟩⟩
  | kickDue n =>
    refine ⟨fun _ => trivial, fun _ => ?_⟩
    rw [Stations.next]
    unfold checkKick
    split
    · exact h
    · split
      · exact h
      · exact h
  | kickSend n => exact ⟨fun _ => trivial, fun _ => live_finishKick h n⟩

theorem live_start : Stations.Live {} := ⟨SessionTable.live_empty, SessionTable.live_empty⟩

/-- The entries are the newest connections' throughout a run exactly where every
close in it is in order. -/
theorem live_run_iff (kick : Bool) (xs : List Step) :
    (∀ pre, pre <+: xs → (pre.foldl (Stations.next kick) {}).Live) ↔
      ∀ pre x, pre ++ [x] <+: xs → x.InOrder (pre.foldl (Stations.next kick) {}) :=
  foldl_iff live_start (fun _ hs => hs) (fun _ x hs hx => (live_next_iff hs x).mpr hx) fun _ x hs => live_next_iff hs x

end Live

/-- A station reconnects before its old connection is closed: it loses the entry
of the new one. -/
theorem not_live_run : ¬ ∀ (kick : Bool) (xs : List Step), (xs.foldl (Stations.next kick) {}).Live := by
  intro hall
  have hlost := (hall true [.telemetryOpen 1 "bts" none 0, .telemetryOpen 2 "bts" none 5, .telemetryClose 1]).1
    "bts" 2 (by decide +kernel) (by decide +kernel)
  revert hlost
  decide +kernel

end BrewServer.Station
