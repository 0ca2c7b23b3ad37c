import BrewServer.State
import BrewServer.Store.Log

/-!
# The monitor's history

The live lists and counters, the records they leave in the log, and what a restart
reads back from it. A start of a call that is already running replaces its record, and
the frames counted on it are in no record any more.
-/

namespace BrewServer.Storage

open Frames

/-- Puts an entry in front; no more than 200 are kept. -/
def pushRecent {α : Type} (x : α) (recent : List α) : List α := (x :: recent).take 200

/-- Counts a report on the latest SDS it is for. -/
def countReport (uuid : Uuid) : List SdsRecord → List SdsRecord
  | [] => []
  | r :: rs => if r.uuid = uuid then { r with reports := r.reports + 1 } :: rs else r :: countReport uuid rs

/-- The lists and counters of a monitor. -/
@[ext]
structure History where
  active : FinMap Uuid CallRecord := ∅
  calls : List CallRecord := []
  sds : List SdsRecord := []
  totalCalls : UInt64 := 0
  totalSds : UInt64 := 0
  voiceFrames : UInt64 := 0
  deriving DecidableEq

/-- Folds one persisted record into the history. -/
def applyRecord (i : History) : StoredRecord → History
  | .call r => { i with
      totalCalls := i.totalCalls + 1
      voiceFrames := i.voiceFrames + r.voiceFrames
      calls := pushRecent r i.calls }
  | .sds r => { i with totalSds := i.totalSds + 1, sds := pushRecent r i.sds }
  | .sdsReport uuid => { i with sds := countReport uuid i.sds }
  | .sdsTelemetry _ => i

structure Monitor where
  inner : History := {}
  store : Option Store := none

namespace Monitor

variable (B : Bincode)

/-- A monitor over a log, its history read back. -/
def withStore (s : Store) : Monitor := { inner := (replay B s.file).foldl applyRecord {}, store := some s }

def persist (m : Monitor) (r : StoredRecord) : Monitor := { m with store := m.store.map fun s => s.append B r }

def callStarted (m : Monitor) (nowMs : UInt64) (uuid : Uuid) (kind : Text) (source destination : UInt32)
    (priority : UInt8) : Monitor :=
  let r : CallRecord :=
    { uuid, kind, source, destination, priority, startedAtMs := nowMs, endedAtMs := none, voiceFrames := 0 }
  { m with inner := { m.inner with
      active := m.inner.active.insert uuid r
      totalCalls := if (m.inner.active[uuid]?).isNone then m.inner.totalCalls + 1 else m.inner.totalCalls } }

def callEnded (m : Monitor) (nowMs : UInt64) (uuid : Uuid) : Monitor :=
  match m.inner.active[uuid]? with
  | none => m
  | some r =>
    let ended := { r with endedAtMs := some nowMs }
    persist B { m with inner := { m.inner with
      active := m.inner.active.erase uuid
      calls := pushRecent ended m.inner.calls } } (.call ended)

def voiceFrame (m : Monitor) (uuid : Uuid) : Monitor :=
  { m with inner := { m.inner with
      voiceFrames := m.inner.voiceFrames + 1
      active := m.inner.active.modify uuid fun r => { r with voiceFrames := r.voiceFrames + 1 } } }

def sds (m : Monitor) (nowMs : UInt64) (uuid : Uuid) (source destination : UInt32) : Monitor :=
  let r : SdsRecord := { uuid, source, destination, atMs := nowMs, reports := 0 }
  persist B { m with inner := { m.inner with totalSds := m.inner.totalSds + 1, sds := pushRecent r m.inner.sds } } (.sds r)

def sdsReport (m : Monitor) (uuid : Uuid) : Monitor :=
  persist B { m with inner := { m.inner with sds := countReport uuid m.inner.sds } } (.sdsReport uuid)

end Monitor

/-- What a monitor is told, and when. -/
inductive MonitorOp
  | callStarted (nowMs : UInt64) (uuid : Uuid) (kind : Text) (source destination : UInt32) (priority : UInt8)
  | callEnded (nowMs : UInt64) (uuid : Uuid)
  | voiceFrame (uuid : Uuid)
  | sds (nowMs : UInt64) (uuid : Uuid) (source destination : UInt32)
  | sdsReport (uuid : Uuid)

def Monitor.next (B : Bincode) (m : Monitor) : MonitorOp → Monitor
  | .callStarted nowMs uuid kind source destination priority =>
    m.callStarted nowMs uuid kind source destination priority
  | .callEnded nowMs uuid => m.callEnded B nowMs uuid
  | .voiceFrame uuid => m.voiceFrame uuid
  | .sds nowMs uuid source destination => m.sds B nowMs uuid source destination
  | .sdsReport uuid => m.sdsReport B uuid

/-- The monitor of a server that is started again on the same log. -/
def Monitor.restarted (B : Bincode) (m : Monitor) : Monitor :=
  .withStore B (Store.open ((m.store.map Store.file).getD []))

/-! ## What the log keeps -/

/-- What an operation writes to the log. -/
def MonitorOp.record (i : History) : MonitorOp → Option StoredRecord
  | .callStarted .. | .voiceFrame _ => none
  | .callEnded nowMs uuid => (i.active[uuid]?).map fun r => .call { r with endedAtMs := some nowMs }
  | .sds nowMs uuid source destination => some (.sds ⟨uuid, source, destination, nowMs, 0⟩)
  | .sdsReport uuid => some (.sdsReport uuid)

/-- The call a voice frame is of. -/
def MonitorOp.voiceOf : MonitorOp → Option Uuid
  | .voiceFrame uuid => some uuid
  | _ => none

/-- Voice is of an active call, and what is written can be. -/
structure MonitorOp.Regular (B : Bincode) (i : History) (op : MonitorOp) : Prop where
  active : ∀ uuid ∈ op.voiceOf, uuid ∈ i.active
  appended : ∀ r ∈ op.record i, (B.serialize r).length < 256 ^ 4

/-- The frames counted on the record an operation replaces. -/
def MonitorOp.overwrites (i : History) : MonitorOp → UInt64
  | .callStarted _ uuid .. => ((i.active[uuid]?).map CallRecord.voiceFrames).getD 0
  | _ => 0

/-- Every operation of a run is regular. -/
def RegularRun (B : Bincode) : Monitor → List MonitorOp → Prop
  | _, [] => True
  | m, op :: ops => op.Regular B m.inner ∧ RegularRun B (m.next B op) ops

/-- The frames counted on all the records a run replaces. -/
def overwritten (B : Bincode) : Monitor → List MonitorOp → UInt64
  | _, [] => 0
  | m, op :: ops => op.overwrites m.inner + overwritten B (m.next B op) ops

/-- The log holds the history of the calls that have ended; what the others count, and
what was counted on replaced records, is the monitor's alone. -/
structure Recorded (B : Bincode) (m : Monitor) (lost : UInt64) (rs : List B.Stored) : Prop where
  file : ∃ s, m.store = some s ∧ s.file = log B rs
  calls : m.inner.calls = ((rs.map Subtype.val).foldl applyRecord {}).calls
  sds : m.inner.sds = ((rs.map Subtype.val).foldl applyRecord {}).sds
  totalSds : m.inner.totalSds = ((rs.map Subtype.val).foldl applyRecord {}).totalSds
  totalCalls : m.inner.totalCalls =
    ((rs.map Subtype.val).foldl applyRecord {}).totalCalls + FinMap.total 0 (fun _ => 1) m.inner.active
  voiceFrames : m.inner.voiceFrames =
    ((rs.map Subtype.val).foldl applyRecord {}).voiceFrames + FinMap.total 0 CallRecord.voiceFrames m.inner.active + lost

section Steps

variable {B : Bincode} {m : Monitor} {lost : UInt64} {rs : List B.Stored}

theorem foldl_stored (rs : List B.Stored) (r : B.Stored) :
    ((rs ++ [r]).map Subtype.val).foldl applyRecord {} = applyRecord ((rs.map Subtype.val).foldl applyRecord {}) r.1 := by
  rw [List.map_append, List.foldl_append]
  rfl

theorem file_persist {s : Store} (r : B.Stored) (h : s.file = log B rs) : (s.append B r.1).file = log B (rs ++ [r]) := by
  rw [file_append, h, log_append, log_singleton]

/-- A call that starts again takes its frames with it. -/
theorem Recorded.callStarted (h : Recorded B m lost rs) (nowMs : UInt64) (uuid : Uuid) (kind : Text)
    (source destination : UInt32) (priority : UInt8) :
    Recorded B (m.callStarted nowMs uuid kind source destination priority)
      (((m.inner.active[uuid]?).map CallRecord.voiceFrames).getD 0 + lost) rs := by
  have hcalls := h.totalCalls
  have hframes := h.voiceFrames
  constructor
  · exact h.file
  · exact h.calls
  · exact h.sds
  · exact h.totalSds
  · change (if (m.inner.active[uuid]?).isNone then m.inner.totalCalls + 1 else m.inner.totalCalls) =
      _ + FinMap.total 0 (fun _ => 1) (m.inner.active.insert uuid _)
    cases hr : m.inner.active[uuid]? with
    | none =>
      rw [FinMap.total_insert_new hr, Option.isNone_none, if_pos rfl, hcalls]
      grind
    | some r =>
      have hold := FinMap.total_insert_old (z := (0 : UInt64)) (f := fun _ : CallRecord => (1 : UInt64))
        (v := ⟨uuid, kind, source, destination, priority, nowMs, none, 0⟩) hr
      rw [Option.isNone_some, if_neg Bool.false_ne_true, hcalls]
      grind
  · change m.inner.voiceFrames = _ + FinMap.total 0 CallRecord.voiceFrames (m.inner.active.insert uuid _) + _
    cases hr : m.inner.active[uuid]? with
    | none =>
      rw [FinMap.total_insert_new hr, Option.map_none, Option.getD_none, hframes]
      grind
    | some r =>
      have hold := FinMap.total_insert_old (z := (0 : UInt64)) (f := CallRecord.voiceFrames)
        (v := ⟨uuid, kind, source, destination, priority, nowMs, none, 0⟩) hr
      rw [Option.map_some, Option.getD_some, hframes]
      grind

/-- A call that ends is written, and its frames with it. -/
theorem Recorded.callEnded (h : Recorded B m lost rs) (nowMs : UInt64) {uuid : Uuid} {r : CallRecord}
    (hr : m.inner.active[uuid]? = some r) (r' : B.Stored) (hr' : r'.1 = .call { r with endedAtMs := some nowMs }) :
    Recorded B (m.callEnded B nowMs uuid) lost (rs ++ [r']) := by
  have hcalls := h.totalCalls
  have hframes := h.voiceFrames
  have hone := FinMap.total_of_getElem? (z := (0 : UInt64)) (f := fun _ : CallRecord => (1 : UInt64)) hr
  have hvoice := FinMap.total_of_getElem? (z := (0 : UInt64)) (f := CallRecord.voiceFrames) hr
  obtain ⟨s, hs, hfile⟩ := h.file
  unfold Monitor.callEnded
  rw [hr]
  dsimp only
  rw [← hr']
  constructor
  · refine ⟨s.append B r'.1, ?_, file_persist r' hfile⟩
    show m.store.map _ = _
    rw [hs, Option.map_some]
  · rw [foldl_stored, hr']
    show pushRecent _ m.inner.calls = pushRecent _ _
    rw [h.calls]
  · rw [foldl_stored, hr']
    exact h.sds
  · rw [foldl_stored, hr']
    exact h.totalSds
  · rw [foldl_stored, hr']
    show m.inner.totalCalls = _ + 1 + FinMap.total 0 _ (m.inner.active.erase uuid)
    rw [hcalls, hone]
    grind
  · rw [foldl_stored, hr']
    show m.inner.voiceFrames = _ + r.voiceFrames + FinMap.total 0 _ (m.inner.active.erase uuid) + lost
    rw [hframes, hvoice]
    grind

theorem Recorded.voiceFrame (h : Recorded B m lost rs) {uuid : Uuid} {r : CallRecord}
    (hr : m.inner.active[uuid]? = some r) : Recorded B (m.voiceFrame uuid) lost rs := by
  have hcalls := h.totalCalls
  have hframes := h.voiceFrames
  constructor
  · exact h.file
  · exact h.calls
  · exact h.sds
  · exact h.totalSds
  · show m.inner.totalCalls = _ + FinMap.total 0 _ (m.inner.active.modify uuid _)
    have hold := FinMap.total_insert_old (z := (0 : UInt64)) (f := fun _ : CallRecord => (1 : UInt64))
      (v := { r with voiceFrames := r.voiceFrames + 1 }) hr
    rw [FinMap.modify_eq_insert hr, hcalls]
    grind
  · show m.inner.voiceFrames + 1 = _ + FinMap.total 0 _ (m.inner.active.modify uuid _) + lost
    have hold := FinMap.total_insert_old (z := (0 : UInt64)) (f := CallRecord.voiceFrames)
      (v := { r with voiceFrames := r.voiceFrames + 1 }) hr
    rw [FinMap.modify_eq_insert hr, hframes]
    grind

/-- An SDS or a report on one does to the history what its record does. -/
theorem Recorded.written (h : Recorded B m lost rs) {i : History} (r : B.Stored)
    (hactive : i.active = m.inner.active) (hcalls : i.calls = m.inner.calls)
    (htotal : i.totalCalls = m.inner.totalCalls) (hvoice : i.voiceFrames = m.inner.voiceFrames)
    (happly : ∀ j : History, j.sds = m.inner.sds → j.totalSds = m.inner.totalSds →
      (applyRecord j r.1).sds = i.sds ∧ (applyRecord j r.1).totalSds = i.totalSds ∧
        (applyRecord j r.1).calls = j.calls ∧ (applyRecord j r.1).totalCalls = j.totalCalls ∧
        (applyRecord j r.1).voiceFrames = j.voiceFrames) :
    Recorded B (Monitor.persist B { m with inner := i } r.1) lost (rs ++ [r]) := by
  obtain ⟨s, hs, hfile⟩ := h.file
  obtain ⟨hsds, htotalSds, hcalls', htotal', hvoice'⟩ :=
    happly ((rs.map Subtype.val).foldl applyRecord {}) h.sds.symm h.totalSds.symm
  constructor
  · refine ⟨s.append B r.1, ?_, file_persist r hfile⟩
    show m.store.map _ = _
    rw [hs, Option.map_some]
  · rw [foldl_stored, hcalls', ← h.calls]
    exact hcalls
  · rw [foldl_stored, hsds]
    rfl
  · rw [foldl_stored, htotalSds]
    rfl
  · rw [foldl_stored, htotal']
    show i.totalCalls = _ + FinMap.total 0 _ i.active
    rw [hactive, htotal, h.totalCalls]
  · rw [foldl_stored, hvoice']
    show i.voiceFrames = _ + FinMap.total 0 _ i.active + lost
    rw [hactive, hvoice, h.voiceFrames]

/-- One operation. -/
theorem Recorded.next (h : Recorded B m lost rs) {op : MonitorOp} (hop : op.Regular B m.inner) :
    ∃ rs', Recorded B (m.next B op) (op.overwrites m.inner + lost) rs' := by
  cases op with
  | callStarted nowMs uuid kind source destination priority =>
    exact ⟨rs, h.callStarted nowMs uuid kind source destination priority⟩
  | callEnded nowMs uuid =>
    show ∃ rs', Recorded B (m.callEnded B nowMs uuid) (0 + lost) rs'
    rw [UInt64.zero_add]
    cases hr : m.inner.active[uuid]? with
    | none =>
      refine ⟨rs, ?_⟩
      unfold Monitor.callEnded
      rw [hr]
      exact h
    | some r =>
      have hfit := hop.appended (.call { r with endedAtMs := some nowMs })
        (Option.mem_def.mpr (congrArg (Option.map _) hr))
      exact ⟨_, h.callEnded nowMs hr ⟨_, hfit⟩ rfl⟩
  | voiceFrame uuid =>
    show ∃ rs', Recorded B (m.voiceFrame uuid) (0 + lost) rs'
    obtain ⟨r, hr⟩ := FinMap.mem_iff.mp (hop.active uuid rfl)
    rw [UInt64.zero_add]
    exact ⟨rs, h.voiceFrame hr⟩
  | sds nowMs uuid source destination =>
    show ∃ rs', Recorded B (m.sds B nowMs uuid source destination) (0 + lost) rs'
    have hfit := hop.appended _ rfl
    rw [UInt64.zero_add]
    refine ⟨_, h.written ⟨_, hfit⟩ rfl rfl rfl rfl ?_⟩
    intro j hsds htotal
    refine ⟨?_, ?_, rfl, rfl, rfl⟩
    · show pushRecent _ j.sds = pushRecent _ m.inner.sds
      rw [hsds]
    · show j.totalSds + 1 = m.inner.totalSds + 1
      rw [htotal]
  | sdsReport uuid =>
    show ∃ rs', Recorded B (m.sdsReport B uuid) (0 + lost) rs'
    have hfit := hop.appended _ rfl
    rw [UInt64.zero_add]
    refine ⟨_, h.written ⟨_, hfit⟩ rfl rfl rfl rfl ?_⟩
    intro j hsds htotal
    refine ⟨?_, htotal, rfl, rfl, rfl⟩
    show countReport uuid j.sds = countReport uuid m.inner.sds
    rw [hsds]

/-- A whole run. -/
theorem Recorded.run (ops : List MonitorOp) (h : Recorded B m lost rs) (hops : RegularRun B m ops) :
    ∃ rs', Recorded B (ops.foldl (Monitor.next B) m) (overwritten B m ops + lost) rs' := by
  induction ops generalizing m lost rs with
  | nil =>
    refine ⟨rs, ?_⟩
    rw [overwritten, UInt64.zero_add]
    exact h
  | cons op ops ih =>
    obtain ⟨rs', h'⟩ := h.next hops.1
    obtain ⟨rs'', h''⟩ := ih h' hops.2
    refine ⟨rs'', ?_⟩
    rw [overwritten, UInt64.add_comm (op.overwrites m.inner), UInt64.add_assoc]
    exact h''

end Steps

section Restart

variable {B : Bincode} {ops : List MonitorOp}

/-- A monitor over an empty log. -/
def Monitor.fresh (B : Bincode) : Monitor := .withStore B (Store.open [])

theorem active_applyRecord (records : List StoredRecord) (i : History) :
    (records.foldl applyRecord i).active = i.active := by
  induction records generalizing i with
  | nil => rfl
  | cons r records ih =>
    rw [List.foldl_cons, ih]
    cases r <;> rfl

theorem recorded_fresh : Recorded B (Monitor.fresh B) 0 [] := by
  have hnil : replay B [] = [] := replay_log (B := B) []
  have hinner : (Monitor.fresh B).inner = {} := by
    show (replay B []).foldl applyRecord {} = {}
    rw [hnil]
    rfl
  constructor
  · exact ⟨_, rfl, rfl⟩
  · rw [hinner]
    rfl
  · rw [hinner]
    rfl
  · rw [hinner]
    rfl
  · rw [hinner, FinMap.total_empty]
    rfl
  · rw [hinner, FinMap.total_empty]
    rfl

/-- A restart after the last call has ended gives the history back exactly when the
records that repeated starts replaced had counted nothing in all. -/
theorem history_survives_iff (hops : RegularRun B (Monitor.fresh B) ops)
    (hend : (ops.foldl (Monitor.next B) (Monitor.fresh B)).inner.active = ∅) :
    ((ops.foldl (Monitor.next B) (Monitor.fresh B)).restarted B).inner =
      (ops.foldl (Monitor.next B) (Monitor.fresh B)).inner ↔ overwritten B (Monitor.fresh B) ops = 0 := by
  obtain ⟨rs, h⟩ := recorded_fresh.run ops hops
  generalize ops.foldl (Monitor.next B) (Monitor.fresh B) = m at *
  obtain ⟨s, hs, hfile⟩ := h.file
  have hreplayed : (m.restarted B).inner = (rs.map Subtype.val).foldl applyRecord {} := by
    unfold Monitor.restarted
    rw [hs]
    show (replay B s.file).foldl applyRecord {} = _
    rw [hfile, replay_log]
  have hframes := h.voiceFrames
  have htotal := h.totalCalls
  rw [hend, FinMap.total_empty, UInt64.add_zero] at hframes htotal
  rw [UInt64.add_zero] at hframes
  rw [hreplayed]
  constructor
  · intro heq
    rw [heq] at hframes
    grind
  · intro hlost
    rw [hlost, UInt64.add_zero] at hframes
    apply History.ext
    · rw [active_applyRecord, hend]
    · exact h.calls.symm
    · exact h.sds.symm
    · exact htotal.symm
    · exact h.totalSds.symm
    · exact hframes.symm

end Restart

/-- A group call with one voice frame, and an SDS that is reported. -/
def oneCall : List MonitorOp :=
  [.callStarted 1 7 ⟨"group", by decide⟩ 90 1001 0, .voiceFrame 7, .sds 2 8 90 100, .callEnded 3 7, .sdsReport 8]

theorem history_oneCall :
    ((oneCall.foldl (Monitor.next Layout.bincode) (Monitor.fresh Layout.bincode)).restarted Layout.bincode).inner =
      (oneCall.foldl (Monitor.next Layout.bincode) (Monitor.fresh Layout.bincode)).inner := by
  have hops : RegularRun Layout.bincode (Monitor.fresh Layout.bincode) oneCall := by
    refine ⟨⟨nofun, nofun⟩, ⟨?_, nofun⟩, ⟨nofun, ?_⟩, ⟨nofun, ?_⟩, ⟨nofun, ?_⟩, trivial⟩
    · rintro _ ⟨⟩
      decide +kernel
    · rintro _ ⟨⟩
      decide +kernel
    · rintro _ ⟨⟩
      decide +kernel
    · rintro _ ⟨⟩
      decide +kernel
  exact (history_survives_iff hops (by decide +kernel)).mpr (by decide +kernel)

/-- The talker of a group call changes after a voice frame. -/
def talkerChange : List MonitorOp :=
  [.callStarted 1 7 ⟨"group", by decide⟩ 90 1001 0, .voiceFrame 7, .callStarted 2 7 ⟨"group", by decide⟩ 91 1001 0,
    .callEnded 3 7]

/-- The frame of the first talker is not in the history that is read back. -/
theorem not_history_talkerChange :
    ¬ ∀ (B : Bincode) (ops : List MonitorOp), RegularRun B (Monitor.fresh B) ops →
      (ops.foldl (Monitor.next B) (Monitor.fresh B)).inner.active = ∅ →
      ((ops.foldl (Monitor.next B) (Monitor.fresh B)).restarted B).inner.voiceFrames =
        (ops.foldl (Monitor.next B) (Monitor.fresh B)).inner.voiceFrames := by
  intro hall
  have hops : RegularRun Layout.bincode (Monitor.fresh Layout.bincode) talkerChange := by
    refine ⟨⟨nofun, nofun⟩, ⟨?_, nofun⟩, ⟨nofun, nofun⟩, ⟨nofun, ?_⟩, trivial⟩
    · rintro _ ⟨⟩
      decide +kernel
    · rintro _ ⟨⟩
      decide +kernel
  have hframes := hall Layout.bincode talkerChange hops (by decide +kernel)
  exact absurd hframes (by decide +kernel)

end BrewServer.Storage
