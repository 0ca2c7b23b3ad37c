import BrewServer.Lib.Correlation
import BrewServer.Lib.FinMap
import BrewServer.Lib.Transition

/-!
# Commands to a basestation and their answers

A command goes out on the control channel of a station. Its answer is matched by the
handle the server gave it, or, for a kick and for ambience listening, by the ISSI alone.
-/

namespace BrewServer

open Correlation

inductive ControlCommand
  | sendSds (handle sourceSsi destSsi : UInt32) (destIsGroup : Bool) (lenBits : UInt16) (payload : List UInt8)
  | sendRawSdsType4 (handle sourceSsi destSsi : UInt32) (destIsGroup : Bool) (lenBits : UInt16) (payload : List UInt8)
  | kickMs (issi : UInt32)
  | dgna (issi gssi : UInt32) (mnemonic : Option String) (attachmentMode : UInt8) (attach : Bool)
  | restartService
  | shutdownService
  | addLiveSds (text : String) (protocolId : UInt8) (sourceIssi repeatCount : UInt32)
  | deleteLiveSds (id : UInt32)
  | clearLiveSds
  | clearEmergency (issi : UInt32)
  | commandA (handle parameter : UInt32)
  | testCmdB (handle sourceSsi : UInt32) (isGroup : Bool) (payload : List UInt8)
  | ambienceListen (issi : UInt32) (enable : Bool)
  deriving DecidableEq

inductive ControlResponse
  | commandAResponse (handle result : UInt32)
  | sendSdsResponse (handle : UInt32) (success : Bool)
  | kickMsResponse (issi : UInt32) (success : Bool)
  | ambienceListenResponse (issi : UInt32) (success : Bool)
  deriving DecidableEq

/-- A control channel. A waiter is known by the number of its command. -/
structure ControlSession where
  /-- The frames handed to the writer, oldest first. -/
  tx : List ControlCommand := []
  /-- Whether the writer still takes frames. -/
  writing : Bool := true
  pendingHandle : FinMap UInt32 ℕ := ∅
  pendingKick : FinMap UInt32 ℕ := ∅
  pendingAmbience : FinMap UInt32 ℕ := ∅

structure ControlState where
  sessions : FinMap String ControlSession
  nextHandle : UInt32

def ControlState.put (ctl : ControlState) (id : String) (session : ControlSession) : ControlState :=
  { ctl with sessions := ctl.sessions.insert id session }

namespace ControlCommand

def handle : ControlCommand → Option UInt32
  | sendSds handle .. => some handle
  | sendRawSdsType4 handle .. => some handle
  | commandA handle _ => some handle
  | testCmdB handle .. => some handle
  | _ => none

/-- The command under the handle it is sent with. -/
def assign (fresh : UInt32) : ControlCommand → ControlCommand
  | sendSds _ source dest isGroup lenBits payload => sendSds fresh source dest isGroup lenBits payload
  | sendRawSdsType4 _ source dest isGroup lenBits payload => sendRawSdsType4 fresh source dest isGroup lenBits payload
  | commandA _ parameter => commandA fresh parameter
  | testCmdB _ source isGroup payload => testCmdB fresh source isGroup payload
  | command => command

end ControlCommand

/-- The waiter that is to be told of the answer to a command, and the one it takes the
place of; most commands have none. -/
def ControlSession.await (session : ControlSession) (waiter : ℕ) :
    ControlCommand → Option (ControlSession × Option ℕ)
  | .kickMs issi =>
    some ({ session with pendingKick := session.pendingKick.insert issi waiter }, session.pendingKick[issi]?)
  | .ambienceListen issi _ =>
    some ({ session with pendingAmbience := session.pendingAmbience.insert issi waiter },
      session.pendingAmbience[issi]?)
  | .sendSds handle .. =>
    some ({ session with pendingHandle := session.pendingHandle.insert handle waiter }, session.pendingHandle[handle]?)
  | .commandA handle _ =>
    some ({ session with pendingHandle := session.pendingHandle.insert handle waiter }, session.pendingHandle[handle]?)
  | _ => none

/-- What sending a command comes to, before its answer is awaited. -/
structure Sent where
  control : ControlState
  /-- The command under its fresh handle. -/
  command : ControlCommand
  waits : Bool
  replaced : Option ℕ
  /-- Whether the writer took the frame. -/
  written : Bool

def sendCommand (ctl : ControlState) (btsId : String) (command : ControlCommand) (waiter : ℕ) : Option Sent :=
  (ctl.sessions[btsId]?).map fun session =>
    let command := command.assign ctl.nextHandle
    let awaited := session.await waiter command
    let session := (awaited.map (·.1)).getD session
    let session := if session.writing then { session with tx := session.tx ++ [command] } else session
    { control := { ctl.put btsId session with nextHandle := ctl.nextHandle + 1 }
      command
      waits := awaited.isSome
      replaced := awaited.bind (·.2)
      written := session.writing }

/-- The tables after a response, and the waiter it is given to. -/
def handleResponse (ctl : ControlState) (id : String) (response : ControlResponse) : ControlState × Option ℕ :=
  match ctl.sessions[id]? with
  | none => (ctl, none)
  | some session =>
    match response with
    | .kickMsResponse issi _ =>
      (ctl.put id { session with pendingKick := session.pendingKick.erase issi }, session.pendingKick[issi]?)
    | .ambienceListenResponse issi _ =>
      (ctl.put id { session with pendingAmbience := session.pendingAmbience.erase issi },
        session.pendingAmbience[issi]?)
    | .commandAResponse handle _ =>
      (ctl.put id { session with pendingHandle := session.pendingHandle.erase handle }, session.pendingHandle[handle]?)
    | .sendSdsResponse handle _ =>
      (ctl.put id { session with pendingHandle := session.pendingHandle.erase handle }, session.pendingHandle[handle]?)

namespace Control

/-! ## Runs -/

/-- What an answer is matched by, at its station. -/
inductive Slot
  | handle (handle : UInt32)
  | kick (issi : UInt32)
  | ambience (issi : UInt32)
  deriving DecidableEq

abbrev Key := String × Slot

/-- A command that reached a control channel. -/
structure Command where
  station : String
  command : ControlCommand
  written : Bool

def slot : ControlCommand → Option Slot
  | .kickMs issi => some (.kick issi)
  | .ambienceListen issi _ => some (.ambience issi)
  | command => command.handle.map .handle

def Command.key (c : Command) : Option Key := (slot c.command).map (c.station, ·)

/-- Whether a response is one to this command. -/
def answers : ControlResponse → ControlCommand → Bool
  | .kickMsResponse issi _, .kickMs issi' => issi = issi'
  | .ambienceListenResponse issi _, .ambienceListen issi' _ => issi = issi'
  | .commandAResponse handle _, command => command.handle = some handle
  | .sendSdsResponse handle _, command => command.handle = some handle
  | _, _ => false

/-- The tables, the commands in the order of their sending, and what became of the
waiter of each. -/
structure World where
  control : ControlState
  commands : List Command := []
  requests : List (Request Key) := []

inductive Event
  | command (station : String) (command : ControlCommand)
  /-- The station answers its command `n`. -/
  | answer (n : ℕ) (response : ControlResponse)
  /-- The five seconds of command `n` are over. -/
  | timeout (n : ℕ)

/-- A station answers a command that it was sent, once. -/
def World.awaits (w : World) (n : ℕ) (response : ControlResponse) : Bool :=
  (w.commands[n]?).any (fun c => c.written && answers response c.command) &&
    (w.requests[n]?).any fun r => !r.answered

def World.command (w : World) (station : String) (command : ControlCommand) : World :=
  match sendCommand w.control station command w.commands.length with
  | none => w
  | some sent =>
    let c := ⟨station, sent.command, sent.written⟩
    { control := sent.control
      commands := w.commands ++ [c]
      requests := Book.dropAt w.requests sent.replaced ++
        [{ key := c.key, waits := sent.waits, expired := !sent.written,
           outcome := if sent.waits && sent.written then .waiting else .failed }] }

def World.answer (w : World) (n : ℕ) (response : ControlResponse) : World :=
  match w.commands[n]? with
  | none => w
  | some c =>
    if w.awaits n response then
      let (control, waiter) := handleResponse w.control c.station response
      { w with
        control
        requests := waiter.elim (w.requests.modify n .answer) fun m =>
          (w.requests.modify n .answer).modify m (.complete n) }
    else w

def World.timeout (w : World) (n : ℕ) : World := { w with requests := w.requests.modify n .expire }

def next (w : World) : Event → World
  | .command station command => w.command station command
  | .answer n response => w.answer n response
  | .timeout n => w.timeout n

/-- No command was sent yet. -/
structure Fresh (ctl : ControlState) : Prop where
  handle : ∀ (id : String) (session : ControlSession), ctl.sessions[id]? = some session → session.pendingHandle = ∅
  kick : ∀ (id : String) (session : ControlSession), ctl.sessions[id]? = some session → session.pendingKick = ∅
  ambience : ∀ (id : String) (session : ControlSession), ctl.sessions[id]? = some session → session.pendingAmbience = ∅

/-! ## The tables as one -/

def waiter (session : ControlSession) : Slot → Option ℕ
  | .handle handle => session.pendingHandle[handle]?
  | .kick issi => session.pendingKick[issi]?
  | .ambience issi => session.pendingAmbience[issi]?

def waiterOf (ctl : ControlState) (k : Key) : Option ℕ := (ctl.sessions[k.1]?).bind (waiter · k.2)

def answerSlot : ControlResponse → Slot
  | .kickMsResponse issi _ => .kick issi
  | .ambienceListenResponse issi _ => .ambience issi
  | .commandAResponse handle _ => .handle handle
  | .sendSdsResponse handle _ => .handle handle

/-- The run as requests answered by a key. -/
def World.book (w : World) : Book Key := ⟨w.requests, waiterOf w.control⟩

section Tables

variable {session session' : ControlSession} {ctl : ControlState} {id : String} {command : ControlCommand}
  {response : ControlResponse} {n : ℕ} {old : Option ℕ} {sent : Sent}

theorem slot_of_handle {h : UInt32} (hc : command.handle = some h) : slot command = some (.handle h) := by
  cases command <;> first | cases hc; rfl | cases hc

theorem slot_of_answers (h : answers response command = true) : slot command = some (answerSlot response) := by
  cases response with
  | kickMsResponse issi _ =>
    cases command <;> simp_all [answers, slot, answerSlot]
  | ambienceListenResponse issi _ =>
    cases command <;> simp_all [answers, slot, answerSlot]
  | commandAResponse handle _ => exact slot_of_handle (by simpa [answers] using h)
  | sendSdsResponse handle _ => exact slot_of_handle (by simpa [answers] using h)

theorem handle_assign {fresh h : UInt32} (hs : slot (command.assign fresh) = some (.handle h)) : h = fresh := by
  cases command <;> simp_all [ControlCommand.assign, slot, ControlCommand.handle]

/-- A waiter is put under the slot of its command, in the place of the one there. -/
theorem await_eq (h : session.await n command = some (session', old)) :
    ∃ s, slot command = some s ∧ old = waiter session s ∧
      ∀ s', waiter session' s' = if s' = s then some n else waiter session s' := by
  cases command <;> cases h
  all_goals
    refine ⟨_, rfl, rfl, fun s' => ?_⟩
    cases s' <;> simp [waiter, FinMap.getElem?_insert, eq_comm]

theorem slot_of_await (h : session.await n command = none) (hc : command.handle = none) : slot command = none := by
  cases command <;> simp_all [ControlSession.await, ControlCommand.handle, slot]

theorem waiterOf_put (k : Key) :
    waiterOf (ctl.put id session) k = if k.1 = id then waiter session k.2 else waiterOf ctl k := by
  unfold waiterOf ControlState.put
  dsimp only
  rw [FinMap.getElem?_insert]
  by_cases hid : k.1 = id
  · simp [hid]
  · rw [if_neg fun h => hid h.symm, if_neg hid]

/-- A session that replaces the one at hand changes the slots at its station only. -/
theorem waiterOf_put_of (hs : ctl.sessions[id]? = some session) {s : Slot} {v : Option ℕ}
    (h : ∀ s', waiter session' s' = if s' = s then v else waiter session s') (k : Key) :
    waiterOf (ctl.put id session') k = if k = (id, s) then v else waiterOf ctl k := by
  obtain ⟨id', s'⟩ := k
  rw [waiterOf_put, h]
  by_cases hid : id' = id
  · subst hid
    simp [waiterOf, hs]
  · simp [hid]

/-- A response goes to the waiter of its slot, which is empty then. -/
theorem handleResponse_eq : (handleResponse ctl id response).2 = waiterOf ctl (id, answerSlot response) ∧
    (handleResponse ctl id response).1.nextHandle = ctl.nextHandle ∧
    ∀ k, waiterOf (handleResponse ctl id response).1 k =
      if k = (id, answerSlot response) then none else waiterOf ctl k := by
  unfold handleResponse
  cases hs : ctl.sessions[id]? with
  | none =>
    have hnone : waiterOf ctl (id, answerSlot response) = none := by simp [waiterOf, hs]
    refine ⟨hnone.symm, rfl, fun k => ?_⟩
    by_cases hk : k = (id, answerSlot response)
    · rw [if_pos hk, hk]
      exact hnone
    · rw [if_neg hk]
  | some session =>
    cases response
    all_goals
      refine ⟨by simp [waiterOf, hs, waiter, answerSlot], rfl, waiterOf_put_of hs fun s' => ?_⟩
      cases s' <;> simp [waiter, answerSlot, FinMap.getElem?_erase, eq_comm]

/-- What sending a command does to the tables. -/
theorem sendCommand_eq (h : sendCommand ctl id command n = some sent) :
    sent.control.nextHandle = ctl.nextHandle + 1 ∧ sent.command = command.assign ctl.nextHandle ∧
    ((sent.waits = true ∧ ∃ s, slot sent.command = some s ∧ sent.replaced = waiterOf ctl (id, s) ∧
        ∀ k, waiterOf sent.control k = if k = (id, s) then some n else waiterOf ctl k) ∨
      (sent.waits = false ∧ sent.replaced = none ∧ (∀ k, waiterOf sent.control k = waiterOf ctl k) ∧
        (sent.command.handle = none → slot sent.command = none))) := by
  unfold sendCommand at h
  obtain ⟨session, hs, rfl⟩ := Option.map_eq_some_iff.mp h
  refine ⟨rfl, rfl, ?_⟩
  dsimp only
  have hwrite : ∀ session' : ControlSession, ∀ s, waiter (if session'.writing then
      { session' with tx := session'.tx ++ [command.assign ctl.nextHandle] } else session') s = waiter session' s := by
    intro session' s
    split
    · cases s <;> rfl
    · rfl
  cases hawait : session.await n (command.assign ctl.nextHandle) with
  | none =>
    right
    refine ⟨rfl, rfl, fun k => ?_, slot_of_await hawait⟩
    show waiterOf (ctl.put id _) k = _
    rw [waiterOf_put, hwrite]
    obtain ⟨id', s⟩ := k
    by_cases hid : id' = id
    · subst hid
      simp [waiterOf, hs]
    · simp [hid]
  | some found =>
    obtain ⟨session', old⟩ := found
    obtain ⟨s, hslot, hold, hafter⟩ := await_eq hawait
    left
    refine ⟨rfl, s, hslot, ?_, fun k => ?_⟩
    · rw [Option.bind_some, hold]
      simp [waiterOf, hs]
    · show waiterOf (ctl.put id _) k = _
      refine waiterOf_put_of hs (fun s' => ?_) k
      rw [hwrite]
      exact hafter s'

end Tables

/-! ## One step -/

/-- How the commands, the requests and the handles belong together. -/
structure Linked (start : UInt32) (w : World) : Prop where
  length : w.requests.length = w.commands.length
  key : ∀ (n : ℕ) (c : Command) (r : Request Key), w.commands[n]? = some c → w.requests[n]? = some r → r.key = c.key
  waits : ∀ (n : ℕ) (c : Command) (r : Request Key), w.commands[n]? = some c → w.requests[n]? = some r →
    c.command.handle = none → c.key.isSome = true → r.waits = true
  handle : ∀ (n : ℕ) (c : Command) (h : UInt32), w.commands[n]? = some c → slot c.command = some (.handle h) →
    h = start + UInt32.ofNat n
  nextHandle : w.control.nextHandle = start + UInt32.ofNat w.commands.length

/-- A request keeps its key, and whether it is waited for. -/
def Keeps (rs rs' : List (Request Key)) : Prop :=
  rs'.length = rs.length ∧ ∀ (n : ℕ) (r' : Request Key), rs'[n]? = some r' →
    ∃ r : Request Key, rs[n]? = some r ∧ r'.key = r.key ∧ r'.waits = r.waits

section Step

variable {start : UInt32} {w : World} {station : String} {cmd : ControlCommand} {response : ControlResponse}
  {n : ℕ} {sent : Sent} {c : Command} {rs : List (Request Key)}

theorem Keeps.modify {f : Request Key → Request Key} (hkey : ∀ r, (f r).key = r.key)
    (hwaits : ∀ r, (f r).waits = r.waits) : Keeps rs (rs.modify n f) := by
  refine ⟨List.length_modify .., fun m r' hr' => ?_⟩
  rw [List.getElem?_modify] at hr'
  obtain ⟨r, hr, rfl⟩ := Option.map_eq_some_iff.mp hr'
  refine ⟨r, hr, ?_, ?_⟩
  · split
    · exact hkey r
    · rfl
  · split
    · exact hwaits r
    · rfl

theorem Keeps.trans {rs' rs'' : List (Request Key)} (h : Keeps rs rs') (h' : Keeps rs' rs'') : Keeps rs rs'' := by
  refine ⟨h'.1.trans h.1, fun m r'' hr'' => ?_⟩
  obtain ⟨r', hr', hkey', hwaits'⟩ := h'.2 m r'' hr''
  obtain ⟨r, hr, hkey, hwaits⟩ := h.2 m r' hr'
  exact ⟨r, hr, hkey'.trans hkey, hwaits'.trans hwaits⟩

theorem keeps_dropAt {old : Option ℕ} : Keeps rs (Book.dropAt rs old) := by
  cases old with
  | none => exact ⟨rfl, fun m r hr => ⟨r, hr, rfl, rfl⟩⟩
  | some m => exact Keeps.modify (fun _ => Book.aside_drop.2.2.2.2) fun _ => Book.aside_drop.2.2.2.1

theorem Linked.keeps {w' : World} (h : Linked start w) (hcommands : w'.commands = w.commands)
    (hhandle : w'.control.nextHandle = w.control.nextHandle) (hkeeps : Keeps w.requests w'.requests) :
    Linked start w' := by
  constructor
  · rw [hkeeps.1, hcommands]
    exact h.length
  · intro n c r' hc hr'
    obtain ⟨r, hr, hkey, -⟩ := hkeeps.2 n r' hr'
    rw [hcommands] at hc
    exact hkey.trans (h.key n c r hc hr)
  · intro n c r' hc hr' hnone hsome
    obtain ⟨r, hr, -, hwaits⟩ := hkeeps.2 n r' hr'
    rw [hcommands] at hc
    exact hwaits.trans (h.waits n c r hc hr hnone hsome)
  · intro n c handle hc
    rw [hcommands] at hc
    exact h.handle n c handle hc
  · rw [hhandle, hcommands]
    exact h.nextHandle

theorem command_none (h : sendCommand w.control station cmd w.commands.length = none) :
    w.command station cmd = w := by
  unfold World.command
  rw [h]

theorem command_some (h : sendCommand w.control station cmd w.commands.length = some sent) :
    w.command station cmd =
      { control := sent.control
        commands := w.commands ++ [⟨station, sent.command, sent.written⟩]
        requests := Book.dropAt w.requests sent.replaced ++
          [{ key := (Command.mk station sent.command sent.written).key, waits := sent.waits, expired := !sent.written,
             outcome := if sent.waits && sent.written then .waiting else .failed }] } := by
  unfold World.command
  rw [h]

theorem answer_some (hc : w.commands[n]? = some c) (h : w.awaits n response = true) :
    w.answer n response =
      { w with
        control := (handleResponse w.control c.station response).1
        requests := (handleResponse w.control c.station response).2.elim (w.requests.modify n .answer) fun m =>
          (w.requests.modify n .answer).modify m (.complete n) } := by
  unfold World.answer
  rw [hc]
  exact if_pos h

theorem answer_of_not (h : ¬ w.awaits n response = true) : w.answer n response = w := by
  unfold World.answer
  cases hc : w.commands[n]? with
  | none => rfl
  | some c => exact if_neg h

theorem Linked.command (h : Linked start w) : Linked start (w.command station cmd) := by
  cases hsent : sendCommand w.control station cmd w.commands.length with
  | none =>
    rw [command_none hsent]
    exact h
  | some sent =>
    obtain ⟨hhandle, hcommand, heffect⟩ := sendCommand_eq hsent
    have hkeeps := @keeps_dropAt w.requests sent.replaced
    have hlength : (Book.dropAt w.requests sent.replaced).length = w.commands.length := hkeeps.1.trans h.length
    have hlast : ∀ (n : ℕ) (c : Command) (r' : Request Key),
        (w.commands ++ [⟨station, sent.command, sent.written⟩])[n]? = some c →
        (Book.dropAt w.requests sent.replaced ++ [{
          key := (Command.mk station sent.command sent.written).key, waits := sent.waits, expired := !sent.written,
          outcome := if sent.waits && sent.written then .waiting else .failed }])[n]? = some r' →
        (∃ r, w.commands[n]? = some c ∧ w.requests[n]? = some r ∧ r'.key = r.key ∧ r'.waits = r.waits) ∨
          (c = ⟨station, sent.command, sent.written⟩ ∧ r'.key = c.key ∧ r'.waits = sent.waits) := by
      intro n c r' hc hr'
      rcases Book.getElem?_concat hc with hc | ⟨hn, rfl⟩
      · rcases Book.getElem?_concat hr' with hr' | ⟨hn, -⟩
        · obtain ⟨r, hr, hkey, hwaits⟩ := hkeeps.2 n r' hr'
          exact Or.inl ⟨r, hc, hr, hkey, hwaits⟩
        · have hlt := (List.getElem?_eq_some_iff.mp hc).1
          omega
      · rcases Book.getElem?_concat hr' with hr' | ⟨-, rfl⟩
        · have hlt := (List.getElem?_eq_some_iff.mp hr').1
          omega
        · exact Or.inr ⟨rfl, rfl, rfl⟩
    rw [command_some hsent]
    constructor
    · simp [hlength]
    · intro n c r' hc hr'
      rcases hlast n c r' hc hr' with ⟨r, hc, hr, hkey, -⟩ | ⟨-, hkey, -⟩
      · exact hkey.trans (h.key n c r hc hr)
      · exact hkey
    · intro n c r' hc hr' hnone hsome
      rcases hlast n c r' hc hr' with ⟨r, hc, hr, -, hwaits⟩ | ⟨rfl, -, hwaits⟩
      · exact hwaits.trans (h.waits n c r hc hr hnone hsome)
      · rcases heffect with ⟨htrue, -⟩ | ⟨-, -, -, hslot⟩
        · exact hwaits.trans htrue
        · simp [Command.key, hslot hnone] at hsome
    · intro n c handle hc hslot
      rcases Book.getElem?_concat hc with hc | ⟨rfl, rfl⟩
      · exact h.handle n c handle hc hslot
      · dsimp only at hslot
        rw [hcommand] at hslot
        exact (handle_assign hslot).trans h.nextHandle
    · show sent.control.nextHandle = _
      rw [hhandle, h.nextHandle, List.length_append, List.length_singleton, UInt32.ofNat_add, UInt32.add_assoc]
      rfl

theorem Linked.answer (h : Linked start w) : Linked start (w.answer n response) := by
  by_cases hawaits : w.awaits n response = true
  · cases hc : w.commands[n]? with
    | none => simp [World.awaits, hc] at hawaits
    | some c =>
      rw [answer_some hc hawaits]
      refine h.keeps rfl handleResponse_eq.2.1 ?_
      have hanswer : Keeps w.requests (w.requests.modify n .answer) := .modify (fun _ => rfl) fun _ => rfl
      dsimp only
      cases (handleResponse w.control c.station response).2 with
      | none => exact hanswer
      | some m =>
        exact hanswer.trans (.modify (fun _ => Book.aside_complete.2.2.2.2) fun _ => Book.aside_complete.2.2.2.1)
  · rw [answer_of_not hawaits]
    exact h

theorem Linked.next (h : Linked start w) (e : Event) : Linked start (next w e) := by
  cases e with
  | command station command => exact h.command
  | answer n response => exact h.answer
  | timeout n => exact h.keeps rfl rfl (.modify (fun _ => Book.aside_drop.2.2.2.2) fun _ => Book.aside_drop.2.2.2.1)

/-! ## The run as requests answered by a key -/

theorem modify_concat {xs : List (Request Key)} {x : Request Key} {f : Request Key → Request Key}
    (h : xs.length = n) : (xs ++ [x]).modify n f = xs ++ [f x] := by
  subst h
  induction xs with
  | nil => rfl
  | cons y xs ih => exact congrArg (y :: ·) ih

/-- A command is a request, whose time is over at once where the writer took no frame. -/
theorem book_command (hl : Linked start w) (h : sendCommand w.control station cmd w.commands.length = some sent) :
    (w.command station cmd).book =
      (if sent.written then w.book.issue (Command.mk station sent.command sent.written).key sent.waits
       else (w.book.issue (Command.mk station sent.command sent.written).key sent.waits).expire w.commands.length) := by
  obtain ⟨-, -, heffect⟩ := sendCommand_eq h
  have hlength : (Book.dropAt w.requests sent.replaced).length = w.commands.length := keeps_dropAt.1.trans hl.length
  rw [command_some h]
  rcases heffect with ⟨hwaits, s, hslot, hreplaced, hafter⟩ | ⟨hwaits, hreplaced, hafter, -⟩
  · have hkey : (Command.mk station sent.command sent.written).key = some (station, s) := by simp [Command.key, hslot]
    have hpending : waiterOf sent.control =
        Function.update (waiterOf w.control) (station, s) (some w.requests.length) := by
      funext k
      rw [hafter, Function.update_apply, hl.length]
    rw [hkey, hwaits, Book.issue_waits]
    unfold World.book Book.expire
    dsimp only
    rw [hpending, ← hreplaced, modify_concat hlength]
    cases sent.written <;> rfl
  · have hpending : waiterOf sent.control = waiterOf w.control := funext hafter
    rw [hwaits, Book.issue_unheard]
    unfold World.book Book.expire
    dsimp only
    rw [hpending, modify_concat hl.length, hreplaced]
    cases sent.written <;> rfl

theorem book_answer (hl : Linked start w) (h : w.awaits n response = true) :
    (w.answer n response).book = w.book.answer n := by
  cases hc : w.commands[n]? with
  | none => simp [World.awaits, hc] at h
  | some c =>
    cases hr : w.requests[n]? with
    | none => simp [World.awaits, hr] at h
    | some r =>
      have hboth : (c.written = true ∧ answers response c.command = true) ∧ r.answered = false := by
        simpa [World.awaits, hc, hr] using h
      obtain ⟨⟨-, hanswers⟩, hanswered⟩ := hboth
      have hkey : r.key = some (c.station, answerSlot response) := by
        rw [hl.key n c r hc hr, Command.key, slot_of_answers hanswers, Option.map_some]
      have heq := Book.answer_eq (b := w.book) hr hanswered hkey
      obtain ⟨hwaiter, -, hafter⟩ := @handleResponse_eq w.control c.station response
      rw [heq, answer_some hc h]
      unfold World.book
      dsimp only
      rw [hwaiter]
      congr 1
      funext k
      rw [hafter, Function.update_apply]

theorem good_next (hl : Linked start w) (hg : w.book.Good) (e : Event) : (next w e).book.Good := by
  cases e with
  | command station cmd =>
    show (w.command station cmd).book.Good
    cases hsent : sendCommand w.control station cmd w.commands.length with
    | none =>
      rw [command_none hsent]
      exact hg
    | some sent =>
      rw [book_command hl hsent]
      split
      · exact hg.issue
      · exact hg.issue.expire
  | answer n response =>
    show (w.answer n response).book.Good
    by_cases hawaits : w.awaits n response = true
    · rw [book_answer hl hawaits]
      exact hg.answer
    · rw [answer_of_not hawaits]
      exact hg
  | timeout n => exact hg.expire

/-- An answer in its turn, as of any key. -/
def InTurn (w : World) : Event → Prop
  | .answer n response => w.awaits n response = true → w.book.InTurn (.answer n)
  | _ => True

theorem fair_next_iff (hl : Linked start w) (hg : w.book.Good) (hf : w.book.Fair) (e : Event) :
    (next w e).book.Fair ↔ InTurn w e := by
  cases e with
  | command station cmd =>
    refine iff_of_true ?_ trivial
    show (w.command station cmd).book.Fair
    cases hsent : sendCommand w.control station cmd w.commands.length with
    | none =>
      rw [command_none hsent]
      exact hf
    | some sent =>
      rw [book_command hl hsent]
      split
      · exact hf.issue
      · exact hf.issue.expire
  | answer n response =>
    show (w.answer n response).book.Fair ↔ (w.awaits n response = true → _)
    by_cases hawaits : w.awaits n response = true
    · rw [book_answer hl hawaits, hf.answer_iff hg]
      exact ⟨fun h _ => h, fun h => h hawaits⟩
    · rw [answer_of_not hawaits]
      exact iff_of_true hf fun h => absurd h hawaits
  | timeout n => exact iff_of_true hf.expire trivial

/-! ## Handles are not shared -/

theorem handle_of_slot {h : UInt32} (hs : slot cmd = some (.handle h)) : cmd.handle = some h := by
  cases cmd <;> simp_all [slot, ControlCommand.handle]

theorem station_slot {c' : Command} {k : Key} (hc : c.key = some k) (hkey : c'.key = c.key) :
    slot c.command = some k.2 ∧ slot c'.command = some k.2 := by
  rw [hc] at hkey
  obtain ⟨s, hs, rfl⟩ := Option.map_eq_some_iff.mp hc
  obtain ⟨s', hs', heq⟩ := Option.map_eq_some_iff.mp hkey
  obtain ⟨-, rfl⟩ := Prod.mk.inj heq
  exact ⟨hs, hs'⟩

/-- Before the handles come round, a handle belongs to one command. -/
theorem Linked.handle_unique (hl : Linked start w) (hlength : w.commands.length ≤ UInt32.size) {m : ℕ} {c' : Command}
    {h : UInt32} (hc : w.commands[n]? = some c) (hc' : w.commands[m]? = some c')
    (hs : slot c.command = some (.handle h)) (hs' : slot c'.command = some (.handle h)) : m = n := by
  have hn := (List.getElem?_eq_some_iff.mp hc).1
  have hm := (List.getElem?_eq_some_iff.mp hc').1
  have heq := (hl.handle n c h hc hs).symm.trans (hl.handle m c' h hc' hs')
  have hof : (UInt32.ofNat n).toNat = (UInt32.ofNat m).toNat := congrArg _ (UInt32.add_right_inj start |>.mp heq)
  rw [UInt32.toNat_ofNat_of_lt' (by omega), UInt32.toNat_ofNat_of_lt' (by omega)] at hof
  exact hof.symm

/-- An answer that is matched by an ISSI comes when no other command of its kind to that
station and ISSI is waited for, and before the next one unless its own time is over. -/
def OneAtATime (w : World) : Event → Prop
  | .answer n response => w.awaits n response = true →
      ∀ (m : ℕ) (c c' : Command) (r r' : Request Key), w.commands[n]? = some c → w.requests[n]? = some r →
        w.commands[m]? = some c' → w.requests[m]? = some r' → c.command.handle = none → c'.key = c.key → m ≠ n →
        r'.outcome ≠ .waiting ∧ (r.expired = false → m < n)
  | _ => True

theorem inTurn_iff (hl : Linked start w) (hlength : w.commands.length ≤ UInt32.size) (e : Event) :
    InTurn w e ↔ OneAtATime w e := by
  cases e with
  | command station cmd => exact Iff.rfl
  | timeout n => exact Iff.rfl
  | answer n response =>
    constructor
    · intro hturn hawaits m c c' r r' hc hr hc' hr' hhandle hsame hne
      have hboth : (c.written = true ∧ answers response c.command = true) ∧ r.answered = false := by
        simpa [World.awaits, hc, hr] using hawaits
      have hkey : c.key = some (c.station, answerSlot response) := by
        rw [Command.key, slot_of_answers hboth.1.2, Option.map_some]
      obtain ⟨hslot, hslot'⟩ := station_slot hkey hsame
      have hhandle' : c'.command.handle = none := by
        cases hh : c'.command.handle with
        | none => rfl
        | some h =>
          rw [slot_of_handle hh] at hslot'
          rw [handle_of_slot (hslot.trans hslot'.symm)] at hhandle
          cases hhandle
      have hwaits := hl.waits m c' r' hc' hr' hhandle' (by rw [hsame, hkey]; rfl)
      have hw : w.book.Waits (c.station, answerSlot response) m r' :=
        ⟨hr', (hl.key m c' r' hc' hr').trans (hsame.trans hkey), hwaits⟩
      obtain ⟨hdone, hlast⟩ := hturn hawaits r _ hr hboth.2 ((hl.key n c r hc hr).trans hkey) m r' hw hne
      exact ⟨hdone, hlast (hl.waits n c r hc hr hhandle (by rw [hkey]; rfl))⟩
    · intro hone hawaits r k hr hanswered hkey m r' hw hne
      obtain ⟨hr', hkey', hwaits'⟩ := hw
      cases hc : w.commands[n]? with
      | none => simp [World.awaits, hc] at hawaits
      | some c =>
        have hm : m < w.commands.length := by
          rw [← hl.length]
          exact (List.getElem?_eq_some_iff.mp hr').1
        have hc' := List.getElem?_eq_getElem hm
        have hck : c.key = some k := (hl.key n c r hc hr).symm.trans hkey
        have hsame : w.commands[m].key = c.key := (hl.key m _ r' hc' hr').symm.trans (hkey'.trans hck.symm)
        cases hhandle : c.command.handle with
        | none =>
          obtain ⟨hdone, hlast⟩ := hone hawaits m c _ r r' hc hr hc' hr' hhandle hsame hne
          exact ⟨hdone, fun _ => hlast⟩
        | some h =>
          obtain ⟨hslot, hslot'⟩ := station_slot hck hsame
          have hs := slot_of_handle hhandle
          exact absurd (hl.handle_unique hlength hc hc' hs (hslot'.trans (hslot.symm.trans hs))) hne

end Step

/-! ## Whole runs -/

def Event.isCommand : Event → Bool
  | .command .. => true
  | _ => false

/-- Nobody was given the response to another's command, and a response in time reached
the waiter of its command. -/
def World.Told (w : World) : Prop :=
  ∀ (n : ℕ) (r : Request Key), w.requests[n]? = some r →
    (∀ m, r.outcome = .completed m → m = n) ∧ (r.waits = true → r.inTime = true → r.outcome = .completed n)

section Runs

variable {control : ControlState} {es : List Event}

theorem book_fresh (h : Fresh control) : (World.mk control [] []).book = Book.empty := by
  unfold World.book Book.empty
  congr 1
  funext k
  obtain ⟨id, s⟩ := k
  unfold waiterOf
  cases hs : control.sessions[id]? with
  | none => simp
  | some session =>
    have hhandle := h.handle id session hs
    have hkick := h.kick id session hs
    have hambience := h.ambience id session hs
    cases s <;> simp [waiter, hhandle, hkick, hambience]

theorem linked_fresh : Linked control.nextHandle (World.mk control [] []) := by
  constructor
  · rfl
  · intro n c r hc
    cases hc
  · intro n c r hc
    cases hc
  · intro n c h hc
    cases hc
  · simp

theorem commands_next (w : World) (e : Event) :
    (next w e).commands.length ≤ w.commands.length + if e.isCommand then 1 else 0 := by
  cases e with
  | command station cmd =>
    show (w.command station cmd).commands.length ≤ _
    cases h : sendCommand w.control station cmd w.commands.length with
    | none =>
      rw [command_none h]
      simp
    | some sent =>
      rw [command_some h]
      simp [Event.isCommand]
  | answer n response =>
    show (w.answer n response).commands.length ≤ _
    by_cases hawaits : w.awaits n response = true
    · cases hc : w.commands[n]? with
      | none => simp [World.awaits, hc] at hawaits
      | some c =>
        rw [answer_some hc hawaits]
        simp
    · rw [answer_of_not hawaits]
      simp
  | timeout n => exact Nat.le_add_right ..

theorem commands_foldl (w : World) : (es.foldl next w).commands.length ≤ w.commands.length + es.countP Event.isCommand := by
  induction es generalizing w with
  | nil => simp
  | cons e es ih =>
    have hstep := commands_next w e
    have hrest := ih (next w e)
    rw [List.foldl_cons, List.countP_cons]
    omega

/-- With fewer commands than handles, everybody is told of their own command exactly
where the answers matched by an ISSI come one at a time. -/
theorem told_iff (hfresh : Fresh control) (hcount : es.countP Event.isCommand < UInt32.size) :
    (∀ pre, pre <+: es → (pre.foldl next ⟨control, [], []⟩).Told) ↔
      ∀ pre e, pre ++ [e] <+: es → OneAtATime (pre.foldl next ⟨control, [], []⟩) e := by
  have hstart : Linked control.nextHandle (World.mk control [] []) ∧ (World.mk control [] []).book.Good ∧
      (World.mk control [] []).book.Fair := by
    rw [book_fresh hfresh]
    exact ⟨linked_fresh, Book.good_empty, Book.fair_empty⟩
  have hlinked : ∀ pre : List Event, Linked control.nextHandle (pre.foldl next ⟨control, [], []⟩) := by
    intro pre
    induction pre using List.reverseRecOn with
    | nil => exact linked_fresh
    | append_singleton pre e ih =>
      rw [List.foldl_append]
      exact ih.next e
  have hfair : (∀ pre, pre <+: es → (pre.foldl next ⟨control, [], []⟩).book.Fair) ↔
      ∀ pre e, pre ++ [e] <+: es → InTurn (pre.foldl next ⟨control, [], []⟩) e :=
    foldl_iff (I := fun w => Linked control.nextHandle w ∧ w.book.Good ∧ w.book.Fair) hstart (fun _ h => h.2.2)
      (fun w e ⟨hl, hg, hf⟩ hturn => ⟨hl.next e, good_next hl hg e, (fair_next_iff hl hg hf e).mpr hturn⟩)
      fun w e ⟨hl, hg, hf⟩ => fair_next_iff hl hg hf e
  refine Iff.trans hfair ?_
  refine forall_congr' fun pre => forall_congr' fun e => forall_congr' fun hpre => ?_
  refine inTurn_iff (hlinked pre) ?_ e
  have hle := @commands_foldl pre (World.mk control [] [])
  have hcount' := List.Sublist.countP_le (p := Event.isCommand) ((List.prefix_append pre [e]).trans hpre).sublist
  simp only [List.length_nil, Nat.zero_add] at hle
  omega

/-- One station, and no command yet. -/
def oneStation : World := ⟨⟨(∅ : FinMap String ControlSession).insert "bts1" {}, 0⟩, [], []⟩

theorem fresh_oneStation : Fresh oneStation.control := by
  have hdefault : ∀ (id : String) (session : ControlSession), oneStation.control.sessions[id]? = some session →
      session = {} := by
    intro id session hs
    unfold oneStation at hs
    rw [FinMap.getElem?_insert] at hs
    split at hs
    · exact (Option.some.inj hs).symm
    · simp at hs
  constructor
  · intro id session hs
    rw [hdefault id session hs]
  · intro id session hs
    rw [hdefault id session hs]
  · intro id session hs
    rw [hdefault id session hs]

/-- The answer to a kick comes when its time is over and the radio is being kicked again. -/
def lateAnswer : List Event :=
  [.command "bts1" (.kickMs 2001), .timeout 0, .command "bts1" (.kickMs 2001), .answer 0 (.kickMsResponse 2001 false)]

/-- Two operators kick a radio at once, and the first kick is answered in time. -/
def twoKicks : List Event :=
  [.command "bts1" (.kickMs 2001), .command "bts1" (.kickMs 2001), .answer 0 (.kickMsResponse 2001 true)]

theorem lateAnswer_outcome : ((lateAnswer.foldl next oneStation).requests[1]?).map (·.outcome) = some (.completed 0) := by
  decide +kernel

theorem twoKicks_outcome : ((twoKicks.foldl next oneStation).requests[0]?).map (fun r => (r.waits, r.inTime, r.outcome)) =
    some (true, true, .failed) := by
  decide +kernel

/-- So the exchange was not one at a time. -/
theorem told_iff_lateAnswer :
    ¬ ∀ pre e, pre ++ [e] <+: lateAnswer → OneAtATime (pre.foldl next oneStation) e := by
  intro hone
  have htold := (@told_iff oneStation.control lateAnswer fresh_oneStation (by decide)).mpr hone lateAnswer List.prefix_rfl
  obtain ⟨r, hr, hcompleted⟩ := Option.map_eq_some_iff.mp lateAnswer_outcome
  exact absurd ((htold 1 r hr).1 0 hcompleted) (by decide)

/-- A waiter can be given the answer to an earlier command, and an answer in time can be lost. -/
theorem not_told :
    (¬ ∀ (control : ControlState) (es : List Event), Fresh control → es.countP Event.isCommand < UInt32.size →
      ∀ (n : ℕ) (r : Request Key), (es.foldl next ⟨control, [], []⟩).requests[n]? = some r →
        ∀ m, r.outcome = .completed m → m = n) ∧
    ¬ ∀ (control : ControlState) (es : List Event), Fresh control → es.countP Event.isCommand < UInt32.size →
      ∀ (n : ℕ) (r : Request Key), (es.foldl next ⟨control, [], []⟩).requests[n]? = some r →
        r.waits = true → r.inTime = true → r.outcome = .completed n := by
  constructor
  · intro hall
    obtain ⟨r, hr, hcompleted⟩ := Option.map_eq_some_iff.mp lateAnswer_outcome
    exact absurd (hall _ lateAnswer fresh_oneStation (by decide) 1 r hr 0 hcompleted) (by decide)
  · intro hall
    obtain ⟨r, hr, hlost⟩ := Option.map_eq_some_iff.mp twoKicks_outcome
    obtain ⟨hwaits, hlost⟩ := Prod.mk.inj hlost
    obtain ⟨hin, hlost⟩ := Prod.mk.inj hlost
    have htold := hall _ twoKicks fresh_oneStation (by decide) 0 r hr hwaits hin
    rw [hlost] at htold
    cases htold

end Runs

end Control

end BrewServer
