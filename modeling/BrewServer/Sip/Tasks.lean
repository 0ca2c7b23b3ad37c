import BrewServer.ForcedEnd
import BrewServer.Membership

/-!
# The bridge between its locks

A handler that reaches the bridge holds no lock from its first lookup to the last
write: it looks up a connection, writes the call, notes the leg, and a teardown finds
the leg, takes it out of the legs, and only then clears the tables. What is left of
each waits as a task, and the tasks of all handlers take turns in any order.
-/

namespace BrewServer

open Protocol Fedroute Router Sip

/-- What the bridge has still to do, the next lock of a handler each. -/
inductive BridgeTask
  /-- An INVITE found the ISSI on a connection. -/
  | calling (callId : String) (issi : UInt32) (target : ClientId)
  | seizing (callId : String) (gssi : UInt32)
  /-- A setup of a connection leads out. -/
  | placing (callId : String) (client : ClientId) (brewCallId : Uuid)
  /-- A call is written, and its leg is in nobody's sight yet. -/
  | bridging (callId : String) (leg : BridgedLeg)
  /-- A call ended, and its leg is still to be looked for. -/
  | ending (brewCallId : Uuid)
  | closing (callId : String)
  /-- A leg is out of the legs, and its virtual client still in the tables. -/
  | clearing (leg : BridgedLeg)
  deriving DecidableEq

namespace BridgeTask

/-- The leg of a task, which is in the tables and not in the legs. -/
def leg : BridgeTask → Option BridgedLeg
  | .bridging _ leg | .clearing leg => some leg
  | _ => none

/-- The connection whose own task waits for the bridge, and handles no packet of it
meanwhile. -/
def client : BridgeTask → Option ClientId
  | .placing _ client _ => some client
  | _ => none

end BridgeTask

/-- A server whose handlers and whose bridge take turns. -/
structure Turns where
  app : AppState
  tasks : List BridgeTask := []

/-- The work of one lock. -/
inductive Turn
  | event (ev : Event)
  /-- The sweep ends one of the calls it found on its tick. -/
  | expire (env : Env) (id : Uuid) (call : ActiveCall)
  | invite (env : Env) (callId : String) (issi : UInt32)
  | inviteGroup (callId : String) (gssi : UInt32)
  /-- The SIP side of a bridged call ends. -/
  | bye (callId : String)
  /-- A task goes on, with the ids it makes and the media port it may get. -/
  | work (task : BridgeTask) (env : Env) (virtualClient : ClientId) (brewCallId : Uuid) (rtpPort : Bool)

/-- The event, where no setup leads out. -/
def Event.withoutRoute : Event → Event
  | .packet env source raw => .packet (BrewServer.withoutRoute env) source raw
  | ev => ev

/-- What a setup that leads out leaves to the bridge. -/
def Event.outbound (cfg : Config) (s : Inner) : Event → List BridgeTask
  | .packet env source raw =>
    ((routePacket cfg env s source raw).placed.map fun p => .placing p.1 source p.2.brewCallId).toList
  | _ => []

namespace Turns

variable {cfg : Config} {w : Turns} {task : BridgeTask}

def start (selfId : UInt64) : Turns := { app := .start selfId }

/-- The legs of the bridge: those it has noted, and those a task has in hand. -/
def hand (w : Turns) : List BridgedLeg := w.app.legs.toList.map (·.2) ++ w.tasks.filterMap BridgeTask.leg

def push (w : Turns) (task : BridgeTask) : Turns := { w with tasks := task :: w.tasks }

def done (w : Turns) (task : BridgeTask) : Turns := { w with tasks := w.tasks.erase task }

/-- The tables are written, and the leg of the call is still to be noted. -/
def write (w : Turns) (inner : Inner) (callId : String) (leg : BridgedLeg) : Turns :=
  { app := { w.app with inner }, tasks := .bridging callId leg :: w.tasks }

/-- A handler lets go of the lock: the calls it ended are left to the bridge. -/
def after (w : Turns) (e : Effect) : Turns :=
  { app := { w.app with inner := e.inner }, tasks := e.ended.map .ending ++ w.tasks }

/-- What a task does under its next lock. -/
def perform (w : Turns) (env : Env) (virtualClient : ClientId) (brewCallId : Uuid) (rtpPort : Bool) : BridgeTask → Turns
  | .calling callId issi target =>
    if rtpPort then
      w.write (ringIssi env w.app.inner issi target virtualClient brewCallId) callId ⟨virtualClient, brewCallId, none⟩
    else w
  | .seizing callId gssi =>
    if rtpPort then
      w.write (seizeFloor env w.app.inner gssi virtualClient brewCallId) callId ⟨virtualClient, brewCallId, some gssi⟩
    else w
  | .placing callId client id =>
    if rtpPort then
      w.write (placeOutbound env w.app.inner client id callId virtualClient).inner callId ⟨virtualClient, id, none⟩
    else w
  | .bridging callId leg => { w with app := { w.app with legs := w.app.legs.insert callId leg } }
  | .ending id =>
    match w.app.legs.toList.find? fun e => e.2.brewCallId = id with
    | none => w
    | some (callId, _) => w.push (.closing callId)
  | .closing callId =>
    match w.app.legs[callId]? with
    | none => w
    | some leg => { app := { w.app with legs := w.app.legs.erase callId }, tasks := .clearing leg :: w.tasks }
  | .clearing leg => { w with app := { w.app with inner := (removeLeg w.app.inner leg).1 } }

def next (cfg : Config) (w : Turns) : Turn → Turns
  | .event ev =>
    let heard := w.after (routeEvent cfg w.app.inner ev.withoutRoute)
    { heard with tasks := ev.outbound cfg w.app.inner ++ heard.tasks }
  | .expire env id call => w.after (sweepEnd env w.app.inner id call)
  | .invite env callId issi =>
    if env.blocked issi then w
    else
      match w.app.inner.subscribers[issi]? with
      | none => w
      | some sub => w.push (.calling callId issi sub.clientId)
  | .inviteGroup callId gssi =>
    if (w.app.inner.members gssi).isEmpty && !cfg.fallbackBroadcastWhenNoAffiliations then w
    else w.push (.seizing callId gssi)
  | .bye callId => w.push (.closing callId)
  | .work task env virtualClient brewCallId rtpPort => (w.done task).perform env virtualClient brewCallId rtpPort task

end Turns

/-- The ids a task makes up are new. -/
def BridgeTask.Fresh (w : Turns) (virtualClient : ClientId) (brewCallId : Uuid) : BridgeTask → Prop
  | .calling .. | .seizing .. =>
    virtualClient ∉ w.app.inner.clients ∧ brewCallId ∉ w.app.inner.calls ∧ brewCallId ∉ w.hand.map (·.brewCallId)
  | .placing .. => virtualClient ∉ w.app.inner.clients
  | .bridging .. | .ending _ | .closing _ | .clearing _ => True

/-- The connection an event belongs to. -/
def Event.client : Event → Option ClientId
  | .packet _ source _ | .disconnect source => some source
  | _ => none

/-- What the sessions around a server guarantee. -/
def Turn.Allowed (w : Turns) : Turn → Prop
  | .event ev => ev.Routed ∧ ev.Allowed w.app ∧ ∀ c ∈ ev.client, some c ∉ w.tasks.map BridgeTask.client
  | .work task _ virtualClient brewCallId _ => task ∈ w.tasks ∧ task.Fresh w virtualClient brewCallId
  | .expire .. | .invite .. | .inviteGroup .. | .bye _ => True

instance (ev : Event) : Decidable ev.Routed :=
  match ev with
  | .sweep _ | .sipPrivate .. | .sipGroup .. | .sipEnd _ => isFalse id
  | .connect .. | .packet .. | .disconnect _ | .alarm _ | .smsDeliver .. | .advertiseBts .. | .advertiseEmergency .. =>
    isTrue trivial

instance (w : Turns) (virtualClient : ClientId) (brewCallId : Uuid) (task : BridgeTask) :
    Decidable (task.Fresh w virtualClient brewCallId) :=
  match task with
  | .calling .. | .seizing .. =>
    inferInstanceAs (Decidable (virtualClient ∉ w.app.inner.clients ∧ brewCallId ∉ w.app.inner.calls ∧
      brewCallId ∉ w.hand.map (·.brewCallId)))
  | .placing .. => inferInstanceAs (Decidable (virtualClient ∉ w.app.inner.clients))
  | .bridging .. | .ending _ | .closing _ | .clearing _ => isTrue trivial

instance (w : Turns) (t : Turn) : Decidable (t.Allowed w) :=
  match t with
  | .event ev =>
    have : Decidable (∀ c ∈ ev.client, some c ∉ w.tasks.map BridgeTask.client) := Option.decidableForallMem ev.client
    inferInstanceAs (Decidable (ev.Routed ∧ ev.Allowed w.app ∧ ∀ c ∈ ev.client, some c ∉ w.tasks.map BridgeTask.client))
  | .work task _ virtualClient brewCallId _ =>
    inferInstanceAs (Decidable (task ∈ w.tasks ∧ task.Fresh w virtualClient brewCallId))
  | .expire .. | .invite .. | .inviteGroup .. | .bye _ => isTrue trivial

namespace Turns

variable {cfg : Config} {w : Turns} {task : BridgeTask} {callId : String} {leg : BridgedLeg}

/-! ## The legs in hand -/

/-- Tasks with no leg in hand. -/
theorem hand_append {tasks : List BridgeTask} (h : ∀ t ∈ tasks, t.leg = none) :
    ({ w with tasks := tasks ++ w.tasks } : Turns).hand = w.hand := by
  rw [hand, List.filterMap_append, List.filterMap_eq_nil_iff.mpr h, List.nil_append]
  rfl

theorem hand_push (h : task.leg = none) : (w.push task).hand = w.hand :=
  @hand_append w [task] fun _ ht => List.mem_singleton.mp ht ▸ h

theorem hand_after {e : Effect} : (w.after e).hand = w.hand := by
  refine hand_append (w := { w with app := { w.app with inner := e.inner } }) fun t ht => ?_
  obtain ⟨id, -, rfl⟩ := List.mem_map.mp ht
  rfl

theorem leg_of_mem_outbound {s : Inner} {ev : Event} (h : task ∈ ev.outbound cfg s) : task.leg = none := by
  cases ev with
  | packet env source raw =>
    obtain ⟨p, -, rfl⟩ := Option.map_eq_some_iff.mp (Option.mem_toList.mp h)
    rfl
  | _ => exact absurd h List.not_mem_nil

theorem hand_event {ev : Event} : (w.next cfg (.event ev)).hand = w.hand :=
  (hand_append (w := w.after (routeEvent cfg w.app.inner ev.withoutRoute)) fun _ ht => leg_of_mem_outbound ht).trans
    hand_after

/-- A task that is taken up lets go of its leg. -/
theorem hand_done (h : task ∈ w.tasks) : w.hand.Perm (task.leg.toList ++ (w.done task).hand) := by
  have htasks : (w.tasks.filterMap BridgeTask.leg).Perm (task.leg.toList ++ (w.tasks.erase task).filterMap BridgeTask.leg) := by
    have hperm := (List.perm_cons_erase h).filterMap BridgeTask.leg
    rw [List.filterMap_cons] at hperm
    cases hleg : task.leg with
    | none => rwa [hleg] at hperm
    | some leg => rwa [hleg] at hperm
  refine (htasks.append_left _).trans ?_
  rw [← List.append_assoc]
  refine (List.perm_append_comm.append_right _).trans ?_
  rw [List.append_assoc]
  exact .refl _

theorem hand_write {inner : Inner} : (w.write inner callId leg).hand.Perm (leg :: w.hand) :=
  List.perm_middle

/-- A leg that is taken out of the legs stays in hand. -/
theorem hand_close (h : w.app.legs[callId]? = some leg) :
    ({ app := { w.app with legs := w.app.legs.erase callId }, tasks := .clearing leg :: w.tasks } : Turns).hand.Perm
      w.hand :=
  List.perm_middle.trans (((FinMap.perm_toList_of_getElem? h).map (·.2)).append_right _).symm

/-- A leg that is noted stays in hand, and what was noted under its Call-ID is lost. -/
theorem hand_note : (leg :: w.hand).Perm ((w.app.legs[callId]?).toList ++
    ({ w with app := { w.app with legs := w.app.legs.insert callId leg } } : Turns).hand) := by
  have hinsert : (leg :: ({ w with app := { w.app with legs := w.app.legs.erase callId } } : Turns).hand).Perm
      ({ w with app := { w.app with legs := w.app.legs.insert callId leg } } : Turns).hand :=
    (((FinMap.perm_toList_insert (m := w.app.legs) (a := callId) (v := leg)).map (·.2)).append_right _).symm
  cases hold : w.app.legs[callId]? with
  | none =>
    have hsame : w.app.legs.erase callId = w.app.legs := by
      refine FinMap.ext fun k => ?_
      rw [FinMap.getElem?_erase]
      split
      · next hk => rw [← hk, hold]
      · rfl
    rw [hsame] at hinsert
    exact hinsert
  | some old =>
    have herase : w.hand.Perm (old :: ({ w with app := { w.app with legs := w.app.legs.erase callId } } : Turns).hand) :=
      ((FinMap.perm_toList_of_getElem? hold).map (·.2)).append_right _
    exact ((herase.cons leg).trans (.swap ..)).trans (hinsert.cons old)

theorem mem_hand_of_legs (h : w.app.legs[callId]? = some leg) : leg ∈ w.hand :=
  List.mem_append_left _ (List.mem_map.mpr ⟨(callId, leg), FinMap.mem_toList.mpr h, rfl⟩)

end Turns

end BrewServer
