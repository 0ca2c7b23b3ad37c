import BrewServer.Sms.Delivery
import Mathlib.Data.List.Perm.Subperm

/-!
# One run of deliver_pending

The loop that delivers the messages queued for an ISSI, next to everything else
that touches the queue. Between sends it waits, and a sweep may free attempts it
made before; a forced run, which does not mind the retry interval, then takes
them again.
-/

namespace BrewServer.Sms

open Protocol Router SmsFile

/-- Where the loop is. -/
inductive LoopStage
  /-- At the head of the loop, or waiting before its first round. -/
  | looking
  | located (client : ClientId)
  /-- A message is in flight and waits to be sent. -/
  | taken (t : Delivery)
  | ended

/-- A run of `deliver_pending` in the world it runs in. -/
structure PendingRun where
  world : World
  issi : UInt32
  force : Bool
  stage : LoopStage := .looking
  /-- The messages the run has sent, in order. -/
  sent : List Uuid := []
  /-- The attempts the run has made, each with its message. -/
  made : List (Uuid × Uuid) := []
  /-- The messages queued for the destination when the run began, and those stored since. -/
  stored : List Uuid

inductive RunStep
  /-- Anything else that happens: the server, the sweep, a report, another run. -/
  | other (act : Act)
  | find
  | take (now : UInt64) (uuid : Uuid)
  | send (env : Env)

namespace PendingRun

variable (cfg : Config) (sms : SmsCenterConfig)

/-- A run begins for what is queued. -/
def begin (world : World) (issi : UInt32) (force : Bool) : PendingRun :=
  { world, issi, force, stored := (world.center.messages.filter fun m => m.destination = issi).map StoredSms.id }

/-- The message an act stores for `issi`. -/
def newlyStored (w : World) (issi : UInt32) : Act → List Uuid
  | .store id sourceIssi destination lengthBits data now =>
    match (w.center.store sms id sourceIssi destination lengthBits data now).2 with
    | .stored m => if m.destination = issi then [m.id] else []
    | _ => []
  | _ => []

def next (r : PendingRun) : RunStep → PendingRun
  | .other act =>
    { r with world := r.world.next cfg sms act, stored := r.stored ++ newlyStored sms r.world r.issi act }
  | .find =>
    match r.stage with
    | .looking =>
      match clientOf r.world.app.inner r.issi with
      | none => { r with stage := .ended }
      | some client => { r with stage := .located client }
    | _ => r
  | .take now uuid =>
    match r.stage with
    | .located client =>
      match r.world.center.takeNextDue sms r.issi r.force now uuid with
      | none => { r with stage := .ended }
      | some (center, message) =>
        { r with
          world := { r.world with center, attempts := (uuid, message.id) :: r.world.attempts }
          stage := .taken { client, uuid, message }
          made := r.made ++ [(uuid, message.id)] }
    | _ => r
  | .send env =>
    match r.stage with
    | .taken t =>
      let world := r.world.send env t
      if env.blocked t.message.destination ∨ t.client ∉ r.world.app.inner.clients then
        { r with world, stage := .ended }
      else { r with world, stage := .looking, sent := r.sent ++ [t.message.id] }
    | _ => r

/-- Whether the run has not ended yet. -/
def running (r : PendingRun) : Bool :=
  match r.stage with
  | .ended => false
  | _ => true

/-- The message in hand. -/
def inHand (r : PendingRun) : List Uuid :=
  match r.stage with
  | .taken t => [t.message.id]
  | _ => []

/-- Messages and attempts get ids of their own. -/
def Allowed (r : PendingRun) : RunStep → Prop
  | .other act => r.world.Allowed act
  | .take _ uuid => uuid ∉ r.world.attempts.map Prod.fst
  | _ => True

/-- While the run goes on, a sweep that keeps a message does not find an attempt
of the run at it that is past the acknowledgement timeout. -/
def InTime (r : PendingRun) : RunStep → Prop
  | .other (.sweep now) => r.running = true → ∀ a ∈ r.made, ∀ m ∈ r.world.center.messages,
      m.inFlight = some a.1 → Kept sms now m = true →
        elapsed now (saturatingMul sms.ackTimeoutSeconds 1000) m.lastAttemptMs = false
  | _ => True

instance (r : PendingRun) (x : RunStep) : Decidable (r.Allowed x) :=
  match x with
  | .other act => inferInstanceAs (Decidable (r.world.Allowed act))
  | .take _ uuid => inferInstanceAs (Decidable (uuid ∉ r.world.attempts.map Prod.fst))
  | .find | .send _ => isTrue trivial

end PendingRun

/-- Every queued message that the run has attempted awaits the report of that
attempt. -/
def Awaiting (made : List (Uuid × Uuid)) (ms : List StoredSms) : Prop :=
  ∀ a ∈ made, ∀ m ∈ ms, m.id = a.2 → m.inFlight = some a.1

/-- The queue's ids differ, and deliveries of other runs are among the attempts. -/
structure Known (w : World) : Prop where
  ids : (w.center.messages.map StoredSms.id).Nodup
  waiting : ∀ t ∈ w.waiting, t.uuid ∈ w.attempts.map Prod.fst

section Queue

variable {cfg : Config} {sms : SmsCenterConfig} {w : World} {ms ms' : List StoredSms} {op : Op}
  {made : List (Uuid × Uuid)}

theorem Awaiting.mono (h : Awaiting made ms) (hs : ∀ m ∈ ms', m ∈ ms) : Awaiting made ms' :=
  fun a ha m hm => h a ha m (hs m hm)

/-- What another call on the queue does to attempts that are not its own. -/
theorem Awaiting.queueStep (h : Awaiting made ms) (hs : QueueStep sms ms op ms')
    (hstore : ∀ id source destination lengthBits data now, op = .store id source destination lengthBits data now →
      id ∉ made.map Prod.snd)
    (hrelease : ∀ uuid, op = .release uuid → uuid ∉ made.map Prod.fst)
    (hsweep : ∀ now, op = .sweep now → ∀ a ∈ made, ∀ m ∈ ms, m.inFlight = some a.1 → Kept sms now m = true →
      elapsed now (saturatingMul sms.ackTimeoutSeconds 1000) m.lastAttemptMs = false) : Awaiting made ms' := by
  cases hs with
  | same => exact h
  | stored on target perDest total new own =>
    intro a ha m hm hid
    rcases List.mem_append.mp hm with hm | hm
    · exact h a ha m hm hid
    · obtain rfl := List.mem_singleton.mp hm
      exact absurd (List.mem_map.mpr ⟨a, ha, hid.symm.trans own⟩) (hstore _ _ _ _ _ _ rfl)
  | @taken issi force now uuid xs ys m split due =>
    intro a ha x hx hid
    rcases List.mem_append.mp hx with hx | hx
    · exact h a ha x (split ▸ List.mem_append_left _ hx) hid
    · rcases List.mem_cons.mp hx with rfl | hx
      · have hold := h a ha m (split ▸ List.mem_append_right _ List.mem_cons_self) hid
        rw [due] at hold
        cases hold
      · exact h a ha x (split ▸ List.mem_append_right _ (List.mem_cons_of_mem m hx)) hid
  | @released uuid xs ys m split own =>
    intro a ha x hx hid
    rcases List.mem_append.mp hx with hx | hx
    · exact h a ha x (split ▸ List.mem_append_left _ hx) hid
    · rcases List.mem_cons.mp hx with rfl | hx
      · have hold := h a ha m (split ▸ List.mem_append_right _ List.mem_cons_self) hid
        rw [own] at hold
        exact absurd (List.mem_map.mpr ⟨a, ha, (Option.some.inj hold).symm⟩) (hrelease uuid rfl)
      · exact h a ha x (split ▸ List.mem_append_right _ (List.mem_cons_of_mem m hx)) hid
  | @reported uuid xs ys m split own =>
    refine h.mono fun x hx => ?_
    rw [split]
    exact ((List.sublist_cons_self m ys).append_left xs).subset hx
  | @swept now on =>
    intro a ha x hx hid
    obtain ⟨m, hm, rfl⟩ := List.mem_map.mp hx
    obtain ⟨hmem, hkept⟩ := List.mem_filter.mp hm
    have hbody : (free sms now m).id = m.id := congrArg Prod.fst (body_free (m := m))
    have hold := h a ha m hmem (hbody.symm.trans hid)
    have hfresh := hsweep now rfl a ha m hmem hold hkept
    rw [free, hfresh, Bool.and_false, if_neg Bool.false_ne_true]
    exact hold
  | deleted => exact h.mono fun x hx => (List.mem_filter.mp hx).1

/-- What a call on the queue does to its ids. -/
theorem nodup_queueStep (h : (ms.map StoredSms.id).Nodup) (hs : QueueStep sms ms op ms')
    (hstore : ∀ id source destination lengthBits data now, op = .store id source destination lengthBits data now →
      id ∉ ms.map StoredSms.id) : (ms'.map StoredSms.id).Nodup := by
  cases hs with
  | same => exact h
  | stored on target perDest total new own =>
    rw [List.map_append, List.map_singleton, own]
    exact List.nodup_append_comm.mp (List.nodup_cons.mpr ⟨hstore _ _ _ _ _ _ rfl, h⟩)
  | taken split due =>
    rw [split, List.map_append, List.map_cons] at h
    rw [List.map_append, List.map_cons]
    exact h
  | released split own =>
    rw [split, List.map_append, List.map_cons] at h
    rw [List.map_append, List.map_cons]
    exact h
  | @reported uuid xs ys m split own =>
    refine h.sublist (List.Sublist.map _ ?_)
    rw [split]
    exact (List.sublist_cons_self m ys).append_left xs
  | @swept now on =>
    have hids : ∀ l : List StoredSms, (l.map (free sms now)).map StoredSms.id = l.map StoredSms.id := by
      intro l
      rw [List.map_map]
      exact List.map_congr_left fun m _ => congrArg Prod.fst (body_free (m := m))
    rw [hids]
    exact h.sublist (List.filter_sublist.map _)
  | deleted => exact h.sublist (List.filter_sublist.map _)

/-- Which call on the queue an act makes. -/
def Makes (w : World) (act : Act) : Op → Prop
  | .store id .. => ∃ source destination lengthBits data now, act = .store id source destination lengthBits data now
  | .release uuid => ∃ t ∈ w.waiting, t.uuid = uuid
  | .sweep now => act = .sweep now
  | _ => True

theorem queueStep_next (act : Act) :
    ∃ op, QueueStep sms w.center.messages op (w.next cfg sms act).center.messages ∧ Makes w act op := by
  have hsame : QueueStep sms w.center.messages (.onReport 0) w.center.messages := .same
  cases act with
  | app ev =>
    refine ⟨.onReport 0, ?_, trivial⟩
    have harrive : (w.arrive (w.reported ev)).center = w.center := by
      unfold World.arrive
      split <;> rfl
    change QueueStep sms _ _ (w.arrive (w.reported ev)).center.messages
    rw [harrive]
    exact .same
  | noteKnown issi =>
    refine ⟨.onReport 0, ?_, trivial⟩
    change QueueStep sms _ _ (w.center.noteKnown sms issi).messages
    unfold SmsFile.noteKnown
    split <;> exact .same
  | store id source destination lengthBits data now =>
    exact ⟨.store id source destination lengthBits data now, queueStep_store, _, _, _, _, _, rfl⟩
  | take issi force now uuid =>
    refine ⟨.takeNextDue issi force now uuid, ?_, trivial⟩
    rw [World.next, World.take]
    split
    · next client center message _ htake =>
      obtain ⟨m, xs, ys, hsplit, hdue, -, rfl⟩ := takeNextDue_some htake
      exact .taken hsplit (isDue_waiting hdue)
    · exact .same
  | send env uuid =>
    rw [World.next]
    cases hf : w.waiting.find? fun t => t.uuid = uuid with
    | none => exact ⟨.onReport 0, .same, trivial⟩
    | some t =>
      rw [Option.map_some, Option.getD_some]
      refine ⟨.release t.uuid, ?_, t, List.mem_of_find?_eq_some hf, rfl⟩
      unfold World.send
      dsimp only
      split
      · exact queueStep (.release t.uuid)
      · exact .same
  | onReport uuid =>
    refine ⟨.onReport uuid, ?_, trivial⟩
    rw [World.next]
    split
    · exact queueStep (.onReport uuid)
    · exact .same
  | sweep now => exact ⟨.sweep now, queueStep (.sweep now), rfl⟩
  | delete id => exact ⟨.delete id, queueStep (.delete id), trivial⟩

/-- What an act does to the deliveries of other runs and to the attempts. -/
theorem attempts_next (act : Act) :
    (∀ a ∈ w.attempts, a ∈ (w.next cfg sms act).attempts) ∧
      ∀ t ∈ (w.next cfg sms act).waiting, t ∈ w.waiting ∨
        ((∃ issi force now, act = .take issi force now t.uuid) ∧
          t.uuid ∈ (w.next cfg sms act).attempts.map Prod.fst) := by
  cases act with
  | app ev =>
    have harrive : (w.arrive (w.reported ev)).attempts = w.attempts ∧ (w.arrive (w.reported ev)).waiting = w.waiting := by
      unfold World.arrive
      split <;> exact ⟨rfl, rfl⟩
    change (∀ a ∈ w.attempts, a ∈ (w.arrive (w.reported ev)).attempts) ∧
      ∀ t ∈ (w.arrive (w.reported ev)).waiting, _
    rw [harrive.1, harrive.2]
    exact ⟨fun a ha => ha, fun t ht => .inl ht⟩
  | take issi force now uuid =>
    rw [World.next, World.take]
    split
    · refine ⟨fun a ha => List.mem_cons_of_mem _ ha, fun t ht => ?_⟩
      rcases List.mem_append.mp ht with ht | ht
      · exact .inl ht
      · rw [List.mem_singleton.mp ht]
        exact .inr ⟨⟨issi, force, now, rfl⟩, List.mem_cons_self⟩
    · exact ⟨fun a ha => ha, fun t ht => .inl ht⟩
  | send env uuid =>
    rw [World.next]
    cases hf : w.waiting.find? fun t => t.uuid = uuid with
    | none => exact ⟨fun a ha => ha, fun t ht => .inl ht⟩
    | some t =>
      rw [Option.map_some, Option.getD_some]
      unfold World.send
      dsimp only
      split <;> exact ⟨fun a ha => ha, fun t' ht' => .inl (List.mem_filter.mp ht').1⟩
  | onReport uuid =>
    rw [World.next]
    split <;> exact ⟨fun a ha => ha, fun t ht => .inl ht⟩
  | noteKnown | store | sweep | delete => exact ⟨fun a ha => ha, fun t ht => .inl ht⟩

theorem Known.next (h : Known w) {act : Act} (hallowed : w.Allowed act) : Known (w.next cfg sms act) := by
  obtain ⟨op, hs, hmakes⟩ := @queueStep_next cfg sms w act
  obtain ⟨hold, hnew⟩ := @attempts_next cfg sms w act
  refine ⟨nodup_queueStep h.ids hs ?_, fun t ht => ?_⟩
  · rintro id source destination lengthBits data now rfl
    obtain ⟨_, _, _, _, _, rfl⟩ := hmakes
    exact hallowed.1
  · rcases hnew t ht with ht | ⟨-, ht⟩
    · obtain ⟨a, ha, heq⟩ := List.mem_map.mp (h.waiting t ht)
      exact List.mem_map.mpr ⟨a, hold a ha, heq⟩
    · exact ht

theorem known_of_reach {selfId : UInt64}
    (h : Reach ({ app := AppState.start selfId } : World) World.Allowed (World.next cfg sms) w) : Known w := by
  have h0 : Known ({ app := AppState.start selfId } : World) := ⟨List.nodup_nil, nofun⟩
  exact h.invariant h0 fun _ _ hk ha => hk.next ha

/-- A message that a call leaves in the queue was there, or is the one stored. -/
theorem destination_queueStep (hs : QueueStep sms ms op ms') {m' : StoredSms} (hm : m' ∈ ms') :
    (∃ m ∈ ms, m.id = m'.id ∧ m.destination = m'.destination) ∨
      ∃ id source destination lengthBits data now, op = .store id source destination lengthBits data now := by
  cases hs with
  | same | deleted => exact .inl ⟨m', by first | exact hm | exact (List.mem_filter.mp hm).1, rfl, rfl⟩
  | stored => exact .inr ⟨_, _, _, _, _, _, rfl⟩
  | @taken issi force now uuid xs ys m split due =>
    refine .inl ?_
    rcases List.mem_append.mp hm with hm | hm
    · exact ⟨m', split ▸ List.mem_append_left _ hm, rfl, rfl⟩
    · rcases List.mem_cons.mp hm with rfl | hm
      · exact ⟨m, split ▸ List.mem_append_right _ List.mem_cons_self, rfl, rfl⟩
      · exact ⟨m', split ▸ List.mem_append_right _ (List.mem_cons_of_mem m hm), rfl, rfl⟩
  | @released uuid xs ys m split own =>
    refine .inl ?_
    rcases List.mem_append.mp hm with hm | hm
    · exact ⟨m', split ▸ List.mem_append_left _ hm, rfl, rfl⟩
    · rcases List.mem_cons.mp hm with rfl | hm
      · exact ⟨m, split ▸ List.mem_append_right _ List.mem_cons_self, rfl, rfl⟩
      · exact ⟨m', split ▸ List.mem_append_right _ (List.mem_cons_of_mem m hm), rfl, rfl⟩
  | @reported uuid xs ys m split own =>
    refine .inl ⟨m', ?_, rfl, rfl⟩
    rw [split]
    exact ((List.sublist_cons_self m ys).append_left xs).subset hm
  | swept on =>
    obtain ⟨m, hkept, rfl⟩ := List.mem_map.mp hm
    exact .inl ⟨m, (List.mem_filter.mp hkept).1, (congrArg Prod.fst (body_free (m := m))).symm, destination_free.symm⟩

/-- A store either leaves the queue or puts the message it reports at its end. -/
theorem store_cases (d : SmsFile) (id : Uuid) (source destination : UInt32) (lengthBits : UInt16) (data : Bytes)
    (now : UInt64) :
    (d.store sms id source destination lengthBits data now).1.messages = d.messages ∨
      ∃ m, (d.store sms id source destination lengthBits data now).2 = .stored m ∧
        (d.store sms id source destination lengthBits data now).1.messages = d.messages ++ [m] := by
  unfold SmsFile.store
  split
  · exact .inl rfl
  · split
    · exact .inl rfl
    · split
      · exact .inl rfl
      · split
        · exact .inl rfl
        · split
          · exact .inl rfl
          · dsimp only
            split
            · exact .inl rfl
            · exact .inr ⟨_, rfl, rfl⟩

end Queue

/-- What a run has attempted, and what the queue knows of it. -/
structure PendingRun.Sound (r : PendingRun) : Prop where
  known : Known r.world
  /-- Every attempt but the one in hand was sent. -/
  made : r.running = true → r.made.map Prod.snd = r.sent ++ r.inHand
  attempts : ∀ a ∈ r.made, a ∈ r.world.attempts
  /-- No other run has an attempt of this one to give back. -/
  apart : ∀ t ∈ r.world.waiting, t.uuid ∉ r.made.map Prod.fst
  awaiting : r.running = true → Awaiting r.made r.world.center.messages
  once : (r.sent ++ r.inHand).Nodup
  queued : ∀ m ∈ r.world.center.messages, m.destination = r.issi → m.id ∈ r.stored
  own : ∀ id ∈ r.sent ++ r.inHand, id ∈ r.stored

section Run

variable {cfg : Config} {sms : SmsCenterConfig} {w : World} {r : PendingRun}

theorem sound_begin (h : Known w) (issi : UInt32) (force : Bool) : (PendingRun.begin w issi force).Sound where
  known := h
  made _ := rfl
  attempts := nofun
  apart := fun _ _ => List.not_mem_nil
  awaiting _ := nofun
  once := List.nodup_nil
  queued m hm hd := List.mem_map.mpr ⟨m, List.mem_filter.mpr ⟨hm, decide_eq_true hd⟩, rfl⟩
  own := nofun

theorem queued_next (hq : ∀ m ∈ r.world.center.messages, m.destination = r.issi → m.id ∈ r.stored) (act : Act) :
    ∀ m ∈ (r.world.next cfg sms act).center.messages, m.destination = r.issi →
      m.id ∈ r.stored ++ PendingRun.newlyStored sms r.world r.issi act := by
  intro m' hm' hd
  obtain ⟨op, hs, hmakes⟩ := @queueStep_next cfg sms r.world act
  rcases destination_queueStep hs hm' with ⟨m, hm, hid, hdest⟩ | ⟨id, _, _, _, _, _, rfl⟩
  · rw [← hid]
    exact List.mem_append_left _ (hq m hm (hdest.trans hd))
  · obtain ⟨source, destination, lengthBits, data, now, rfl⟩ := hmakes
    change m' ∈ (r.world.center.store sms id source destination lengthBits data now).1.messages at hm'
    rcases @store_cases sms r.world.center id source destination lengthBits data now with hsame | ⟨m, hout, hmsgs⟩
    · rw [hsame] at hm'
      exact List.mem_append_left _ (hq m' hm' hd)
    · rw [hmsgs] at hm'
      rcases List.mem_append.mp hm' with hm' | hm'
      · exact List.mem_append_left _ (hq m' hm' hd)
      · obtain rfl := List.mem_singleton.mp hm'
        refine List.mem_append_right _ ?_
        rw [PendingRun.newlyStored, hout]
        dsimp only
        rw [if_pos hd]
        exact List.mem_singleton_self _

theorem PendingRun.Sound.other (h : r.Sound) {act : Act} (hallowed : r.world.Allowed act)
    (hin : r.InTime sms (.other act)) : (r.next cfg sms (.other act)).Sound := by
  obtain ⟨op, hs, hmakes⟩ := @queueStep_next cfg sms r.world act
  obtain ⟨hold, hnew⟩ := @attempts_next cfg sms r.world act
  refine ⟨h.known.next hallowed, h.made, fun a ha => hold a (h.attempts a ha), fun t ht => ?_, fun hrun => ?_,
    h.once, queued_next h.queued act, fun id hid => List.mem_append_left _ (h.own id hid)⟩
  · rcases hnew t ht with ht | ⟨⟨issi, force, now, rfl⟩, -⟩
    · exact h.apart t ht
    · intro hmine
      obtain ⟨a, ha, heq⟩ := List.mem_map.mp hmine
      exact hallowed (List.mem_map.mpr ⟨a, h.attempts a ha, heq⟩)
  · refine (h.awaiting hrun).queueStep hs ?_ ?_ ?_
    · rintro id source destination lengthBits data now rfl hmine
      obtain ⟨_, _, _, _, _, rfl⟩ := hmakes
      obtain ⟨a, ha, heq⟩ := List.mem_map.mp hmine
      exact hallowed.2 (List.mem_map.mpr ⟨a, h.attempts a ha, heq⟩)
    · rintro uuid rfl
      obtain ⟨t, ht, rfl⟩ := hmakes
      exact h.apart t ht
    · rintro now rfl
      obtain rfl := hmakes
      exact hin hrun

/-- The message a run takes is one it has not attempted. -/
theorem PendingRun.Sound.fresh (h : r.Sound) (hrun : r.running = true) (hhand : r.inHand = [])
    {force : Bool} {now : UInt64} {m : StoredSms} (hm : m ∈ r.world.center.messages)
    (hdue : isDue sms r.issi force now m = true) : m.id ∉ r.sent ∧ m.id ∈ r.stored := by
  have hmade := h.made hrun
  rw [hhand, List.append_nil] at hmade
  refine ⟨fun hsent => ?_, h.queued m hm ?_⟩
  · rw [← hmade] at hsent
    obtain ⟨a, ha, hid⟩ := List.mem_map.mp hsent
    have hflight := h.awaiting hrun a ha m hm hid.symm
    rw [isDue_waiting hdue] at hflight
    cases hflight
  · simp only [isDue, Bool.and_eq_true, decide_eq_true_eq] at hdue
    exact hdue.1.1.1

theorem PendingRun.Sound.take (h : r.Sound) {now : UInt64} {uuid : Uuid}
    (hfresh : uuid ∉ r.world.attempts.map Prod.fst) : (r.next cfg sms (.take now uuid)).Sound := by
  rw [PendingRun.next]
  split
  · next client hstage =>
    have hrun : r.running = true := by rw [PendingRun.running, hstage]
    have hhand : r.inHand = [] := by rw [PendingRun.inHand, hstage]
    have honce := h.once
    have hown := h.own
    have hmade := h.made hrun
    rw [hhand, List.append_nil] at honce hown hmade
    split
    · exact ⟨h.known, nofun, h.attempts, h.apart, nofun, by rwa [PendingRun.inHand, List.append_nil], h.queued,
        by rwa [PendingRun.inHand, List.append_nil]⟩
    · next center message htake =>
      obtain ⟨m, xs, ys, hsplit, hdue, rfl, rfl⟩ := takeNextDue_some htake
      have hm : m ∈ r.world.center.messages := by
        rw [hsplit]
        exact List.mem_append_right _ List.mem_cons_self
      obtain ⟨hnot, hstored⟩ := h.fresh hrun hhand hm hdue
      have hs : QueueStep sms r.world.center.messages (.takeNextDue r.issi r.force now uuid)
          (xs ++ attempt uuid now m :: ys) := .taken hsplit (isDue_waiting hdue)
      have hwait := (h.awaiting hrun).queueStep hs nofun nofun nofun
      have hids := nodup_queueStep h.known.ids hs nofun
      refine ⟨⟨hids, fun t ht => List.mem_cons_of_mem _ (h.known.waiting t ht)⟩, fun _ => ?_, fun a ha => ?_,
        fun t ht => ?_, fun _ => ?_, ?_, fun x hx hd => ?_, fun id hid => ?_⟩
      · change (r.made ++ [(uuid, m.id)]).map Prod.snd = r.sent ++ [m.id]
        rw [List.map_append, hmade]
        rfl
      · rcases List.mem_append.mp ha with ha | ha
        · exact List.mem_cons_of_mem _ (h.attempts a ha)
        · rw [List.mem_singleton.mp ha]
          exact List.mem_cons_self
      · change t.uuid ∉ (r.made ++ [(uuid, m.id)]).map Prod.fst
        rw [List.map_append, List.mem_append, not_or]
        refine ⟨h.apart t ht, fun heq => hfresh ?_⟩
        have hsame : t.uuid = uuid := List.mem_singleton.mp heq
        rw [← hsame]
        exact h.known.waiting t ht
      · intro a ha x hx hid
        rcases List.mem_append.mp ha with ha | ha
        · exact hwait a ha x hx hid
        · obtain rfl := List.mem_singleton.mp ha
          have hself : attempt uuid now m ∈ xs ++ attempt uuid now m :: ys :=
            List.mem_append_right _ List.mem_cons_self
          rw [List.inj_on_of_nodup_map hids hx hself hid]
          rfl
      · change (r.sent ++ [m.id]).Nodup
        exact List.nodup_append_comm.mp (List.nodup_cons.mpr ⟨hnot, honce⟩)
      · rcases destination_queueStep hs hx with ⟨y, hy, hid, hdest⟩ | ⟨_, _, _, _, _, _, hop⟩
        · rw [← hid]
          exact h.queued y hy (hdest.trans hd)
        · cases hop
      · rcases List.mem_append.mp hid with hid | hid
        · exact hown id hid
        · rw [List.mem_singleton.mp hid]
          exact hstored
  · exact h

theorem PendingRun.Sound.send (h : r.Sound) (env : Env) : (r.next cfg sms (.send env)).Sound := by
  rw [PendingRun.next]
  split
  · next t hstage =>
    have hrun : r.running = true := by rw [PendingRun.running, hstage]
    have hhand : r.inHand = [t.message.id] := by rw [PendingRun.inHand, hstage]
    have honce := h.once
    have hown := h.own
    have hmade := h.made hrun
    rw [hhand] at honce hown hmade
    dsimp only
    split
    · next hgone =>
      have hs : QueueStep sms r.world.center.messages (.release t.uuid) (r.world.center.release t.uuid).messages :=
        queueStep (.release t.uuid)
      have hworld : r.world.send env t = { r.world with
          waiting := r.world.waiting.filter fun t' => t'.uuid ≠ t.uuid, center := r.world.center.release t.uuid } := by
        rw [World.send, if_pos hgone]
      rw [hworld]
      refine ⟨⟨nodup_queueStep h.known.ids hs nofun, fun t' ht' => h.known.waiting t' (List.mem_filter.mp ht').1⟩,
        nofun, h.attempts, fun t' ht' => h.apart t' (List.mem_filter.mp ht').1, nofun, ?_, fun x hx hd => ?_,
        fun id hid => hown id (List.mem_append_left _ ?_)⟩
      · rw [PendingRun.inHand, List.append_nil]
        exact (List.nodup_append.mp honce).1
      · rcases destination_queueStep hs hx with ⟨y, hy, hid, hdest⟩ | ⟨_, _, _, _, _, _, hop⟩
        · rw [← hid]
          exact h.queued y hy (hdest.trans hd)
        · cases hop
      · rwa [PendingRun.inHand, List.append_nil] at hid
    · next hthere =>
      obtain ⟨w', hw'⟩ : ∃ w', r.world.send env t = w' := ⟨_, rfl⟩
      have hcenter : w'.center = r.world.center ∧ w'.attempts = r.world.attempts ∧
          w'.waiting = r.world.waiting.filter fun t' => t'.uuid ≠ t.uuid := by
        rw [← hw', World.send, if_neg hthere]
        exact ⟨rfl, rfl, rfl⟩
      obtain ⟨hc, ha, hwt⟩ := hcenter
      rw [hw']
      refine ⟨⟨?_, fun t' ht' => ?_⟩, fun _ => ?_, fun a hm => ?_, fun t' ht' => ?_, fun _ => ?_, ?_, ?_, ?_⟩
      · change (w'.center.messages.map StoredSms.id).Nodup
        rw [hc]
        exact h.known.ids
      · change t' ∈ w'.waiting at ht'
        change t'.uuid ∈ w'.attempts.map Prod.fst
        rw [hwt] at ht'
        rw [ha]
        exact h.known.waiting t' (List.mem_filter.mp ht').1
      · change r.made.map Prod.snd = (r.sent ++ [t.message.id]) ++ []
        rw [List.append_nil]
        exact hmade
      · change a ∈ w'.attempts
        rw [ha]
        exact h.attempts a hm
      · change t' ∈ w'.waiting at ht'
        rw [hwt] at ht'
        exact h.apart t' (List.mem_filter.mp ht').1
      · change Awaiting r.made w'.center.messages
        rw [hc]
        exact h.awaiting hrun
      · change ((r.sent ++ [t.message.id]) ++ []).Nodup
        rw [List.append_nil]
        exact honce
      · change ∀ m ∈ w'.center.messages, m.destination = r.issi → m.id ∈ r.stored
        rw [hc]
        exact h.queued
      · change ∀ id ∈ (r.sent ++ [t.message.id]) ++ [], id ∈ r.stored
        rw [List.append_nil]
        exact hown
  · exact h

theorem PendingRun.Sound.find (h : r.Sound) : (r.next cfg sms .find).Sound := by
  rw [PendingRun.next]
  split
  · next hstage =>
    have hrun : r.running = true := by rw [PendingRun.running, hstage]
    have hhand : r.inHand = [] := by rw [PendingRun.inHand, hstage]
    have honce := h.once
    have hown := h.own
    have hmade := h.made hrun
    rw [hhand] at honce hown hmade
    split
    · exact ⟨h.known, nofun, h.attempts, h.apart, nofun, honce, h.queued, hown⟩
    · exact ⟨h.known, fun _ => hmade, h.attempts, h.apart, fun _ => h.awaiting hrun, honce, h.queued, hown⟩
  · exact h

theorem PendingRun.Sound.next (h : r.Sound) {x : RunStep} (hallowed : r.Allowed x) (hin : r.InTime sms x) :
    (r.next cfg sms x).Sound := by
  cases x with
  | other act => exact h.other hallowed hin
  | find => exact h.find
  | take now uuid => exact h.take hallowed
  | send env => exact h.send env

/-- While no sweep frees an attempt of the run, the run sends each message at
most once, so no more often than there were messages for it, and finds nothing
to take once it has sent as many. -/
theorem sends_once {selfId : UInt64} {issi : UInt32}
    (hw : Reach ({ app := AppState.start selfId } : World) World.Allowed (World.next cfg sms) w)
    (h : Reach (PendingRun.begin w issi true) (fun r x => r.Allowed x ∧ r.InTime sms x) (PendingRun.next cfg sms) r) :
    r.sent.Nodup ∧ r.sent.length ≤ r.stored.length ∧
      ∀ (client : ClientId) (now : UInt64) (uuid : Uuid), r.stage = .located client →
        r.stored.length ≤ r.sent.length → (r.next cfg sms (.take now uuid)).stage = .ended := by
  have hsound : r.Sound := h.invariant (P := PendingRun.Sound) (sound_begin (known_of_reach hw) issi true)
    fun _ _ hs hx => hs.next hx.1 hx.2
  have honce : r.sent.Nodup := (List.nodup_append.mp hsound.once).1
  have hown : r.sent ⊆ r.stored := fun id hid => hsound.own id (List.mem_append_left _ hid)
  refine ⟨honce, (List.subperm_of_subset honce hown).length_le, fun client now uuid hstage hle => ?_⟩
  have hrun : r.running = true := by rw [PendingRun.running, hstage]
  have hhand : r.inHand = [] := by rw [PendingRun.inHand, hstage]
  rw [PendingRun.next, hstage]
  dsimp only
  cases htake : r.world.center.takeNextDue sms r.issi r.force now uuid with
  | none => rfl
  | some taken =>
    -- A message left to take would be one more than were stored.
    obtain ⟨m, xs, ys, hsplit, hdue, -, -⟩ := takeNextDue_some htake
    obtain ⟨hnot, hstored⟩ := hsound.fresh hrun hhand (hsplit ▸ List.mem_append_right _ List.mem_cons_self) hdue
    have hlen := (List.subperm_of_subset (List.nodup_cons.mpr ⟨hnot, honce⟩)
      (List.cons_subset.mpr ⟨hstored, hown⟩)).length_le
    rw [List.length_cons] at hlen
    omega

end Run

instance (sms : SmsCenterConfig) (r : PendingRun) (x : RunStep) : Decidable (r.InTime sms x) :=
  match x with
  | .other (.sweep now) =>
    have hone : ∀ a : Uuid × Uuid, Decidable (∀ m ∈ r.world.center.messages, m.inFlight = some a.1 →
        Kept sms now m = true → elapsed now (saturatingMul sms.ackTimeoutSeconds 1000) m.lastAttemptMs = false) :=
      fun _ => @List.decidableBAll _ _ (fun _ => inferInstance) r.world.center.messages
    @instDecidableForall (r.running = true) _ inferInstance (@List.decidableBAll _ _ hone r.made)
  | .other (.app _) | .other (.noteKnown _) | .other (.store ..) | .other (.take ..) | .other (.send ..)
  | .other (.onReport _) | .other (.delete _) | .find | .take .. | .send _ => isTrue trivial

/-- ISSI 2002 is registered on client 5, and two messages for it are queued. -/
def twoQueued : List Act :=
  [.app (.connect 5 (.accepted .basestation) none false),
    .app (.packet (Env.at 1) 5 (buildSubscriberMessage subRegister 2002 [])),
    .store 1 1001 2002 16 [0x02, 0x01] 1000, .store 2 1001 2002 16 [0x02, 0x02] 2000]

theorem reach_twoQueued :
    Reach World.start World.Allowed (World.next {} {}) (twoQueued.foldl (World.next {} {}) World.start) :=
  Reach.of_list twoQueued .init (by decide +kernel)

/-- The run that begins when 2002 registers. -/
def pendingTwo : PendingRun := .begin (twoQueued.foldl (World.next {} {}) World.start) 2002 true

/-- The first message is sent, and the second taken. -/
def oneSent : List RunStep := [.find, .take 5000 7, .send (Env.at 5), .find, .take 5000 8]

/-- Both are sent before a sweep is due to free the first. -/
def bothSent : List RunStep := oneSent ++ [.other (.sweep 34000), .send (Env.at 35)]

/-- The wait before the second send is longer than the timeout of the first
attempt. -/
def sentAgain : List RunStep :=
  oneSent ++ [.other (.sweep 36000), .send (Env.at 45), .find, .take 45000 9, .send (Env.at 46)]

theorem sends_once_bothSent :
    (bothSent.foldl (PendingRun.next {} {}) pendingTwo).sent = [1, 2] ∧
      (bothSent.foldl (PendingRun.next {} {}) pendingTwo).sent.Nodup := by
  have hr : Reach pendingTwo (fun r x => r.Allowed x ∧ r.InTime {} x) (PendingRun.next {} {})
      (bothSent.foldl (PendingRun.next {} {}) pendingTwo) :=
    Reach.of_list bothSent .init (by decide +kernel)
  exact ⟨by decide +kernel, (sends_once reach_twoQueued hr).1⟩

/-- A forced run sends a message twice. -/
theorem not_sends_once :
    Reach World.start World.Allowed (World.next {} {}) (twoQueued.foldl (World.next {} {}) World.start) ∧
      Reach pendingTwo PendingRun.Allowed (PendingRun.next {} {}) (sentAgain.foldl (PendingRun.next {} {}) pendingTwo) ∧
      ¬ (sentAgain.foldl (PendingRun.next {} {}) pendingTwo).sent.Nodup := by
  have hsent : (sentAgain.foldl (PendingRun.next {} {}) pendingTwo).sent = [1, 2, 1] := by decide +kernel
  refine ⟨reach_twoQueued, Reach.of_list sentAgain .init (by decide +kernel), ?_⟩
  rw [hsent]
  decide

end BrewServer.Sms
