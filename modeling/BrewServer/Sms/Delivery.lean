import BrewServer.Server
import BrewServer.Sms.Conservation
import Mathlib.Data.List.Nodup

/-!
# Deliveries and their reports

The queue next to the server's SDS routes. `deliver_pending` takes a message and
sends it later; a delivery report is matched against the routes first, and
against the queue once the routes are unlocked.
-/

namespace BrewServer.Sms

open Protocol Router SmsFile

/-- A message taken for delivery, not sent yet. -/
structure Delivery where
  client : ClientId
  uuid : Uuid
  message : StoredSms

/-- What the destination of a message sees and says, in order. -/
inductive Entry
  | delivered (message uuid : Uuid)
  /-- A report for an attempt arrived while its route was kept. -/
  | acknowledged (message : Uuid)
  deriving DecidableEq

structure World where
  app : AppState
  center : SmsFile := {}
  waiting : List Delivery := []
  /-- Reports matched against the routes, not yet against the queue. -/
  reports : List Uuid := []
  /-- Every attempt's uuid, with its message. -/
  attempts : List (Uuid × Uuid) := []
  log : List Entry := []

/-- The attempt a packet reports, by the SDS routes. -/
def reportedAttempt (env : Env) (s : Inner) (source : ClientId) (raw : Bytes) : Option Uuid :=
  let s := purgeEphemeral env s
  if raw.head? = some classFederation then none
  else
    match parseWithVersion raw (clientVersion s source) with
    | some (.ok (.frame f, _)) =>
      if f.frameType ≠ frameSdsReport then none
      else
        (s.sdsRoutes[f.identifier]?).bind fun route =>
          if source ∈ route.targets ∧ route.sourceClient = smsCenterClient then some f.identifier else none
    | _ => none

/-- Where `issi` is registered right now, if anywhere. -/
def clientOf (s : Inner) (issi : UInt32) : Option ClientId :=
  (s.subscribers[issi]?).bind fun sub => if sub.clientId ∈ s.clients then some sub.clientId else none

/-- One step of the server or of a task of the SMS Center. A status report to an
originator is a `smsDeliver` event of the server. -/
inductive Act
  | app (ev : Event)
  | noteKnown (issi : UInt32)
  | store (id : Uuid) (sourceIssi destination : UInt32) (lengthBits : UInt16) (data : Bytes) (now : UInt64)
  /-- A delivery takes its next message. -/
  | take (issi : UInt32) (force : Bool) (now : UInt64) (uuid : Uuid)
  /-- A delivery sends the message it took, or gives it back. -/
  | send (env : Env) (uuid : Uuid)
  | onReport (uuid : Uuid)
  | sweep (now : UInt64)
  | delete (id : Uuid)

namespace World

variable (cfg : Config) (sms : SmsCenterConfig)

/-- The report in an event, if it carries one. -/
def reported (w : World) : Event → Option Uuid
  | .packet env source raw => reportedAttempt env w.app.inner source raw
  | _ => none

/-- The message of an attempt. -/
def messageOf (w : World) (uuid : Uuid) : List Uuid := (w.attempts.filter fun a => a.1 = uuid).map Prod.snd

/-- A report that the routes accept is on its way to the queue. -/
def arrive (w : World) : Option Uuid → World
  | none => w
  | some uuid => { w with reports := uuid :: w.reports, log := w.log ++ (w.messageOf uuid).map .acknowledged }

def take (w : World) (issi : UInt32) (force : Bool) (now : UInt64) (uuid : Uuid) : World :=
  match clientOf w.app.inner issi, w.center.takeNextDue sms issi force now uuid with
  | some client, some (center, message) =>
    { w with
      center
      waiting := w.waiting ++ [{ client, uuid, message }]
      attempts := (uuid, message.id) :: w.attempts }
  | _, _ => w

/-- `originate` for a message taken before. -/
def send (w : World) (env : Env) (t : Delivery) : World :=
  let rest := w.waiting.filter fun t' => t'.uuid ≠ t.uuid
  if env.blocked t.message.destination ∨ t.client ∉ w.app.inner.clients then
    { w with waiting := rest, center := w.center.release t.uuid }
  else
    { w with
      app := { w.app with
        inner := (originate env w.app.inner t.client t.uuid t.message.sourceIssi t.message.destination
          t.message.lengthBits t.message.data).1 }
      waiting := rest
      log := w.log ++ [.delivered t.message.id t.uuid] }

def next (w : World) : Act → World
  | .app ev => { w.arrive (w.reported ev) with app := w.app.next cfg ev }
  | .noteKnown issi => { w with center := w.center.noteKnown sms issi }
  | .store id sourceIssi destination lengthBits data now =>
    { w with center := (w.center.store sms id sourceIssi destination lengthBits data now).1 }
  | .take issi force now uuid => w.take sms issi force now uuid
  | .send env uuid => ((w.waiting.find? fun t => t.uuid = uuid).map (w.send env)).getD w
  | .onReport uuid =>
    if uuid ∈ w.reports then { w with reports := w.reports.erase uuid, center := w.center.onReport uuid } else w
  | .sweep now => { w with center := (w.center.sweep sms now).1 }
  | .delete id => { w with center := w.center.delete id }

/-- A message and an attempt get ids of their own. -/
def Allowed (w : World) : Act → Prop
  | .store id .. => id ∉ w.center.messages.map StoredSms.id ∧ id ∉ w.attempts.map Prod.snd
  | .take _ _ _ uuid => uuid ∉ w.attempts.map Prod.fst
  | _ => True

instance (w : World) (act : Act) : Decidable (w.Allowed act) := by cases act <;> unfold Allowed <;> infer_instance

/-- An attempt is the one in flight for its message, and no other one waits to be
sent. -/
def Current (w : World) (uuid : Uuid) : Prop :=
  ∀ id ∈ w.messageOf uuid,
    (∀ m ∈ w.center.messages, m.id = id → m.inFlight = some uuid) ∧ ∀ t ∈ w.waiting, t.message.id ≠ id

instance (w : World) (uuid : Uuid) : Decidable (w.Current uuid) :=
  @List.decidableBAll _ _ (fun _ => inferInstance) (w.messageOf uuid)

/-- A sweep frees no attempt whose report is on its way to the queue. -/
def Spares (w : World) (now : UInt64) : Prop :=
  ∀ uuid ∈ w.reports, ∀ m ∈ w.center.messages, m.inFlight = some uuid → (free sms now m).inFlight = some uuid

instance (w : World) (now : UInt64) : Decidable (w.Spares sms now) :=
  @List.decidableBAll _ _ (fun _ => inferInstance) w.reports

/-- A report comes while its attempt is current, and no sweep frees the attempt
before the queue has the report. -/
def InTime (w : World) : Act → Prop
  | .app ev => (w.reported ev).elim True w.Current
  | .sweep now => w.Spares sms now
  | _ => True

end World

/-- No message is delivered after it was acknowledged. -/
def NeverAgain (log : List Entry) : Prop :=
  log.Pairwise fun x y => ∀ id, x = .acknowledged id → ∀ uuid, y ≠ .delivered id uuid

/-- The marks in the queue, the deliveries under way and the log agree. -/
structure Consistent (w : World) : Prop where
  ids : (w.center.messages.map StoredSms.id).Nodup
  uuids : (w.attempts.map Prod.fst).Nodup
  flight : ∀ m ∈ w.center.messages, ∀ uuid, m.inFlight = some uuid → (uuid, m.id) ∈ w.attempts
  waiting : ∀ t ∈ w.waiting, (t.uuid, t.message.id) ∈ w.attempts
  acknowledged : ∀ id, .acknowledged id ∈ w.log → id ∈ w.attempts.map Prod.snd
  /-- An acknowledged message that is still queued awaits its report. -/
  held : ∀ m ∈ w.center.messages, .acknowledged m.id ∈ w.log → ∃ uuid ∈ w.reports, m.inFlight = some uuid
  clear : ∀ t ∈ w.waiting, .acknowledged t.message.id ∉ w.log
  quiet : NeverAgain w.log

section Consistent

variable {cfg : Config} {sms : SmsCenterConfig} {w : World}

theorem Consistent.message_unique (h : Consistent w) {uuid id id' : Uuid} (h1 : (uuid, id) ∈ w.attempts)
    (h2 : (uuid, id') ∈ w.attempts) : id = id' :=
  congrArg Prod.snd (List.inj_on_of_nodup_map h.uuids h1 h2 rfl)

theorem mem_messageOf {uuid id : Uuid} : id ∈ w.messageOf uuid ↔ (uuid, id) ∈ w.attempts := by
  simp [World.messageOf]

/-- A report that comes in time. -/
theorem Consistent.arrive (h : Consistent w) {uuid : Uuid} (hin : w.Current uuid) :
    Consistent (w.arrive (some uuid)) := by
  have hlog : ∀ id, .acknowledged id ∈ (w.arrive (some uuid)).log →
      .acknowledged id ∈ w.log ∨ id ∈ w.messageOf uuid := by
    intro id hid
    rcases List.mem_append.mp hid with hid | hid
    · exact .inl hid
    · obtain ⟨id', hid', he⟩ := List.mem_map.mp hid
      cases he
      exact .inr hid'
  refine ⟨h.ids, h.uuids, h.flight, h.waiting, fun id hid => ?_, fun m hm hack => ?_, fun t ht hack => ?_, ?_⟩
  · rcases hlog id hid with hid | hid
    · exact h.acknowledged id hid
    · exact List.mem_map.mpr ⟨_, mem_messageOf.mp hid, rfl⟩
  · rcases hlog m.id hack with hack | hack
    · obtain ⟨u, hu, hf⟩ := h.held m hm hack
      exact ⟨u, List.mem_cons_of_mem _ hu, hf⟩
    · exact ⟨uuid, List.mem_cons_self, (hin m.id hack).1 m hm rfl⟩
  · rcases hlog t.message.id hack with hack | hack
    · exact h.clear t ht hack
    · exact (hin _ hack).2 t ht rfl
  · refine List.pairwise_append.mpr ⟨h.quiet, ?_, fun x _ y hy => ?_⟩
    · refine List.pairwise_map.mpr (List.pairwise_of_forall fun _ _ id _ uuid => nofun)
    · obtain ⟨id', _, rfl⟩ := List.mem_map.mp hy
      exact fun id _ uuid => nofun

/-- Calls on the queue that neither mark nor clear an acknowledged message. -/
theorem Consistent.ofQueue (h : Consistent w) {center : SmsFile} (hids : (center.messages.map StoredSms.id).Nodup)
    (hold : ∀ m ∈ center.messages, (∃ m' ∈ w.center.messages, m'.id = m.id ∧
        (∀ uuid, m.inFlight = some uuid → m'.inFlight = some uuid) ∧
        (.acknowledged m.id ∈ w.log → ∀ uuid ∈ w.reports, m'.inFlight = some uuid → m.inFlight = some uuid)) ∨
      (m.inFlight = none ∧ .acknowledged m.id ∉ w.log)) : Consistent { w with center } := by
  refine ⟨hids, h.uuids, fun m hm uuid hf => ?_, h.waiting, h.acknowledged, fun m hm hack => ?_, h.clear, h.quiet⟩
  · rcases hold m hm with ⟨m', hm', hid, hflight, -⟩ | ⟨hnone, -⟩
    · rw [← hid]
      exact h.flight m' hm' uuid (hflight uuid hf)
    · rw [hnone] at hf
      cases hf
  · rcases hold m hm with ⟨m', hm', hid, -, hkept⟩ | ⟨-, hnot⟩
    · obtain ⟨uuid, hu, hf⟩ := h.held m' hm' (hid ▸ hack)
      exact ⟨uuid, hu, hkept hack uuid hu hf⟩
    · exact absurd hack hnot

/-- Fewer messages, each as it was. -/
theorem Consistent.fewer (h : Consistent w) {center : SmsFile} (hs : center.messages.Sublist w.center.messages) :
    Consistent { w with center } :=
  h.ofQueue (h.ids.sublist (hs.map _)) fun m hm => .inl ⟨m, hs.subset hm, rfl, fun _ hf => hf, fun _ _ _ hf => hf⟩

theorem Consistent.store (h : Consistent w) {id : Uuid} {source destination : UInt32} {lengthBits : UInt16}
    {data : Bytes} {now : UInt64} (hid : id ∉ w.center.messages.map StoredSms.id)
    (hnew : id ∉ w.attempts.map Prod.snd) :
    Consistent { w with center := (w.center.store sms id source destination lengthBits data now).1 } := by
  have hs : QueueStep sms w.center.messages (.store id source destination lengthBits data now)
    (w.center.store sms id source destination lengthBits data now).1.messages := queueStep_store
  cases hm : (w.center.store sms id source destination lengthBits data now).1 with
  | mk known messages =>
    rw [hm] at hs
    dsimp only at hs
    cases hs with
    | same => exact h.fewer (List.Sublist.refl _)
    | stored on target perDest total new own =>
      refine h.ofQueue ?_ fun m hm => ?_
      · rw [List.map_append, List.map_singleton, own]
        exact List.nodup_append_comm.mp (List.nodup_cons.mpr ⟨hid, h.ids⟩)
      · rcases List.mem_append.mp hm with hm | hm
        · exact .inl ⟨m, hm, rfl, fun _ hf => hf, fun _ _ _ hf => hf⟩
        · rw [List.mem_singleton.mp hm]
          exact .inr ⟨new.1, fun hack => hnew (own ▸ h.acknowledged _ hack)⟩

theorem Consistent.sweep (h : Consistent w) {now : UInt64} (hin : w.Spares sms now) :
    Consistent { w with center := (w.center.sweep sms now).1 } := by
  cases hon : sms.enabled with
  | false =>
    rw [SmsFile.sweep, if_pos (by rw [hon]; rfl)]
    exact h
  | true =>
    rw [sweep_parts w.center hon]
    have hids : ∀ ms : List StoredSms, (ms.map (free sms now)).map StoredSms.id = ms.map StoredSms.id := by
      intro ms
      rw [List.map_map]
      exact List.map_congr_left fun m _ => congrArg Prod.fst (body_free (m := m))
    refine h.ofQueue ?_ fun m hm => ?_
    · rw [hids]
      exact h.ids.sublist (List.filter_sublist.map _)
    · obtain ⟨x, hx, rfl⟩ := List.mem_map.mp hm
      have hx' := (List.mem_filter.mp hx).1
      exact .inl ⟨x, hx', (congrArg Prod.fst (body_free (m := x))).symm, fun _ => inFlight_free,
        fun _ uuid hu hf => hin uuid hu x hx' hf⟩

/-- A delivery that is given back was not acknowledged. -/
theorem Consistent.release (h : Consistent w) {t : Delivery} (ht : t ∈ w.waiting) :
    Consistent { w with center := w.center.release t.uuid } := by
  have hs : QueueStep {} w.center.messages (.release t.uuid) (w.center.release t.uuid).messages := queueStep _
  cases hm : w.center.release t.uuid with
  | mk known messages =>
    rw [hm] at hs
    dsimp only at hs
    cases hs with
    | same => exact h.fewer (List.Sublist.refl _)
    | @released _ xs ys m split own =>
      have hmem : ∀ x ∈ xs ++ ys, x ∈ w.center.messages := fun x hx => by
        rw [split]
        exact ((List.sublist_cons_self m ys).append_left xs).subset hx
      have hnot : .acknowledged m.id ∉ w.log := by
        have hm : m ∈ w.center.messages := by rw [split]; exact List.mem_append_right _ List.mem_cons_self
        rw [h.message_unique (h.flight m hm _ own) (h.waiting t ht)]
        exact h.clear t ht
      refine h.ofQueue ?_ fun x hx => ?_
      · have hi := h.ids
        rw [split, List.map_append, List.map_cons] at hi
        rw [List.map_append, List.map_cons]
        exact hi
      · rcases List.mem_append.mp hx with hx | hx
        · exact .inl ⟨x, hmem x (List.mem_append_left _ hx), rfl, fun _ hf => hf, fun _ _ _ hf => hf⟩
        · rcases List.mem_cons.mp hx with rfl | hx
          · exact .inr ⟨rfl, hnot⟩
          · exact .inl ⟨x, hmem x (List.mem_append_right _ hx), rfl, fun _ hf => hf, fun _ _ _ hf => hf⟩

/-- Deliveries that are done. -/
theorem Consistent.finish (h : Consistent w) {rest : List Delivery} (hs : rest.Sublist w.waiting) :
    Consistent { w with waiting := rest } :=
  ⟨h.ids, h.uuids, h.flight, fun t ht => h.waiting t (hs.subset ht), h.acknowledged, h.held,
    fun t ht => h.clear t (hs.subset ht), h.quiet⟩

/-- A message on its way is not acknowledged, so it may be delivered. -/
theorem Consistent.delivered (h : Consistent w) {t : Delivery} (ht : t ∈ w.waiting) (app : AppState) :
    Consistent { w with app, log := w.log ++ [.delivered t.message.id t.uuid] } := by
  have hlog : ∀ id, .acknowledged id ∈ w.log ++ [.delivered t.message.id t.uuid] → .acknowledged id ∈ w.log := by
    intro id hid
    rcases List.mem_append.mp hid with hid | hid
    · exact hid
    · exact nomatch List.mem_singleton.mp hid
  refine ⟨h.ids, h.uuids, h.flight, h.waiting, fun id hid => h.acknowledged id (hlog id hid),
    fun m hm hack => h.held m hm (hlog _ hack), fun t ht hack => h.clear t ht (hlog _ hack), ?_⟩
  refine List.pairwise_append.mpr ⟨h.quiet, List.pairwise_singleton _ _, fun x hx y hy id hxid uuid hyid => ?_⟩
  rw [List.mem_singleton.mp hy] at hyid
  cases hyid
  exact h.clear t ht (hxid ▸ hx)

theorem Consistent.send (h : Consistent w) {t : Delivery} (ht : t ∈ w.waiting) (env : Env) :
    Consistent (w.send env t) := by
  unfold World.send
  dsimp only
  split
  · exact (h.release ht).finish List.filter_sublist
  · exact (h.delivered ht _).finish List.filter_sublist

/-- A message that waits is not acknowledged, so it may be taken. -/
theorem Consistent.take (h : Consistent w) {issi : UInt32} {force : Bool} {now : UInt64} {uuid : Uuid}
    (hfresh : uuid ∉ w.attempts.map Prod.fst) : Consistent (w.take sms issi force now uuid) := by
  unfold World.take
  split
  · next client center message _ htake =>
    obtain ⟨m, xs, ys, hsplit, hdue, rfl, rfl⟩ := takeNextDue_some htake
    have hwait := isDue_waiting hdue
    have hm : m ∈ w.center.messages := by rw [hsplit]; exact List.mem_append_right _ List.mem_cons_self
    have hmem : ∀ x ∈ xs ++ ys, x ∈ w.center.messages := fun x hx => by
      rw [hsplit]
      exact ((List.sublist_cons_self m ys).append_left xs).subset hx
    have hnot : .acknowledged m.id ∉ w.log := fun hack => by
      obtain ⟨u, -, hf⟩ := h.held m hm hack
      rw [hwait] at hf
      cases hf
    have hcase : ∀ x ∈ xs ++ attempt uuid now m :: ys, x ∈ w.center.messages ∨ x = attempt uuid now m := by
      intro x hx
      rcases List.mem_append.mp hx with hx | hx
      · exact .inl (hmem x (List.mem_append_left _ hx))
      · rcases List.mem_cons.mp hx with rfl | hx
        · exact .inr rfl
        · exact .inl (hmem x (List.mem_append_right _ hx))
    refine ⟨?_, List.nodup_cons.mpr ⟨hfresh, h.uuids⟩, fun x hx u hf => ?_, fun t ht => ?_, fun id hid => ?_,
      fun x hx hack => ?_, fun t ht => ?_, h.quiet⟩
    · have hi := h.ids
      rw [hsplit, List.map_append, List.map_cons] at hi
      rw [List.map_append, List.map_cons]
      exact hi
    · rcases hcase x hx with hx | rfl
      · exact List.mem_cons_of_mem _ (h.flight x hx u hf)
      · cases hf
        exact List.mem_cons_self
    · rcases List.mem_append.mp ht with ht | ht
      · exact List.mem_cons_of_mem _ (h.waiting t ht)
      · rw [List.mem_singleton.mp ht]
        exact List.mem_cons_self
    · exact List.mem_cons_of_mem _ (h.acknowledged id hid)
    · rcases hcase x hx with hx | rfl
      · exact h.held x hx hack
      · exact absurd hack hnot
    · rcases List.mem_append.mp ht with ht | ht
      · exact h.clear t ht
      · rw [List.mem_singleton.mp ht]
        exact hnot
  · exact h

/-- The report of the attempt in flight removes its message. -/
theorem Consistent.onReport (h : Consistent w) (uuid : Uuid) :
    Consistent { w with reports := w.reports.erase uuid, center := w.center.onReport uuid } := by
  have hother : ∀ m ∈ w.center.messages, m.inFlight ≠ some uuid → .acknowledged m.id ∈ w.log →
      ∃ u ∈ w.reports.erase uuid, m.inFlight = some u := by
    intro m hm hne hack
    obtain ⟨u, hu, hf⟩ := h.held m hm hack
    exact ⟨u, (List.mem_erase_of_ne fun he => hne (hf.trans (congrArg some he))).mpr hu, hf⟩
  rcases onReport_cases (d := w.center) uuid with ⟨hsame, hnone⟩ | ⟨m, xs, ys, hsplit, hown, herase⟩
  · rw [hsame]
    exact ⟨h.ids, h.uuids, h.flight, h.waiting, h.acknowledged, fun m hm => hother m hm (hnone m hm), h.clear,
      h.quiet⟩
  · rw [herase]
    have hsub : (xs ++ ys).Sublist w.center.messages := by
      rw [hsplit]
      exact (List.sublist_cons_self m ys).append_left xs
    have hm : m ∈ w.center.messages := by rw [hsplit]; exact List.mem_append_right _ List.mem_cons_self
    have hne : ∀ x ∈ xs ++ ys, x.inFlight ≠ some uuid := fun x hx hf => by
      have hid : x.id = m.id := h.message_unique (h.flight x (hsub.subset hx) uuid hf) (h.flight m hm uuid hown)
      have hi := h.ids
      rw [hsplit, List.map_append, List.map_cons] at hi
      have hnot := (List.nodup_cons.mp (List.perm_middle.nodup_iff.mp hi)).1
      rw [← List.map_append] at hnot
      exact hnot (List.mem_map.mpr ⟨x, hx, hid⟩)
    exact ⟨h.ids.sublist (hsub.map _), h.uuids, fun x hx => h.flight x (hsub.subset hx), h.waiting, h.acknowledged,
      fun x hx => hother x (hsub.subset hx) (hne x hx), h.clear, h.quiet⟩

theorem Consistent.step (h : Consistent w) (act : Act) (hallowed : w.Allowed act) (hin : w.InTime sms act) :
    Consistent (w.next cfg sms act) := by
  cases act with
  | app ev =>
    have harrive : Consistent (w.arrive (w.reported ev)) := by
      cases hr : w.reported ev with
      | none => exact h
      | some uuid =>
        rw [World.InTime, hr] at hin
        exact h.arrive hin
    exact ⟨harrive.ids, harrive.uuids, harrive.flight, harrive.waiting, harrive.acknowledged, harrive.held,
      harrive.clear, harrive.quiet⟩
  | noteKnown issi =>
    refine h.fewer ?_
    unfold SmsFile.noteKnown
    split <;> exact List.Sublist.refl _
  | store id source destination lengthBits data now => exact h.store hallowed.1 hallowed.2
  | take issi force now uuid => exact h.take hallowed
  | send env uuid =>
    rw [World.next]
    cases hf : w.waiting.find? fun t => t.uuid = uuid with
    | none => exact h
    | some t => exact h.send (List.mem_of_find?_eq_some hf) env
  | onReport uuid =>
    rw [World.next]
    split
    · exact h.onReport uuid
    · exact h
  | sweep now => exact h.sweep hin
  | delete id => exact h.fewer List.filter_sublist

end Consistent

/-- While every report comes in time, no message is delivered after the
destination's report for one of its attempts. -/
theorem neverAgain_of_reach {cfg : Config} {sms : SmsCenterConfig} {selfId : UInt64} {w : World}
    (h : Reach ({ app := AppState.start selfId } : World) (fun w act => w.Allowed act ∧ w.InTime sms act)
      (World.next cfg sms) w) : NeverAgain w.log := by
  have h0 : Consistent ({ app := AppState.start selfId } : World) :=
    ⟨List.nodup_nil, List.nodup_nil, nofun, nofun, nofun, nofun, nofun, List.Pairwise.nil⟩
  exact (h.invariant h0 fun w act hc ha => hc.step act ha.1 ha.2).quiet

instance (w : World) (uuid : Option Uuid) : Decidable (uuid.elim True w.Current) :=
  match uuid with
  | none => isTrue trivial
  | some uuid => inferInstanceAs (Decidable (w.Current uuid))

instance (sms : SmsCenterConfig) (w : World) (act : Act) : Decidable (w.InTime sms act) :=
  match act with
  | .app ev => inferInstanceAs (Decidable ((w.reported ev).elim True w.Current))
  | .sweep now => inferInstanceAs (Decidable (w.Spares sms now))
  | .noteKnown _ | .store .. | .take .. | .send .. | .onReport _ | .delete _ => isTrue trivial

/-- A server's clocks `sec` seconds after its start. -/
def Env.at (sec : ℕ) : Env := { Env.plain (UInt64.ofNat (1000 * sec)) with now := sec * 10 ^ 9 }

/-- ISSI 2002 registers on client 5 while a message for it is stored, which is
then delivered under uuid 7. -/
def deliveredOnce : List Act :=
  [.app (.connect 5 (.accepted .basestation) none false),
    .app (.packet (Env.at 1) 5 (buildSubscriberMessage subRegister 2002 [])),
    .store 1 1001 2002 16 [0x02, 0x01] 1000, .take 2002 true 5000 7, .send (Env.at 5) 7]

/-- The destination's report for uuid 7. -/
def report (sec : ℕ) : Act :=
  .app (.packet (Env.at sec) 5 ([classFrame, frameSdsReport] ++ Uuid.asBytes 7 ++ le16 8 ++ [0]))

/-- The report comes five seconds after the delivery. -/
def reportedInTime : List Act := deliveredOnce ++ [report 10, .onReport 7]

/-- The report comes after 35 seconds, between a sweep that freed the attempt and
the end of its route; then the message is due again. -/
def reportedLate : List Act :=
  deliveredOnce ++ [.sweep 36000, report 40, .onReport 7, .take 2002 false 70000 8, .send (Env.at 70) 8]

def World.start : World := { app := AppState.start 9 }

theorem neverAgain_reported :
    (reportedInTime.foldl (World.next {} {}) World.start).log = [.delivered 1 7, .acknowledged 1] ∧
      NeverAgain (reportedInTime.foldl (World.next {} {}) World.start).log := by
  have hr : Reach World.start (fun w act => w.Allowed act ∧ w.InTime {} act) (World.next {} {})
      (reportedInTime.foldl (World.next {} {}) World.start) :=
    Reach.of_list reportedInTime .init (by decide +kernel)
  exact ⟨by decide +kernel, neverAgain_of_reach hr⟩

theorem log_reportedLate :
    (reportedLate.foldl (World.next {} {}) World.start).log =
      [.delivered 1 7, .acknowledged 1, .delivered 1 8] := by
  decide +kernel

/-- A message is delivered again after it was acknowledged. -/
theorem not_neverAgain :
    Reach World.start World.Allowed (World.next {} {}) (reportedLate.foldl (World.next {} {}) World.start) ∧
      ¬ NeverAgain (reportedLate.foldl (World.next {} {}) World.start).log := by
  refine ⟨Reach.of_list reportedLate .init (by decide +kernel), fun h => ?_⟩
  rw [log_reportedLate] at h
  exact (List.pairwise_cons.mp (List.pairwise_cons.mp h).2).1 _ List.mem_cons_self 1 rfl 8 rfl

end BrewServer.Sms
