import BrewServer.Server

/-!
# The progress of a call placed to SIP

Every SIP response is handled in a task of its own. What an ISSI has been told already is
read in one step and noted in a later one, so two tasks can both find it untold; and the
end of a leg tells the ISSI of a final error once more.
-/

namespace BrewServer

open Protocol Fedroute Router Sip

/-- A call placed to SIP, as its leg knows it. -/
structure OutboundCall where
  callId : String
  brewCallId : Uuid
  subscriber : ClientId
  subscriberIssi : UInt32

/-- How far the handling of a response has come. -/
inductive Phase
  | arrived
  /-- The flags are read; the call was unanswered. -/
  | read (alreadyRang : Bool)
  /-- The subscriber's connection is found. -/
  | found (alreadyRang : Bool)
  /-- The flag is set. -/
  | noted
  /-- The release is sent, and the leg is to go. -/
  | releasing
  | removing (leg : BridgedLeg)
  | done
  deriving DecidableEq

/-- One response in hand. -/
structure Task where
  code : ℕ
  phase : Phase := .arrived
  deriving DecidableEq

/-- The tables, the flags of the leg, the responses in hand and what was sent. -/
structure Progress where
  app : AppState
  rang : Bool := false
  connected : Bool := false
  tasks : List Task := []
  sent : Sends := []
  deriving DecidableEq

inductive ProgressStep
  /-- A response is received. -/
  | arrive (code : ℕ)
  /-- A task takes its next step. -/
  | step (i : ℕ)

def isRinging (code : ℕ) : Bool := code = 180 || code = 183

namespace OutboundCall

variable (o : OutboundCall)

/-- The flag is set on the leg, if it is still there. -/
def note (w : Progress) (code : ℕ) : Progress :=
  if o.callId ∈ w.app.legs then if isRinging code then { w with rang := true } else { w with connected := true } else w

/-- What the subscriber is told of a response. -/
def answer (code : ℕ) : Bytes :=
  if isRinging code then buildCallControlEmpty callAlert o.brewCallId
  else if code = 200 then buildCircularConnectRequest o.brewCallId 0 o.subscriberIssi 0
  else buildCallCause callRelease o.brewCallId 0

/-- The next step of `on_sip_response`. -/
def onSipResponse (w : Progress) (t : Task) : Progress × Phase :=
  match t.phase with
  | .arrived =>
    if o.callId ∈ w.app.legs then if w.connected then (w, .done) else (w, .read w.rang) else (w, .done)
  | .read alreadyRang => if o.subscriber ∈ w.app.inner.clients then (w, .found alreadyRang) else (w, .done)
  | .found alreadyRang =>
    if isRinging t.code then if alreadyRang then (w, .done) else (o.note w t.code, .noted)
    else if t.code = 200 ∨ 400 ≤ t.code then (o.note w t.code, .noted)
    else (w, .done)
  | .noted =>
    ({ w with sent := w.sent ++ [(o.subscriber, o.answer t.code)] }, if 400 ≤ t.code then .releasing else .done)
  | .releasing =>
    match w.app.legs[o.callId]? with
    | none => (w, .done)
    | some leg => ({ w with app := { w.app with legs := w.app.legs.erase o.callId } }, .removing leg)
  | .removing leg =>
    let (inner, sends) := removeLeg w.app.inner leg
    ({ w with app := { w.app with inner }, sent := w.sent ++ sends }, .done)
  | .done => (w, .done)

def next (w : Progress) : ProgressStep → Progress
  | .arrive code => { w with tasks := w.tasks ++ [⟨code, .arrived⟩] }
  | .step i =>
    match w.tasks[i]? with
    | none => w
    | some t =>
      let (w', phase) := o.onSipResponse w t
      { w' with tasks := w'.tasks.set i { t with phase } }

end OutboundCall

/-- What a response is to tell: that it rings, or how it ended. -/
inductive Answer
  | ringing
  | final
  deriving DecidableEq

def Answer.of (code : ℕ) : Option Answer :=
  if isRinging code then some .ringing else if code = 200 ∨ 400 ≤ code then some .final else none

/-- Whether a message is such an answer. -/
def Answer.tells : Answer → Bytes → Bool
  | .ringing, raw => raw[1]? == some callAlert
  | .final, raw => raw[1]? == some callConnectRequest || raw[1]? == some callRelease

def Progress.flag (w : Progress) : Answer → Bool
  | .ringing => w.rang
  | .final => w.connected

namespace OutboundCall

variable (o : OutboundCall)

/-- How often the subscriber was told. -/
def told (w : Progress) (k : Answer) : ℕ := w.sent.countP fun m => m.1 == o.subscriber && k.tells m.2

/-- Whether a task has found the subscriber untold and has not noted it yet. -/
def waits (w : Progress) (k : Answer) (t : Task) : Bool :=
  Answer.of t.code == some k &&
    match t.phase with
    | .read alreadyRang => decide (o.subscriber ∈ w.app.inner.clients) && (k == .final || !alreadyRang)
    | .found alreadyRang => k == .final || !alreadyRang
    | _ => false

/-- Whether a task that reads the flags now will tell the subscriber what another one is about
to tell him, or tell him of an error, which the end of the leg does again. -/
def retells (w : Progress) (t : Task) : Bool :=
  decide (t.phase = .arrived) && decide (o.callId ∈ w.app.legs) && !w.connected &&
    decide (o.subscriber ∈ w.app.inner.clients) &&
    (Answer.of t.code).any fun k => !w.flag k && (w.tasks.any (o.waits w k) || decide (400 ≤ t.code))

/-- No task that reads the flags tells the subscriber again. -/
def InTurn (w : Progress) : ProgressStep → Prop
  | .arrive _ => True
  | .step i => (w.tasks[i]?).any (o.retells w) = false

instance (w : Progress) (ev : ProgressStep) : Decidable (o.InTurn w ev) :=
  match ev with
  | .arrive _ => isTrue trivial
  | .step i => inferInstanceAs (Decidable ((w.tasks[i]?).any (o.retells w) = false))

end OutboundCall

section Turns

variable {o : OutboundCall} {app : AppState} {w w' : Progress} {t t' : Task} {i : ℕ} {k : Answer}

theorem countP_set_add (p : Task → Bool) (t' : Task) {ts : List Task} (h : ts[i]? = some t) :
    (ts.set i t').countP p + (if p t then 1 else 0) = ts.countP p + (if p t' then 1 else 0) := by
  obtain ⟨hi, rfl⟩ := List.getElem?_eq_some_iff.mp h
  have hle : (if p ts[i] then 1 else 0) ≤ ts.countP p := List.boole_getElem_le_countP hi
  rw [List.countP_set hi]
  omega

/-- Whether a task has noted the answer and has not sent it yet. -/
def Task.owes (k : Answer) (t : Task) : Bool := Answer.of t.code == some k && decide (t.phase = .noted)

/-- No error is on its way to the subscriber. -/
def OutboundCall.Mild (o : OutboundCall) (app : AppState) (t : Task) : Prop :=
  match t.phase with
  | .arrived | .done => True
  | .read _ => 400 ≤ t.code → o.subscriber ∉ app.inner.clients
  | .found _ => t.code < 400
  | .noted => t.code < 400 ∧ (Answer.of t.code).isSome = true
  | .releasing | .removing _ => False

/-- Each answer was told, is owed, or waits in one task at most. -/
structure OutboundCall.Sound (o : OutboundCall) (app : AppState) (w : Progress) : Prop where
  same : w.app = app
  mild : ∀ t ∈ w.tasks, o.Mild app t
  once : ∀ k, o.told w k + w.tasks.countP (Task.owes k) + w.tasks.countP (o.waits w k) ≤ 1
  unset : ∀ k, o.callId ∈ app.legs → w.flag k = false → o.told w k + w.tasks.countP (Task.owes k) = 0

/-- What an answer counts in a task. -/
def OutboundCall.share (o : OutboundCall) (w : Progress) (k : Answer) (t : Task) : ℕ :=
  (if t.owes k then 1 else 0) + (if o.waits w k t then 1 else 0)

theorem waits_congr (h : w'.app = w.app) : o.waits w' k t = o.waits w k t := by
  unfold OutboundCall.waits
  rw [h]

/-- A task that moves on keeps its share, or takes one that nobody has. -/
theorem OutboundCall.Sound.moved (h : o.Sound app w) (ht : w.tasks[i]? = some t) (happ : w'.app = w.app)
    (htasks : w'.tasks = w.tasks.set i t') (hmild : o.Mild app t')
    (hshare : ∀ k, o.told w' k + o.share w k t' = o.told w k + o.share w k t ∨
      (o.told w' k + w.tasks.countP (Task.owes k) + w.tasks.countP (o.waits w k) = 0 ∧ o.share w k t' ≤ 1))
    (hunset : ∀ k, o.callId ∈ app.legs → w'.flag k = false → w.flag k = false ∧
      o.told w' k + (if t'.owes k then 1 else 0) = o.told w k + (if t.owes k then 1 else 0)) : o.Sound app w' := by
  constructor
  · rw [happ, h.same]
  · intro x hx
    rw [htasks] at hx
    rcases List.mem_or_eq_of_mem_set hx with hx | rfl
    · exact h.mild x hx
    · exact hmild
  · intro k
    have hwaits : o.waits w' k = o.waits w k := funext fun _ => waits_congr happ
    have howed := countP_set_add (Task.owes k) t' ht
    have hwaiting := countP_set_add (o.waits w k) t' ht
    have honce := h.once k
    have hk := hshare k
    unfold OutboundCall.share at hk
    rw [hwaits, htasks]
    omega
  · intro k hleg hflag
    obtain ⟨hflag', htold⟩ := hunset k hleg hflag
    have howed := countP_set_add (Task.owes k) t' ht
    have hzero := h.unset k hleg hflag'
    rw [htasks]
    omega

/-- A task without a share that moves on without one. -/
theorem OutboundCall.Sound.idle (h : o.Sound app w) (ht : w.tasks[i]? = some t)
    (hmild : o.Mild app t') (hwaits : ∀ k, o.waits w k t' = o.waits w k t) (howes : ∀ k, t'.owes k = t.owes k) :
    o.Sound app { w with tasks := w.tasks.set i t' } := by
  refine h.moved ht ?_ rfl hmild ?_ ?_
  · rfl
  · intro k
    left
    unfold OutboundCall.share
    rw [hwaits, howes]
    rfl
  · intro k _ hflag
    exact ⟨hflag, by rw [howes]; rfl⟩

theorem flag_note {code : ℕ} (h : Answer.of code = some k) (hleg : o.callId ∈ w.app.legs) :
    (o.note w code).flag k = true ∧ ∀ k', k' ≠ k → (o.note w code).flag k' = w.flag k' := by
  unfold OutboundCall.note
  unfold Answer.of at h
  rw [if_pos hleg]
  by_cases hring : isRinging code = true
  · rw [if_pos hring] at h ⊢
    cases h
    refine ⟨rfl, ?_⟩
    intro k' hk'
    cases k' with
    | ringing => exact absurd rfl hk'
    | final => rfl
  · rw [if_neg hring] at h ⊢
    split at h
    · cases h
      refine ⟨rfl, ?_⟩
      intro k' hk'
      cases k' with
      | ringing => rfl
      | final => exact absurd rfl hk'
    · cases h

theorem note_aside {code : ℕ} :
    (o.note w code).app = w.app ∧ (o.note w code).tasks = w.tasks ∧ (o.note w code).sent = w.sent := by
  unfold OutboundCall.note
  split
  · split
    · exact ⟨rfl, rfl, rfl⟩
    · exact ⟨rfl, rfl, rfl⟩
  · exact ⟨rfl, rfl, rfl⟩

/-- What is sent of a response tells its answer and no other. -/
theorem tells_answer {code : ℕ} (h : Answer.of code = some k) (k' : Answer) :
    k'.tells (o.answer code) = decide (k' = k) := by
  unfold OutboundCall.answer
  unfold Answer.of at h
  by_cases hring : isRinging code = true
  · rw [if_pos hring] at h ⊢
    cases h
    cases k' <;> rfl
  · rw [if_neg hring] at h ⊢
    split at h
    · cases h
      split
      · cases k' <;> rfl
      · cases k' <;> rfl
    · cases h

theorem answer_of_error {code : ℕ} (h : 400 ≤ code) : Answer.of code = some .final := by
  have hring : isRinging code = false := by
    simp only [isRinging, Bool.or_eq_false_iff, decide_eq_false_iff_not]
    omega
  unfold Answer.of
  rw [hring, if_neg Bool.false_ne_true, if_pos (.inr h)]

/-- The flags are read in turn. -/
theorem OutboundCall.Sound.arrived (h : o.Sound app w) (ht : w.tasks[i]? = some t) (hphase : t.phase = .arrived)
    (hturn : o.retells w t = false) (hleg : o.callId ∈ w.app.legs) (hopen : w.connected = false) :
    o.Sound app { w with tasks := w.tasks.set i { t with phase := .read w.rang } } := by
  have hshare : ∀ k, o.share w k t = 0 := by
    intro k
    simp [OutboundCall.share, Task.owes, OutboundCall.waits, hphase]
  have howes : ∀ k, Task.owes k { t with phase := .read w.rang } = t.owes k := by
    intro k
    simp [Task.owes, hphase]
  unfold OutboundCall.retells at hturn
  simp only [hphase, hleg, hopen, decide_true, Bool.not_false, Bool.true_and] at hturn
  by_cases hthere : o.subscriber ∈ w.app.inner.clients
  · simp only [hthere, decide_true, Bool.true_and] at hturn
    have hfresh : ∀ k, Answer.of t.code = some k → w.flag k = false →
        w.tasks.any (o.waits w k) = false ∧ ¬ 400 ≤ t.code := by
      intro k hk hflag
      rw [hk, Option.any_some, hflag, Bool.not_false, Bool.true_and, Bool.or_eq_false_iff, decide_eq_false_iff_not] at hturn
      exact hturn
    refine h.moved ht ?_ rfl ?_ ?_ ?_
    · rfl
    · intro hcode
      exact absurd hcode (hfresh .final (answer_of_error hcode) hopen).2
    · intro k
      have hread : o.waits w k { t with phase := .read w.rang } = true →
          Answer.of t.code = some k ∧ w.flag k = false := by
        intro hwaits
        simp only [OutboundCall.waits, Bool.and_eq_true, beq_iff_eq] at hwaits
        refine ⟨hwaits.1, ?_⟩
        cases k with
        | ringing => simpa [Progress.flag] using hwaits.2.2
        | final => exact hopen
      by_cases hwaits : o.waits w k { t with phase := .read w.rang } = true
      · right
        obtain ⟨hk, hflag⟩ := hread hwaits
        have hnone := List.countP_eq_zero.mpr fun x hx => List.any_eq_false.mp (hfresh k hk hflag).1 x hx
        have hzero := h.unset k (h.same ▸ hleg) hflag
        constructor
        · show o.told w k + _ + _ = 0
          omega
        · unfold OutboundCall.share
          rw [howes, if_pos hwaits, Task.owes, hphase]
          simp
      · left
        show o.told w k + _ = _
        rw [hshare, OutboundCall.share, howes, if_neg hwaits, Task.owes, hphase]
        simp
    · intro k _ hflag
      exact ⟨hflag, by rw [howes]; rfl⟩
  · apply h.idle ht
    · intro _
      rw [← h.same]
      exact hthere
    · intro k
      simp [OutboundCall.waits, hphase, hthere]
    · exact howes

/-- The flag is set. -/
theorem OutboundCall.Sound.found (h : o.Sound app w) (ht : w.tasks[i]? = some t) {r : Bool} (hphase : t.phase = .found r)
    (hcode : Answer.of t.code = some k) (hr : (k == .final || !r) = true) :
    o.Sound app { o.note w t.code with tasks := (o.note w t.code).tasks.set i { t with phase := .noted } } := by
  obtain ⟨happ, htasks, hsent⟩ := @note_aside o w t.code
  have hmild := h.mild t (List.mem_of_getElem? ht)
  rw [OutboundCall.Mild, hphase] at hmild
  refine h.moved ht happ (congrArg (List.set · i _) htasks) ⟨hmild, by rw [hcode]; rfl⟩ ?_ ?_
  · intro k'
    left
    have htold : o.told { o.note w t.code with tasks := (o.note w t.code).tasks.set i { t with phase := .noted } } k' = o.told w k' :=
      congrArg (List.countP _) hsent
    rw [htold]
    unfold OutboundCall.share Task.owes OutboundCall.waits
    rw [hphase, hcode]
    by_cases hk : k = k'
    · subst hk
      simp [hr]
    · simp [hk]
  · intro k' hleg hflag
    rw [← h.same] at hleg
    obtain ⟨hset, hother⟩ := flag_note hcode hleg
    by_cases hk : k' = k
    · subst hk
      change (o.note w t.code).flag k' = false at hflag
      rw [hset] at hflag
      cases hflag
    · change (o.note w t.code).flag k' = false at hflag
      rw [hother k' hk] at hflag
      refine ⟨hflag, ?_⟩
      show (o.note w t.code).sent.countP _ + _ = _
      rw [hsent, Task.owes, Task.owes, hcode]
      simp [Ne.symm hk]
      rfl

/-- The answer is sent. -/
theorem OutboundCall.Sound.noted (h : o.Sound app w) (ht : w.tasks[i]? = some t) (hphase : t.phase = .noted) :
    o.Sound app { w with
      sent := w.sent ++ [(o.subscriber, o.answer t.code)], tasks := w.tasks.set i { t with phase := .done } } := by
  have hmild := h.mild t (List.mem_of_getElem? ht)
  rw [OutboundCall.Mild, hphase] at hmild
  have hsent : ∀ k, (w.sent ++ [(o.subscriber, o.answer t.code)]).countP (fun m => m.1 == o.subscriber && k.tells m.2) =
      o.told w k + if t.owes k then 1 else 0 := by
    intro k
    obtain ⟨k', hk'⟩ := Option.isSome_iff_exists.mp hmild.2
    have howes : t.owes k = decide (k = k') := by
      rw [Task.owes, hk', hphase]
      by_cases hk : k = k'
      · simp [hk]
      · simp [hk, Ne.symm hk]
    rw [List.countP_append, List.countP_singleton, howes, tells_answer hk', beq_self_eq_true, Bool.true_and]
    rfl
  refine h.moved ht ?_ rfl trivial ?_ ?_
  · rfl
  · intro k
    left
    show (w.sent ++ [(o.subscriber, o.answer t.code)]).countP _ + _ = _
    rw [hsent]
    simp [OutboundCall.share, Task.owes, OutboundCall.waits, hphase]
  · intro k _ hflag
    refine ⟨hflag, ?_⟩
    show (w.sent ++ [(o.subscriber, o.answer t.code)]).countP _ + _ = _
    rw [hsent]
    simp [Task.owes]

theorem OutboundCall.Sound.arrive (h : o.Sound app w) (code : ℕ) : o.Sound app (o.next w (.arrive code)) := by
  have howes : ∀ k, Task.owes k ⟨code, .arrived⟩ = false := fun k => by simp [Task.owes]
  have hwaits : ∀ k, o.waits w k ⟨code, .arrived⟩ = false := fun k => by simp [OutboundCall.waits]
  constructor
  · exact h.same
  · intro t ht
    rcases List.mem_append.mp ht with ht | ht
    · exact h.mild t ht
    · rw [List.mem_singleton.mp ht]
      trivial
  · intro k
    have honce := h.once k
    have hnew : (o.next w (.arrive code)).tasks = w.tasks ++ [⟨code, .arrived⟩] := rfl
    show o.told w k + _ + List.countP (o.waits w k) _ ≤ 1
    rw [hnew]
    rw [List.countP_append, List.countP_append, List.countP_singleton, List.countP_singleton, howes, hwaits]
    exact honce
  · intro k hleg hflag
    have hzero := h.unset k hleg hflag
    have hnew : (o.next w (.arrive code)).tasks = w.tasks ++ [⟨code, .arrived⟩] := rfl
    show o.told w k + _ = 0
    rw [hnew]
    rw [List.countP_append, List.countP_singleton, howes]
    exact hzero

theorem OutboundCall.Sound.next (h : o.Sound app w) {ev : ProgressStep} (hturn : o.InTurn w ev) :
    o.Sound app (o.next w ev) := by
  cases ev with
  | arrive code => exact h.arrive code
  | step i =>
    change (w.tasks[i]?).any (o.retells w) = false at hturn
    show o.Sound app (match w.tasks[i]? with
      | none => w
      | some t => _)
    cases ht : w.tasks[i]? with
    | none => exact h
    | some t =>
      rw [ht, Option.any_some] at hturn
      have hmild := h.mild t (List.mem_of_getElem? ht)
      have hdone : t.phase ≠ .noted → (∀ k, o.waits w k t = false) →
          o.Sound app { w with tasks := w.tasks.set i { t with phase := .done } } := by
        intro hphase hwaits
        refine h.idle ht ?_ ?_ ?_
        · trivial
        · intro k
          rw [hwaits]
          simp [OutboundCall.waits]
        · intro k
          simp [Task.owes, hphase]
      obtain ⟨code, phase⟩ := t
      unfold OutboundCall.onSipResponse
      cases phase with
      | arrived =>
        have hidle := hdone nofun fun k => by simp [OutboundCall.waits]
        dsimp only
        by_cases hleg : o.callId ∈ w.app.legs
        · rw [if_pos hleg]
          by_cases hopen : w.connected = true
          · rw [if_pos hopen]
            exact hidle
          · rw [if_neg hopen]
            exact h.arrived ht rfl hturn hleg (Bool.eq_false_iff.mpr hopen)
        · rw [if_neg hleg]
          exact hidle
      | read r =>
        change 400 ≤ code → o.subscriber ∉ app.inner.clients at hmild
        dsimp only
        by_cases hthere : o.subscriber ∈ w.app.inner.clients
        · rw [if_pos hthere]
          refine h.idle ht ?_ ?_ ?_
          · exact Nat.not_le.mp fun hcode => hmild hcode (h.same ▸ hthere)
          · intro k
            simp [OutboundCall.waits, hthere]
          · intro k
            simp [Task.owes]
        · rw [if_neg hthere]
          exact hdone nofun fun k => by simp [OutboundCall.waits, hthere]
      | found r =>
        dsimp only
        by_cases hring : isRinging code = true
        · have hcode : Answer.of code = some .ringing := by rw [Answer.of, if_pos hring]
          rw [if_pos hring]
          cases r with
          | true => exact hdone nofun fun k => by cases k <;> simp [OutboundCall.waits, hcode]
          | false =>
            rw [if_neg Bool.false_ne_true]
            exact h.found ht rfl hcode rfl
        · rw [if_neg hring]
          by_cases hfinal : code = 200 ∨ 400 ≤ code
          · have hcode : Answer.of code = some .final := by rw [Answer.of, if_neg hring, if_pos hfinal]
            rw [if_pos hfinal]
            exact h.found ht rfl hcode rfl
          · have hcode : Answer.of code = none := by rw [Answer.of, if_neg hring, if_neg hfinal]
            rw [if_neg hfinal]
            exact hdone nofun fun k => by simp [OutboundCall.waits, hcode]
      | noted =>
        change code < 400 ∧ _ at hmild
        dsimp only
        rw [if_neg (Nat.not_le.mpr hmild.1)]
        exact h.noted ht rfl
      | releasing => exact hmild.elim
      | removing leg => exact hmild.elim
      | done => exact hdone nofun fun k => by simp [OutboundCall.waits]

/-- In every run whose tasks read the flags in turn, the subscriber is told once at most that
the call rings and once at most how it ended. -/
theorem told_at_most_once (h : Reach { app } o.InTurn o.next w) : o.told w .ringing ≤ 1 ∧ o.told w .final ≤ 1 := by
  have hstart : o.Sound app { app } := by
    constructor
    · rfl
    · exact fun t ht => absurd ht List.not_mem_nil
    · intro k
      show 0 + 0 + 0 ≤ 1
      omega
    · intro k _ _
      rfl
  have hsound : o.Sound app w := h.invariant hstart fun _ _ hs hturn => hs.next hturn
  have hringing := hsound.once .ringing
  have hfinal := hsound.once .final
  constructor
  · omega
  · omega

end Turns

/-- Client 1 is connected, and its call 3 has been placed to SIP. -/
def placedCall : AppState :=
  (settle ((AppState.start 9).next {} (.connect 1 (.accepted .terminal) none false))
    (placeOutbound (.plain 5) ((AppState.start 9).next {} (.connect 1 (.accepted .terminal) none false)).inner 1 3
      "a@sip" 10)).1

def callOfOne : OutboundCall := ⟨"a@sip", 3, 1, 2001⟩

/-- A task that takes four steps. -/
def handled (i : ℕ) : List ProgressStep := List.replicate 4 (.step i)

/-- A 180 and a 200, each received twice and handled one after the other. -/
def inTurnRun : List ProgressStep :=
  [.arrive 180, .arrive 180, .arrive 200, .arrive 200] ++ handled 0 ++ handled 1 ++ handled 2 ++ handled 3

theorem told_inTurnRun :
    callOfOne.told (inTurnRun.foldl callOfOne.next { app := placedCall }) .ringing ≤ 1 ∧
      callOfOne.told (inTurnRun.foldl callOfOne.next { app := placedCall }) .final ≤ 1 :=
  told_at_most_once (.of_list inTurnRun .init (by decide +kernel))

/-- Two copies of a 180 that read the flag before either sets it. -/
def ringingTwice : List ProgressStep :=
  [.arrive 180, .arrive 180, .step 0, .step 1, .step 0, .step 1, .step 0, .step 1, .step 0, .step 1]

/-- One refusal by the far side. -/
def busyHere : List ProgressStep := .arrive 486 :: List.replicate 6 (.step 0)

/-- Both copies ring the caller, and a refusal releases him twice. -/
theorem not_told_at_most_once :
    callOfOne.told (ringingTwice.foldl callOfOne.next { app := placedCall }) .ringing = 2 ∧
    callOfOne.told (busyHere.foldl callOfOne.next { app := placedCall }) .final = 2 ∧
    ¬ ∀ (env : Env) (a : AppState) (callId : String) (virtualClient : ClientId) (o : OutboundCall)
        (steps : List ProgressStep), o.callId = callId → o.subscriber ∈ a.inner.clients →
      o.told (steps.foldl o.next
        { app := (settle a (placeOutbound env a.inner o.subscriber o.brewCallId callId virtualClient)).1 }) .ringing ≤ 1 := by
  refine ⟨by decide +kernel, by decide +kernel, ?_⟩
  intro hall
  have honce := hall (.plain 5) ((AppState.start 9).next {} (.connect 1 (.accepted .terminal) none false)) "a@sip" 10
    callOfOne ringingTwice rfl (by decide +kernel)
  exact absurd honce (by decide +kernel)

end BrewServer
