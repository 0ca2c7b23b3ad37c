import BrewServer.Floor

/-!
# Emergency arbitration

Who keeps the floor of a group when a second call asks for it. A call is an
emergency call by its priority or by an alarm of its talker, and then ranks at
priority 15 whatever its packet says. The arbitration compares the priority of
the packet with the stored one of the live call instead.
-/

namespace BrewServer

open Protocol Fedroute Router

section Arbitration

variable {cfg : Config} {env : Env} {s : Inner} {source : ClientId} {id existingId : Uuid} {gt : GroupTransmission}
  {existing : ActiveCall} {raw : Bytes}

/-- The priority a call of `sourceIssi` ranks at. -/
def effectivePriority (env : Env) (sourceIssi : UInt32) (priority : UInt8) : UInt8 :=
  if isEmergencyCall env sourceIssi priority then emergencyPriority else priority

/-- Whether the transmission outranks a live call. -/
def Outranks (env : Env) (gt : GroupTransmission) (existing : ActiveCall) : Prop :=
  effectivePriority env existing.sourceIssi existing.priority < effectivePriority env gt.source gt.priority

instance : Decidable (Outranks env gt existing) :=
  inferInstanceAs (Decidable (effectivePriority env existing.sourceIssi existing.priority <
    effectivePriority env gt.source gt.priority))

/-- Whether a transmission gets as far as asking for the floor: neither held
back by the blacklist nor a copy that a second link delivered. -/
def asksForFloor (env : Env) (s : Inner) (source : ClientId) (id : Uuid) (gt : GroupTransmission) : Bool :=
  !(env.blocked gt.source && !isEmergencyCall env gt.source gt.priority) &&
    !(s.isPeer source && isDuplicate s id gt.source source env.now)

/-- Another live call has the floor of the transmission's group. -/
structure HasFloor (s : Inner) (id : Uuid) (gt : GroupTransmission) (existingId : Uuid) (existing : ActiveCall) :
    Prop where
  floor : s.groupFloor[gt.destination]? = some existingId
  other : existingId ≠ id
  live : s.calls[existingId]? = some existing

/-- The transmission has taken the floor, and the call it took it from is gone. -/
structure TookFloor (s : Inner) (source : ClientId) (id : Uuid) (gt : GroupTransmission) (existingId : Uuid) :
    Prop where
  floor : s.groupFloor[gt.destination]? = some id
  live : ∃ call : ActiveCall, s.calls[id]? = some call ∧ call.owner = source ∧ call.sourceIssi = gt.source
  ended : s.calls[existingId]? = none

/-- Who has the floor after a transmission is what the effective priorities say:
one that asks for it takes it if it outranks the live call, and in every other
case the live call keeps it. -/
def ByEffectivePriority (cfg : Config) (env : Env) (s : Inner) (source : ClientId) (id : Uuid)
    (gt : GroupTransmission) (raw : Bytes) : Prop :=
  ∀ (existingId : Uuid) (existing : ActiveCall), HasFloor s id gt existingId existing →
    let s' := (handleGroupTx cfg env s source id (.groupTransmission gt) raw).inner
    let takes := asksForFloor env s source id gt = true ∧ Outranks env gt existing
    (takes → TookFloor s' source id gt existingId) ∧ (¬ takes → HasFloor s' id gt existingId existing)

/-- Where the packet's priority against the stored one misleads: an emergency
against a call that is none but whose number is as high, or against a live
emergency call whose stored number is lower. -/
def misjudged (env : Env) (gt : GroupTransmission) (existing : ActiveCall) : Bool :=
  let emergency := isEmergencyCall env gt.source gt.priority
  let live := isEmergencyCall env existing.sourceIssi existing.priority
  (emergency && !live && decide (gt.priority ≤ existing.priority)) ||
    (live && decide (existing.priority < gt.priority))

theorem lt_of_not_emergency {issi : UInt32} {priority : UInt8} (h : isEmergencyCall env issi priority = false) :
    priority < emergencyPriority := by
  rw [isEmergencyCall, Bool.or_eq_false_iff, decide_eq_false_iff_not] at h
  exact UInt8.not_le.mp h.1

/-- The comparison of the code is right exactly where it is not misled. -/
theorem outranks_iff :
    (Outranks env gt existing ↔ existing.priority < gt.priority) ↔ misjudged env gt existing = false := by
  unfold Outranks effectivePriority misjudged
  cases hnew : isEmergencyCall env gt.source gt.priority with
  | false =>
    have hlow := lt_of_not_emergency hnew
    cases isEmergencyCall env existing.sourceIssi existing.priority with
    | false => simp
    | true =>
      have hno : ¬ emergencyPriority < gt.priority := fun h => absurd (UInt8.lt_trans h hlow) (UInt8.lt_irrefl _)
      simp [hno]
  | true =>
    cases hlive : isEmergencyCall env existing.sourceIssi existing.priority with
    | false =>
      have hlow := lt_of_not_emergency hlive
      simp [hlow]
    | true => simp

theorem acceptsGroupTx_contest (hmulti : cfg.allowMultipleCallsPerGroup = false)
    (hhigher : cfg.higherPriorityNumberWins = true) (h : HasFloor s id gt existingId existing) :
    acceptsGroupTx cfg env s source id gt =
      (asksForFloor env s source id gt && decide (existing.priority < gt.priority)) := by
  have hholder : floorHolder cfg s id gt = some (existingId, existing) := by
    rw [floorHolder, hmulti, h.floor]
    simp [h.other, h.live]
  rw [acceptsGroupTx, hholder, Option.all_some, wins, hhigher]
  rfl

theorem tookFloor_installGroupTx (hmulti : cfg.allowMultipleCallsPerGroup = false)
    (h : HasFloor s id gt existingId existing) :
    TookFloor (installGroupTx cfg env (freeFloor cfg s id gt) source id gt raw).1 source id gt existingId := by
  have hfreed : freeFloor cfg s id gt = (preempt cfg s existingId existing).1 := by
    rw [freeFloor, floorHolder, hmulti, h.floor]
    simp [h.other, h.live]
  refine ⟨?_, ⟨_, FinMap.getElem?_insert.trans (if_pos rfl), rfl, rfl⟩, ?_⟩
  · exact FinMap.getElem?_insert.trans (if_pos rfl)
  · change ((freeFloor cfg s id gt).calls.insert id _)[existingId]? = none
    rw [FinMap.getElem?_insert, if_neg (Ne.symm h.other), hfreed]
    exact FinMap.getElem?_erase.trans (if_pos rfl)

/-- A transmission that asks for the floor takes it or leaves it as the numbers
in the packet and in the table say. -/
theorem handleGroupTx_contest (hmulti : cfg.allowMultipleCallsPerGroup = false)
    (hhigher : cfg.higherPriorityNumberWins = true) (h : HasFloor s id gt existingId existing)
    (hasks : asksForFloor env s source id gt = true) :
    let s' := (handleGroupTx cfg env s source id (.groupTransmission gt) raw).inner
    (existing.priority < gt.priority → TookFloor s' source id gt existingId) ∧
      (¬ existing.priority < gt.priority → HasFloor s' id gt existingId existing) := by
  have haccepts := @acceptsGroupTx_contest cfg env s source id _ gt _ hmulti hhigher h
  rw [hasks, Bool.true_and] at haccepts
  constructor
  · intro hlt
    rw [handleGroupTx_accepted (haccepts.trans (decide_eq_true hlt))]
    exact tookFloor_installGroupTx hmulti h
  · intro hlt
    rw [handleGroupTx_refused (haccepts.trans (decide_eq_false hlt))]
    exact h

/-- A call has not both lost the floor and kept it. -/
theorem TookFloor.not_hasFloor (h : TookFloor s source id gt existingId) : ¬ HasFloor s id gt existingId existing := by
  intro hkept
  have hsame := h.floor.symm.trans hkept.floor
  exact hkept.other (Option.some.inj hsame).symm

/-- The effective priorities decide who keeps the floor exactly where the
numbers do not mislead. -/
theorem byEffectivePriority_iff (hmulti : cfg.allowMultipleCallsPerGroup = false)
    (hhigher : cfg.higherPriorityNumberWins = true) :
    ByEffectivePriority cfg env s source id gt raw ↔
      ∀ (existingId : Uuid) (existing : ActiveCall), HasFloor s id gt existingId existing →
        asksForFloor env s source id gt = true → misjudged env gt existing = false := by
  constructor
  · intro h existingId existing hfloor hasks
    obtain ⟨htook, hkept⟩ := h existingId existing hfloor
    obtain ⟨hwins, hloses⟩ := @handleGroupTx_contest cfg env s source id _ gt _ raw hmulti hhigher hfloor hasks
    refine outranks_iff.mp ⟨fun hout => ?_, fun hlt => ?_⟩
    · by_contra hlt
      exact (htook ⟨hasks, hout⟩).not_hasFloor (hloses hlt)
    · by_contra hout
      exact (hwins hlt).not_hasFloor (hkept fun htakes => hout htakes.2)
  · intro h existingId existing hfloor
    constructor
    · intro htakes
      obtain ⟨hasks, hout⟩ := htakes
      have hright := outranks_iff.mpr (h existingId existing hfloor hasks)
      exact (handleGroupTx_contest hmulti hhigher hfloor hasks).1 (hright.mp hout)
    · intro htakes
      cases hasks : asksForFloor env s source id gt with
      | false =>
        have haccepts := @acceptsGroupTx_contest cfg env s source id _ gt _ hmulti hhigher hfloor
        rw [hasks, Bool.false_and] at haccepts
        rw [handleGroupTx_refused haccepts]
        exact hfloor
      | true =>
        have hright := outranks_iff.mpr (h existingId existing hfloor hasks)
        exact (handleGroupTx_contest hmulti hhigher hfloor hasks).2 fun hlt => htakes ⟨hasks, hright.mpr hlt⟩

end Arbitration

/-- ISSI 8 has its alarm up. -/
def alarmsEight (nowMs : UInt64) : Env := { Env.plain nowMs with alarm := fun issi => issi == 8 }

/-- ISSI 8 asks for group 91. -/
def eightTalks (priority : UInt8) : GroupTransmission := ⟨8, 91, priority, 0, 0, none⟩

/-- Two clients, and a call of the first at priority 3 on group 91. -/
def heldAtThree : Inner :=
  ((((AppState.start 9).next {} (.connect 1 (.accepted .terminal) none false)).next {}
    (.connect 2 (.accepted .terminal) none false)).next {} (.packet (.plain 5) 1 (buildGroupTx 3 7 91 3))).inner

theorem hasFloor_heldAtThree (gt : GroupTransmission) (h : gt.destination = 91) :
    HasFloor heldAtThree 4 gt 3 ⟨.group, 1, 7, 91, 3, FinSet.ofList [2], 0, 5⟩ where
  floor := h ▸ (by decide +kernel : heldAtThree.groupFloor[(91 : UInt32)]? = some 3)
  other := by decide
  live := by decide +kernel

/-- A call at priority 5 outranks the one at priority 3 and takes the floor. -/
theorem byEffectivePriority_five :
    TookFloor (handleGroupTx {} (.plain 6) heldAtThree 2 4 (.groupTransmission (eightTalks 5)) []).inner 2 4
      (eightTalks 5) 3 := by
  have hjudged : ∀ (existingId : Uuid) (existing : ActiveCall),
      HasFloor heldAtThree 4 (eightTalks 5) existingId existing →
      asksForFloor (.plain 6) heldAtThree 2 4 (eightTalks 5) = true →
      misjudged (.plain 6) (eightTalks 5) existing = false := by
    intro existingId existing hfloor _
    have hheld := hasFloor_heldAtThree (eightTalks 5) rfl
    obtain rfl := Option.some.inj (hfloor.floor.symm.trans hheld.floor)
    obtain rfl := Option.some.inj (hfloor.live.symm.trans hheld.live)
    decide
  exact (((byEffectivePriority_iff rfl rfl).mpr hjudged) 3 _ (hasFloor_heldAtThree _ rfl)).1
    ⟨by decide +kernel, by decide⟩

/-- A call that is an emergency by its alarm alone, at priority 0 as a
FlowStation sends it, is refused the floor that a call at priority 3 has. -/
theorem not_byEffectivePriority :
    ¬ ∀ (cfg : Config) (env : Env) (s : Inner) (source : ClientId) (id : Uuid) (gt : GroupTransmission) (raw : Bytes),
      cfg.allowMultipleCallsPerGroup = false → cfg.higherPriorityNumberWins = true →
        ByEffectivePriority cfg env s source id gt raw := by
  intro hall
  have h := hall {} (alarmsEight 6) heldAtThree 2 4 (eightTalks 0) (buildGroupTx 4 8 91 0) rfl rfl 3 _
    (hasFloor_heldAtThree _ rfl)
  have htook := h.1 ⟨by decide +kernel, by decide⟩
  have hfloor : (handleGroupTx {} (alarmsEight 6) heldAtThree 2 4 (.groupTransmission (eightTalks 0))
      (buildGroupTx 4 8 91 0)).inner.groupFloor[(91 : UInt32)]? = some 3 := by decide +kernel
  exact absurd (htook.floor.symm.trans hfloor) (by decide)

end BrewServer
