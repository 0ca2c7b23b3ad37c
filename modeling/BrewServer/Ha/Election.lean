import BrewServer.Lib.Transition
import Mathlib.Data.Prod.Lex
import Mathlib.Data.String.Basic

/-!
# The election of the active node

A pure state machine: time comes in as `nowMs`, the peer as the last valid
heartbeat, or none when it is dead.
-/

namespace BrewServer.Ha

/-- How long a handover, or a takeover request, waits for the peer to act. -/
def handoverTimeoutMs : UInt64 := 5000

inductive Role
  /-- Just started: listening for the peer before claiming anything. -/
  | init
  | standby
  | active
  /-- The gateway check failed. -/
  | fault
  deriving DecidableEq

/-- The two nodes. -/
inductive Side
  | a
  | b
  deriving DecidableEq, Ord

namespace Side

instance : Std.TransOrd Side where
  eq_swap := by rintro (_ | _) (_ | _) <;> rfl
  isLE_trans := by rintro (_ | _) (_ | _) (_ | _) <;> decide

instance : Std.LawfulEqOrd Side where
  eq_of_compare := by rintro (_ | _) (_ | _) h <;> first | rfl | cases h

def peer : Side → Side
  | a => b
  | b => a

theorem eq_or_eq_peer (s s' : Side) : s' = s ∨ s' = s.peer := by cases s <;> cases s' <;> decide

end Side

/-- The parts of the peer's heartbeat the election looks at. -/
structure PeerView where
  node : String
  role : Role
  weight : UInt32
  persist : Bool
  hold : Bool
  handoverTo : Option String
  handoverManual : Bool
  takeoverRequest : Bool
  synced : Bool
  deriving DecidableEq

structure Handover where
  target : String
  manual : Bool
  untilMs : UInt64
  deriving DecidableEq

structure Election where
  node : String
  weight : UInt32
  persist : Bool
  role : Role
  hold : Bool
  handover : Option Handover
  takeoverUntilMs : Option UInt64
  initUntilMs : UInt64
  deriving DecidableEq

/-- Weight, then name. -/
def rank (weight : UInt32) (node : String) : ℕ ×ₗ String := toLex (weight.toNat, node)

/-- Preferred Active when both are healthy: higher weight, then name. -/
def preferred (a b : ℕ ×ₗ String) : Bool := decide (b < a)

/-- Split-brain ranking: a node entitled to stay outranks one that is not; then
the normal preference. -/
def outranks (a b : Bool ×ₗ ℕ ×ₗ String) : Bool := decide (b < a)

namespace Election

/-- A node that has just started. -/
def new (node : String) (weight : UInt32) (persist : Bool) (nowMs listenMs : UInt64) : Election :=
  { node, weight, persist, role := .init, hold := false, handover := none, takeoverUntilMs := none,
    initUntilMs := nowMs + listenMs }

def handoverTarget (e : Election) : Option (String × Bool) := e.handover.map fun h => (h.target, h.manual)

def takeoverRequested (e : Election) (nowMs : UInt64) : Bool := e.takeoverUntilMs.any fun t => nowMs < t

def setRole (e : Election) (role : Role) : Election :=
  { e with
    hold := if role ≠ .active then false else e.hold
    takeoverUntilMs := if role ≠ .standby then none else e.takeoverUntilMs
    role }

def startHandover (e : Election) (target : String) (manual : Bool) (nowMs : UInt64) : Election :=
  { e with handover := some { target, manual, untilMs := nowMs + handoverTimeoutMs } }.setRole .standby

/-- Hands over to a healthy Standby peer. `manual` gives the peer a hold. -/
def requestHandover (e : Election) (peer : Option PeerView) (nowMs : UInt64) (manual : Bool) :
    Except String Election :=
  if e.role ≠ .active then .error "this node is not Active"
  else
    match peer.filter fun p => p.role = .standby ∨ p.role = .init with
    | none => .error "no healthy Standby peer to hand over to"
    | some p => .ok (e.startHandover p.node manual nowMs)

/-- "Make Standby" on the Active node. -/
def requestStandby (e : Election) (peer : Option PeerView) (nowMs : UInt64) : Except String Election :=
  e.requestHandover peer nowMs true

/-- "Make Active" on the Standby node: asks the peer to hand over. -/
def requestActive (e : Election) (peer : Option PeerView) (nowMs : UInt64) : Except String Election :=
  match e.role with
  | .active => .error "this node is already Active"
  | .fault => .error "this node is in Fault (gateway unreachable)"
  | .init => .error "this node is still starting up"
  | .standby =>
    if peer.isNone then .error "peer is not reachable"
    else .ok { e with takeoverUntilMs := some (nowMs + handoverTimeoutMs) }

/-- How an Active node meets a healthy peer. -/
def stayActive (e : Election) (nowMs : UInt64) (p : PeerView) : Election :=
  if p.role = .active then
    let mine := toLex (e.persist || e.hold, rank e.weight e.node)
    let theirs := toLex (p.persist || p.hold, rank p.weight p.node)
    if outranks theirs mine then e.setRole .standby else e
  else if p.takeoverRequest then e.startHandover p.node true nowMs
  else if !e.persist && !e.hold && p.synced && preferred (rank p.weight p.node) (rank e.weight e.node) then
    -- The peer holds a current replica, so nothing is lost by handing over.
    e.startHandover p.node false nowMs
  else e

/-- How a node that is not Active meets a healthy peer. -/
def claim (e : Election) (nowMs : UInt64) (p : PeerView) : Election :=
  if p.role ≠ .active then
    let takeover := e.takeoverRequested nowMs
    if takeover || preferred (rank e.weight e.node) (rank p.weight p.node) then
      { e.setRole .active with hold := takeover }
    else e.setRole .standby
  else e.setRole .standby

/-- The rules once no handover of ours is pending; `none` is the `unreachable!`
arm. -/
def elect (e : Election) (nowMs : UInt64) (p : PeerView) : Option Election :=
  if p.handoverTo = some e.node then some { e.setRole .active with hold := p.handoverManual }
  else if p.role = .fault then some (if e.role ≠ .active then e.setRole .active else e)
  else
    match e.role with
    | .active => some (e.stayActive nowMs p)
    | .standby | .init => some (e.claim nowMs p)
    | .fault => none

/-- A handover we started: Standby until the peer is Active or it times out. -/
def meet (e : Election) (nowMs : UInt64) (p : PeerView) : Option Election :=
  match e.handover with
  | some h =>
    if p.role = .active ∨ h.untilMs ≤ nowMs then { e with handover := none }.elect nowMs p
    else some (e.setRole .standby)
  | none => e.elect nowMs p

/-- A takeover request that has waited too long is dropped. -/
def expire (e : Election) (nowMs : UInt64) : Election :=
  if e.takeoverUntilMs.any fun t => t ≤ nowMs then { e with takeoverUntilMs := none } else e

/-- The gateway is back: start over, without the listen delay. -/
def recover (e : Election) (nowMs : UInt64) : Election :=
  if e.role = .fault then { e.setRole .init with initUntilMs := nowMs } else e

/-- Advances the state machine; `none` is a panic. -/
def tick (e : Election) (nowMs : UInt64) (peer : Option PeerView) (gatewayOk : Bool) : Option Election :=
  let e := e.expire nowMs
  if !gatewayOk then some ({ e with handover := none }.setRole .fault)
  else
    let e := e.recover nowMs
    if e.role = .init ∧ nowMs < e.initUntilMs ∧ peer.isNone then some e
    else
      match peer with
      | none => some ({ e with handover := none }.setRole .active)
      | some p => e.meet nowMs p

/-- The dashboard's persist switch, which also ends a manual hold. -/
def setPersist (e : Election) (value : Bool) : Election := { e with persist := value, hold := false }

/-- What the node announces after a tick. -/
def announce (e : Election) (nowMs : UInt64) (synced : Bool) : PeerView :=
  { node := e.node, role := e.role, weight := e.weight, persist := e.persist, hold := e.hold,
    handoverTo := e.handoverTarget.map (·.1), handoverManual := e.handoverTarget.any (·.2),
    takeoverRequest := e.takeoverRequested nowMs, synced }

end Election

/-- The calls the election gets, from the heartbeat loop and the dashboard. -/
inductive Call
  | tick (nowMs : UInt64) (peer : Option PeerView) (gatewayOk : Bool)
  | requestActive (peer : Option PeerView) (nowMs : UInt64)
  | requestStandby (peer : Option PeerView) (nowMs : UInt64)
  | requestHandover (peer : Option PeerView) (nowMs : UInt64) (manual : Bool)
  | setPersist (value : Bool)

/-- The state a request leaves: a refused one changes nothing. -/
def settled (e : Election) : Except String Election → Election
  | .ok e' => e'
  | .error _ => e

/-- The state a call leaves; `none` is a panic. -/
def Election.apply (e : Election) : Call → Option Election
  | .tick nowMs peer gatewayOk => e.tick nowMs peer gatewayOk
  | .requestActive peer nowMs => some (settled e (e.requestActive peer nowMs))
  | .requestStandby peer nowMs => some (settled e (e.requestStandby peer nowMs))
  | .requestHandover peer nowMs manual => some (settled e (e.requestHandover peer nowMs manual))
  | .setPersist value => some (e.setPersist value)

/-- States of a node reached by any calls. -/
def Reachable (e : Election) : Prop :=
  ∃ (node : String) (weight : UInt32) (persist : Bool) (nowMs listenMs : UInt64),
    Reach (Election.new node weight persist nowMs listenMs) (fun _ _ => True) (fun e c => (e.apply c).getD e) e

namespace Election

/-- What may be pending in which role. -/
structure WellFormed (e : Election) : Prop where
  hold : e.hold = true → e.role = .active
  takeover : e.takeoverUntilMs.isSome → e.role = .standby
  handover : e.handover.isSome → e.role = .standby

variable {e : Election} {nowMs : UInt64} {peer : Option PeerView} {p : PeerView}

theorem WellFormed.active (h : e.WellFormed) (hr : e.role = .active) : e.handover = none := by
  cases hh : e.handover with
  | none => rfl
  | some _ =>
    have hs := h.handover (by rw [hh]; rfl)
    rw [hr] at hs
    cases hs

/-- A role change leaves nothing pending that the new role does not allow. -/
theorem wellFormed_setRole {role : Role} (h : e.handover = none ∨ role = .standby) :
    (e.setRole role).WellFormed := by
  constructor
  · intro hh
    by_contra hr
    have hr : role ≠ .active := hr
    change (if role ≠ .active then false else e.hold) = true at hh
    rw [if_pos hr] at hh
    cases hh
  · intro ht
    by_contra hr
    have hr : role ≠ .standby := hr
    change (if role ≠ .standby then none else e.takeoverUntilMs).isSome at ht
    rw [if_pos hr] at ht
    cases ht
  · intro hh
    change e.handover.isSome at hh
    rcases h with h | h
    · rw [h] at hh; cases hh
    · exact h

theorem wellFormed_startHandover {target : String} {manual : Bool} :
    (e.startHandover target manual nowMs).WellFormed :=
  wellFormed_setRole (.inr rfl)

/-- Entering Active may come with a hold. -/
theorem wellFormed_takeOver (h : e.handover = none) (hold : Bool) :
    ({ e.setRole .active with hold } : Election).WellFormed := by
  have hw : (e.setRole .active).WellFormed := wellFormed_setRole (.inl h)
  exact ⟨fun _ => rfl, hw.takeover, hw.handover⟩

theorem WellFormed.dropHandover (h : e.WellFormed) : ({ e with handover := none } : Election).WellFormed :=
  ⟨h.hold, h.takeover, nofun⟩

theorem WellFormed.stayActive (h : e.WellFormed) : (e.stayActive nowMs p).WellFormed := by
  unfold Election.stayActive
  split
  · dsimp only
    split
    · exact wellFormed_setRole (.inr rfl)
    · exact h
  · split
    · exact wellFormed_startHandover
    · split
      · exact wellFormed_startHandover
      · exact h

theorem wellFormed_claim (h : e.handover = none) : (e.claim nowMs p).WellFormed := by
  unfold claim
  split
  · dsimp only
    split
    · exact wellFormed_takeOver h _
    · exact wellFormed_setRole (.inr rfl)
  · exact wellFormed_setRole (.inr rfl)

theorem WellFormed.elect (h : e.WellFormed) (hh : e.handover = none) {e' : Election}
    (he : e.elect nowMs p = some e') : e'.WellFormed := by
  unfold Election.elect at he
  split at he
  · cases he
    exact wellFormed_takeOver hh _
  · split at he
    · cases he
      split
      · exact wellFormed_setRole (.inl hh)
      · exact h
    · split at he
      · cases he
        exact h.stayActive
      · cases he
        exact wellFormed_claim hh
      · cases he
        exact wellFormed_claim hh
      · cases he

theorem WellFormed.meet (h : e.WellFormed) {e' : Election} (he : e.meet nowMs p = some e') :
    e'.WellFormed := by
  unfold Election.meet at he
  split at he
  · split at he
    · exact h.dropHandover.elect rfl he
    · cases he
      exact wellFormed_setRole (.inr rfl)
  · next hh => exact h.elect hh he

theorem WellFormed.expire (h : e.WellFormed) : (e.expire nowMs).WellFormed := by
  unfold Election.expire
  split
  · exact ⟨h.hold, nofun, h.handover⟩
  · exact h

theorem WellFormed.recover (h : e.WellFormed) : (e.recover nowMs).WellFormed := by
  unfold Election.recover
  split
  · next hr =>
    have hh : e.handover = none := by
      cases hh : e.handover with
      | none => rfl
      | some _ =>
        have hs := h.handover (by rw [hh]; rfl)
        rw [hr] at hs
        cases hs
    have hw : (e.setRole .init).WellFormed := wellFormed_setRole (.inl hh)
    exact ⟨hw.hold, hw.takeover, hw.handover⟩
  · exact h

theorem WellFormed.tick (h : e.WellFormed) {gatewayOk : Bool} {e' : Election}
    (he : e.tick nowMs peer gatewayOk = some e') : e'.WellFormed := by
  have hw : ((e.expire nowMs).recover nowMs).WellFormed := h.expire.recover
  unfold Election.tick at he
  dsimp only at he
  split at he
  · cases he
    exact wellFormed_setRole (.inl rfl)
  · split at he
    · cases he
      exact hw
    · split at he
      · cases he
        exact wellFormed_setRole (.inl rfl)
      · exact hw.meet he

theorem WellFormed.requestHandover (h : e.WellFormed) (manual : Bool) :
    (settled e (e.requestHandover peer nowMs manual)).WellFormed := by
  unfold Election.requestHandover
  split
  · exact h
  · split
    · exact h
    · exact wellFormed_startHandover

theorem WellFormed.requestActive (h : e.WellFormed) : (settled e (e.requestActive peer nowMs)).WellFormed := by
  unfold Election.requestActive
  split
  · exact h
  · exact h
  · exact h
  · next hr =>
    split
    · exact h
    · exact ⟨h.hold, fun _ => hr, h.handover⟩

theorem WellFormed.apply (h : e.WellFormed) (c : Call) {e' : Election} (he : e.apply c = some e') :
    e'.WellFormed := by
  cases c with
  | tick nowMs peer gatewayOk => exact h.tick he
  | requestActive peer nowMs => cases he; exact h.requestActive
  | requestStandby peer nowMs => cases he; exact h.requestHandover true
  | requestHandover peer nowMs manual => cases he; exact h.requestHandover manual
  | setPersist value => cases he; exact ⟨nofun, h.takeover, h.handover⟩

/-- The gateway check leaves Fault before the rules are tried. -/
theorem recover_role : (e.recover nowMs).role ≠ .fault := by
  unfold recover
  split
  · exact nofun
  · assumption

theorem elect_ne_none (h : e.role ≠ .fault) : e.elect nowMs p ≠ none := by
  unfold elect
  split
  · exact nofun
  · split
    · exact nofun
    · split
      · exact nofun
      · exact nofun
      · exact nofun
      · next hr => exact absurd hr h

theorem meet_ne_none (h : e.role ≠ .fault) : e.meet nowMs p ≠ none := by
  unfold meet
  split
  · split
    · exact elect_ne_none h
    · exact nofun
  · exact elect_ne_none h

/-- The `unreachable!` arm is not reached from any state. -/
theorem tick_ne_none (gatewayOk : Bool) : e.tick nowMs peer gatewayOk ≠ none := by
  unfold tick
  dsimp only
  split
  · exact nofun
  · split
    · exact nofun
    · split
      · exact nofun
      · exact meet_ne_none recover_role

end Election

theorem Reachable.wellFormed {e : Election} (h : Reachable e) : e.WellFormed := by
  obtain ⟨node, weight, persist, nowMs, listenMs, h⟩ := h
  refine h.invariant ⟨nofun, nofun, nofun⟩ fun e c hw _ => ?_
  cases he : e.apply c with
  | none => exact hw
  | some e' => exact hw.apply c he

/-- What is pending fits the role after any calls, a tick without the gateway
ends in Fault with nothing pending, and no tick panics. -/
theorem pending_of_reach {e : Election} (h : Reachable e) :
    (e.role = .active → e.handover = none) ∧ e.WellFormed ∧
      (∀ (nowMs : UInt64) (peer : Option PeerView), ∃ e', e.tick nowMs peer false = some e' ∧
        e'.role = .fault ∧ e'.handover = none ∧ e'.takeoverUntilMs = none ∧ e'.hold = false) ∧
      ∀ (nowMs : UInt64) (peer : Option PeerView) (gatewayOk : Bool), e.tick nowMs peer gatewayOk ≠ none := by
  have hw := h.wellFormed
  exact ⟨hw.active, hw, fun _ _ => ⟨_, rfl, rfl, rfl, rfl, rfl⟩, fun _ _ => Election.tick_ne_none⟩

/-- Node a took over when nobody answered, then hands over to b. -/
def handedOver : Election :=
  { Election.new "a" 100 false 0 2000 with
    role := .standby, handover := some { target := "b", manual := true, untilMs := 8000 } }

/-- The heartbeat of a healthy Standby peer. -/
def standbyPeer : PeerView :=
  { node := "b", role := .standby, weight := 100, persist := false, hold := false, handoverTo := none,
    handoverManual := false, takeoverRequest := false, synced := true }

theorem pending_handedOver :
    handedOver.handover.isSome ∧ (handedOver.role = .active → handedOver.handover = none) ∧
      handedOver.WellFormed := by
  have hr : Reachable handedOver := by
    refine ⟨"a", 100, false, 0, 2000, ?_⟩
    have h1 : Reach (Election.new "a" 100 false 0 2000) (fun _ _ => True)
        (fun e c => (e.apply c).getD e) _ :=
      (Reach.init.step (e := .tick 2000 none true) trivial).step (e := .requestStandby standbyPeer 3000) trivial
    exact h1
  have hp := pending_of_reach hr
  exact ⟨rfl, hp.1, hp.2.1⟩

end BrewServer.Ha
