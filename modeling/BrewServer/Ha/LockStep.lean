import BrewServer.Ha.Election

/-!
# Two elections in lock step

In each round both nodes tick once against what the other announced at the end
of the round before.
-/

namespace BrewServer.Ha

/-- What a round brings to one node: its clock, the persist setting, whether a
hold survives the change, and whether its replica is current. -/
structure Turn where
  nowMs : UInt64
  persist : Bool
  keepsHold : Bool
  synced : Bool

def Turn.enter (t : Turn) (e : Election) : Election :=
  { e with persist := t.persist, hold := e.hold && t.keepsHold }

/-- A node and its last heartbeat. -/
structure Node where
  election : Election
  announced : PeerView

/-- A node that has just announced its state. -/
def Node.start (e : Election) (nowMs : UInt64) (synced : Bool) : Node :=
  { election := e, announced := e.announce nowMs synced }

def Node.turn (n : Node) (t : Turn) (peer : PeerView) : Node :=
  .start (((t.enter n.election).tick t.nowMs (some peer) true).getD n.election) t.nowMs t.synced

structure Pair where
  a : Node
  b : Node

def Pair.round (p : Pair) (t : Turn × Turn) : Pair :=
  { a := p.a.turn t.1 p.b.announced, b := p.b.turn t.2 p.a.announced }

/-- States after any number of rounds. -/
def Pair.Runs (p q : Pair) : Prop := Reach p (fun _ _ => True) Pair.round q

/-- Exactly one node is Active. -/
def Pair.OneActive (p : Pair) : Prop :=
  (p.a.election.role = .active ∧ p.b.election.role ≠ .active) ∨
    (p.a.election.role ≠ .active ∧ p.b.election.role = .active)

/-- Nothing is pending and the gateway is reachable. -/
structure Quiet (e : Election) : Prop where
  role : e.role ≠ .fault
  handover : e.handover = none
  takeover : e.takeoverUntilMs = none

theorem Quiet.enter {e : Election} (h : Quiet e) (t : Turn) : Quiet (t.enter e) := ⟨h.role, h.handover, h.takeover⟩

/-- A tick leaves a node in a role, with a handover or none. -/
structure Lands (e e' : Election) (role : Role) (handover : Option Handover) : Prop where
  node : e'.node = e.node
  weight : e'.weight = e.weight
  role : e'.role = role
  handover : e'.handover = handover
  takeover : e'.takeoverUntilMs = none

theorem Lands.quiet {e e' : Election} {role : Role} (h : Lands e e' role none) (hr : role ≠ .fault) : Quiet e' :=
  ⟨h.role.trans_ne hr, h.handover, h.takeover⟩

theorem Lands.of_dropHandover {e e' : Election} {role : Role} {handover : Option Handover}
    (h : Lands { e with handover := none } e' role handover) : Lands e e' role handover :=
  ⟨h.node, h.weight, h.role, h.handover, h.takeover⟩

/-- What a node puts forward when both are Active. -/
def standing (e : Election) : Bool ×ₗ ℕ ×ₗ String := toLex (e.persist || e.hold, rank e.weight e.node)

/-- The node is as entitled to stay as its last heartbeat said. -/
def Turn.AsAnnounced (t : Turn) (e : Election) : Prop := (t.persist || (e.hold && t.keepsHold)) = (e.persist || e.hold)

section Rank

variable {a b : Election}

/-- `b` is preferred to `a`. -/
def Below (a b : Election) : Prop := preferred (rank b.weight b.node) (rank a.weight a.node) = true

theorem rank_ne (h : a.node ≠ b.node) : rank a.weight a.node ≠ rank b.weight b.node := by
  intro he
  exact h (congrArg Prod.snd (toLex.injective he))

/-- Names break the tie between equal weights. -/
theorem below_total (h : a.node ≠ b.node) : Below a b ∨ Below b a := by
  unfold Below preferred
  rw [decide_eq_true_iff, decide_eq_true_iff]
  exact lt_or_gt_of_ne (rank_ne h)

theorem Below.asymm (h : Below a b) : ¬ Below b a := by
  unfold Below preferred at h ⊢
  rw [decide_eq_true_iff] at h ⊢
  exact lt_asymm h

theorem standing_ne (h : a.node ≠ b.node) : standing a ≠ standing b := by
  intro he
  exact rank_ne h (congrArg Prod.snd (toLex.injective he))

theorem Turn.AsAnnounced.standing {t : Turn} (h : t.AsAnnounced a) : standing (t.enter a) = standing a := by
  unfold Ha.standing
  rw [show ((t.enter a).persist || (t.enter a).hold) = (a.persist || a.hold) from h]
  rfl

end Rank

section Tick

variable {e : Election} {nowMs : UInt64} {p : PeerView}

theorem lands_setRole (role : Role) (h : e.takeoverUntilMs = none) : Lands e (e.setRole role) role e.handover := by
  refine ⟨rfl, rfl, rfl, rfl, ?_⟩
  change (if role ≠ .standby then none else e.takeoverUntilMs) = none
  rw [h, ite_self]

theorem lands_takeOver (hold : Bool) (h : e.takeoverUntilMs = none) :
    Lands e { e.setRole .active with hold } .active e.handover :=
  ⟨rfl, rfl, rfl, rfl, (lands_setRole .active h).takeover⟩

theorem takeoverRequested_of_none (h : e.takeoverUntilMs = none) : e.takeoverRequested nowMs = false := by
  rw [Election.takeoverRequested, h]
  rfl

/-- Without a takeover request the preferred node claims. -/
theorem lands_claim (h : e.takeoverUntilMs = none) :
    Lands e (e.claim nowMs p)
      (if p.role ≠ .active ∧ preferred (rank e.weight e.node) (rank p.weight p.node) = true then .active else .standby)
      e.handover := by
  unfold Election.claim
  dsimp only
  rw [takeoverRequested_of_none h, Bool.false_or]
  by_cases hp : p.role = .active
  · rw [if_neg (not_not.mpr hp), if_neg (fun hc => hc.1 hp)]
    exact lands_setRole .standby h
  · rw [if_pos hp]
    by_cases hr : preferred (rank e.weight e.node) (rank p.weight p.node) = true
    · rw [if_pos hr, if_pos ⟨hp, hr⟩]
      exact lands_takeOver false h
    · rw [if_neg hr, if_neg (fun hc => hr hc.2)]
      exact lands_setRole .standby h

/-- Between two Active nodes the lower ranked one steps down. -/
theorem lands_splitBrain (ha : e.role = .active) (h : e.takeoverUntilMs = none) (hp : p.role = .active) :
    Lands e (e.stayActive nowMs p)
      (if outranks (toLex (p.persist || p.hold, rank p.weight p.node))
        (toLex (e.persist || e.hold, rank e.weight e.node)) then .standby else .active) e.handover := by
  unfold Election.stayActive
  rw [if_pos hp]
  dsimp only
  split
  · exact lands_setRole .standby h
  · exact ⟨rfl, rfl, ha, rfl, h⟩

/-- An Active node stays, or hands over to a preferred peer. -/
theorem lands_stayActive (ha : e.role = .active) (hh : e.handover = none) (h : e.takeoverUntilMs = none)
    (hp : p.role ≠ .active) (ht : p.takeoverRequest = false) :
    Lands e (e.stayActive nowMs p) .active none ∨
      (preferred (rank p.weight p.node) (rank e.weight e.node) = true ∧
        ∃ hand : Handover, hand.target = p.node ∧ Lands e (e.stayActive nowMs p) .standby (some hand)) := by
  unfold Election.stayActive
  rw [if_neg hp, ht, if_neg Bool.false_ne_true]
  split
  · next hc =>
    refine .inr ⟨?_, { target := p.node, manual := false, untilMs := nowMs + handoverTimeoutMs }, rfl, ?_⟩
    · exact (Bool.and_eq_true _ _ ▸ hc).2
    · exact ⟨rfl, rfl, rfl, rfl, h⟩
  · exact .inl ⟨rfl, rfl, ha, hh, h⟩

/-- With the peer heard and no takeover pending, only the rules are left. -/
theorem tick_eq_meet (hr : e.role ≠ .fault) (h : e.takeoverUntilMs = none) :
    e.tick nowMs (some p) true = e.meet nowMs p := by
  have hx : e.expire nowMs = e := by rw [Election.expire, h]; rfl
  have hv : e.recover nowMs = e := by rw [Election.recover, if_neg hr]
  unfold Election.tick
  dsimp only
  rw [hx, hv, if_neg nofun, if_neg (fun hc => nomatch hc.2.2)]

theorem elect_claim (hr : e.role ≠ .fault) (ha : e.role ≠ .active) (ht : p.handoverTo ≠ some e.node)
    (hp : p.role ≠ .fault) : e.elect nowMs p = some (e.claim nowMs p) := by
  unfold Election.elect
  rw [if_neg ht, if_neg hp]
  cases he : e.role with
  | init => rfl
  | standby => rfl
  | active => exact absurd he ha
  | fault => exact absurd he hr

theorem elect_active (ha : e.role = .active) (ht : p.handoverTo ≠ some e.node) (hp : p.role ≠ .fault) :
    e.elect nowMs p = some (e.stayActive nowMs p) := by
  unfold Election.elect
  rw [if_neg ht, if_neg hp, ha]

theorem meet_none (hh : e.handover = none) : e.meet nowMs p = e.elect nowMs p := by
  rw [Election.meet, hh]

end Tick

section Name

variable {e : Election} {nowMs : UInt64} {p : PeerView}

theorem node_elect {e' : Election} (h : e.elect nowMs p = some e') : e'.node = e.node := by
  unfold Election.elect Election.stayActive Election.claim at h
  dsimp only at h
  split at h
  · cases h; rfl
  · split at h
    · cases h
      split <;> rfl
    · split at h
      · cases h
        split_ifs <;> rfl
      · cases h
        split_ifs <;> rfl
      · cases h
        split_ifs <;> rfl
      · cases h

theorem node_meet {e' : Election} (h : e.meet nowMs p = some e') : e'.node = e.node := by
  unfold Election.meet at h
  split at h
  · split at h
    · have hn := node_elect h
      exact hn
    · cases h; rfl
  · exact node_elect h

theorem node_tick {peer : Option PeerView} {gatewayOk : Bool} {e' : Election}
    (h : e.tick nowMs peer gatewayOk = some e') : e'.node = e.node := by
  have hn : ((e.expire nowMs).recover nowMs).node = e.node := by
    unfold Election.expire Election.recover
    split <;> split <;> rfl
  unfold Election.tick at h
  dsimp only at h
  split at h
  · cases h
    unfold Election.expire
    split <;> rfl
  · split at h
    · cases h
      exact hn
    · split at h
      · cases h
        exact hn
      · exact (node_meet h).trans hn

/-- A node keeps its name. -/
theorem node_turn (n : Node) (t : Turn) (peer : PeerView) : (n.turn t peer).election.node = n.election.node := by
  change (((t.enter n.election).tick t.nowMs (some peer) true).getD n.election).node = n.election.node
  cases h : (t.enter n.election).tick t.nowMs (some peer) true with
  | none => rfl
  | some e' =>
    rw [Option.getD_some]
    have hn := node_tick h
    exact hn

end Name

/-- The heartbeat is the node's own state. -/
def Node.Fresh (n : Node) : Prop :=
  ∃ (nowMs : UInt64) (synced : Bool), n.announced = n.election.announce nowMs synced

theorem Node.fresh_turn (n : Node) (t : Turn) (peer : PeerView) : (n.turn t peer).Fresh := ⟨_, _, rfl⟩

section Turns

variable {m n : Node} {t : Turn}

theorem turn_lands {e' : Election} {r : Role} {h : Option Handover} {v : PeerView}
    (ht : (t.enter m.election).tick t.nowMs (some v) true = some e') (hl : Lands (t.enter m.election) e' r h) :
    Lands m.election (m.turn t v).election r h := by
  have he : (m.turn t v).election = e' := by
    change ((t.enter m.election).tick t.nowMs (some v) true).getD m.election = e'
    rw [ht, Option.getD_some]
  rw [he]
  exact ⟨hl.node, hl.weight, hl.role, hl.handover, hl.takeover⟩

/-- A peer that hands nothing over is not followed. -/
theorem handoverTo_of_none (hn : n.Fresh) (hh : n.election.handover = none) (name : String) :
    n.announced.handoverTo ≠ some name := by
  obtain ⟨nowMs, synced, hv⟩ := hn
  rw [hv, Election.announce, Election.handoverTarget, hh]
  exact nofun

/-- The preferred one of two nodes claims, unless the other is Active. -/
theorem turn_claim (hn : n.Fresh) (hm : Quiet m.election) (ha : m.election.role ≠ .active)
    (hq : Quiet n.election) :
    Lands m.election (m.turn t n.announced).election
      (if n.election.role ≠ .active ∧ preferred (rank m.election.weight m.election.node)
        (rank n.election.weight n.election.node) = true then .active else .standby) none := by
  have hto := handoverTo_of_none hn hq.handover m.election.node
  obtain ⟨nowMs, synced, hv⟩ := hn
  rw [hv] at hto ⊢
  have htick : (t.enter m.election).tick t.nowMs (some (n.election.announce nowMs synced)) true =
      some ((t.enter m.election).claim t.nowMs (n.election.announce nowMs synced)) := by
    rw [tick_eq_meet (hm.enter t).role (hm.enter t).takeover, meet_none (hm.enter t).handover]
    exact elect_claim hm.role ha hto hq.role
  have hl := turn_lands htick (lands_claim hm.takeover)
  rw [show (t.enter m.election).handover = none from hm.handover] at hl
  exact hl

/-- An Active node stays, or hands over to the peer preferred to it. -/
theorem turn_active (hn : n.Fresh) (hm : Quiet m.election) (ha : m.election.role = .active)
    (hq : Quiet n.election) (hna : n.election.role ≠ .active) :
    Lands m.election (m.turn t n.announced).election .active none ∨
      (Below m.election n.election ∧ ∃ hand : Handover, hand.target = n.election.node ∧
        Lands m.election (m.turn t n.announced).election .standby (some hand)) := by
  have hto := handoverTo_of_none hn hq.handover m.election.node
  obtain ⟨nowMs, synced, hv⟩ := hn
  rw [hv] at hto ⊢
  have htick : (t.enter m.election).tick t.nowMs (some (n.election.announce nowMs synced)) true =
      some ((t.enter m.election).stayActive t.nowMs (n.election.announce nowMs synced)) := by
    rw [tick_eq_meet (hm.enter t).role (hm.enter t).takeover, meet_none (hm.enter t).handover]
    exact elect_active ha hto hq.role
  have hreq : (n.election.announce nowMs synced).takeoverRequest = false :=
    takeoverRequested_of_none hq.takeover
  have hna' : (n.election.announce nowMs synced).role ≠ .active := hna
  have ha' : (t.enter m.election).role = .active := ha
  rcases lands_stayActive ha' (hm.enter t).handover (hm.enter t).takeover hna' hreq with hl | ⟨hb, hand, htg, hl⟩
  · exact .inl (turn_lands htick hl)
  · exact .inr ⟨hb, hand, htg, turn_lands htick hl⟩

/-- The target of a handover takes over. -/
theorem turn_takeOver (hn : n.Fresh) (hm : Quiet m.election) {hand : Handover}
    (hh : n.election.handover = some hand) (htg : hand.target = m.election.node) :
    Lands m.election (m.turn t n.announced).election .active none := by
  obtain ⟨nowMs, synced, hv⟩ := hn
  rw [hv]
  have hto : (n.election.announce nowMs synced).handoverTo = some (t.enter m.election).node := by
    rw [Election.announce, Election.handoverTarget, hh]
    exact congrArg some htg
  have htick : (t.enter m.election).tick t.nowMs (some (n.election.announce nowMs synced)) true =
      some { (t.enter m.election).setRole .active with
        hold := (n.election.announce nowMs synced).handoverManual } := by
    rw [tick_eq_meet (hm.enter t).role (hm.enter t).takeover, meet_none (hm.enter t).handover, Election.elect,
      if_pos hto]
  have hl := turn_lands htick (lands_takeOver _ hm.takeover)
  rw [show (t.enter m.election).handover = none from hm.handover] at hl
  exact hl

/-- A node that hands over to a preferred peer stays Standby, whether it waits,
gives up or sees the peer Active. -/
theorem turn_handingOver (hn : n.Fresh) {hand : Handover} (hs : m.election.role = .standby)
    (ht : m.election.takeoverUntilMs = none) (hh : m.election.handover = some hand)
    (hb : Below m.election n.election) (hq : Quiet n.election) :
    Lands m.election (m.turn t n.announced).election .standby none ∨
      (n.election.role ≠ .active ∧
        Lands m.election (m.turn t n.announced).election .standby (some hand)) := by
  have hto := handoverTo_of_none hn hq.handover m.election.node
  obtain ⟨nowMs, synced, hv⟩ := hn
  rw [hv] at hto ⊢
  have hrf : (t.enter m.election).role ≠ .fault := by
    change m.election.role ≠ .fault
    rw [hs]
    exact nofun
  have hra : (t.enter m.election).role ≠ .active := by
    change m.election.role ≠ .active
    rw [hs]
    exact nofun
  have hmeet : (t.enter m.election).tick t.nowMs (some (n.election.announce nowMs synced)) true = _ :=
    tick_eq_meet hrf ht
  rw [Election.meet, show (t.enter m.election).handover = some hand from hh] at hmeet
  dsimp only at hmeet
  split at hmeet
  · refine .inl ?_
    rw [elect_claim (by exact hrf) (by exact hra) (by exact hto) hq.role] at hmeet
    have hd : ({ t.enter m.election with handover := none } : Election).takeoverUntilMs = none := ht
    have hl := turn_lands hmeet (lands_claim hd).of_dropHandover
    rw [if_neg fun hc => hb.asymm hc.2] at hl
    exact hl
  · next hw =>
    refine .inr ⟨fun hc => hw (.inl hc), ?_⟩
    have hl := turn_lands hmeet (lands_setRole .standby ht)
    rw [show (t.enter m.election).handover = some hand from hh] at hl
    exact hl

/-- Two Active nodes compare what each announced with what it is now. -/
theorem turn_splitBrain (hn : n.Fresh) (hm : Quiet m.election) (ha : m.election.role = .active)
    (hq : Quiet n.election) (hna : n.election.role = .active) :
    Lands m.election (m.turn t n.announced).election
      (if outranks (standing n.election) (standing (t.enter m.election)) then .standby else .active) none := by
  have hto := handoverTo_of_none hn hq.handover m.election.node
  obtain ⟨nowMs, synced, hv⟩ := hn
  rw [hv] at hto ⊢
  have htick : (t.enter m.election).tick t.nowMs (some (n.election.announce nowMs synced)) true =
      some ((t.enter m.election).stayActive t.nowMs (n.election.announce nowMs synced)) := by
    rw [tick_eq_meet (hm.enter t).role (hm.enter t).takeover, meet_none (hm.enter t).handover]
    exact elect_active ha hto hq.role
  have hna' : (n.election.announce nowMs synced).role = .active := hna
  have hl := turn_lands htick (lands_splitBrain ha hm.takeover hna')
  rw [show (t.enter m.election).handover = none from hm.handover] at hl
  exact hl

end Turns

/-- Where two nodes stand, up to exchange: nothing is under way, the first hands
over to the second, or the second has just taken over. -/
inductive Phase (x y : Election) : Prop
  | quiet (hx : Quiet x) (hy : Quiet y) (one : ¬ (x.role = .active ∧ y.role = .active))
  | handing {hand : Handover} (target : hand.target = y.node) (below : Below x y) (standby : x.role = .standby)
      (handover : x.handover = some hand) (takeover : x.takeoverUntilMs = none) (hy : Quiet y)

theorem Phase.not_both {x y : Election} (h : Phase x y) : ¬ (x.role = .active ∧ y.role = .active) := by
  cases h with
  | quiet _ _ one => exact one
  | handing _ _ standby _ _ _ =>
    intro h
    rw [standby] at h
    cases h.1

theorem Below.lands {x y x' y' : Election} {r r' : Role} {h h' : Option Handover} (hb : Below x y)
    (hx : Lands x x' r h) (hy : Lands y y' r' h') : Below x' y' := by
  unfold Below at hb ⊢
  rw [hx.node, hx.weight, hy.node, hy.weight]
  exact hb

section Rounds

variable {m n : Node} {s t : Turn}

/-- Neither is Active: the preferred one claims and the other does not. -/
theorem oneActive_of_neither (hm : m.Fresh) (hn : n.Fresh) (hne : m.election.node ≠ n.election.node)
    (hqm : Quiet m.election) (hqn : Quiet n.election) (hma : m.election.role ≠ .active)
    (hna : n.election.role ≠ .active) :
    Quiet (m.turn s n.announced).election ∧ Quiet (n.turn t m.announced).election ∧
      (({ a := m, b := n } : Pair).round (s, t)).OneActive := by
  have hlm := turn_claim (t := s) hn hqm hma hqn
  have hln := turn_claim (t := t) hm hqn hna hqm
  have hpick : ∀ c : Prop, [Decidable c] → (if c then Role.active else .standby) ≠ .fault := by
    intro c _
    split <;> exact nofun
  refine ⟨hlm.quiet (hpick _), hln.quiet (hpick _), ?_⟩
  rcases below_total hne with hb | hb
  · refine .inr ⟨?_, ?_⟩
    · change (m.turn s n.announced).election.role ≠ .active
      rw [hlm.role, if_neg fun hc => hb.asymm hc.2]
      exact nofun
    · change (n.turn t m.announced).election.role = .active
      rw [hln.role, if_pos ⟨hma, hb⟩]
  · refine .inl ⟨?_, ?_⟩
    · change (m.turn s n.announced).election.role = .active
      rw [hlm.role, if_pos ⟨hna, hb⟩]
    · change (n.turn t m.announced).election.role ≠ .active
      rw [hln.role, if_neg fun hc => hb.asymm hc.2]
      exact nofun

/-- An Active node and one that is not: the first stays or hands over, and the
second waits. -/
theorem phase_of_active (hm : m.Fresh) (hn : n.Fresh) (hqm : Quiet m.election) (hqn : Quiet n.election)
    (hma : m.election.role = .active) (hna : n.election.role ≠ .active) :
    Phase (m.turn s n.announced).election (n.turn t m.announced).election := by
  have hln := turn_claim (t := t) hm hqn hna hqm
  rw [if_neg fun hc => hc.1 hma] at hln
  rcases turn_active (t := s) hn hqm hma hqn hna with hlm | ⟨hb, hand, htg, hlm⟩
  · refine .quiet (hlm.quiet nofun) (hln.quiet nofun) fun hc => ?_
    rw [hln.role] at hc
    cases hc.2
  · exact .handing (htg.trans hln.node.symm) (hb.lands hlm hln) hlm.role hlm.handover hlm.takeover
      (hln.quiet nofun)

/-- The target takes over, and the node that hands over stays Standby. -/
theorem phase_of_handing (hm : m.Fresh) (hn : n.Fresh) {hand : Handover} (htg : hand.target = n.election.node)
    (hb : Below m.election n.election) (hs : m.election.role = .standby) (hh : m.election.handover = some hand)
    (ht : m.election.takeoverUntilMs = none) (hqn : Quiet n.election) :
    Phase (m.turn s n.announced).election (n.turn t m.announced).election := by
  have hln := turn_takeOver (t := t) hm hqn hh htg
  rcases turn_handingOver (t := s) hn hs ht hh hb hqn with hlm | ⟨-, hlm⟩
  · refine .quiet (hlm.quiet nofun) (hln.quiet nofun) fun hc => ?_
    rw [hlm.role] at hc
    cases hc.1
  · exact .handing (htg.trans hln.node.symm) (hb.lands hlm hln) hlm.role hlm.handover hlm.takeover
      (hln.quiet nofun)

theorem Phase.turn (hm : m.Fresh) (hn : n.Fresh) (hne : m.election.node ≠ n.election.node)
    (h : Phase m.election n.election) :
    Phase (m.turn s n.announced).election (n.turn t m.announced).election ∨
      Phase (n.turn t m.announced).election (m.turn s n.announced).election := by
  cases h with
  | quiet hqm hqn one =>
    by_cases hma : m.election.role = .active
    · exact .inl (phase_of_active hm hn hqm hqn hma fun hna => one ⟨hma, hna⟩)
    · by_cases hna : n.election.role = .active
      · exact .inr (phase_of_active hn hm hqn hqm hna hma)
      · obtain ⟨hqm', hqn', hone⟩ := oneActive_of_neither (s := s) (t := t) hm hn hne hqm hqn hma hna
        refine .inl (.quiet hqm' hqn' fun hc => ?_)
        rcases hone with h1 | h1
        · exact h1.2 hc.2
        · exact h1.1 hc.1
  | handing htg hb hs hh ht hqn => exact .inl (phase_of_handing hm hn htg hb hs hh ht hqn)

end Rounds

/-- Of two Active nodes exactly one steps down. -/
theorem oneActive_of_both {m n : Node} {s t : Turn} (hm : m.Fresh) (hn : n.Fresh)
    (hne : m.election.node ≠ n.election.node) (hqm : Quiet m.election) (hqn : Quiet n.election)
    (hma : m.election.role = .active) (hna : n.election.role = .active) (hs : s.AsAnnounced m.election)
    (ht : t.AsAnnounced n.election) :
    (({ a := m, b := n } : Pair).round (s, t)).OneActive := by
  have hlm := turn_splitBrain (t := s) hn hqm hma hqn hna
  have hln := turn_splitBrain (t := t) hm hqn hna hqm hma
  rw [hs.standing] at hlm
  rw [ht.standing] at hln
  unfold outranks at hlm hln
  simp only [decide_eq_true_iff] at hlm hln
  rcases lt_or_gt_of_ne (standing_ne hne) with hlt | hlt
  · rw [if_pos hlt] at hlm
    rw [if_neg (lt_asymm hlt)] at hln
    refine .inr ⟨?_, hln.role⟩
    exact hlm.role.trans_ne nofun
  · rw [if_neg (lt_asymm hlt)] at hlm
    rw [if_pos hlt] at hln
    refine .inl ⟨hlm.role, ?_⟩
    exact hln.role.trans_ne nofun

/-- Both nodes heard, with their own names, and nothing but automatic handovers
under way. -/
structure Joint (p : Pair) : Prop where
  nodes : p.a.election.node ≠ p.b.election.node
  a : p.a.Fresh
  b : p.b.Fresh
  phase : Phase p.a.election p.b.election ∨ Phase p.b.election p.a.election

theorem Joint.round {p : Pair} (h : Joint p) (t : Turn × Turn) : Joint (p.round t) := by
  refine ⟨?_, p.a.fresh_turn _ _, p.b.fresh_turn _ _, ?_⟩
  · change (p.a.turn t.1 p.b.announced).election.node ≠ (p.b.turn t.2 p.a.announced).election.node
    rw [node_turn, node_turn]
    exact h.nodes
  · rcases h.phase with hp | hp
    · exact hp.turn h.a h.b h.nodes
    · exact (hp.turn h.b h.a h.nodes.symm).symm

theorem Joint.runs {p q : Pair} (h : Joint p) (hr : p.Runs q) : Joint q :=
  hr.invariant h fun _ t hj _ => hj.round t

theorem Joint.not_both {p : Pair} (h : Joint p) : ¬ (p.a.election.role = .active ∧ p.b.election.role = .active) := by
  rcases h.phase with hp | hp
  · exact hp.not_both
  · exact fun hc => hp.not_both hc.symm

/-- Two nodes that have announced their states. -/
def Pair.start (a b : Election) (nowMs nowMs' : UInt64) (synced synced' : Bool) : Pair :=
  { a := .start a nowMs synced, b := .start b nowMs' synced' }

theorem Reachable.quiet {e : Election} (h : Reachable e) (ha : e.role = .active) : Quiet e := by
  refine ⟨ha.trans_ne nofun, h.wellFormed.active ha, ?_⟩
  cases ht : e.takeoverUntilMs with
  | none => rfl
  | some _ =>
    have hs := h.wellFormed.takeover (by rw [ht]; rfl)
    rw [ha] at hs
    cases hs

/-- Of two Active nodes whose entitlement is what they announced, exactly one
steps down. With nothing pending and at most one Active, the two are never both
Active, and one claims at once when none was, whatever happens to persist, hold
and the replicas, and whatever the clocks say. -/
theorem lockStep (a b : Election) (ha : Reachable a) (hb : Reachable b) (hne : a.node ≠ b.node)
    (nowMs nowMs' : UInt64) (synced synced' : Bool) :
    (a.role = .active → b.role = .active → ∀ s t : Turn, s.AsAnnounced a → t.AsAnnounced b →
      ((Pair.start a b nowMs nowMs' synced synced').round (s, t)).OneActive) ∧
    (Quiet a → Quiet b → ¬ (a.role = .active ∧ b.role = .active) →
      (∀ q, (Pair.start a b nowMs nowMs' synced synced').Runs q →
        ¬ (q.a.election.role = .active ∧ q.b.election.role = .active)) ∧
      (a.role ≠ .active → b.role ≠ .active → ∀ s t : Turn,
        ((Pair.start a b nowMs nowMs' synced synced').round (s, t)).OneActive)) := by
  have hfa : (Node.start a nowMs synced).Fresh := ⟨_, _, rfl⟩
  have hfb : (Node.start b nowMs' synced').Fresh := ⟨_, _, rfl⟩
  refine ⟨fun hra hrb s t hs ht => ?_, fun hqa hqb hone => ⟨fun q hq => ?_, fun hra hrb s t => ?_⟩⟩
  · exact oneActive_of_both hfa hfb hne (ha.quiet hra) (hb.quiet hrb) hra hrb hs ht
  · have hj : Joint (Pair.start a b nowMs nowMs' synced synced') := ⟨hne, hfa, hfb, .inl (.quiet hqa hqb hone)⟩
    exact (hj.runs hq).not_both
  · exact (oneActive_of_neither hfa hfb hne hqa hqb hra hrb).2.2

/-- A node that took over when nobody answered. -/
def alone (node : String) (weight : UInt32) : Election :=
  { Election.new node weight false 0 2000 with role := .active }

theorem reachable_alone_a : Reachable (alone "a" 1) := by
  have h : Reach (Election.new "a" 1 false 0 2000) (fun _ _ => True) (fun e c => (e.apply c).getD e) _ :=
    Reach.init.step (e := .tick 2000 none true) trivial
  exact ⟨"a", 1, false, 0, 2000, h⟩

theorem reachable_alone_b : Reachable (alone "b" 2) := by
  have h : Reach (Election.new "b" 2 false 0 2000) (fun _ _ => True) (fun e c => (e.apply c).getD e) _ :=
    Reach.init.step (e := .tick 2000 none true) trivial
  exact ⟨"b", 2, false, 0, 2000, h⟩

/-- Two nodes that were apart meet: one of them steps down. -/
theorem lockStep_healed :
    ((Pair.start (alone "a" 1) (alone "b" 2) 2500 2500 true true).round
      (⟨3000, false, true, true⟩, ⟨3000, false, true, true⟩)).OneActive :=
  (lockStep (alone "a" 1) (alone "b" 2) reachable_alone_a reachable_alone_b (by decide) 2500 2500 true true).1
    rfl rfl ⟨3000, false, true, true⟩ ⟨3000, false, true, true⟩ rfl rfl

/-- With persist switched on since the last heartbeat, the lower ranked node
stays, and so does the other, which has not heard of it. -/
theorem not_lockStep :
    Reachable (alone "a" 1) ∧ Reachable (alone "b" 2) ∧ (alone "a" 1).node ≠ (alone "b" 2).node ∧
      (alone "a" 1).role = .active ∧ (alone "b" 2).role = .active ∧
      ¬ ((Pair.start (alone "a" 1) (alone "b" 2) 2500 2500 true true).round
        (⟨3000, true, true, true⟩, ⟨3000, false, true, true⟩)).OneActive := by
  refine ⟨reachable_alone_a, reachable_alone_b, by decide, rfl, rfl, ?_⟩
  intro h
  have hboth : ((Pair.start (alone "a" 1) (alone "b" 2) 2500 2500 true true).round
        (⟨3000, true, true, true⟩, ⟨3000, false, true, true⟩)).a.election.role = .active ∧
      ((Pair.start (alone "a" 1) (alone "b" 2) 2500 2500 true true).round
        (⟨3000, true, true, true⟩, ⟨3000, false, true, true⟩)).b.election.role = .active := by
    decide +kernel
  rcases h with h | h
  · exact h.2 hboth.2
  · exact h.1 hboth.1

end BrewServer.Ha
