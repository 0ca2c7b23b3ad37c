import BrewServer.Fedroute.Table
import BrewServer.Ha.Election
import BrewServer.Ha.Replay

/-!
# The heartbeat loop of a node

The loop hears the peer, obeys the dashboard, advances the election, moves the virtual
address and announces itself. The address is moved before a new role is announced, and a
node that is no longer Active restarts instead of stopping its services.
-/

namespace BrewServer.Ha.Runtime

def tagLen : ℕ := 32

/-- What a node announces in every heartbeat. -/
structure Heartbeat where
  node : String
  bootId : UInt64
  seq : UInt64
  tsMs : UInt64
  role : Role
  weight : UInt32
  persist : Bool
  hold : Bool
  handoverTo : Option String
  handoverManual : Bool
  takeoverRequest : Bool
  configHash : UInt64
  synced : Bool
  configSections : Option (List (String × UInt32))
  deriving DecidableEq

/-- The part the election looks at. -/
def Heartbeat.view (hb : Heartbeat) : PeerView :=
  { node := hb.node, role := hb.role, weight := hb.weight, persist := hb.persist, hold := hb.hold,
    handoverTo := hb.handoverTo, handoverManual := hb.handoverManual, takeoverRequest := hb.takeoverRequest,
    synced := hb.synced }

/-- The part the replay guard looks at. -/
def Heartbeat.numbered (hb : Heartbeat) : Ha.Heartbeat := { bootId := hb.bootId, seq := hb.seq, tsMs := hb.tsMs }

/-- The keyed hash of the pair and the JSON of a heartbeat. -/
structure Wire where
  hmac : Bytes → Bytes
  toJson : Heartbeat → Bytes
  fromJson : Bytes → Option Heartbeat

def Wire.encode (k : Wire) (hb : Heartbeat) : Bytes := k.toJson hb ++ k.hmac (k.toJson hb)

def Wire.decode (k : Wire) (buf : Bytes) : Option Heartbeat :=
  if buf.length ≤ tagLen then none
  else
    let body := buf.take (buf.length - tagLen)
    let tag := buf.drop (buf.length - tagLen)
    if tag = k.hmac body then k.fromJson body else none

structure HaConfig where
  nodeName : String
  weight : UInt32
  persist : Bool
  deadAfterMs : UInt64
  configHash : UInt64
  configSections : List (String × UInt32)

structure LastPeer where
  hb : Heartbeat
  atMs : UInt64

/-- The peer as last heard, while it counts as alive. -/
def alivePeer (last : Option LastPeer) (nowMs deadAfterMs : UInt64) : Option PeerView :=
  (last.filter fun lp => satSub nowMs lp.atMs < deadAfterMs).map fun lp => lp.hb.view

/-- The loop's variables. -/
structure Process where
  election : Election
  guard : ReplayGuard
  lastPeer : Option LastPeer
  bootId : UInt64
  seq : UInt64
  vipHeld : Bool
  vipFaultUntilMs : UInt64
  persistOverride : Option Bool
  wasActive : Bool
  applyPending : Bool
  /-- Whether the services may have been started: the node has been Active. -/
  services : Bool

inductive HaCommand
  | makeActive
  | makeStandby
  | setPersist (value : Option Bool)
  | apply (force : Bool)

/-- What the loop wakes up for. -/
inductive Input
  | ticker
  | datagram (buf : Bytes)
  | command (c : HaCommand)
  | terminate

/-- The readings of the clock in a turn, and what its system calls give. -/
structure Moment where
  /-- When the replay guard judges a heartbeat, or a command is taken. -/
  heardMs : UInt64
  /-- When a heartbeat is noted as the last. -/
  atMs : UInt64
  /-- After the input. -/
  nowMs : UInt64
  gatewayOk : Bool
  /-- Adding the address works. -/
  vipUp : Bool
  /-- Removing the address works. -/
  vipDown : Bool
  synced : Bool

namespace Process

variable (cfg : HaConfig) (t : Moment)

def start (nowMs bootId : UInt64) (persistOverride : Option Bool) : Process :=
  { election := Election.new cfg.nodeName cfg.weight (persistOverride.getD cfg.persist) nowMs cfg.deadAfterMs
    guard := .default, lastPeer := none, bootId, seq := 0, vipHeld := false, vipFaultUntilMs := 0, persistOverride,
    wasActive := false, applyPending := false, services := false }

/-- A heartbeat of the peer is taken; `none` where the datagram is dropped. -/
def hear (k : Wire) (p : Process) (buf : Bytes) : Option Process :=
  match k.decode buf with
  | some hb =>
    if hb.node = cfg.nodeName then none
    else
      let (accepted, guard) := p.guard.accept hb.numbered t.heardMs
      if accepted then some { p with guard, lastPeer := some { hb, atMs := t.atMs } } else none
  | none => none

/-- A dashboard command; `none` where the process restarts at once. -/
def obey (p : Process) (peer : Option PeerView) : HaCommand → Option Process
  | .makeActive => some { p with election := settled p.election (p.election.requestActive peer t.heardMs) }
  | .makeStandby => some { p with election := settled p.election (p.election.requestStandby peer t.heardMs) }
  | .setPersist value =>
    some { p with persistOverride := value, election := p.election.setPersist (value.getD cfg.persist) }
  | .apply force =>
    if p.election.role = .active then
      match p.election.requestHandover peer t.heardMs false with
      | .ok election => some { p with election, applyPending := true }
      | .error _ => if force then none else some p
    else none

/-- The election advances and the virtual address follows it. -/
def advance (p : Process) (peer : Option PeerView) : Process :=
  let election := (p.election.tick t.nowMs peer (t.gatewayOk && decide (p.vipFaultUntilMs ≤ t.nowMs))).getD p.election
  let wantVip := decide (election.role = .active)
  if wantVip = p.vipHeld then { p with election }
  else if wantVip then
    if t.vipUp then { p with election, vipHeld := true }
    else
      { p with
        election := (election.tick t.nowMs peer false).getD election
        vipFaultUntilMs := t.nowMs + handoverTimeoutMs }
  else { p with election, vipHeld := !t.vipDown }

/-- What the node would announce next. -/
def heartbeat (p : Process) : Heartbeat :=
  { node := cfg.nodeName, bootId := p.bootId, seq := p.seq + 1, tsMs := t.nowMs, role := p.election.role,
    weight := cfg.weight, persist := p.election.persist, hold := p.election.hold,
    handoverTo := p.election.handoverTarget.map (·.1), handoverManual := p.election.handoverTarget.any (·.2),
    takeoverRequest := p.election.takeoverRequested t.nowMs, configHash := cfg.configHash, synced := t.synced,
    configSections :=
      if (p.seq + 1) % 4 = 0 ∧ p.lastPeer.any (fun lp => lp.hb.configHash ≠ cfg.configHash) then some cfg.configSections
      else none }

/-- How a turn ends: the process, none where it has restarted or exited, what it announced,
whether it held the address then, and what it took the peer for, at which reading. -/
structure Turned where
  process : Option Process
  sent : Option Heartbeat
  vipHeld : Bool
  peers : List (UInt64 × Option PeerView)

/-- The rest of a turn. An answer to a heartbeat is only sent where the role has changed. -/
def finish (p : Process) (fromPeer : Bool) : Turned :=
  let peer := alivePeer p.lastPeer t.nowMs cfg.deadAfterMs
  let q := p.advance t peer
  let quiet := fromPeer && decide (p.election.role = q.election.role)
  let active := decide (q.election.role = .active)
  let r := { q with
    seq := if quiet then q.seq else q.seq + 1
    wasActive := q.wasActive || (active && q.vipHeld)
    services := q.services || active }
  { process := if r.election.handover.isNone ∧ (r.applyPending ∨ r.wasActive ∧ ¬ active) then none else some r
    sent := if quiet then none else some (q.heartbeat cfg t)
    vipHeld := q.vipHeld
    peers := [(t.nowMs, peer)] }

/-- One turn of the loop. -/
def turn (k : Wire) (p : Process) : Input → Turned
  | .ticker => p.finish cfg t false
  | .datagram buf =>
    match p.hear cfg t k buf with
    | some p => p.finish cfg t true
    | none => { process := some p, sent := none, vipHeld := p.vipHeld, peers := [] }
  | .command c =>
    let peer := alivePeer p.lastPeer t.heardMs cfg.deadAfterMs
    match p.obey cfg t peer c with
    | some q => { q.finish cfg t false with peers := (t.heardMs, peer) :: (q.finish cfg t false).peers }
    | none => { process := none, sent := none, vipHeld := p.vipHeld, peers := [(t.heardMs, peer)] }
  | .terminate => { process := none, sent := none, vipHeld := p.vipHeld, peers := [] }

variable {cfg t} {k : Wire} {p q : Process}

/-! ## The address and the services -/

/-- Only a node that holds the address is Active, and services run only while the node is
Active or hands over. -/
structure Disciplined (p : Process) : Prop where
  wellFormed : p.election.WellFormed
  vip : p.election.role = .active → p.vipHeld = true
  started : p.services = true → p.wasActive = true
  serving : p.wasActive = true → p.election.role = .active ∨ p.election.handover.isSome = true
  pending : p.applyPending = true → p.election.handover.isSome = true

theorem disciplined_start (nowMs bootId : UInt64) (persistOverride : Option Bool) :
    (start cfg nowMs bootId persistOverride).Disciplined where
  wellFormed := ⟨fun h => Bool.noConfusion h, fun h => Bool.noConfusion h, fun h => Bool.noConfusion h⟩
  vip h := by cases h
  started h := by cases h
  serving h := by cases h
  pending h := by cases h

/-- Hearing the peer leaves the election alone. -/
theorem hear_cases {buf : Bytes} (h : p.hear cfg t k buf = some q) :
    ∃ hb guard, k.decode buf = some hb ∧ hb.node ≠ cfg.nodeName ∧ p.guard.accept hb.numbered t.heardMs = (true, guard) ∧
      q = { p with guard, lastPeer := some { hb, atMs := t.atMs } } := by
  unfold hear at h
  split at h
  · next hb hdecode =>
    split at h
    · cases h
    · next hname =>
      cases haccept : p.guard.accept hb.numbered t.heardMs with
      | mk accepted guard =>
        rw [haccept] at h
        cases accepted with
        | false => cases h
        | true => exact ⟨hb, guard, hdecode, hname, haccept, (Option.some.inj h).symm⟩
  · cases h

theorem Disciplined.hear (h : p.Disciplined) {buf : Bytes} (hq : p.hear cfg t k buf = some q) : q.Disciplined := by
  obtain ⟨hb, guard, -, -, -, rfl⟩ := hear_cases hq
  exact ⟨h.wellFormed, h.vip, h.started, h.serving, h.pending⟩

/-- A request of the dashboard starts a handover on an Active node, or leaves the role. -/
theorem Disciplined.settle (h : p.Disciplined) {r : Except String Election} {applyPending : Bool}
    (hw : (settled p.election r).WellFormed)
    (hr : (settled p.election r).handover.isSome = true ∧ (settled p.election r).role ≠ .active ∨
      (settled p.election r).role = p.election.role ∧ (settled p.election r).handover = p.election.handover ∧
        applyPending = p.applyPending) :
    Disciplined { p with election := settled p.election r, applyPending } := by
  rcases hr with ⟨hhand, hrole⟩ | ⟨hrole, hhand, hpend⟩
  · exact ⟨hw, fun ha => absurd ha hrole, h.started, fun _ => .inr hhand, fun _ => hhand⟩
  · subst hpend
    refine ⟨hw, fun ha => h.vip (hrole ▸ ha), h.started, fun hs => ?_, fun hs => ?_⟩
    · show (settled p.election r).role = .active ∨ (settled p.election r).handover.isSome = true
      rw [hrole, hhand]
      exact h.serving hs
    · show (settled p.election r).handover.isSome = true
      rw [hhand]
      exact h.pending hs

/-- A handover request is granted or changes nothing. -/
theorem requestHandover_cases (e : Election) (peer : Option PeerView) (nowMs : UInt64) (manual : Bool) :
    (∃ target, e.requestHandover peer nowMs manual = .ok (e.startHandover target manual nowMs)) ∨
      ∃ err, e.requestHandover peer nowMs manual = .error err := by
  unfold Election.requestHandover
  split
  · exact .inr ⟨_, rfl⟩
  · split
    · exact .inr ⟨_, rfl⟩
    · exact .inl ⟨_, rfl⟩

theorem requestActive_cases (e : Election) (peer : Option PeerView) (nowMs : UInt64) :
    (settled e (e.requestActive peer nowMs)).role = e.role ∧
      (settled e (e.requestActive peer nowMs)).handover = e.handover := by
  unfold Election.requestActive
  split
  · exact ⟨rfl, rfl⟩
  · exact ⟨rfl, rfl⟩
  · exact ⟨rfl, rfl⟩
  · split
    · exact ⟨rfl, rfl⟩
    · exact ⟨rfl, rfl⟩

theorem Disciplined.obey (h : p.Disciplined) {peer : Option PeerView} {c : HaCommand}
    (hq : p.obey cfg t peer c = some q) : q.Disciplined := by
  cases c with
  | makeActive =>
    cases hq
    obtain ⟨hrole, hhand⟩ := requestActive_cases p.election peer t.heardMs
    exact h.settle h.wellFormed.requestActive (.inr ⟨hrole, hhand, rfl⟩)
  | makeStandby =>
    cases hq
    refine h.settle (h.wellFormed.requestHandover true) ?_
    rcases requestHandover_cases p.election peer t.heardMs true with ⟨target, hok⟩ | ⟨err, herr⟩
    · rw [Election.requestStandby, hok]
      exact .inl ⟨rfl, fun hr => Role.noConfusion hr⟩
    · rw [Election.requestStandby, herr]
      exact .inr ⟨rfl, rfl, rfl⟩
  | setPersist value =>
    cases hq
    exact ⟨⟨fun hh => Bool.noConfusion hh, h.wellFormed.takeover, h.wellFormed.handover⟩, h.vip, h.started, h.serving,
      h.pending⟩
  | apply force =>
    unfold Process.obey at hq
    dsimp only at hq
    split at hq
    · rcases requestHandover_cases p.election peer t.heardMs false with ⟨target, hok⟩ | ⟨err, herr⟩
      · rw [hok] at hq
        cases hq
        exact ⟨Election.wellFormed_startHandover, fun hr => Role.noConfusion hr, h.started, fun _ => .inr rfl, fun _ => rfl⟩
      · rw [herr] at hq
        dsimp only at hq
        split at hq
        · cases hq
        · cases hq
          exact h
    · cases hq

/-- A failed gateway, or a failed address, is Fault. -/
theorem tick_fault (e : Election) (nowMs : UInt64) (peer : Option PeerView) :
    ((e.tick nowMs peer false).getD e).role = .fault := rfl

theorem wellFormed_tick {e : Election} (h : e.WellFormed) (nowMs : UInt64) (peer : Option PeerView) (ok : Bool) :
    ((e.tick nowMs peer ok).getD e).WellFormed := by
  cases he : e.tick nowMs peer ok with
  | none => exact h
  | some e' => exact h.tick he

/-- The address follows the election. -/
theorem Disciplined.advance (h : p.Disciplined) (peer : Option PeerView) :
    (p.advance t peer).election.WellFormed ∧
      ((p.advance t peer).election.role = .active → (p.advance t peer).vipHeld = true) := by
  unfold Process.advance
  dsimp only
  have hw := wellFormed_tick h.wellFormed t.nowMs peer (t.gatewayOk && decide (p.vipFaultUntilMs ≤ t.nowMs))
  split
  · next hvip => exact ⟨hw, fun ha => hvip ▸ decide_eq_true ha⟩
  · split
    · split
      · exact ⟨hw, fun _ => rfl⟩
      · refine ⟨wellFormed_tick hw t.nowMs peer false, fun ha => ?_⟩
        have hfault := tick_fault ((p.election.tick t.nowMs peer
          (t.gatewayOk && decide (p.vipFaultUntilMs ≤ t.nowMs))).getD p.election) t.nowMs peer
        exact Role.noConfusion (hfault.symm.trans ha)
    · next hno => exact ⟨hw, fun ha => absurd (decide_eq_true ha) hno⟩

/-- Moving the address touches no other variable. -/
theorem advance_flags (peer : Option PeerView) : (p.advance t peer).services = p.services ∧
    (p.advance t peer).wasActive = p.wasActive ∧ (p.advance t peer).lastPeer = p.lastPeer := by
  unfold Process.advance
  dsimp only
  split
  · exact ⟨rfl, rfl, rfl⟩
  · split
    · split
      · exact ⟨rfl, rfl, rfl⟩
      · exact ⟨rfl, rfl, rfl⟩
    · exact ⟨rfl, rfl, rfl⟩

theorem Disciplined.finish (h : p.Disciplined) {fromPeer : Bool} (hq : (p.finish cfg t fromPeer).process = some q) :
    q.Disciplined := by
  obtain ⟨hw, hvip⟩ := @Disciplined.advance t p h (alivePeer p.lastPeer t.nowMs cfg.deadAfterMs)
  obtain ⟨hservices, hwas, -⟩ := @advance_flags t p (alivePeer p.lastPeer t.nowMs cfg.deadAfterMs)
  unfold Process.finish at hq
  dsimp only at hq
  split at hq
  · cases hq
  · next hgo =>
    cases hq
    -- Only a handover keeps a process that calls for a restart.
    have hkeep := fun hc => Option.isNone_eq_false_iff.mp (Bool.eq_false_iff.mpr fun hn => hgo ⟨hn, hc⟩)
    refine ⟨hw, hvip, fun hs => ?_, fun hs => ?_, fun hs => hkeep (.inl hs)⟩
    · rcases Bool.or_eq_true_iff.mp hs with hs | hs
      · exact Bool.or_eq_true_iff.mpr (.inl (hwas.trans (h.started (hservices.symm.trans hs))))
      · exact Bool.or_eq_true_iff.mpr (.inr (Bool.and_eq_true_iff.mpr ⟨hs, hvip (of_decide_eq_true hs)⟩))
    · by_cases ha : (p.advance t (alivePeer p.lastPeer t.nowMs cfg.deadAfterMs)).election.role = .active
      · exact .inl ha
      · exact .inr (hkeep (.inr ⟨hs, fun hd => ha (of_decide_eq_true hd)⟩))

/-- A heartbeat that claims Active is sent by a node that holds the address. -/
theorem Disciplined.announces (h : p.Disciplined) {fromPeer : Bool} {hb : Heartbeat}
    (hs : (p.finish cfg t fromPeer).sent = some hb) (ha : hb.role = .active) :
    (p.finish cfg t fromPeer).vipHeld = true := by
  unfold Process.finish at hs
  dsimp only at hs
  split at hs
  · cases hs
  · cases hs
    exact (@Disciplined.advance t p h (alivePeer p.lastPeer t.nowMs cfg.deadAfterMs)).2 ha

theorem Disciplined.turn (h : p.Disciplined) {x : Input} (hq : (p.turn cfg t k x).process = some q) : q.Disciplined := by
  cases x with
  | ticker => exact h.finish hq
  | datagram buf =>
    unfold Process.turn at hq
    dsimp only at hq
    split at hq
    · next r hr => exact (h.hear hr).finish hq
    · cases hq
      exact h
  | command c =>
    unfold Process.turn at hq
    dsimp only at hq
    split at hq
    · next r hr => exact (h.obey hr).finish hq
    · cases hq
  | terminate => cases hq

theorem Disciplined.turn_announces (h : p.Disciplined) {x : Input} {hb : Heartbeat}
    (hs : (p.turn cfg t k x).sent = some hb) (ha : hb.role = .active) : (p.turn cfg t k x).vipHeld = true := by
  cases x with
  | ticker => exact h.announces hs ha
  | datagram buf =>
    unfold Process.turn at hs ⊢
    dsimp only at hs ⊢
    split at hs
    · next r hr => exact (h.hear hr).announces hs ha
    · cases hs
  | command c =>
    unfold Process.turn at hs ⊢
    dsimp only at hs ⊢
    split at hs
    · next r hr =>
      have hs : (r.finish cfg t false).sent = some hb := hs
      exact (h.obey hr).announces hs ha
    · cases hs
  | terminate => cases hs

end Process

/-- The life of one process: every turn at any moment and with any input, until it ends. -/
def Lives (cfg : HaConfig) (k : Wire) (first : Process) (s : Option Process) : Prop :=
  Reach (some first) (fun _ _ => True) (fun s (x : Moment × Input) => s.bind fun p => (p.turn cfg x.1 k x.2).process) s

/-- Whatever is heard, asked and failing: a process whose services were started is Active
with the address or hands over, and no heartbeat claims Active without the address. -/
theorem disciplined_of_lives (cfg : HaConfig) (k : Wire) (nowMs bootId : UInt64) (persistOverride : Option Bool)
    {p : Process} (h : Lives cfg k (.start cfg nowMs bootId persistOverride) (some p)) :
    ((p.services = true → p.election.role = .active ∧ p.vipHeld = true ∨
        p.election.role = .standby ∧ p.election.handover.isSome = true) ∧
      (p.election.role = .active → p.vipHeld = true) ∧ (p.applyPending = true → p.election.handover.isSome = true)) ∧
      ∀ (t : Moment) (x : Input) (hb : Heartbeat), (p.turn cfg t k x).sent = some hb → hb.role = .active →
        (p.turn cfg t k x).vipHeld = true := by
  have hinv : ∀ q, some p = some q → q.Disciplined := by
    refine h.invariant (P := fun s => ∀ q, s = some q → q.Disciplined) ?_ ?_
    · intro q hq
      cases hq
      exact Process.disciplined_start nowMs bootId persistOverride
    · intro s x hs _ q hq
      cases s with
      | none => cases hq
      | some r => exact (hs r rfl).turn hq
  have hp := hinv p rfl
  refine ⟨⟨fun hs => ?_, hp.vip, hp.pending⟩, fun t x hb hs ha => hp.turn_announces hs ha⟩
  rcases hp.serving (hp.started hs) with ha | hh
  · exact .inl ⟨ha, hp.vip ha⟩
  · exact .inr ⟨hp.wellFormed.handover hh, hh⟩

/-! ## The pair and what lies between -/

/-- The processes of the two nodes, and every heartbeat a node has sent. -/
structure World where
  process : Side → Option Process
  said : Side → List Heartbeat

inductive Event
  | boot (s : Side) (nowMs bootId : UInt64) (persistOverride : Option Bool)
  | turn (s : Side) (t : Moment) (x : Input)

namespace World

variable (cfg : Side → HaConfig) (k : Wire)

def start : World := { process := fun _ => none, said := fun _ => [] }

def next (w : World) : Event → World
  | .boot s nowMs bootId persistOverride =>
    { w with process := Function.update w.process s (some (.start (cfg s) nowMs bootId persistOverride)) }
  | .turn s t x =>
    match w.process s with
    | none => w
    | some p =>
      let r := p.turn (cfg s) t k x
      { process := Function.update w.process s r.process
        said := Function.update w.said s (r.sent.toList ++ w.said s) }

/-- A datagram whose tag verifies carries what a node has sent: nobody else has the secret. -/
def Genuine (w : World) (buf : Bytes) : Prop :=
  buf.drop (buf.length - tagLen) = k.hmac (buf.take (buf.length - tagLen)) →
    ∃ hb ∈ w.said .a ++ w.said .b, buf.take (buf.length - tagLen) = k.toJson hb

/-- A node boots when it is down; whatever arrives is genuine or does not verify, and is
noted at most `lag` after the guard has judged it. -/
def Allowed (lag : ℕ) (w : World) : Event → Prop
  | .boot s _ _ _ => w.process s = none
  | .turn _ t (.datagram buf) => w.Genuine k buf ∧ t.atMs.toNat ≤ t.heardMs.toNat + lag
  | .turn _ _ _ => True

instance (w : World) (buf : Bytes) : Decidable (w.Genuine k buf) :=
  inferInstanceAs (Decidable (buf.drop (buf.length - tagLen) = k.hmac (buf.take (buf.length - tagLen)) →
    ∃ hb ∈ w.said .a ++ w.said .b, buf.take (buf.length - tagLen) = k.toJson hb))

instance (lag : ℕ) (w : World) (e : Event) : Decidable (w.Allowed k lag e) :=
  match e with
  | .boot s _ _ _ => inferInstanceAs (Decidable (w.process s = none))
  | .turn _ t (.datagram buf) => inferInstanceAs (Decidable (w.Genuine k buf ∧ t.atMs.toNat ≤ t.heardMs.toNat + lag))
  | .turn _ _ .ticker => inferInstanceAs (Decidable True)
  | .turn _ _ (.command _) => inferInstanceAs (Decidable True)
  | .turn _ _ .terminate => inferInstanceAs (Decidable True)

/-- The JSON of what was sent reads back. -/
def ReadsBack (w : World) : Prop := ∀ s, ∀ hb ∈ w.said s, k.fromJson (k.toJson hb) = some hb

/-- What a node knows of its peer, the peer has said. -/
structure Heard (lag : ℕ) (w : World) : Prop where
  named : ∀ s, ∀ hb ∈ w.said s, hb.node = (cfg s).nodeName
  heard : ∀ s p lp, w.process s = some p → p.lastPeer = some lp →
    lp.hb ∈ w.said s.peer ∧ lp.atMs.toNat ≤ lp.hb.tsMs.toNat + maxClockSkewMs.toNat + lag

end World

variable {cfg : Side → HaConfig} {k : Wire} {lag : ℕ} {w : World}

/-- What the guard accepts is within the skew. -/
theorem accept_skew {g g' : ReplayGuard} {hb : Ha.Heartbeat} {nowMs : UInt64}
    (h : g.accept hb nowMs = (true, g')) : absDiff nowMs hb.tsMs ≤ maxClockSkewMs := by
  by_contra hlt
  rw [ReplayGuard.accept, if_pos (UInt64.not_le.mp hlt)] at h
  cases h

theorem toNat_le_of_absDiff {a b d : UInt64} (h : absDiff a b ≤ d) : a.toNat ≤ b.toNat + d.toNat := by
  have h := UInt64.le_iff_toNat_le.mp h
  unfold absDiff at h
  split at h
  · next hlt =>
    have hlt := UInt64.lt_iff_toNat_lt.mp hlt
    omega
  · next hge =>
    have hge : b.toNat ≤ a.toNat := UInt64.le_iff_toNat_le.mp (UInt64.not_lt.mp hge)
    rw [UInt64.toNat_sub_of_le _ _ (UInt64.le_iff_toNat_le.mpr hge)] at h
    omega

/-- What decodes has a tag that verifies. -/
theorem Wire.decode_eq_some {buf : Bytes} {hb : Heartbeat} (h : k.decode buf = some hb) :
    buf.drop (buf.length - tagLen) = k.hmac (buf.take (buf.length - tagLen)) ∧
      k.fromJson (buf.take (buf.length - tagLen)) = some hb := by
  unfold Wire.decode at h
  split at h
  · cases h
  · dsimp only at h
    split at h
    · next htag => exact ⟨htag, h⟩
    · cases h

/-- Everything a node sends carries its name. -/
theorem Process.node_of_sent {c : HaConfig} {t : Moment} {p : Process} {x : Input} {hb : Heartbeat}
    (h : (p.turn c t k x).sent = some hb) : hb.node = c.nodeName := by
  have hfinish : ∀ (q : Process) (fromPeer : Bool), (q.finish c t fromPeer).sent = some hb → hb.node = c.nodeName := by
    intro q fromPeer hq
    unfold Process.finish at hq
    dsimp only at hq
    split at hq
    · cases hq
    · cases hq
      rfl
  unfold Process.turn at h
  cases x with
  | ticker => exact hfinish p false h
  | datagram buf =>
    dsimp only at h
    split at h
    · next q _ => exact hfinish q true h
    · cases h
  | command cmd =>
    dsimp only at h
    split at h
    · next q _ => exact hfinish q false h
    · cases h
  | terminate => cases h

/-- What a turn may have heard last: what it found, or a heartbeat that passed the guard. -/
inductive Process.Notes (c : HaConfig) (t : Moment) (k : Wire) (p : Process) : Input → LastPeer → Prop
  | kept {x lp} (h : p.lastPeer = some lp) : Notes c t k p x lp
  | fresh {buf hb guard} (decoded : k.decode buf = some hb) (named : hb.node ≠ c.nodeName)
      (accepted : p.guard.accept hb.numbered t.heardMs = (true, guard)) : Notes c t k p (.datagram buf) { hb, atMs := t.atMs }

namespace Process

variable {c : HaConfig} {t : Moment} {p q : Process} {x : Input}

theorem lastPeer_finish {fromPeer : Bool} (h : (p.finish c t fromPeer).process = some q) : q.lastPeer = p.lastPeer := by
  unfold Process.finish at h
  dsimp only at h
  split at h
  · cases h
  · cases h
    exact (advance_flags _).2.2

/-- A command leaves what was heard last. -/
theorem lastPeer_obey {peer : Option PeerView} {cmd : HaCommand} (h : p.obey c t peer cmd = some q) :
    q.lastPeer = p.lastPeer := by
  cases cmd with
  | makeActive => cases h; rfl
  | makeStandby => cases h; rfl
  | setPersist value => cases h; rfl
  | apply force =>
    unfold Process.obey at h
    dsimp only at h
    split at h
    · split at h
      · cases h; rfl
      · split at h
        · cases h
        · cases h; rfl
    · cases h

theorem Notes.hear {buf : Bytes} {lp : LastPeer} (h : p.hear c t k buf = some q) (hlp : q.lastPeer = some lp) :
    p.Notes c t k (.datagram buf) lp := by
  obtain ⟨hb, guard, hdecode, hname, haccept, rfl⟩ := hear_cases h
  cases hlp
  exact .fresh hdecode hname haccept

theorem notes_turn {lp : LastPeer} (h : (p.turn c t k x).process = some q) (hlp : q.lastPeer = some lp) :
    p.Notes c t k x lp := by
  cases x with
  | ticker => exact .kept ((lastPeer_finish h).symm.trans hlp)
  | datagram buf =>
    unfold Process.turn at h
    dsimp only at h
    split at h
    · next r hr => exact .hear hr ((lastPeer_finish h).symm.trans hlp)
    · cases h
      exact .kept hlp
  | command cmd =>
    unfold Process.turn at h
    dsimp only at h
    split at h
    · next r hr =>
      have h : (r.finish c t false).process = some q := h
      exact .kept ((lastPeer_obey hr).symm.trans ((lastPeer_finish h).symm.trans hlp))
    · cases h
  | terminate => cases h

/-- The rest of a turn takes the peer for what was heard last. -/
theorem peers_finish {fromPeer : Bool} {nowMs : UInt64} {v : Option PeerView}
    (h : (nowMs, v) ∈ (p.finish c t fromPeer).peers) : v = alivePeer p.lastPeer nowMs c.deadAfterMs := by
  cases List.mem_singleton.mp h
  rfl

/-- Every turn takes the peer for what it has heard last, a turn that ends the process too. -/
theorem peers_turn {nowMs : UInt64} {v : Option PeerView} (h : (nowMs, v) ∈ (p.turn c t k x).peers) :
    v = alivePeer p.lastPeer nowMs c.deadAfterMs ∨
      ∃ lp, p.Notes c t k x lp ∧ v = alivePeer (some lp) nowMs c.deadAfterMs := by
  cases x with
  | ticker => exact .inl (peers_finish h)
  | datagram buf =>
    unfold Process.turn at h
    dsimp only at h
    split at h
    · next r hr =>
      obtain ⟨hb, guard, hdecode, hname, haccept, rfl⟩ := hear_cases hr
      exact .inr ⟨_, .fresh hdecode hname haccept, peers_finish h⟩
    · cases h
  | command cmd =>
    unfold Process.turn at h
    dsimp only at h
    split at h
    · next r hr =>
      rcases List.mem_cons.mp h with hfirst | hrest
      · cases hfirst
        exact .inl rfl
      · refine .inl ?_
        rw [← lastPeer_obey hr]
        exact peers_finish hrest
    · cases List.mem_singleton.mp h
      exact .inl rfl
  | terminate => cases h

end Process

/-- Only a heartbeat that was noted counts as alive. -/
theorem Process.notes_of_peers {c : HaConfig} {t : Moment} {p : Process} {x : Input} {nowMs : UInt64} {v : PeerView}
    (h : (nowMs, some v) ∈ (p.turn c t k x).peers) :
    ∃ lp, p.Notes c t k x lp ∧ lp.hb.view = v ∧ satSub nowMs lp.atMs < c.deadAfterMs := by
  have hview : ∃ last : Option LastPeer, (∀ lp, last = some lp → p.Notes c t k x lp) ∧
      alivePeer last nowMs c.deadAfterMs = some v := by
    rcases peers_turn h with hkept | ⟨lp, hnotes, hv⟩
    · exact ⟨p.lastPeer, fun lp hlp => .kept hlp, hkept.symm⟩
    · exact ⟨some lp, fun lp' hlp => Option.some.inj hlp ▸ hnotes, hv.symm⟩
  obtain ⟨last, hnotes, hv⟩ := hview
  unfold alivePeer at hv
  obtain ⟨lp, hlp, hv⟩ := Option.map_eq_some_iff.mp hv
  obtain ⟨hlp, halive⟩ := Option.filter_eq_some_iff.mp hlp
  exact ⟨lp, hnotes lp hlp, hv, of_decide_eq_true halive⟩

namespace World

theorem heard_start : start.Heard cfg lag where
  named s hb h := absurd h List.not_mem_nil
  heard s p lp h := by cases h

/-- A booted process has heard nobody. -/
theorem Heard.boot (h : w.Heard cfg lag) (s : Side) (nowMs bootId : UInt64) (persistOverride : Option Bool) :
    (w.next cfg k (.boot s nowMs bootId persistOverride)).Heard cfg lag where
  named := h.named
  heard s' p lp hp hlp := by
    by_cases hs : s' = s
    · subst hs
      have hboot : some (Process.start (cfg s') nowMs bootId persistOverride) = some p :=
        (Function.update_self s' _ w.process).symm.trans hp
      cases hboot
      cases hlp
    · exact h.heard s' p lp ((Function.update_of_ne hs _ w.process).symm.trans hp) hlp

/-- What was said stays said. -/
theorem mem_said_next {e : Event} {s : Side} {hb : Heartbeat} (h : hb ∈ w.said s) : hb ∈ (w.next cfg k e).said s := by
  cases e with
  | boot s' nowMs bootId persistOverride => exact h
  | turn s' t x =>
    unfold World.next
    dsimp only
    split
    · exact h
    · by_cases hs : s = s'
      · subst hs
        dsimp only
        rw [Function.update_self]
        exact List.mem_append_right _ h
      · dsimp only
        rw [Function.update_of_ne hs]
        exact h

/-- What an allowed turn notes, the peer has said, and not much before. -/
theorem Heard.notes (h : w.Heard cfg lag) (hjson : w.ReadsBack k) {s : Side} {t : Moment} {x : Input}
    (hok : w.Allowed k lag (.turn s t x)) {p : Process} (hp : w.process s = some p) {lp : LastPeer}
    (hlp : p.Notes (cfg s) t k x lp) :
    lp.hb ∈ w.said s.peer ∧ lp.atMs.toNat ≤ lp.hb.tsMs.toNat + maxClockSkewMs.toNat + lag := by
  cases hlp with
  | kept hlp => exact h.heard s p lp hp hlp
  | @fresh buf hb guard hdecode hname haccept =>
    obtain ⟨hgenuine, hlag⟩ := hok
    obtain ⟨htag, hbody⟩ := Wire.decode_eq_some hdecode
    obtain ⟨said, hsaid, heq⟩ := hgenuine htag
    obtain ⟨sender, hm⟩ : ∃ sender, said ∈ w.said sender := (List.mem_append.mp hsaid).elim (⟨.a, ·⟩) (⟨.b, ·⟩)
    -- The text under the tag is one a node sent, and its sender is not this node.
    obtain rfl := Option.some.inj ((heq ▸ hjson sender said hm).symm.trans hbody)
    have hpeer : sender = s.peer := by
      rcases Side.eq_or_eq_peer s sender with hself | hpeer
      · exact absurd (hself ▸ h.named sender _ hm) hname
      · exact hpeer
    refine ⟨hpeer ▸ hm, ?_⟩
    have hskew := toNat_le_of_absDiff (accept_skew haccept)
    exact hlag.trans (Nat.add_le_add_right hskew lag)

/-- The peer is believed only what it has said. -/
theorem Heard.turn (h : w.Heard cfg lag) (hjson : w.ReadsBack k) {s : Side} {t : Moment} {x : Input}
    (hok : w.Allowed k lag (.turn s t x)) : (w.next cfg k (.turn s t x)).Heard cfg lag := by
  have hgrows : ∀ s' hb, hb ∈ w.said s' → hb ∈ (w.next cfg k (.turn s t x)).said s' := fun _ _ hm => mem_said_next hm
  unfold World.next at hgrows ⊢
  dsimp only at hgrows ⊢
  cases hp : w.process s with
  | none => exact h
  | some p =>
    rw [hp] at hgrows
    dsimp only at hgrows ⊢
    refine ⟨fun s' hb hm => ?_, fun s' q lp hq hlp => ?_⟩
    · by_cases hs : s' = s
      · subst hs
        have hm : hb ∈ Function.update w.said s' ((p.turn (cfg s') t k x).sent.toList ++ w.said s') s' := hm
        rw [Function.update_self] at hm
        rcases List.mem_append.mp hm with hm | hm
        · exact Process.node_of_sent (Option.mem_toList.mp hm)
        · exact h.named s' hb hm
      · have hm : hb ∈ Function.update w.said s ((p.turn (cfg s) t k x).sent.toList ++ w.said s) s' := hm
        rw [Function.update_of_ne hs] at hm
        exact h.named s' hb hm
    · by_cases hs : s' = s
      · subst hs
        have hq : (p.turn (cfg s') t k x).process = some q := (Function.update_self s' _ w.process).symm.trans hq
        obtain ⟨hm, hat⟩ := h.notes hjson hok hp (Process.notes_turn hq hlp)
        exact ⟨hgrows _ _ hm, hat⟩
      · have hq : w.process s' = some q := (Function.update_of_ne hs _ w.process).symm.trans hq
        obtain ⟨hm, hat⟩ := h.heard s' q lp hq hlp
        exact ⟨hgrows _ _ hm, hat⟩

theorem Heard.next (h : w.Heard cfg lag) (hjson : w.ReadsBack k) {e : Event} (hok : w.Allowed k lag e) :
    (w.next cfg k e).Heard cfg lag := by
  cases e with
  | boot s nowMs bootId persistOverride => exact h.boot s nowMs bootId persistOverride
  | turn s t x => exact h.turn hjson hok

theorem heardTick_of_reach (h : Reach start (Allowed k lag) (next cfg k) w) (hjson : w.ReadsBack k) :
    w.Heard cfg lag := by
  refine h.invariant (P := fun w => w.ReadsBack k → w.Heard cfg lag) (fun _ => heard_start) (fun w e hw hok hread => ?_) hjson
  -- What reads back after a step did so before it.
  have hbefore : w.ReadsBack k := fun s hb hm => hread s hb (mem_said_next hm)
  exact (hw hbefore).next hbefore hok

end World

/-- A peer that a turn takes for alive has said so, not long ago. -/
theorem World.Heard.peers (h : w.Heard cfg lag) (hjson : w.ReadsBack k) {s : Side} {t : Moment} {x : Input}
    (hok : w.Allowed k lag (.turn s t x)) {p : Process} (hp : w.process s = some p) {nowMs : UInt64} {v : PeerView}
    (hv : (nowMs, some v) ∈ (p.turn (cfg s) t k x).peers) :
    ∃ hb ∈ w.said s.peer, hb.view = v ∧
      nowMs.toNat < hb.tsMs.toNat + maxClockSkewMs.toNat + lag + (cfg s).deadAfterMs.toNat := by
  obtain ⟨lp, hnotes, hview, halive⟩ := Process.notes_of_peers hv
  obtain ⟨hm, hat⟩ := h.notes hjson hok hp hnotes
  refine ⟨lp.hb, hm, hview, ?_⟩
  have halive := UInt64.lt_iff_toNat_lt.mp halive
  unfold satSub at halive
  split at halive
  · next hle =>
    rw [UInt64.toNat_sub_of_le _ _ hle] at halive
    omega
  · next hgt =>
    have hgt := UInt64.lt_iff_toNat_lt.mp (UInt64.not_le.mp hgt)
    omega

/-- With nobody alive, a node with its gateway and the address takes over. -/
theorem Process.takes_over {t : Moment} {p : Process} (hgateway : t.gatewayOk = true)
    (hfault : p.vipFaultUntilMs ≤ t.nowMs) (hvip : p.vipHeld = false → t.vipUp = true)
    (hinit : p.election.role = .init → p.election.initUntilMs ≤ t.nowMs) :
    (p.advance t none).election.role = .active ∧ (p.advance t none).vipHeld = true := by
  have hwait : ¬ (((p.election.expire t.nowMs).recover t.nowMs).role = .init ∧
      t.nowMs < ((p.election.expire t.nowMs).recover t.nowMs).initUntilMs) := by
    have hexpire : (p.election.expire t.nowMs).role = p.election.role ∧
        (p.election.expire t.nowMs).initUntilMs = p.election.initUntilMs := by
      unfold Election.expire
      split <;> exact ⟨rfl, rfl⟩
    unfold Election.recover
    split
    · exact fun hc => absurd hc.2 (UInt64.not_lt.mpr (UInt64.le_refl _))
    · rintro ⟨hr, hlt⟩
      rw [hexpire.2] at hlt
      exact absurd hlt (UInt64.not_lt.mpr (hinit (hexpire.1 ▸ hr)))
  have htick : ∃ e, p.election.tick t.nowMs none true = some e ∧ e.role = .active := by
    refine ⟨Election.setRole { (p.election.expire t.nowMs).recover t.nowMs with handover := none } .active, ?_, rfl⟩
    unfold Election.tick
    dsimp only
    rw [if_neg (by decide), if_neg fun hc => hwait ⟨hc.1, hc.2.1⟩]
  obtain ⟨e, he, hrole⟩ := htick
  unfold Process.advance
  dsimp only
  rw [hgateway, decide_eq_true hfault, Bool.and_self, he, Option.getD_some, decide_eq_true hrole]
  by_cases hheld : true = p.vipHeld
  · rw [if_pos hheld]
    exact ⟨hrole, hheld.symm⟩
  · rw [if_neg hheld, if_pos rfl, if_pos (hvip (Bool.eq_false_iff.mpr fun h => hheld h.symm))]
    exact ⟨hrole, rfl⟩

/-- A peer that has fallen silent is replaced, whatever of it is sent again: once its last
heartbeat is as old as a heartbeat can be, the next tick of a node with its gateway, which
waits out no failure to add the address and holds it or can add it, announces it as Active
with the address. -/
theorem failover_of_reach (cfg : Side → HaConfig) (k : Wire) (lag : ℕ) {w : World}
    (h : Reach World.start (World.Allowed k lag) (World.next cfg k) w) (hjson : w.ReadsBack k) (s : Side) (p : Process)
    (hp : w.process s = some p) (t : Moment) (hsilent : ∀ hb ∈ w.said s.peer,
      hb.tsMs.toNat + maxClockSkewMs.toNat + lag + (cfg s).deadAfterMs.toNat ≤ t.nowMs.toNat)
    (hgateway : t.gatewayOk = true) (hfault : p.vipFaultUntilMs ≤ t.nowMs)
    (hvip : p.vipHeld = false → t.vipUp = true) (hinit : p.election.role = .init → p.election.initUntilMs ≤ t.nowMs) :
    (p.turn (cfg s) t k .ticker).vipHeld = true ∧
      ∃ hb, (p.turn (cfg s) t k .ticker).sent = some hb ∧ hb.role = .active ∧ hb.tsMs = t.nowMs := by
  have hdead : alivePeer p.lastPeer t.nowMs (cfg s).deadAfterMs = none := by
    by_contra hne
    obtain ⟨v, hv⟩ := Option.ne_none_iff_exists'.mp hne
    have hpeers : (t.nowMs, some v) ∈ (p.turn (cfg s) t k .ticker).peers := by
      rw [← hv]
      exact List.mem_singleton_self _
    have hok : w.Allowed k lag (.turn s t .ticker) := trivial
    obtain ⟨hb, hm, -, hlt⟩ := (World.heardTick_of_reach h hjson).peers hjson hok hp hpeers
    have hold := hsilent hb hm
    omega
  obtain ⟨hrole, hheld⟩ := Process.takes_over hgateway hfault hvip hinit
  unfold Process.turn Process.finish
  dsimp only
  rw [hdead]
  exact ⟨hheld, _, rfl, hrole, rfl⟩

/-! A node takes over when nobody answers; the other hears it, hears it again, and takes over
when it has been silent for long enough. -/

def weigh : Side → HaConfig
  | .a => { nodeName := "a", weight := 100, persist := false, deadAfterMs := 2000, configHash := 7, configSections := [] }
  | .b => { nodeName := "b", weight := 50, persist := false, deadAfterMs := 2000, configHash := 7, configSections := [] }

/-- What node a announces when it takes over. -/
def aActive : Heartbeat :=
  { node := "a", bootId := 1, seq := 1, tsMs := 3000, role := .active, weight := 100, persist := false, hold := false,
    handoverTo := none, handoverManual := false, takeoverRequest := false, configHash := 7, synced := true,
    configSections := none }

/-- What node b answers. -/
def bStandby : Heartbeat :=
  { node := "b", bootId := 2, seq := 1, tsMs := 3100, role := .standby, weight := 50, persist := false, hold := false,
    handoverTo := none, handoverManual := false, takeoverRequest := false, configHash := 7, synced := true,
    configSections := none }

/-- Stands for the keyed hash and for JSON: number and time tell the two heartbeats apart. -/
def plainWire : Wire where
  hmac body := (body ++ List.replicate 32 0).take 32
  toJson hb := le64 hb.bootId ++ le64 hb.seq ++ le64 hb.tsMs
  fromJson bs :=
    if bs = le64 1 ++ le64 1 ++ le64 3000 then some aActive
    else if bs = le64 2 ++ le64 1 ++ le64 3100 then some bStandby
    else none

def Moment.at (nowMs : UInt64) : Moment :=
  { heardMs := nowMs, atMs := nowMs, nowMs, gatewayOk := true, vipUp := true, vipDown := true, synced := true }

def silentRun : List Event :=
  [.boot .a 0 1 none, .boot .b 0 2 none, .turn .a (.at 3000) .ticker,
    .turn .b (.at 3100) (.datagram (plainWire.encode aActive)),
    .turn .b (.at 3200) (.datagram (plainWire.encode aActive))]

def silentPair : World := silentRun.foldl (World.next weigh plainWire) World.start

/-- Node b as the run leaves it. -/
def waiting : Process := (silentPair.process .b).getD (.start (weigh .b) 0 2 none)

theorem silentPair_reach : Reach World.start (World.Allowed plainWire 0) (World.next weigh plainWire) silentPair := by
  unfold silentPair
  exact Reach.of_list silentRun .init (by decide +kernel)

theorem silentPair_process : silentPair.process .b = some waiting :=
  (Option.getD_of_ne_none (by decide +kernel) (.start (weigh .b) 0 2 none)).symm

theorem silentPair_reads : silentPair.ReadsBack plainWire := by
  have ha : silentPair.said .a = [aActive] := by decide +kernel
  have hb : silentPair.said .b = [bStandby] := by decide +kernel
  intro s hb' hm
  cases s with
  | a =>
    rw [ha, List.mem_singleton] at hm
    rw [hm]
    decide +kernel
  | b =>
    rw [hb, List.mem_singleton] at hm
    rw [hm]
    decide +kernel

theorem failover_after_replay :
    (waiting.turn (weigh .b) (.at 36000) plainWire .ticker).vipHeld = true ∧
      ∃ hb, (waiting.turn (weigh .b) (.at 36000) plainWire .ticker).sent = some hb ∧ hb.role = .active ∧
        hb.tsMs = 36000 := by
  have hsilent : ∀ hb ∈ silentPair.said .a, hb.tsMs.toNat + maxClockSkewMs.toNat + 0 + (weigh .b).deadAfterMs.toNat ≤
      (Moment.at 36000).nowMs.toNat := by
    have ha : silentPair.said .a = [aActive] := by decide +kernel
    rw [ha]
    intro hb hm
    rw [List.mem_singleton.mp hm]
    decide
  exact failover_of_reach weigh plainWire 0 silentPair_reach silentPair_reads .b waiting silentPair_process (.at 36000) hsilent
    rfl (by decide +kernel) (fun _ => rfl) (by decide +kernel)

/-- Node a takes over, hears node b and is told to make way for it. -/
def handingRun : List (Moment × Input) :=
  [(.at 3000, .ticker), (.at 3150, .datagram (plainWire.encode bStandby)), (.at 3200, .command .makeStandby)]

def handing : Process :=
  (handingRun.foldl (fun s x => s.bind fun p => (p.turn (weigh .a) x.1 plainWire x.2).process)
    (some (.start (weigh .a) 0 1 none))).getD (.start (weigh .a) 0 1 none)

theorem disciplined_handing :
    (handing.services = true ∧ handing.election.role = .standby ∧ handing.vipHeld = false) ∧
      handing.election.handover.isSome = true := by
  have hlives : Lives (weigh .a) plainWire (.start (weigh .a) 0 1 none) (some handing) := by
    have hrun : Reach (some (Process.start (weigh .a) 0 1 none)) (fun _ _ => True)
        (fun s (x : Moment × Input) => s.bind fun p => (p.turn (weigh .a) x.1 plainWire x.2).process)
        (handingRun.foldl (fun s x => s.bind fun p => (p.turn (weigh .a) x.1 plainWire x.2).process)
          (some (.start (weigh .a) 0 1 none))) := Reach.of_list handingRun .init (by decide +kernel)
    unfold Lives handing
    rw [Option.getD_of_ne_none (by decide +kernel)]
    exact hrun
  have hserving : handing.services = true ∧ handing.election.role = .standby ∧ handing.vipHeld = false := by
    decide +kernel
  rcases (disciplined_of_lives (weigh .a) plainWire 0 1 none hlives).1.1 hserving.1 with ⟨hactive, -⟩ | ⟨-, hhand⟩
  · exact absurd (hserving.2.1.symm.trans hactive) (by decide)
  · exact ⟨hserving, hhand⟩

end BrewServer.Ha.Runtime
