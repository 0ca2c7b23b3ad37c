import BrewServer.CallMemory
import BrewServer.Silence

/-!
# Late copies of a turn

Over a ring of servers a copy of a turn's `GROUP_TX` may arrive once the turn is
over. It is known by the connection its turn came in over, as long as that is
remembered: the turn is noted when it is accepted and when its call is ended, not
when it loses its call to another talker or to a call of a higher priority.
-/

namespace BrewServer

open Protocol Fedroute Router Sip

/-- A talker's turn in a group call, and the connection it came in over. -/
structure GroupTurn where
  id : Uuid
  src : UInt32
  link : ClientId
  /-- When it was last accepted or ended. -/
  noted : Nat
  deriving DecidableEq

namespace GroupTurn

/-- It is still the turn of the call under its uuid. -/
def isLive (s : Inner) (t : GroupTurn) : Bool :=
  (s.calls[t.id]?).any fun call => call.kind = .group && call.sourceIssi == t.src

/-- Whether `ev` is the end of the call by its talker or by the sweep. -/
def endedBy (s : Inner) (t : GroupTurn) : Event → Bool
  | .packet env source raw =>
    match arriving env s source raw with
    | some (_, cc) =>
      cc.identifier == t.id && source == t.link && [callGroupIdle, callRelease, callSetupReject].contains cc.callState
    | none => false
  | .sweep _ => true
  | _ => false

/-- A connection that counts as the turn's own: its link, or no peer at all, which is
never taken for a copy. -/
def Mine (s : Inner) (t : GroupTurn) (c : ClientId) : Prop := c = t.link ∨ s.isPeer c = false

/-- The turn is remembered, and a call that bears its uuid and its ISSI is its own. -/
structure Held (s : Inner) (t : GroupTurn) : Prop where
  entry : ∃ (link : ClientId) (seen : Nat), s.recentCalls[(t.id, t.src)]? = some (link, seen) ∧ t.noted ≤ seen ∧
    t.Mine s link
  call : ∀ call : ActiveCall, s.calls[t.id]? = some call → call.sourceIssi = t.src → t.Mine s call.owner

end GroupTurn

/-- The turn an event opens. -/
def openedTurn (cfg : Config) (s : Inner) : Event → Option GroupTurn
  | .packet env source raw =>
    (groupTxOf env s source raw).bind fun (t, id, gt) =>
      if acceptsGroupTx cfg env t source id gt then some { id, src := gt.source, link := source, noted := env.now }
      else none
  | _ => none

/-- The time of an event, that of the event before where it has none. -/
def Event.time (clock : Nat) : Event → Nat
  | .packet env _ _ | .sweep env | .smsDeliver env _ _ _ _ _ | .sipPrivate env _ _ _ _ _ | .sipGroup env _ _ _ _ _ =>
    env.now
  | _ => clock

/-- A server, the turns of its group calls, and the turns that are over though their
link is up, each with the time it was over. -/
structure Recall where
  app : AppState
  live : FinMap Uuid GroupTurn := ∅
  retired : List (GroupTurn × Nat) := []
  clock : Nat := 0

namespace Recall

/-- How a turn is remembered that `ev` takes off its call. -/
def retire (w : Recall) (ev : Event) (t : GroupTurn) : GroupTurn × Nat :=
  ({ t with noted := if t.endedBy w.app.inner ev then ev.time w.clock else t.noted }, ev.time w.clock)

def next (cfg : Config) (w : Recall) (ev : Event) : Recall :=
  let app := w.app.next cfg ev
  let staysUp (t : GroupTurn) : Bool := match ev with
    | .disconnect id => t.link != id
    | _ => true
  let opened := match openedTurn cfg w.app.inner ev with
    | some t => w.live.insert t.id t
    | none => w.live
  { app
    live := opened.filter fun _ t => t.isLive app.inner && staysUp t
    retired := (w.retired ++ (w.live.toList.filter fun e => !e.2.isLive app.inner).map fun e =>
      w.retire ev e.2).filter fun e => staysUp e.1
    clock := ev.time w.clock }

def turns (w : Recall) : List GroupTurn := w.live.toList.map (·.2) ++ w.retired.map (·.1)

end Recall

/-! ## What keeps a turn held -/

namespace GroupTurn

variable {cfg : Config} {env : Env} {s s' : Inner} {source : ClientId} {raw : Bytes} {id : Uuid} {t : GroupTurn}

theorem Mine.mono {c : ClientId} (h : t.Mine s c) (hp : ∀ c : ClientId, s'.isPeer c = true → s.isPeer c = true) :
    t.Mine s' c := by
  refine h.imp_right fun hno => ?_
  cases hc : s'.isPeer c with
  | false => rfl
  | true => exact absurd (hp c hc) (by rw [hno]; decide)

theorem Held.same (h : t.Held s) (hs : SameMemory s s') : t.Held s' := by
  constructor
  · obtain ⟨link, seen, hentry, hseen, hmine⟩ := h.entry
    exact ⟨link, seen, hs.memory ▸ hentry, hseen, hmine.mono hs.peers⟩
  · intro call' hcall' hsrc
    obtain ⟨call, hcall, -, -, howner, hsource, -⟩ := hs.calls t.id call' hcall'
    rw [howner]
    exact (h.call call hcall (hsource ▸ hsrc)).mono hs.peers

theorem Held.purge (h : t.Held s) (hfresh : env.now - t.noted < callDedupWindow) : t.Held (purgeEphemeral env s) := by
  obtain ⟨link, seen, hentry, hseen, hmine⟩ := h.entry
  refine ⟨⟨link, seen, ?_, hseen, hmine⟩, h.call⟩
  have hyoung : env.now - seen < callDedupWindow := by omega
  exact FinMap.getElem?_filter.mpr ⟨hentry, decide_eq_true hyoung⟩

/-- A packet that is no copy comes from a connection of the turn. -/
theorem Held.mine_of_new (h : t.Held s) (hfresh : env.now - t.noted < callDedupWindow)
    (hnew : (s.isPeer source && isDuplicate s t.id t.src source env.now) = false) : t.Mine s source := by
  by_contra hother
  obtain ⟨hlink, hpeer⟩ := not_or.mp hother
  rw [Bool.not_eq_false] at hpeer
  obtain ⟨link, seen, hentry, hseen, hmine⟩ := h.entry
  have hyoung : env.now - seen < callDedupWindow := by omega
  have hne : link ≠ source := by
    rintro rfl
    rcases hmine with heq | hno
    · exact hlink heq
    · rw [hpeer] at hno
      cases hno
  have hdup : isDuplicate s t.id t.src source env.now = true := by
    rw [isDuplicate, hentry]
    refine Bool.or_eq_true_iff.mpr (.inr ?_)
    exact Bool.and_eq_true_iff.mpr ⟨bne_iff_ne.mpr hne, decide_eq_true hyoung⟩
  rw [hpeer, hdup] at hnew
  cases hnew

/-- Something is noted; if it bears the turn's uuid and ISSI, from a connection of its. -/
theorem Held.note (h : t.Held s) {src : UInt32} {link : ClientId} (hle : t.noted ≤ env.now)
    (hmine : id = t.id → src = t.src → t.Mine s link) : t.Held (noteCall s id src link env.now) := by
  refine ⟨?_, h.call⟩
  by_cases hkey : (id, src) = (t.id, t.src)
  · obtain ⟨hid, hsrc⟩ := Prod.mk.inj hkey
    exact ⟨link, env.now, FinMap.getElem?_insert.trans (if_pos hkey), hle, hmine hid hsrc⟩
  · obtain ⟨old, seen, hentry, hseen, hold⟩ := h.entry
    exact ⟨old, seen, (FinMap.getElem?_insert.trans (if_neg hkey)).trans hentry, hseen, hold⟩

/-- A call is opened under `id`. -/
theorem Held.insert (h : t.Held s) {call : ActiveCall} (hc : s'.calls = s.calls.insert id call)
    (hm : s'.recentCalls = s.recentCalls) (hp : ∀ c : ClientId, s'.isPeer c = true → s.isPeer c = true)
    (hmine : id = t.id → call.sourceIssi = t.src → t.Mine s call.owner) : t.Held s' := by
  constructor
  · obtain ⟨link, seen, hentry, hseen, hlink⟩ := h.entry
    exact ⟨link, seen, hm ▸ hentry, hseen, hlink.mono hp⟩
  · intro call' hcall' hsrc
    rw [hc, FinMap.getElem?_insert] at hcall'
    split at hcall'
    · next hid =>
      obtain rfl := Option.some.inj hcall'
      exact (hmine hid hsrc).mono hp
    · exact (h.call call' hcall' hsrc).mono hp

theorem isPeer_insertVirtual {v c : ClientId} (h : s'.clients = s.clients.insert v virtualClientEntry)
    (hc : s'.isPeer c = true) : s.isPeer c = true := by
  rw [Inner.isPeer, h, FinMap.getElem?_insert] at hc
  split at hc
  · cases hc
  · exact hc

theorem sameMemory_freeFloor {gt : GroupTransmission} : SameMemory s (freeFloor cfg s id gt) := by
  refine .of_clients continues_freeFloor ?_ ?_
  · unfold freeFloor
    split <;> rfl
  · unfold freeFloor
    split <;> rfl

theorem new_of_acceptsGroupTx {gt : GroupTransmission} (h : acceptsGroupTx cfg env s source id gt = true) :
    (s.isPeer source && isDuplicate s id gt.source source env.now) = false := by
  rw [acceptsGroupTx, Bool.and_eq_true, Bool.and_eq_true, Bool.not_eq_true', Bool.not_eq_true'] at h
  exact h.1.2

theorem Held.handleGroupTx (h : t.Held s) (hfresh : env.now - t.noted < callDedupWindow) (hle : t.noted ≤ env.now)
    {payload : CallPayload} : t.Held (Router.handleGroupTx cfg env s source id payload raw).inner := by
  rcases handleGroupTx_cases cfg env s source id payload raw with heq | ⟨gt, -, haccepted, heq⟩
  · rw [heq]
    exact h
  · rw [heq]
    have hmine : id = t.id → gt.source = t.src → t.Mine (freeFloor cfg s id gt) source := by
      rintro rfl hsrc
      have hnew := new_of_acceptsGroupTx haccepted
      rw [hsrc] at hnew
      exact (h.mine_of_new hfresh hnew).mono sameMemory_freeFloor.peers
    have hnoted : t.Held (noteCall (freeFloor cfg s id gt) id gt.source source env.now) :=
      (h.same sameMemory_freeFloor).note hle hmine
    exact hnoted.insert rfl rfl (fun _ hp => hp) fun hid hsrc => hmine hid hsrc

theorem Held.handleSdsHeader (h : t.Held s) (hfresh : env.now - t.noted < callDedupWindow) (hle : t.noted ≤ env.now)
    {payload : CallPayload} : t.Held (Router.handleSdsHeader env s source id payload raw).inner := by
  unfold Router.handleSdsHeader
  split
  · next src dest =>
    split
    · exact h
    · next hnew =>
      rw [Bool.not_eq_true] at hnew
      have hnoted : t.Held (noteCall s id src source env.now) := by
        refine h.note hle ?_
        rintro rfl rfl
        exact h.mine_of_new hfresh hnew
      have hopened (tracked : Inner) (lipOnly : Bool) (ht : t.Held tracked) :
          t.Held (openSdsRoute env tracked source id src dest lipOnly raw).1 :=
        ht.same (.of_clients continues_openSdsRoute rfl rfl)
      dsimp only
      split
      · exact hopened _ _ hnoted
      · exact hopened _ _ (hnoted.same sameMemory_reportPosition)
  · exact h

theorem Held.handlePrivateSetup (h : t.Held s) (hfresh : env.now - t.noted < callDedupWindow)
    (hle : t.noted ≤ env.now) (hsip : id = t.id → t.src = 0 → env.sip.placement = none) {payload : CallPayload} :
    t.Held (Router.handlePrivateSetup env s source id payload raw).inner := by
  unfold Router.handlePrivateSetup
  split
  · exact h
  · next req hreq =>
    split
    · exact h
    · next hnew =>
      rw [Bool.not_eq_true] at hnew
      have hmine : id = t.id → req.source = t.src → t.Mine s source := by
        rintro rfl hsrc
        rw [hsrc] at hnew
        exact h.mine_of_new hfresh hnew
      have hnoted : t.Held (noteCall s id req.source source env.now) := h.note hle hmine
      dsimp only
      split
      · exact hnoted
      · split
        · unfold offerToSip
          split
          · exact hnoted
          · exact hnoted
          · next callId v hplaced =>
            refine hnoted.insert rfl rfl (fun c hc => isPeer_insertVirtual rfl hc) fun hid hsrc => ?_
            have hnone := hsip hid hsrc.symm
            rw [hplaced] at hnone
            cases hnone
        · split
          · exact hnoted
          · exact hnoted.insert rfl rfl (fun _ hc => hc) hmine

theorem Held.endCall (h : t.Held s) (hle : t.noted ≤ env.now) : t.Held (Router.endCall env s source id raw).inner := by
  rcases endCall_cases env s source id raw with heq | ⟨call, hcall, -, hinner, -⟩
  · rw [heq]
    exact h
  · rw [hinner]
    have hremoved : SameMemory s (removeCall s id call) := .of_clients continues_removeCall rfl rfl
    refine (h.same hremoved).note hle ?_
    rintro rfl hsrc
    exact (h.call call hcall hsrc).mono hremoved.peers

theorem Held.callControl (h : t.Held s) (hfresh : env.now - t.noted < callDedupWindow) (hle : t.noted ≤ env.now)
    {cc : CallControlMessage} (hsip : cc.identifier = t.id → t.src = 0 → env.sip.placement = none) :
    t.Held (Router.callControl cfg env s source cc raw).inner := by
  unfold Router.callControl
  split
  · exact h.handleGroupTx hfresh hle
  · split
    · exact h.handleSdsHeader hfresh hle
    · split
      · exact h.handlePrivateSetup hfresh hle hsip
      · split
        · unfold routePrivateControl
          split
          · exact h.endCall hle
          · split
            · exact h
            · next call hcall =>
              split
              · exact h
              · exact h.same (sameMemory_touch hcall)
        · split
          · exact h.endCall hle
          · exact h

/-- No setup under the turn's uuid goes out to SIP, which would bear ISSI 0. -/
def OffSip (env : Env) (s : Inner) (source : ClientId) (raw : Bytes) (t : GroupTurn) : Prop :=
  t.src = 0 → ∀ p ∈ arriving env s source raw, p.2.identifier = t.id → env.sip.placement = none

theorem Held.routePacket (h : t.Held s) (hfresh : env.now - t.noted < callDedupWindow) (hle : t.noted ≤ env.now)
    (hsip : t.OffSip env s source raw) : t.Held (Router.routePacket cfg env s source raw).inner := by
  have hpurged : t.Held (purgeEphemeral env s) := h.purge hfresh
  have harrived (v : ConnVersion) : t.Held (promoteClientVersion (purgeEphemeral env s) source v) :=
    hpurged.same sameMemory_promoteClientVersion
  unfold Router.routePacket
  dsimp only
  split
  · exact hpurged.same sameMemory_handle
  · next hfed =>
    split
    · next msg d hparse =>
      cases msg with
      | subscriber msg => exact (harrived d).same sameMemory_handleSubscriber
      | frame f => exact (harrived d).same sameMemory_frame
      | error e => exact harrived d
      | service m => exact harrived d
      | callControl cc =>
        have harrives : arriving env s source raw =
            some (promoteClientVersion (purgeEphemeral env s) source d, cc) := by
          rw [arriving, if_neg hfed, hparse]
        exact (harrived d).callControl hfresh hle fun hid hsrc => hsip hsrc _ harrives hid
    · exact hpurged

end GroupTurn

/-! ## Events -/

/-- What is remembered of a turn does not hang on a connection that comes or goes, but
for its own link. -/
def Event.Leaves (s : Inner) (t : GroupTurn) : Event → Prop
  | .connect id _ _ _ => (∀ e ∈ s.recentCalls[(t.id, t.src)]?, e.1 ≠ id) ∧ ∀ call ∈ s.calls[t.id]?, call.owner ≠ id
  | .packet env source raw => t.OffSip env s source raw
  | .disconnect id => t.link ≠ id → ∀ e ∈ s.recentCalls[(t.id, t.src)]?, e.1 ≠ id
  | _ => True

namespace GroupTurn

variable {cfg : Config} {env : Env} {a : AppState} {s s' : Inner} {ev : Event} {clock : Nat} {t : GroupTurn}

theorem Held.openSession (h : t.Held s) {id : ClientId} {client : Client} {neighbour : Option UInt64} {console : Bool}
    (hentry : ∀ e ∈ s.recentCalls[(t.id, t.src)]?, e.1 ≠ id) (hcall : ∀ call ∈ s.calls[t.id]?, call.owner ≠ id) :
    t.Held (BrewServer.openSession s id client neighbour console).1 := by
  have hsame : (BrewServer.openSession s id client neighbour console).1.recentCalls = s.recentCalls ∧
      (BrewServer.openSession s id client neighbour console).1.calls = s.calls := by
    unfold BrewServer.openSession attachClient
    cases neighbour <;> cases console <;> exact ⟨rfl, rfl⟩
  have hmine {c : ClientId} (hc : t.Mine s c) (hne : c ≠ id) :
      t.Mine (BrewServer.openSession s id client neighbour console).1 c := by
    refine hc.imp_right fun hno => ?_
    rwa [Inner.isPeer, clients_openSession, FinMap.getElem?_insert, if_neg hne.symm]
  constructor
  · obtain ⟨link, seen, he, hseen, hlink⟩ := h.entry
    exact ⟨link, seen, hsame.1 ▸ he, hseen, hmine hlink (hentry _ he)⟩
  · intro call hc hsrc
    rw [hsame.2] at hc
    exact hmine (h.call call hc hsrc) (hcall _ hc)

theorem Held.cleanupClient (h : t.Held s) {id : ClientId} (hentry : ∀ e ∈ s.recentCalls[(t.id, t.src)]?, e.1 ≠ id) :
    t.Held (BrewServer.cleanupClient s id).inner := by
  have hpeers : ∀ c : ClientId, (BrewServer.cleanupClient s id).inner.isPeer c = true → s.isPeer c = true :=
    fun c hc => isPeer_cleanupClient hc
  constructor
  · obtain ⟨link, seen, he, hseen, hlink⟩ := h.entry
    refine ⟨link, seen, ?_, hseen, hlink.mono hpeers⟩
    rw [recentCalls_cleanupClient]
    exact FinMap.getElem?_filter.mpr ⟨he, bne_iff_ne.mpr (hentry _ he)⟩
  · intro call' hcall' hsrc
    obtain ⟨call, hcall, -, -, howner, hsource, -⟩ := continues_cleanupClient.calls t.id call' hcall'
    rw [howner]
    exact (h.call call hcall (hsource ▸ hsrc)).mono hpeers

/-- A call that SIP opens is owned by a client that is new. -/
theorem Held.virtual (h : t.Held s) {v : ClientId} {id : Uuid} {call : ActiveCall} (hv : v ∉ s.clients)
    (hc : s'.calls = s.calls.insert id call) (hm : s'.recentCalls = s.recentCalls)
    (hclients : s'.clients = s.clients.insert v virtualClientEntry) (howner : call.owner = v) : t.Held s' := by
  refine h.insert hc hm (fun c hp => isPeer_insertVirtual hclients hp) fun _ _ => .inr ?_
  rw [howner, Inner.isPeer, Std.ExtTreeMap.getElem?_eq_none hv]
  rfl

theorem Held.sweep (h : t.Held a.inner) (hle : t.noted ≤ env.now) :
    t.Held (runCallDurationSweep cfg env a).1.inner := by
  refine sweep_induct (P := fun r => t.Held r.1.inner) h fun r hr e _ => ?_
  have hend : t.Held (sweepEnd env r.1.inner e.1 e.2).inner := hr.endCall hle
  exact hend.same sameMemory_settle

/-- A turn that is fresh stays held through an event that leaves its link up. -/
theorem Held.next (h : t.Held a.inner) (ha : ev.Allowed a) (hleaves : ev.Leaves a.inner t)
    (hup : ∀ id, ev = .disconnect id → t.link ≠ id) (hle : t.noted ≤ clock) (htime : clock ≤ ev.time clock)
    (hfresh : ev.time clock - t.noted < callDedupWindow) : t.Held (a.next cfg ev).inner := by
  have hrouted (hr : ev.Routed) (h : t.Held (routeEvent cfg a.inner ev).inner) : t.Held (a.next cfg ev).inner := by
    rw [AppState.next, a.run_routed cfg hr]
    exact h.same sameMemory_settle
  have hnow : t.noted ≤ ev.time clock := hle.trans htime
  cases ev with
  | connect id client neighbour console => exact hrouted trivial (h.openSession hleaves.1 hleaves.2)
  | packet env source raw => exact hrouted trivial (h.routePacket hfresh hnow hleaves)
  | disconnect id => exact hrouted trivial (h.cleanupClient (hleaves (hup id rfl)))
  | alarm issi => exact hrouted trivial (h.same sameMemory_emergencyRaised)
  | sweep env =>
    rw [AppState.next, a.run_sweep cfg env]
    exact h.sweep hnow
  | smsDeliver env id src dest lengthBits data => exact hrouted trivial (h.same sameMemory_deliverStored)
  | advertiseBts nowMs key name lat lon online => exact hrouted trivial (h.same (.of_fedOnly fedOnly_advertiseBts))
  | advertiseEmergency nowMs issi dest bts active =>
    exact hrouted trivial (h.same (.of_fedOnly fedOnly_advertiseEmergency))
  | sipPrivate env callId issi v id rtpPort =>
    rw [AppState.next, a.run_sipPrivate]
    unfold sipToBrewPrivate
    split
    · exact h
    · split
      · exact h
      · split
        · exact h
        · exact h.virtual ha.1 rfl rfl rfl rfl
  | sipGroup env callId g v id rtpPort =>
    rw [AppState.next, a.run_sipGroup]
    unfold sipToBrewGroup
    split
    · exact h
    · split
      · exact h
      · exact h.virtual ha.1 rfl rfl rfl rfl
  | sipEnd callId =>
    rw [AppState.next, a.run_sipEnd]
    exact h.same sameMemory_teardown

end GroupTurn

/-! ## Turns that open and turns that end -/

section Turns

variable {cfg : Config} {env : Env} {a : AppState} {s : Inner} {source : ClientId} {raw : Bytes} {ev : Event} {id k : Uuid}
  {t : GroupTurn}

theorem openedTurn_packet (h : openedTurn cfg s ev = some t) :
    ∃ (env : Env) (source : ClientId) (raw : Bytes) (s₁ : Inner) (gt : GroupTransmission),
      ev = .packet env source raw ∧ t = { id := t.id, src := gt.source, link := source, noted := env.now } ∧
        (routePacket cfg env s source raw).inner =
          (installGroupTx cfg env (freeFloor cfg s₁ t.id gt) source t.id gt raw).1 := by
  unfold openedTurn at h
  split at h
  · next env source raw =>
    obtain ⟨⟨s₁, id, gt⟩, hof, hopened⟩ := Option.bind_eq_some_iff.mp h
    dsimp only at hopened
    split at hopened
    · next haccepted =>
      obtain rfl := Option.some.inj hopened
      refine ⟨env, source, raw, s₁, gt, rfl, rfl, ?_⟩
      obtain ⟨⟨s₂, cc⟩, harrives, hcc⟩ := Option.bind_eq_some_iff.mp hof
      dsimp only at hcc
      split at hcc
      · next gt' hpayload =>
        split at hcc
        · next hstate =>
          obtain ⟨rfl, hrest⟩ := Prod.mk.inj (Option.some.inj hcc)
          obtain ⟨rfl, rfl⟩ := Prod.mk.inj hrest
          rw [routePacket_arriving harrives, callControl, if_pos hstate, hpayload]
          exact handleGroupTx_accepted haccepted
        · cases hcc
      · cases hcc
    · cases hopened
  · cases h

/-- A turn is held from its acceptance on, and the call under its uuid is its own. -/
theorem opened_next (h : openedTurn cfg a.inner ev = some t) :
    t.Held (a.next cfg ev).inner ∧ t.noted = ev.time 0 ∧
      ∀ call, (a.next cfg ev).inner.calls[t.id]? = some call → call.owner = t.link := by
  obtain ⟨env, source, raw, s₁, gt, rfl, hturn, hinner⟩ := openedTurn_packet h
  have hr : (Event.packet env source raw).Routed := trivial
  have hsettled : SameMemory (installGroupTx cfg env (freeFloor cfg s₁ t.id gt) source t.id gt raw).1
      (a.next cfg (.packet env source raw)).inner := by
    rw [AppState.next, a.run_routed cfg hr, ← hinner]
    exact sameMemory_settle
  have hcall (call : ActiveCall)
      (hc : (installGroupTx cfg env (freeFloor cfg s₁ t.id gt) source t.id gt raw).1.calls[t.id]? = some call) :
      call.owner = t.link := by
    rw [hturn]
    exact (Option.some.inj ((FinMap.getElem?_insert.trans (if_pos rfl)).symm.trans hc)) ▸ rfl
  have hheld : t.Held (installGroupTx cfg env (freeFloor cfg s₁ t.id gt) source t.id gt raw).1 := by
    refine ⟨⟨t.link, t.noted, ?_, le_refl _, .inl rfl⟩, fun call hc _ => .inl (hcall call hc)⟩
    rw [hturn]
    exact FinMap.getElem?_insert.trans (if_pos rfl)
  refine ⟨hheld.same hsettled, by rw [hturn]; rfl, fun call' hc' => ?_⟩
  obtain ⟨call, hc, -, -, howner, -⟩ := hsettled.calls t.id call' hc'
  rw [howner]
  exact hcall call hc

/-- A call that stays live while no turn opens on it stays with its talker. -/
theorem call_next (ha : ev.Allowed a) (hother : ∀ t ∈ openedTurn cfg a.inner ev, t.id ≠ k) {call call' : ActiveCall}
    (hcall : a.inner.calls[k]? = some call) (hcall' : (a.next cfg ev).inner.calls[k]? = some call')
    (hgroup : call'.kind = .group) : call'.owner = call.owner := by
  have hcontinues {s' : Inner} (h : Continues a.inner s') {call' : ActiveCall} (hcall' : s'.calls[k]? = some call') :
      call'.owner = call.owner := by
    obtain ⟨before, hbefore, -, -, howner, -⟩ := h.calls k call' hcall'
    rw [howner, Option.some.inj (hbefore.symm.trans hcall)]
  have hnew {id : Uuid} (hid : id ∉ a.inner.calls) : id ≠ k := by
    rintro rfl
    exact hid (FinMap.mem_of_getElem? hcall)
  have hrouted (hr : ev.Routed)
      (h : ∀ call'', (routeEvent cfg a.inner ev).inner.calls[k]? = some call'' → call''.kind = .group →
        call''.owner = call.owner) : call'.owner = call.owner := by
    rw [AppState.next, a.run_routed cfg hr] at hcall'
    obtain ⟨call'', hcall'', hkind, -, howner, -⟩ := (continues_settle a _).calls k call' hcall'
    rw [howner]
    exact h call'' hcall'' (hkind.symm.trans hgroup)
  cases ev with
  | connect id client neighbour console =>
    refine hrouted trivial fun call'' hcall'' _ => ?_
    have hcalls : (openSession a.inner id client neighbour console).1.calls = a.inner.calls := by
      unfold openSession attachClient
      cases neighbour <;> cases console <;> rfl
    change (openSession a.inner id client neighbour console).1.calls[k]? = some call'' at hcall''
    rw [hcalls, hcall] at hcall''
    rw [Option.some.inj hcall'']
  | packet env source raw =>
    refine hrouted trivial fun call'' hcall'' hgroup'' => ?_
    have hstep : CallStep cfg env a.inner source raw (routePacket cfg env a.inner source raw).inner :=
      callStep_routePacket
    cases hstep with
    | continues h => exact hcontinues h hcall''
    | @group s₁ cc gt before continues arrives state payload accepted opened =>
      have hturn : openedTurn cfg a.inner (.packet env source raw) =
          some { id := cc.identifier, src := gt.source, link := source, noted := env.now } := by
        have hof : groupTxOf env a.inner source raw = some (s₁, cc.identifier, gt) := by
          rw [groupTxOf, arrives, Option.bind_some]
          simp only [payload, if_pos state]
        rw [openedTurn, hof, Option.bind_some]
        simp only [accepted, if_true]
      have hne : cc.identifier ≠ k := hother _ hturn
      have hfreed : Continues a.inner (freeFloor cfg s₁ cc.identifier gt) := continues.trans continues_freeFloor
      change (routePacket cfg env a.inner source raw).inner.calls[k]? = some call'' at hcall''
      rw [opened] at hcall''
      exact hcontinues hfreed ((FinMap.getElem?_insert.trans (if_neg hne)).symm.trans hcall'')
    | @setup s₁ cc req new before continues arrives state payload accepted opened =>
      change (routePacket cfg env a.inner source raw).inner.calls[k]? = some call'' at hcall''
      rw [opened.calls, FinMap.getElem?_insert] at hcall''
      split at hcall''
      · obtain rfl := Option.some.inj hcall''
        rw [opened.kind] at hgroup''
        cases hgroup''
      · exact hcontinues continues hcall''
  | disconnect id => exact hrouted trivial fun _ h _ => hcontinues continues_cleanupClient h
  | alarm issi => exact hrouted trivial fun _ h _ => hcontinues continues_emergencyRaised h
  | sweep env =>
    rw [AppState.next, a.run_sweep cfg env] at hcall'
    exact hcontinues (continues_sweep cfg env a) hcall'
  | smsDeliver env id src dest lengthBits data => exact hrouted trivial fun _ h _ => hcontinues continues_deliverStored h
  | advertiseBts nowMs key name lat lon online =>
    exact hrouted trivial fun _ h _ => hcontinues fedOnly_advertiseBts.continues h
  | advertiseEmergency nowMs issi dest bts active =>
    exact hrouted trivial fun _ h _ => hcontinues fedOnly_advertiseEmergency.continues h
  | sipPrivate env callId issi v id rtpPort =>
    rw [AppState.next, a.run_sipPrivate] at hcall'
    unfold sipToBrewPrivate at hcall'
    split at hcall'
    · exact hcontinues (.refl _) hcall'
    · split at hcall'
      · exact hcontinues (.refl _) hcall'
      · split at hcall'
        · exact hcontinues (.refl _) hcall'
        · exact hcontinues (.refl _) ((FinMap.getElem?_insert.trans (if_neg (hnew ha.2))).symm.trans hcall')
  | sipGroup env callId g v id rtpPort =>
    rw [AppState.next, a.run_sipGroup] at hcall'
    unfold sipToBrewGroup at hcall'
    split at hcall'
    · exact hcontinues (.refl _) hcall'
    · split at hcall'
      · exact hcontinues (.refl _) hcall'
      · exact hcontinues (.refl _) ((FinMap.getElem?_insert.trans (if_neg (hnew ha.2))).symm.trans hcall')
  | sipEnd callId =>
    rw [AppState.next, a.run_sipEnd] at hcall'
    exact hcontinues (continues_teardown a callId) hcall'

/-- A leg's end takes only its own call. -/
theorem calls_settle {e : Effect} (hk : k ∉ e.ended) : (settle a e).1.inner.calls[k]? = e.inner.calls[k]? := by
  have hone : ∀ (id : Uuid) (b : AppState), id ≠ k →
      (teardownByBrewCall b id).1.inner.calls[k]? = b.inner.calls[k]? := by
    intro id b hne
    unfold teardownByBrewCall
    split
    · rfl
    · next callId leg hfind =>
      have hleg : b.legs[callId]? = some leg := FinMap.mem_toList.mp (List.mem_of_find?_eq_some hfind)
      have hfound := List.find?_some hfind
      have hcall : leg.brewCallId = id := of_decide_eq_true hfound
      unfold teardown
      rw [hleg]
      have herased : (removeLeg b.inner leg).1.calls = b.inner.calls.erase leg.brewCallId := by
        unfold removeLeg
        dsimp only
        split <;> rfl
      change (removeLeg b.inner leg).1.calls[k]? = _
      rw [herased, hcall, FinMap.getElem?_erase, if_neg hne]
  refine settle_induct (P := fun r => r.1.inner.calls[k]? = e.inner.calls[k]?) rfl fun r hr id hid => ?_
  have hne : id ≠ k := fun heq => hk (heq ▸ hid)
  exact (hone id r.1 hne).trans hr

/-- A turn that its talker or the sweep ends is noted at that moment. -/
structure Noted (s : Inner) (t : GroupTurn) (now : Nat) : Prop extends GroupTurn.Held s { t with noted := now } where
  gone : s.calls[t.id]? = none

theorem Noted.same {s' : Inner} {now : Nat} (h : Noted s t now) (hs : SameMemory s s') : Noted s' t now := by
  refine ⟨h.toHeld.same hs, ?_⟩
  cases hc : s'.calls[t.id]? with
  | none => rfl
  | some call' =>
    obtain ⟨call, hcall, -⟩ := hs.calls t.id call' hc
    rw [h.gone] at hcall
    cases hcall

/-- The turn of a live group call. -/
def Talks (s : Inner) (t : GroupTurn) : Prop :=
  ∃ call : ActiveCall, s.calls[t.id]? = some call ∧ call.kind = .group ∧ call.sourceIssi = t.src ∧ call.owner = t.link

theorem Talks.congr {s' : Inner} (h : Talks s t) (hc : s'.calls[t.id]? = s.calls[t.id]?) : Talks s' t := by
  obtain ⟨call, hcall, hrest⟩ := h
  exact ⟨call, hc.trans hcall, hrest⟩

theorem ended_endCall : (endCall env s source id raw).ended = [] ∨ (endCall env s source id raw).ended = [id] := by
  unfold endCall
  split
  · exact .inl rfl
  · split
    · exact .inl rfl
    · split
      · exact .inl rfl
      · exact .inr rfl

/-- The end of a call leaves a turn alone, or notes it. -/
theorem Talks.endCall (h : Talks s t) (source : ClientId) (id : Uuid) (raw : Bytes) :
    Talks (settle a (endCall env s source id raw)).1.inner t ∨
      Noted (settle a (endCall env s source id raw)).1.inner t env.now := by
  rcases endCall_cases env s source id raw with heq | ⟨call', hcall', -, hinner, -⟩
  · rw [heq]
    exact .inl (h.congr (calls_settle List.not_mem_nil))
  · by_cases hid : id = t.id
    · subst hid
      obtain ⟨call, hcall, hgroup, hsrc, howner⟩ := h
      obtain rfl := Option.some.inj (hcall'.symm.trans hcall)
      have hgone : (Router.endCall env s source t.id raw).inner.calls[t.id]? = none := by
        rw [hinner]
        exact FinMap.getElem?_erase.trans (if_pos rfl)
      have hnoted : Noted (Router.endCall env s source t.id raw).inner t env.now := by
        refine ⟨⟨⟨t.link, env.now, ?_, le_refl _, .inl rfl⟩, fun c hc => ?_⟩, hgone⟩
        · rw [hinner, hsrc, howner]
          exact FinMap.getElem?_insert.trans (if_pos rfl)
        · rw [hgone] at hc
          cases hc
      exact .inr (hnoted.same sameMemory_settle)
    · have hother : t.id ∉ (Router.endCall env s source id raw).ended := by
        rcases @ended_endCall env s source raw id with hnone | hone
        · rw [hnone]
          exact List.not_mem_nil
        · rw [hone]
          exact fun hm => hid (List.mem_singleton.mp hm).symm
      refine .inl (h.congr ((calls_settle hother).trans ?_))
      rw [hinner]
      exact FinMap.getElem?_erase.trans (if_neg hid)

theorem Noted.endCall (h : Noted s t env.now) (source : ClientId) (id : Uuid) (raw : Bytes) :
    Noted (settle a (endCall env s source id raw)).1.inner t env.now := by
  have hheld : GroupTurn.Held (Router.endCall env s source id raw).inner { t with noted := env.now } :=
    h.toHeld.endCall (le_refl _)
  refine Noted.same ⟨hheld, ?_⟩ sameMemory_settle
  cases hc : (Router.endCall env s source id raw).inner.calls[t.id]? with
  | none => rfl
  | some call' =>
    obtain ⟨call, hcall, -⟩ := continues_endCall.calls t.id call' hc
    rw [h.gone] at hcall
    cases hcall

theorem Talks.sweep (h : Talks a.inner t) :
    Talks (runCallDurationSweep cfg env a).1.inner t ∨ Noted (runCallDurationSweep cfg env a).1.inner t env.now := by
  refine sweep_induct (P := fun r => Talks r.1.inner t ∨ Noted r.1.inner t env.now) (.inl h) fun r hr e _ => ?_
  rcases hr with htalks | hnoted
  · exact htalks.endCall e.2.owner e.1 _
  · exact .inr (hnoted.endCall e.2.owner e.1 _)

theorem Talks.isLive (h : Talks s t) : t.isLive s = true := by
  obtain ⟨call, hcall, hgroup, hsrc, -⟩ := h
  rw [GroupTurn.isLive, hcall, Option.any_some, hgroup, hsrc, beq_self_eq_true]
  rfl

/-- The tables a packet is handled on. -/
theorem arriving_eq {s₁ : Inner} {cc : CallControlMessage} (h : arriving env s source raw = some (s₁, cc)) :
    (∃ v : ConnVersion, s₁ = promoteClientVersion (purgeEphemeral env s) source v) ∧ raw[1]? = some cc.callState := by
  unfold arriving at h
  split at h
  · cases h
  · split at h
    · next cc' d hparse =>
      obtain ⟨rfl, rfl⟩ := Prod.mk.inj (Option.some.inj h)
      exact ⟨⟨d, rfl⟩, (signal_callControl hparse).1⟩
    · cases h

theorem calls_arrived (env : Env) (s : Inner) (source : ClientId) (v : ConnVersion) :
    (promoteClientVersion (purgeEphemeral env s) source v).calls = s.calls ∧
      (promoteClientVersion (purgeEphemeral env s) source v).groupFloor = s.groupFloor := by
  unfold promoteClientVersion
  split <;> exact ⟨rfl, rfl⟩

/-- The turn its talker or the sweep ends is noted now. -/
theorem ended_next {clock : Nat} (h : Talks a.inner t) (hend : t.endedBy a.inner ev = true)
    (hgone : t.isLive (a.next cfg ev).inner = false) :
    GroupTurn.Held (a.next cfg ev).inner { t with noted := ev.time clock } := by
  have hsplit {s' : Inner} {now : Nat} (hs' : Talks s' t ∨ Noted s' t now) (hgone : t.isLive s' = false) :
      GroupTurn.Held s' { t with noted := now } := by
    rcases hs' with htalks | hnoted
    · rw [htalks.isLive] at hgone
      cases hgone
    · exact hnoted.toHeld
  cases ev with
  | packet env source raw =>
    rw [GroupTurn.endedBy] at hend
    split at hend
    · next s₁ cc harrives =>
      simp only [Bool.and_eq_true, beq_iff_eq, List.contains_iff_mem] at hend
      obtain ⟨⟨hid, hlink⟩, hstate⟩ := hend
      obtain ⟨⟨v, hs₁⟩, hone⟩ := arriving_eq harrives
      have hcalls : s₁.calls = a.inner.calls := hs₁ ▸ (calls_arrived env a.inner source v).1
      have hends : callControl cfg env s₁ source cc raw = endCall env s₁ source cc.identifier raw := by
        simp only [List.mem_cons, List.not_mem_nil, or_false] at hstate
        rcases hstate with hstate | hstate | hstate
        · rw [callControl, hstate]
          rfl
        · rw [callControl, hstate]
          rfl
        · rw [callControl, hstate]
          change routePrivateControl env s₁ source cc.identifier raw = _
          rw [routePrivateControl, hone, hstate, if_pos rfl]
      have hr : (Event.packet env source raw).Routed := trivial
      have hnext : (a.next cfg (.packet env source raw)).inner =
          (settle a (endCall env s₁ source cc.identifier raw)).1.inner := by
        rw [AppState.next, a.run_routed cfg hr, ← hends, ← routePacket_arriving harrives]
        rfl
      rw [hnext] at hgone ⊢
      exact hsplit (Talks.endCall (h.congr (by rw [hcalls])) source cc.identifier raw) hgone
    · cases hend
  | sweep env =>
    rw [AppState.next, a.run_sweep cfg env] at hgone ⊢
    exact hsplit h.sweep hgone
  | _ => cases hend

end Turns

/-! ## Every run -/

/-- The events of a run: the clock does not go back, and no connection interferes with
what is remembered of a turn. -/
def Event.Spares (w : Recall) (ev : Event) : Prop :=
  ev.Allowed w.app ∧ w.clock ≤ ev.time w.clock ∧ ∀ t ∈ w.turns, ev.Leaves w.app.inner t

namespace Recall

variable {cfg : Config} {w : Recall} {ev : Event} {t : GroupTurn}

/-- The turns are known by what is remembered of them, as long as they are fresh. -/
structure Sound (w : Recall) : Prop where
  talks : ∀ (id : Uuid) (t : GroupTurn), w.live[id]? = some t → t.id = id ∧ Talks w.app.inner t
  noted : ∀ t ∈ w.turns, t.noted ≤ w.clock
  held : ∀ t ∈ w.turns, w.clock - t.noted < callDedupWindow → t.Held w.app.inner

theorem mem_turns : t ∈ w.turns ↔ (∃ id : Uuid, w.live[id]? = some t) ∨ ∃ at_ : Nat, (t, at_) ∈ w.retired := by
  rw [turns, List.mem_append, List.mem_map, List.mem_map]
  constructor
  · rintro (⟨e, he, rfl⟩ | ⟨e, he, rfl⟩)
    · exact .inl ⟨e.1, FinMap.mem_toList.mp he⟩
    · exact .inr ⟨e.2, he⟩
  · rintro (⟨id, ht⟩ | ⟨at_, ht⟩)
    · exact .inl ⟨(id, t), FinMap.mem_toList.mpr ht, rfl⟩
    · exact .inr ⟨(t, at_), ht, rfl⟩

/-- A turn that is live after an event was live before it, or is the one it opened. -/
theorem live_next {id : Uuid} (ht : (w.next cfg ev).live[id]? = some t) :
    t.isLive (w.next cfg ev).app.inner = true ∧
      ((openedTurn cfg w.app.inner ev = some t ∧ t.id = id) ∨
        (w.live[id]? = some t ∧ (∀ t' ∈ openedTurn cfg w.app.inner ev, t'.id ≠ id) ∧
          ∀ c, ev = .disconnect c → t.link ≠ c)) := by
  obtain ⟨hmap, hkeep⟩ := FinMap.getElem?_filter.mp ht
  obtain ⟨hlive, hup⟩ := Bool.and_eq_true_iff.mp hkeep
  refine ⟨hlive, ?_⟩
  have hlink : ∀ c, ev = .disconnect c → t.link ≠ c := by
    rintro c rfl
    exact bne_iff_ne.mp hup
  split at hmap
  · next t' hopened =>
    rw [FinMap.getElem?_insert] at hmap
    split at hmap
    · next hid =>
      obtain rfl := Option.some.inj hmap
      exact .inl ⟨hopened, hid⟩
    · next hid =>
      refine .inr ⟨hmap, fun t'' ht'' => ?_, hlink⟩
      obtain rfl := Option.some.inj (hopened.symm.trans ht'')
      exact hid
  · next hnone =>
    refine .inr ⟨hmap, fun t'' ht'' => ?_, hlink⟩
    rw [hnone] at ht''
    cases ht''

theorem mem_turns_next (ht : t ∈ (w.next cfg ev).turns) :
    openedTurn cfg w.app.inner ev = some t ∨ (t ∈ w.turns ∧ ∀ c, ev = .disconnect c → t.link ≠ c) ∨
      ∃ (id : Uuid) (t₀ : GroupTurn), w.live[id]? = some t₀ ∧ t₀.endedBy w.app.inner ev = true ∧
        t₀.isLive (w.next cfg ev).app.inner = false ∧ t = { t₀ with noted := ev.time w.clock } := by
  rcases mem_turns.mp ht with ⟨id, hlive⟩ | ⟨at_, hretired⟩
  · rcases (live_next hlive).2 with ⟨hopened, -⟩ | ⟨hold, -, hlink⟩
    · exact .inl hopened
    · exact .inr (.inl ⟨mem_turns.mpr (.inl ⟨id, hold⟩), hlink⟩)
  · obtain ⟨hmem, hup⟩ := List.mem_filter.mp hretired
    have hlink : ∀ c, ev = .disconnect c → t.link ≠ c := by
      rintro c rfl
      exact bne_iff_ne.mp hup
    rcases List.mem_append.mp hmem with hmem | hmem
    · exact .inr (.inl ⟨mem_turns.mpr (.inr ⟨at_, hmem⟩), hlink⟩)
    · obtain ⟨e, he, hretire⟩ := List.mem_map.mp hmem
      obtain ⟨hin, hgone⟩ := List.mem_filter.mp he
      obtain ⟨hturn, -⟩ := Prod.mk.inj hretire
      have hlive : w.live[e.1]? = some e.2 := FinMap.mem_toList.mp hin
      cases hend : e.2.endedBy w.app.inner ev with
      | true =>
        refine .inr (.inr ⟨e.1, e.2, hlive, hend, (Bool.not_eq_true' _).mp hgone, ?_⟩)
        rw [← hturn, hend]
        rfl
      | false =>
        rw [hend] at hturn
        obtain rfl : e.2 = t := hturn
        exact .inr (.inl ⟨mem_turns.mpr (.inl ⟨e.1, hlive⟩), hlink⟩)

theorem Sound.next (h : w.Sound) (hok : ev.Spares w) : (w.next cfg ev).Sound := by
  obtain ⟨hallowed, htime, hleaves⟩ := hok
  have hopened {t : GroupTurn} (h : openedTurn cfg w.app.inner ev = some t) : t.noted = ev.time w.clock := by
    obtain ⟨env, source, raw, s₁, gt, rfl, hturn, -⟩ := openedTurn_packet h
    rw [hturn]
    rfl
  constructor
  · intro id t ht
    obtain ⟨hlive, hcases⟩ := live_next ht
    obtain ⟨call', hcall', hcond⟩ := (Option.any_eq_true _ _).mp hlive
    obtain ⟨hgroup, hsrc⟩ := Bool.and_eq_true_iff.mp hcond
    have htalks (howner : call'.owner = t.link) : Talks (w.next cfg ev).app.inner t :=
      ⟨call', hcall', of_decide_eq_true hgroup, beq_iff_eq.mp hsrc, howner⟩
    rcases hcases with ⟨hopen, rfl⟩ | ⟨hold, hother, -⟩
    · exact ⟨rfl, htalks ((opened_next hopen).2.2 call' hcall')⟩
    · obtain ⟨rfl, call, hcall, -, -, howner⟩ := h.talks id t hold
      refine ⟨rfl, htalks ?_⟩
      rw [call_next hallowed hother hcall hcall' (of_decide_eq_true hgroup), howner]
  · intro t ht
    change t.noted ≤ ev.time w.clock
    rcases mem_turns_next ht with hopen | ⟨hold, -⟩ | ⟨id, t₀, -, -, -, rfl⟩
    · exact (hopened hopen).le
    · exact (h.noted t hold).trans htime
    · exact le_refl _
  · intro t ht hfresh
    change ev.time w.clock - t.noted < callDedupWindow at hfresh
    rcases mem_turns_next ht with hopen | ⟨hold, hlink⟩ | ⟨id, t₀, hlive, hend, hgone, rfl⟩
    · exact (opened_next hopen).1
    · have hbefore : w.clock - t.noted < callDedupWindow := by omega
      exact (h.held t hold hbefore).next hallowed (hleaves t hold) hlink (h.noted t hold) htime hfresh
    · exact ended_next (h.talks id t₀ hlive).2 hend hgone

theorem sound_of_reach {selfId : UInt64} (h : Reach { app := .start selfId } (fun w ev => ev.Spares w) (Recall.next cfg) w) :
    w.Sound := by
  refine h.invariant ⟨fun id t ht => ?_, fun t ht => ?_, fun t ht => ?_⟩ fun _ _ hw hok => hw.next hok
  · rw [Std.ExtTreeMap.getElem?_empty] at ht
    cases ht
  · cases ht
  · cases ht

end Recall

/-- A copy is answered with a prune at most. -/
theorem handleGroupTx_duplicate {cfg : Config} {env : Env} {s : Inner} {source : ClientId} {id : Uuid} {raw : Bytes}
    {gt : GroupTransmission} (h : (s.isPeer source && isDuplicate s id gt.source source env.now) = true) :
    (handleGroupTx cfg env s source id (.groupTransmission gt) raw).inner = s ∧
      (handleGroupTx cfg env s source id (.groupTransmission gt) raw).ended = [] ∧
      ∀ m ∈ (handleGroupTx cfg env s source id (.groupTransmission gt) raw).sends,
        m = (source, buildPrune id gt.source) := by
  unfold handleGroupTx
  dsimp only
  split
  · exact ⟨rfl, rfl, fun m hm => absurd hm List.not_mem_nil⟩
  · refine ⟨rfl, rfl, fun m hm => ?_⟩
    dsimp only at hm
    split at hm
    · exact (Inner.mem_send.mp hm).1
    · cases hm

/-- A copy over another peer link is dropped while its turn was accepted, or ended by
its talker or the sweep, less than the window ago: the calls and the floors stay as
they are, and the link is asked to prune at most. -/
theorem copy_dropped_of_reach {cfg : Config} {selfId : UInt64} {w : Recall}
    (h : Reach { app := .start selfId } (fun w ev => ev.Spares w) (Recall.next cfg) w) :
    ∀ e ∈ w.retired, ∀ (env : Env) (source : ClientId) (raw : Bytes) (s : Inner) (gt : GroupTransmission),
      groupTxOf env w.app.inner source raw = some (s, e.1.id, gt) → gt.source = e.1.src →
      w.app.inner.isPeer source = true → source ≠ e.1.link → w.clock ≤ env.now →
      env.now - e.1.noted < callDedupWindow →
      (w.app.next cfg (.packet env source raw)).inner.calls = w.app.inner.calls ∧
        (w.app.next cfg (.packet env source raw)).inner.groupFloor = w.app.inner.groupFloor ∧
        ∀ m ∈ w.app.sent cfg (.packet env source raw), m = (source, buildPrune e.1.id e.1.src) := by
  rintro ⟨t, at_⟩ he env source raw s gt hof hsrc hpeer hother htime hfresh
  have hw := Recall.sound_of_reach h
  change env.now - t.noted < callDedupWindow at hfresh
  have hbefore : w.clock - t.noted < callDedupWindow := by omega
  have hheld : t.Held w.app.inner := hw.held t (Recall.mem_turns.mpr (.inr ⟨at_, he⟩)) hbefore
  obtain ⟨⟨s₁, cc⟩, harrives, hcc⟩ := Option.bind_eq_some_iff.mp hof
  dsimp only at hcc
  split at hcc
  · next gt' hpayload =>
    split at hcc
    · next hstate =>
      obtain ⟨rfl, hrest⟩ := Prod.mk.inj (Option.some.inj hcc)
      obtain ⟨hid, rfl⟩ := Prod.mk.inj hrest
      obtain ⟨⟨v, hs₁⟩, -⟩ := arriving_eq harrives
      have harrived : t.Held s₁ := hs₁ ▸ (hheld.purge hfresh).same sameMemory_promoteClientVersion
      have hpeer₁ : s₁.isPeer source = true := by
        rw [hs₁, passive_promoteClientVersion.isPeer]
        exact hpeer
      have hdup : (s₁.isPeer source && isDuplicate s₁ cc.identifier gt'.source source env.now) = true := by
        by_contra hno
        rw [Bool.not_eq_true, hid, hsrc] at hno
        rcases harrived.mine_of_new hfresh hno with hmine | hmine
        · exact hother hmine
        · rw [hpeer₁] at hmine
          cases hmine
      have hroute : routePacket cfg env w.app.inner source raw =
          handleGroupTx cfg env s₁ source cc.identifier (.groupTransmission gt') raw := by
        rw [routePacket_arriving harrives, callControl, if_pos hstate, hpayload]
      obtain ⟨hinner, hended, hsends⟩ := @handleGroupTx_duplicate cfg env s₁ source cc.identifier raw gt' hdup
      rw [← hroute] at hinner hended hsends
      obtain ⟨hnext, hsent⟩ := run_packet_of_ended hended
      rw [hnext, hsent, hinner, hs₁, (calls_arrived env w.app.inner source v).1,
        (calls_arrived env w.app.inner source v).2, ← hid, ← hsrc]
      exact ⟨rfl, rfl, hsends⟩
    · cases hcc
  · cases hcc

/-! ### A turn that is over while its call goes on -/

instance Event.decidableSpares (w : Recall) (ev : Event) : Decidable (ev.Spares w) :=
  have hoff (env : Env) (source : ClientId) (raw : Bytes) (t : GroupTurn) :
      Decidable (t.OffSip env w.app.inner source raw) :=
    have : Decidable (∀ p ∈ arriving env w.app.inner source raw, p.2.identifier = t.id → env.sip.placement = none) :=
      @Option.decidableForallMem _ _ (fun p : Inner × CallControlMessage =>
        inferInstanceAs (Decidable (p.2.identifier = t.id → env.sip.placement = none))) _
    inferInstanceAs (Decidable (t.src = 0 → _))
  have hleaves (t : GroupTurn) : Decidable (ev.Leaves w.app.inner t) :=
    have hentry (id : ClientId) : Decidable (∀ e ∈ w.app.inner.recentCalls[(t.id, t.src)]?, e.1 ≠ id) :=
      @Option.decidableForallMem _ _ (fun e : ClientId × Nat => inferInstanceAs (Decidable (e.1 ≠ id))) _
    have hcall (id : ClientId) : Decidable (∀ call ∈ w.app.inner.calls[t.id]?, call.owner ≠ id) :=
      @Option.decidableForallMem _ _ (fun call : ActiveCall => inferInstanceAs (Decidable (call.owner ≠ id))) _
    match ev with
    | .connect id _ _ _ => @instDecidableAnd _ _ (hentry id) (hcall id)
    | .packet env source raw => hoff env source raw t
    | .disconnect id => have := hentry id; inferInstanceAs (Decidable (t.link ≠ id → _))
    | .sweep _ | .smsDeliver .. | .alarm _ | .advertiseBts .. | .advertiseEmergency .. | .sipPrivate .. | .sipGroup ..
    | .sipEnd _ => isTrue trivial
  have : Decidable (∀ t ∈ w.turns, ev.Leaves w.app.inner t) := @List.decidableBAll _ _ hleaves w.turns
  inferInstanceAs (Decidable (_ ∧ _ ∧ _))

/-- The transmission of `src` on uuid 7, to group 91. -/
def transmission (src : UInt32) : Bytes := buildGroupTx 7 src 91 0

/-- The outside `sec` seconds after the start. -/
def Env.after (sec : ℕ) : Env := { Env.plain (UInt64.ofNat (1000 * sec)) with now := sec * 10 ^ 9 }

def ring : List Event := [.connect 1 (.accepted .peer) none false, .connect 2 (.accepted .peer) none false]

/-- The turn of 1001 comes in over peer 1, which ends it. -/
def endedTurn : List Event :=
  ring ++ [.packet (.after 10) 1 (transmission 1001), .packet (.after 20) 1 (buildCallCause callGroupIdle 7 0)]

/-- A copy comes in over peer 2 three seconds later. -/
theorem copy_dropped_after_end :
    ((endedTurn.foldl (Recall.next {}) { app := .start 9 }).app.next {}
      (.packet (.after 23) 2 (transmission 1001))).inner.calls =
      (endedTurn.foldl (Recall.next {}) { app := .start 9 }).app.inner.calls := by
  have hrun : Reach { app := .start 9 } (fun w ev => ev.Spares w) (Recall.next {})
      (endedTurn.foldl (Recall.next {}) { app := .start 9 }) := .of_list endedTurn .init (by decide +kernel)
  have hretired : (⟨7, 1001, 1, 20 * 10 ^ 9⟩, 20 * 10 ^ 9) ∈
      (endedTurn.foldl (Recall.next {}) { app := .start 9 }).retired := by decide +kernel
  obtain ⟨s, gt, hof, hsrc⟩ : ∃ s gt, groupTxOf (.after 23)
      (endedTurn.foldl (Recall.next {}) { app := .start 9 }).app.inner 2 (transmission 1001) = some (s, 7, gt) ∧
      gt.source = 1001 := ⟨_, _, rfl, rfl⟩
  exact (copy_dropped_of_reach hrun _ hretired (.after 23) 2 (transmission 1001) s gt hof hsrc (by decide +kernel)
    (by decide) (by decide +kernel) (by decide +kernel)).1

/-- The turn of 1001 loses its call to 1002 six seconds after it was accepted. -/
def changedTurn : List Event :=
  ring ++ [.packet (.after 10) 1 (transmission 1001), .packet (.after 16) 1 (transmission 1002)]

/-- A copy of it one second later takes the call back. -/
theorem copy_accepted_after_change :
    ¬ ∀ w : Recall, Reach { app := .start 9 } (fun w ev => ev.Spares w) (Recall.next {}) w →
      ∀ e ∈ w.retired, ∀ (env : Env) (source : ClientId) (raw : Bytes) (s : Inner) (gt : GroupTransmission),
        groupTxOf env w.app.inner source raw = some (s, e.1.id, gt) → gt.source = e.1.src →
        w.app.inner.isPeer source = true → source ≠ e.1.link → w.clock ≤ env.now → env.now - e.2 < callDedupWindow →
        (w.app.next {} (.packet env source raw)).inner.calls = w.app.inner.calls := by
  intro h
  have hrun : Reach { app := .start 9 } (fun w ev => ev.Spares w) (Recall.next {})
      (changedTurn.foldl (Recall.next {}) { app := .start 9 }) := .of_list changedTurn .init (by decide +kernel)
  have hretired : (⟨7, 1001, 1, 10 * 10 ^ 9⟩, 16 * 10 ^ 9) ∈
      (changedTurn.foldl (Recall.next {}) { app := .start 9 }).retired := by decide +kernel
  obtain ⟨s, gt, hof, hsrc⟩ : ∃ s gt, groupTxOf (.after 17)
      (changedTurn.foldl (Recall.next {}) { app := .start 9 }).app.inner 2 (transmission 1001) = some (s, 7, gt) ∧
      gt.source = 1001 := ⟨_, _, rfl, rfl⟩
  have hcalls := h _ hrun _ hretired (.after 17) 2 (transmission 1001) s gt hof hsrc (by decide +kernel) (by decide)
    (by decide +kernel) (by decide +kernel)
  have howner := congrArg (fun calls : FinMap Uuid ActiveCall => (calls[(7 : Uuid)]?).map ActiveCall.owner) hcalls
  revert howner
  decide +kernel

end BrewServer
