import Mathlib.Data.List.Find
import BrewServer.SdsGate

/-!
# Calls the server ends

A tick of the sweep ends the calls that ran or idled too long. It borrows the
routine of a hangup, in the name of the owner: everyone but the owner is told.
-/

namespace BrewServer

open Protocol Fedroute Router Sip

section Sweep

variable {cfg : Config} {env : Env} {a a' : AppState} {s : Inner} {sends : Sends} {id k : Uuid} {call : ActiveCall}
  {c : ClientId} {es : List (Uuid × ActiveCall)} {e : Uuid × ActiveCall}

/-- Whether a live call has run too long, or has idled too long with no SIP side
to it. -/
def pastLimit (cfg : Config) (env : Env) (s : Inner) (call : ActiveCall) : Prop :=
  let limit := cfg.maxCallDurationSeconds * 10 ^ 9
  let idleMs := cfg.callInactivityTimeoutSeconds * 1000
  (limit ≠ 0 ∧ limit ≤ env.now - call.startedAt) ∨
    (idleMs ≠ 0 ∧ idleMs ≤ (satSub env.nowMs call.lastActivityMs).toNat ∧ isBridged s call.owner = false ∧
      ∀ p ∈ call.peers, isBridged s p = false)

/-- What the sweep says of a call it ends. -/
def endMessage (id : Uuid) (call : ActiveCall) : Bytes :=
  buildCallCause (if call.kind = .group then callGroupIdle else callRelease) id 0

/-- What a connection was told of the end of a call. -/
def Sends.ends (sends : Sends) (c : ClientId) (id : Uuid) : List Bytes :=
  (sends.on c).filter fun raw => signal raw = some (.close, id)

/-- Ends one of the calls found. -/
def endSwept (env : Env) (a : AppState) (e : Uuid × ActiveCall) : AppState × Sends :=
  settle a (sweepEnd env a.inner e.1 e.2)

/-- Ends the calls found, in some order. -/
def endAll (env : Env) (es : List (Uuid × ActiveCall)) (a : AppState) : AppState × Sends :=
  es.foldl
    (fun (a, sends) e =>
      let (a, more) := endSwept env a e
      (a, sends ++ more))
    (a, [])

/-- The leg that goes when a call ends. -/
def AppState.legOf (a : AppState) (id : Uuid) : Option BridgedLeg :=
  (a.legs.toList.find? fun e => e.2.brewCallId = id).map (·.2)

theorem runCallDurationSweep_eq (cfg : Config) (env : Env) (a : AppState) :
    runCallDurationSweep cfg env a = endAll env (sweptCalls cfg env a.inner) a := rfl

theorem endAll_cons : endAll env (e :: es) a =
    ((endAll env es (endSwept env a e).1).1, (endSwept env a e).2 ++ (endAll env es (endSwept env a e).1).2) := by
  have hfold : ∀ (es : List (Uuid × ActiveCall)) (r : AppState × Sends),
      es.foldl (fun r e => ((endSwept env r.1 e).1, r.2 ++ (endSwept env r.1 e).2)) r =
        ((endAll env es r.1).1, r.2 ++ (endAll env es r.1).2) := by
    intro es
    induction es with
    | nil => exact fun r => by rw [List.foldl_nil, endAll, List.foldl_nil, List.append_nil]
    | cons e es ih =>
      intro r
      rw [List.foldl_cons, ih]
      change _ = ((es.foldl _ ((endSwept env r.1 e).1, [] ++ (endSwept env r.1 e).2)).1,
        r.2 ++ (es.foldl _ ((endSwept env r.1 e).1, [] ++ (endSwept env r.1 e).2)).2)
      rw [ih, List.nil_append, List.append_assoc]
  exact hfold es ((endSwept env a e).1, [] ++ (endSwept env a e).2)

theorem mem_expiredCalls {limit : ℕ} :
    (id, call) ∈ expiredCalls env s limit ↔
      s.calls[id]? = some call ∧ limit ≠ 0 ∧ limit ≤ env.now - call.startedAt := by
  unfold expiredCalls
  split
  · next hzero => simp [hzero]
  · next hlimit => simp [hlimit, List.mem_filter]

theorem mem_idleCalls {idleMs : ℕ} :
    (id, call) ∈ idleCalls env s idleMs ↔
      s.calls[id]? = some call ∧ idleMs ≠ 0 ∧ idleMs ≤ (satSub env.nowMs call.lastActivityMs).toNat ∧
        isBridged s call.owner = false ∧ ∀ p ∈ call.peers, isBridged s p = false := by
  unfold idleCalls
  split
  · next hzero => simp [hzero]
  · next hlimit => simp [hlimit, List.mem_filter, and_assoc]

theorem mem_sweptCalls : (id, call) ∈ sweptCalls cfg env s ↔ s.calls[id]? = some call ∧ pastLimit cfg env s call := by
  unfold sweptCalls
  simp only [List.mem_append, List.mem_filter, mem_expiredCalls, mem_idleCalls]
  constructor
  · rintro (⟨hlive, hlimit⟩ | ⟨⟨hlive, hidle⟩, -⟩)
    · exact ⟨hlive, .inl hlimit⟩
    · exact ⟨hlive, .inr hidle⟩
  · rintro ⟨hlive, hlimit | hidle⟩
    · exact .inl ⟨hlive, hlimit⟩
    · by_cases hexpired : (id, call) ∈ expiredCalls env s (cfg.maxCallDurationSeconds * 10 ^ 9)
      · exact .inl (mem_expiredCalls.mp hexpired)
      · refine .inr ⟨⟨hlive, hidle⟩, ?_⟩
        rw [Bool.not_eq_true', List.any_eq_false]
        rintro ⟨id', call'⟩ hmem hid
        obtain rfl : id' = id := of_decide_eq_true hid
        have hlive' := (mem_expiredCalls.mp hmem).1
        rw [hlive] at hlive'
        cases hlive'
        exact hexpired hmem

/-- Each call is found once. -/
theorem nodup_sweptCalls : ((sweptCalls cfg env s).map (·.1)).Nodup := by
  unfold sweptCalls
  rw [List.map_append]
  refine List.nodup_append.mpr ⟨?_, ?_, ?_⟩
  · unfold expiredCalls
    split
    · exact List.nodup_nil
    · exact nodup_calls_filter ..
  · refine List.Nodup.sublist (List.filter_sublist.map _) ?_
    unfold idleCalls
    split
    · exact List.nodup_nil
    · exact nodup_calls_filter ..
  · intro k hexpired k' hidle heq
    obtain ⟨x, hx, rfl⟩ := List.mem_map.mp hexpired
    obtain ⟨y, hy, rfl⟩ := List.mem_map.mp hidle
    have hnone := (List.mem_filter.mp hy).2
    rw [Bool.not_eq_true', List.any_eq_false] at hnone
    exact hnone x hx (decide_eq_true heq)

/-- What ending a live call in its owner's name does. -/
structure Ended (a a' : AppState) (sends : Sends) (id : Uuid) (call : ActiveCall) : Prop where
  calls : ∀ k : Uuid, a'.inner.calls[k]? = if id = k then none else a.inner.calls[k]?
  freed : call.kind = .group → a'.inner.groupFloor[call.destination]? ≠ some id
  floor : ∀ (g : UInt32) (k : Uuid), a'.inner.groupFloor[g]? = some k → a.inner.groupFloor[g]? = some k
  kept : ∀ (g : UInt32) (k : Uuid), id ≠ k → a.inner.groupFloor[g]? = some k → a'.inner.groupFloor[g]? = some k
  clients : ∀ c : ClientId, c ∈ a'.inner.clients ↔
    c ∈ a.inner.clients ∧ ∀ leg ∈ a.legOf id, leg.virtualClient ≠ c
  legs : ∀ k : Uuid, id ≠ k → a'.legOf k = a.legOf k
  sends : sends = a.inner.sendMany (otherParties call call.owner) (endMessage id call)

/-- What the bridge does about a call that is out of the tables already. -/
structure LegGone (a a' : AppState) (id : Uuid) : Prop where
  calls : ∀ k : Uuid, a'.inner.calls[k]? = a.inner.calls[k]?
  floor : ∀ g : UInt32, a'.inner.groupFloor[g]? = a.inner.groupFloor[g]? ∨
    (a.inner.groupFloor[g]? = some id ∧ a'.inner.groupFloor[g]? = none)
  clients : ∀ c : ClientId, c ∈ a'.inner.clients ↔
    c ∈ a.inner.clients ∧ ∀ leg ∈ a.legOf id, leg.virtualClient ≠ c
  legs : ∀ k : Uuid, id ≠ k → a'.legOf k = a.legOf k

theorem legOf_erase {callId : String} {leg : BridgedLeg} {inner : Inner} (hleg : a.legs[callId]? = some leg)
    (hk : leg.brewCallId ≠ k) : AppState.legOf { inner, legs := a.legs.erase callId } k = a.legOf k := by
  unfold AppState.legOf
  dsimp only
  rw [FinMap.toList_erase, List.find?_filter]
  congr 1
  refine List.find?_congr fun x hx => ?_
  by_cases hid : x.1 = callId
  · obtain ⟨key, leg'⟩ := x
    obtain rfl : key = callId := hid
    have hleg' := FinMap.mem_toList.mp hx
    rw [hleg] at hleg'
    cases hleg'
    simp [hk]
  · simp [hid]

theorem legGone_teardownByBrewCall (h : a.inner.calls[id]? = none) :
    (teardownByBrewCall a id).2 = [] ∧ LegGone a (teardownByBrewCall a id).1 id := by
  unfold teardownByBrewCall
  cases hfind : a.legs.toList.find? fun e => e.2.brewCallId = id with
  | none =>
    have hleg : a.legOf id = none := by rw [AppState.legOf, hfind, Option.map_none]
    refine ⟨rfl, fun _ => rfl, fun _ => .inl rfl, fun c => ?_, fun _ _ => rfl⟩
    rw [hleg]
    simp
  | some x =>
    obtain ⟨callId, leg⟩ := x
    have hleg : a.legOf id = some leg := by rw [AppState.legOf, hfind, Option.map_some]
    have hbrew : leg.brewCallId = id := by
      have hfound := List.find?_some hfind
      exact of_decide_eq_true hfound
    have hlookup : a.legs[callId]? = some leg := FinMap.mem_toList.mp (List.mem_of_find?_eq_some hfind)
    dsimp only
    rw [teardown, hlookup]
    dsimp only
    unfold removeLeg
    rw [hbrew, h]
    refine ⟨rfl, fun k => ?_, fun g => ?_, fun c => ?_, fun k hk => legOf_erase hlookup (hbrew ▸ hk)⟩
    · dsimp only
      rw [FinMap.getElem?_erase]
      split
      · next hid => rw [← hid, h]
      · rfl
    · dsimp only
      split
      · next g' _ =>
        split
        · next hnames =>
          rw [FinMap.getElem?_erase]
          split
          · next hg => exact .inr ⟨hg ▸ hnames, rfl⟩
          · exact .inl rfl
        · exact .inl rfl
      · exact .inl rfl
    · rw [hleg]
      dsimp only
      rw [FinMap.mem_erase]
      simp [and_comm]

theorem ended_endSwept (h : a.inner.calls[id]? = some call) :
    Ended a (endSwept env a (id, call)).1 (endSwept env a (id, call)).2 id call := by
  have hend : sweepEnd env a.inner id call =
      { inner := noteCall (removeCall a.inner id call) id call.sourceIssi call.owner env.now
        sends := a.inner.sendMany (otherParties call call.owner) (endMessage id call), ended := [id] } := by
    rw [sweepEnd, endCall, h]
    simp only [true_or, not_true_eq_false, if_false, ne_eq, and_false]
    rfl
  obtain ⟨s, hs⟩ : ∃ s, s = noteCall (removeCall a.inner id call) id call.sourceIssi call.owner env.now := ⟨_, rfl⟩
  have hcalls : ∀ k : Uuid, s.calls[k]? = if id = k then none else a.inner.calls[k]? := by
    intro k
    rw [hs]
    exact FinMap.getElem?_erase
  have hfloor : s.groupFloor = if call.kind = .group ∧ a.inner.groupFloor[call.destination]? = some id then
      a.inner.groupFloor.erase call.destination else a.inner.groupFloor := by
    rw [hs]
    rfl
  have hclients : s.clients = a.inner.clients := by
    rw [hs]
    rfl
  obtain ⟨hquiet, hgone⟩ := @legGone_teardownByBrewCall { inner := s, legs := a.legs } id
    ((hcalls id).trans (if_pos rfl))
  have hsettle : endSwept env a (id, call) =
      ((teardownByBrewCall { inner := s, legs := a.legs } id).1,
        a.inner.sendMany (otherParties call call.owner) (endMessage id call)) := by
    rw [endSwept, hend, ← hs]
    change ((teardownByBrewCall { inner := s, legs := a.legs } id).1,
      _ ++ (teardownByBrewCall { inner := s, legs := a.legs } id).2) = _
    rw [hquiet, List.append_nil]
  rw [hsettle]
  refine ⟨fun k => (hgone.calls k).trans (hcalls k), fun hk => ?_, fun g k hg => ?_, fun g k hid hg => ?_,
    fun c => ?_, hgone.legs, rfl⟩
  · intro hnames
    rcases hgone.floor call.destination with hsame | ⟨-, hnone⟩
    · rw [hsame] at hnames
      change s.groupFloor[call.destination]? = some id at hnames
      rw [hfloor] at hnames
      split at hnames
      · rw [FinMap.getElem?_erase, if_pos rfl] at hnames
        cases hnames
      · next hno => exact hno ⟨hk, hnames⟩
    · rw [hnone] at hnames
      cases hnames
  · have hmid : s.groupFloor[g]? = some k := by
      rcases hgone.floor g with hsame | ⟨-, hnone⟩
      · exact hsame.symm.trans hg
      · rw [hnone] at hg
        cases hg
    rw [hfloor] at hmid
    split at hmid
    · rw [FinMap.getElem?_erase] at hmid
      split at hmid
      · cases hmid
      · exact hmid
    · exact hmid
  · have hmid : s.groupFloor[g]? = some k := by
      rw [hfloor]
      split
      · next hnames =>
        rw [FinMap.getElem?_erase, if_neg]
        · exact hg
        · rintro rfl
          exact hid (Option.some.inj (hnames.2.symm.trans hg))
      · exact hg
    rcases hgone.floor g with hsame | ⟨hnames, -⟩
    · exact hsame.trans hmid
    · exact absurd (Option.some.inj (hnames.symm.trans hmid)) hid
  · have hc := hgone.clients c
    rw [show (AppState.mk s a.legs).inner.clients = a.inner.clients from hclients] at hc
    exact hc

/-- What ending a list of live calls does to the tables. -/
structure EndedAll (a a' : AppState) (es : List (Uuid × ActiveCall)) : Prop where
  gone : ∀ e ∈ es, a'.inner.calls[e.1]? = none
  freed : ∀ e ∈ es, e.2.kind = .group → a'.inner.groupFloor[e.2.destination]? ≠ some e.1
  floor : ∀ (g : UInt32) (k : Uuid), a'.inner.groupFloor[g]? = some k → a.inner.groupFloor[g]? = some k
  kept : ∀ k ∉ es.map (·.1), a'.inner.calls[k]? = a.inner.calls[k]? ∧
    ∀ g : UInt32, a.inner.groupFloor[g]? = some k → a'.inner.groupFloor[g]? = some k

/-- The calls still to be ended are live after one of them has ended. -/
theorem live_endSwept (env : Env) (hnd : ((e :: es).map (·.1)).Nodup) (hlive : ∀ x ∈ e :: es, a.inner.calls[x.1]? = some x.2) :
    ∀ x ∈ es, (endSwept env a e).1.inner.calls[x.1]? = some x.2 := by
  intro x hx
  rw [List.map_cons, List.nodup_cons] at hnd
  have hended := @ended_endSwept env _ _ _ (hlive e List.mem_cons_self)
  have hne : e.1 ≠ x.1 := fun heq => hnd.1 (List.mem_map.mpr ⟨x, hx, heq.symm⟩)
  exact (hended.calls x.1).trans ((if_neg hne).trans (hlive x (List.mem_cons_of_mem e hx)))

theorem endedAll_endAll (hnd : (es.map (·.1)).Nodup) (hlive : ∀ x ∈ es, a.inner.calls[x.1]? = some x.2) :
    EndedAll a (endAll env es a).1 es := by
  induction es generalizing a with
  | nil =>
    exact ⟨fun _ h => absurd h List.not_mem_nil, fun _ h => absurd h List.not_mem_nil, fun _ _ h => h,
      fun _ _ => ⟨rfl, fun _ h => h⟩⟩
  | cons e es ih =>
    rw [endAll_cons]
    have hended := @ended_endSwept env _ _ _ (hlive e List.mem_cons_self)
    have hrest := ih (List.nodup_cons.mp hnd).2 (live_endSwept env hnd hlive)
    have he : e.1 ∉ es.map (·.1) := (List.nodup_cons.mp hnd).1
    refine ⟨fun x hx => ?_, fun x hx hk => ?_, fun g k h => hended.floor g k (hrest.floor g k h), fun k hk => ?_⟩
    · rcases List.mem_cons.mp hx with rfl | hx
      · exact (hrest.kept _ he).1.trans ((hended.calls _).trans (if_pos rfl))
      · exact hrest.gone x hx
    · rcases List.mem_cons.mp hx with rfl | hx
      · exact fun h => hended.freed hk (hrest.floor _ _ h)
      · exact hrest.freed x hx hk
    · rw [List.map_cons, List.mem_cons, not_or] at hk
      have hkept := hrest.kept k hk.2
      exact ⟨hkept.1.trans ((hended.calls k).trans (if_neg (Ne.symm hk.1))),
        fun g h => hkept.2 g (hended.kept g k (Ne.symm hk.1) h)⟩

theorem signal_endMessage : signal (endMessage id call) = some (.close, id) := by
  rw [endMessage, signal_buildCallCause]
  split <;> rfl

theorem ends_sendMany {cs : FinSet ClientId} :
    (s.sendMany cs (endMessage id call)).ends c k =
      if id = k ∧ c ∈ cs ∧ c ∈ s.clients then [endMessage id call] else [] := by
  rw [Sends.ends, on_sendMany]
  by_cases hc : c ∈ cs ∧ c ∈ s.clients
  · rw [if_pos hc, List.filter_singleton, signal_endMessage]
    by_cases hid : id = k <;> simp [hid, hc]
  · rw [if_neg hc, if_neg fun h => hc h.2, List.filter_nil]

theorem ends_append {more : Sends} : (sends ++ more).ends c k = sends.ends c k ++ more.ends c k := by
  rw [Sends.ends, Sends.on_append, List.filter_append]
  rfl

/-- Nobody is told of a call that is not his to hear of, or after he has gone. -/
theorem ends_endAll_eq_nil (hnd : (es.map (·.1)).Nodup) (hlive : ∀ x ∈ es, a.inner.calls[x.1]? = some x.2)
    (h : (∀ x ∈ es, x.1 = k → c ∉ otherParties x.2 x.2.owner) ∨ c ∉ a.inner.clients) :
    (endAll env es a).2.ends c k = [] := by
  induction es generalizing a with
  | nil => rfl
  | cons e es ih =>
    have hended := @ended_endSwept env _ _ _ (hlive e List.mem_cons_self)
    rw [endAll_cons, ends_append, ih (List.nodup_cons.mp hnd).2 (live_endSwept env hnd hlive), List.append_nil,
      hended.sends, ends_sendMany, if_neg]
    · rintro ⟨hk, hother, hclient⟩
      rcases h with hmine | hgone
      · exact hmine e List.mem_cons_self hk hother
      · exact hgone hclient
    · rcases h with hmine | hgone
      · exact .inl fun x hx => hmine x (List.mem_cons_of_mem e hx)
      · exact .inr fun hc => hgone ((hended.clients c).mp hc).1

/-- Whoever stays connected throughout is told once. -/
theorem ends_endAll (hnd : (es.map (·.1)).Nodup) (hlive : ∀ x ∈ es, a.inner.calls[x.1]? = some x.2)
    (he : e ∈ es) (hother : c ∈ otherParties e.2 e.2.owner) (hclient : c ∈ a.inner.clients)
    (hstays : ∀ x ∈ es, e.1 ≠ x.1 → ∀ leg ∈ a.legOf x.1, leg.virtualClient ≠ c) :
    (endAll env es a).2.ends c e.1 = [endMessage e.1 e.2] := by
  induction es generalizing a with
  | nil => cases he
  | cons x es ih =>
    have hended := @ended_endSwept env _ _ _ (hlive x List.mem_cons_self)
    have hnd' := List.nodup_cons.mp hnd
    rw [endAll_cons, ends_append, hended.sends, ends_sendMany]
    rcases List.mem_cons.mp he with rfl | he
    · have hrest : (endAll env es (endSwept env a e).1).2.ends c e.1 = [] :=
        ends_endAll_eq_nil hnd'.2 (live_endSwept env hnd hlive)
          (.inl fun y hy hk => absurd (List.mem_map.mpr ⟨y, hy, hk⟩) hnd'.1)
      rw [hrest, List.append_nil, if_pos ⟨rfl, hother, hclient⟩]
    · have hne : e.1 ≠ x.1 := fun heq => hnd'.1 (List.mem_map.mpr ⟨e, he, heq⟩)
      rw [if_neg fun h => hne h.1.symm, List.nil_append]
      refine ih hnd'.2 (live_endSwept env hnd hlive) he
        ((hended.clients c).mpr ⟨hclient, hstays x List.mem_cons_self hne⟩) fun y hy hney => ?_
      rw [hended.legs y.1 fun heq => hnd'.1 (List.mem_map.mpr ⟨y, hy, heq.symm⟩)]
      exact hstays y (List.mem_cons_of_mem x hy) hney

/-- What a tick owes the calls past their limit, and those that are not. -/
structure Notified (cfg : Config) (env : Env) (a a' : AppState) (sends : Sends) : Prop where
  told : ∀ (id : Uuid) (call : ActiveCall), a.inner.calls[id]? = some call → pastLimit cfg env a.inner call →
    ∀ c : ClientId, call.isParty c → c ∈ a.inner.clients → sends.ends c id = [endMessage id call]
  gone : ∀ (id : Uuid) (call : ActiveCall), a.inner.calls[id]? = some call → pastLimit cfg env a.inner call →
    a'.inner.calls[id]? = none ∧ (call.kind = .group → a'.inner.groupFloor[call.destination]? ≠ some id)
  kept : ∀ (id : Uuid) (call : ActiveCall), a.inner.calls[id]? = some call → ¬ pastLimit cfg env a.inner call →
    a'.inner.calls[id]? = some call ∧
      ∀ g : UInt32, a'.inner.groupFloor[g]? = some id ↔ a.inner.groupFloor[g]? = some id

/-- A tick does so in whichever order it takes the calls it found. -/
def EndNotifies (cfg : Config) (env : Env) (a : AppState) : Prop :=
  ∀ es : List (Uuid × ActiveCall), es.Perm (sweptCalls cfg env a.inner) →
    Notified cfg env a (endAll env es a).1 (endAll env es a).2

/-- A tick tells everyone exactly where nobody to be told owns a call it ends, or
stands in for the SIP side of another one. -/
theorem endNotifies_iff (cfg : Config) (env : Env) (a : AppState) :
    EndNotifies cfg env a ↔
      ∀ (id : Uuid) (call : ActiveCall), a.inner.calls[id]? = some call → pastLimit cfg env a.inner call →
        call.owner ∉ a.inner.clients ∧
          ∀ (id' : Uuid) (call' : ActiveCall), a.inner.calls[id']? = some call' → pastLimit cfg env a.inner call' →
            id ≠ id' → ∀ leg ∈ a.legOf id', call.isParty leg.virtualClient →
              leg.virtualClient ∉ a.inner.clients := by
  have hlive : ∀ {es : List (Uuid × ActiveCall)}, es.Perm (sweptCalls cfg env a.inner) →
      (es.map (·.1)).Nodup ∧ ∀ x ∈ es, a.inner.calls[x.1]? = some x.2 := by
    intro es hperm
    exact ⟨(hperm.map _).nodup_iff.mpr nodup_sweptCalls, fun x hx => (mem_sweptCalls.mp (hperm.subset hx)).1⟩
  constructor
  · intro h id call hcall hlimit
    refine ⟨fun howner => ?_, fun id' call' hcall' hlimit' hne leg hleg hpart hclient => ?_⟩
    · -- The owner is left out of the recipients.
      obtain ⟨hnd, hall⟩ := hlive (.refl _)
      have htold := (h _ (.refl _)).told id call hcall hlimit call.owner (.inl rfl) howner
      rw [ends_endAll_eq_nil hnd hall] at htold
      · cases htold
      · refine .inl fun x hx hid hother => (FinSet.mem_erase.mp hother).1 ?_
        have hx' := hall x hx
        rw [hid, hcall] at hx'
        cases hx'
        rfl
    · -- The other call first: its leg takes the virtual client away.
      have hmem' : (id', call') ∈ sweptCalls cfg env a.inner := mem_sweptCalls.mpr ⟨hcall', hlimit'⟩
      obtain ⟨rest, hfirst⟩ : ∃ rest, ((id', call') :: rest).Perm (sweptCalls cfg env a.inner) :=
        ⟨_, (List.perm_cons_erase hmem').symm⟩
      obtain ⟨hnd, hall⟩ := hlive hfirst
      have htold := (h _ hfirst).told id call hcall hlimit leg.virtualClient hpart hclient
      have hended := @ended_endSwept env _ _ _ hcall'
      rw [endAll_cons, ends_append, hended.sends, ends_sendMany, if_neg fun hk => hne hk.1.symm,
        ends_endAll_eq_nil (List.nodup_cons.mp hnd).2 (live_endSwept env hnd hall)] at htold
      · cases htold
      · exact .inr fun hc => ((hended.clients leg.virtualClient).mp hc).2 leg hleg rfl
  · intro h es hperm
    obtain ⟨hnd, hall⟩ := hlive hperm
    have hended := @endedAll_endAll env _ _ hnd hall
    have hmem : ∀ {id : Uuid} {call : ActiveCall}, a.inner.calls[id]? = some call →
        pastLimit cfg env a.inner call → (id, call) ∈ es := fun hcall hlimit =>
      hperm.mem_iff.mpr (mem_sweptCalls.mpr ⟨hcall, hlimit⟩)
    refine ⟨fun id call hcall hlimit c hpart hclient => ?_, fun id call hcall hlimit => ?_,
      fun id call hcall hlimit => ?_⟩
    · obtain ⟨howner, hlegs⟩ := h id call hcall hlimit
      have hne : c ≠ call.owner := fun heq => howner (heq ▸ hclient)
      have hother : c ∈ otherParties call call.owner := by
        refine FinSet.mem_erase.mpr ⟨Ne.symm hne, ?_⟩
        split
        · exact FinSet.mem_insert.mpr (.inr (hpart.resolve_left hne))
        · exact hpart.resolve_left hne
      refine ends_endAll hnd hall (hmem hcall hlimit) hother hclient fun x hx hnex leg hleg hv => ?_
      obtain ⟨hx', hlimit'⟩ := mem_sweptCalls.mp (hperm.subset hx)
      exact hlegs x.1 x.2 hx' hlimit' hnex leg hleg (hv ▸ hpart) (hv ▸ hclient)
    · exact ⟨hended.gone _ (hmem hcall hlimit), hended.freed _ (hmem hcall hlimit)⟩
    · have hout : id ∉ es.map (·.1) := by
        intro hin
        obtain ⟨x, hx, hid⟩ := List.mem_map.mp hin
        obtain ⟨hx', hlimit'⟩ := mem_sweptCalls.mp (hperm.subset hx)
        rw [hid, hcall] at hx'
        cases hx'
        exact hlimit hlimit'
      obtain ⟨hkept, hfloor⟩ := hended.kept id hout
      exact ⟨hkept.trans hcall, fun g => ⟨hended.floor g id, hfloor g⟩⟩

end Sweep

/-- Client 1 talks on group 91 and client 2 hears it. -/
def heardByTwo : AppState :=
  (((AppState.start 9).next {} (.connect 1 (.accepted .terminal) none false)).next {}
    (.connect 2 (.accepted .terminal) none false)).next {} (.packet (.plain 5) 1 (buildGroupTx 3 7 91 0))

/-- Four hours later the tick ends the call: the listener is told, the talker is
not. -/
theorem not_endNotifies : ¬ ∀ (cfg : Config) (env : Env) (a : AppState), EndNotifies cfg env a := by
  intro hall
  have hnotified := hall {} { Env.plain 6 with now := 14400 * 10 ^ 9 } heardByTwo _ (.refl _)
  have hlive : heardByTwo.inner.calls[(3 : Uuid)]? = some ⟨.group, 1, 7, 91, 0, FinSet.ofList [2], 0, 5⟩ := by
    decide +kernel
  have htold := hnotified.told 3 _ hlive (.inl ⟨by decide, by decide⟩) 1 (.inl rfl) (by decide +kernel)
  rw [← runCallDurationSweep_eq] at htold
  have hnone : (runCallDurationSweep {} { Env.plain 6 with now := 14400 * 10 ^ 9 } heardByTwo).2.ends 1 3 = [] := by
    decide +kernel
  rw [hnone] at htold
  cases htold

end BrewServer
