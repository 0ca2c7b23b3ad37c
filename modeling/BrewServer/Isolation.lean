import BrewServer.Signals
import BrewServer.Server

/-!
# Outsiders of a private call

The end of a private call and its frames are taken from its two parties only.
The control in between is passed on whoever sends it.
-/

namespace BrewServer

open Protocol Fedroute Router Sip

/-- Call control of a running private call that is passed on between its parties. -/
def relayedStates : List UInt8 :=
  [callSetupAccept, callAlert, callConnectRequest, callConnectConfirm, callSimplexGranted, callSimplexIdle]

def endingStates : List UInt8 := [callSetupReject, callRelease, callGroupIdle]

/-- The call whose party a message speaks as: by control of it, by its end, or by
a voice or DTMF frame. -/
def spokenFor : BrewMessage → Option Uuid
  | .callControl cc => if cc.callState ∈ relayedStates ∨ cc.callState ∈ endingStates then some cc.identifier else none
  | .frame f => if f.frameType = frameTrafficChannel ∨ f.frameType = frameDtmf then some f.identifier else none
  | _ => none

def isRelayed : BrewMessage → Bool
  | .callControl cc => decide (cc.callState ∈ relayedStates)
  | _ => false

/-- No party of the call is sent anything, and the calls stay as they are. -/
structure Isolated (s s' : Inner) (sends : Sends) (call : ActiveCall) : Prop where
  unsent : ∀ m ∈ sends, ¬ call.isParty m.1
  calls : s'.calls = s.calls

section Outsider

variable {cfg : Config} {env : Env} {s : Inner} {source : ClientId} {id : Uuid} {raw : Bytes} {call : ActiveCall}

theorem endCall_outsider (hlive : s.calls[id]? = some call) (hout : ¬ call.isParty source) :
    endCall env s source id raw = { inner := s } := by
  have hparty : ¬ (call.owner = source ∨ source ∈ call.peers) := fun h => hout (h.imp Eq.symm fun hp => hp)
  simp only [endCall, hlive, if_pos hparty]

theorem routeCallFrame_outsider (hlive : s.calls[id]? = some call) (hkind : call.kind = .«private»)
    (hout : ¬ call.isParty source) : routeCallFrame env s source id raw = { inner := s } := by
  have hmay : mayInject call source = false := by
    rw [mayInject, hkind]
    have howner : (call.owner == source) = false := beq_eq_false_iff_ne.mpr fun h => hout (.inl h.symm)
    have hpeer : call.peers.contains source = false := by
      rw [Bool.eq_false_iff, ne_eq, Std.ExtTreeSet.contains_iff_mem]
      exact fun h => hout (.inr h)
    simp only [howner, hpeer, Bool.or_false]
  simp only [routeCallFrame, hlive, hmay, Bool.false_eq_true, if_false]

theorem routePrivateControl_relayed (hlive : s.calls[id]? = some call) (hkind : call.kind = .«private»)
    (hraw : raw[1]? ≠ some callSetupReject) :
    routePrivateControl env s source id raw =
      { inner := touch env s id call, sends := s.sendMany (otherParties call source) raw } := by
  simp only [routePrivateControl, if_neg hraw, hlive, hkind, ne_eq, not_true_eq_false, if_false]

/-- What a message of an outsider does: control is passed on, all else is dropped. -/
theorem dispatch_outsider {msg : BrewMessage} {v d : ConnVersion} (hlive : s.calls[id]? = some call)
    (hkind : call.kind = .«private») (hout : ¬ call.isParty source)
    (hparse : parseWithVersion raw v = some (.ok (msg, d))) (hspoken : spokenFor msg = some id) :
    dispatch cfg env s source raw msg =
      if isRelayed msg then { inner := touch env s id call, sends := s.sendMany (otherParties call source) raw }
      else { inner := s } := by
  cases msg with
  | callControl cc =>
    obtain ⟨hstate, -⟩ := signal_callControl hparse
    rw [spokenFor] at hspoken
    split at hspoken
    · next hkinds =>
      obtain rfl : cc.identifier = id := Option.some.inj hspoken
      simp only [dispatch, callControl, isRelayed, decide_eq_true_eq]
      rcases hkinds with hrelayed | hending
      · rw [if_pos hrelayed]
        have hne : raw[1]? ≠ some callSetupReject := by
          rw [hstate]
          intro h
          rw [Option.some.inj h] at hrelayed
          revert hrelayed
          decide
        rw [← routePrivateControl_relayed hlive hkind hne]
        simp only [relayedStates, List.mem_cons, List.not_mem_nil, or_false] at hrelayed
        rcases hrelayed with h | h | h | h | h | h <;> rw [h] <;> rfl
      · simp only [endingStates, List.mem_cons, List.not_mem_nil, or_false] at hending
        rw [if_neg (by rcases hending with h | h | h <;> rw [h] <;> decide), ← @endCall_outsider env _ _ _ raw _ hlive hout]
        rcases hending with h | h | h
        · have hreject : raw[1]? = some callSetupReject := by rw [hstate, h]
          rw [h, ← show routePrivateControl env s source cc.identifier raw = endCall env s source cc.identifier raw
            from if_pos hreject]
          rfl
        · rw [h]; rfl
        · rw [h]; rfl
    · cases hspoken
  | frame f =>
    rw [spokenFor] at hspoken
    split at hspoken
    · next htype =>
      obtain rfl : f.identifier = id := Option.some.inj hspoken
      have hframe : dispatch cfg env s source raw (.frame f) = routeCallFrame env s source f.identifier raw := by
        simp only [dispatch, frame]
        rcases htype with h | h <;> rw [h] <;> rfl
      rw [hframe, routeCallFrame_outsider hlive hkind hout]
      rfl
    · cases hspoken
  | subscriber _ => cases hspoken
  | service _ => cases hspoken
  | error _ => cases hspoken

/-- Reading a packet keeps the calls and the connections. -/
theorem read_packet (env : Env) (s : Inner) (source : ClientId) (d : ConnVersion) :
    (promoteClientVersion (purgeEphemeral env s) source d).calls = s.calls ∧
      ∀ c, c ∈ (promoteClientVersion (purgeEphemeral env s) source d).clients ↔ c ∈ s.clients := by
  have hclients : (purgeEphemeral env s).clients = s.clients := rfl
  unfold promoteClientVersion
  split
  · refine ⟨rfl, ?_⟩
    intro c
    rw [Std.ExtTreeMap.mem_modify, hclients]
  · exact ⟨rfl, fun c => Iff.rfl⟩

/-- A packet of an outsider, on the tables as they were. -/
theorem routePacket_outsider {msg : BrewMessage} {d : ConnVersion} (hlive : s.calls[id]? = some call)
    (hkind : call.kind = .«private») (hout : ¬ call.isParty source)
    (hparse : parseWithVersion raw (clientVersion s source) = some (.ok (msg, d))) (hspoken : spokenFor msg = some id) :
    let t := promoteClientVersion (purgeEphemeral env s) source d
    routePacket cfg env s source raw =
      if isRelayed msg then { inner := touch env t id call, sends := t.sendMany (otherParties call source) raw }
      else { inner := t } := by
  intro t
  have hfed : raw.head? ≠ some classFederation := by
    rw [head?_of_parse hparse]
    cases msg with
    | callControl _ =>
      have hne : classCallControl ≠ classFederation := by decide
      exact fun h => hne (Option.some.inj h)
    | frame _ =>
      have hne : classFrame ≠ classFederation := by decide
      exact fun h => hne (Option.some.inj h)
    | subscriber _ => cases hspoken
    | service _ => cases hspoken
    | error _ => cases hspoken
  have hlive' : t.calls[id]? = some call := by rw [(read_packet env s source d).1, hlive]
  have hversion : clientVersion (purgeEphemeral env s) source = clientVersion s source := rfl
  rw [← @dispatch_outsider cfg env t source id raw call msg _ d hlive' hkind hout hparse hspoken]
  simp only [routePacket, hversion, hparse, if_neg hfed]
  rfl

theorem mem_parties {c : ClientId} (hkind : call.kind = .«private») (hout : ¬ call.isParty source) :
    c ∈ otherParties call source ↔ call.isParty c := by
  rw [otherParties, if_pos hkind, FinSet.mem_erase, FinSet.mem_insert, ActiveCall.isParty]
  constructor
  · rintro ⟨-, h⟩
    exact h.imp Eq.symm fun hp => hp
  · intro h
    refine ⟨?_, h.imp Eq.symm fun hp => hp⟩
    rintro rfl
    exact hout h

theorem touch_calls_eq (hlive : s.calls[id]? = some call) :
    (touch env s id call).calls = s.calls ↔ call.lastActivityMs = env.nowMs := by
  constructor
  · intro h
    have hid := congrArg (·[id]?) h
    simp only [touch, FinMap.getElem?_insert, if_true, hlive, Option.some.injEq] at hid
    rw [← hid]
  · intro h
    have hsame : { call with lastActivityMs := env.nowMs } = call := by rw [← h]
    refine FinMap.ext fun k => ?_
    rw [touch, hsame, FinMap.getElem?_insert]
    split
    · next hk => rw [← hk, hlive]
    · rfl

end Outsider

/-- Control, frames and ends of a private call that come from an outsider reach no
party and change no call exactly when they are not control that is passed on
(or nobody is left to get it, and the call was active this very millisecond). -/
theorem isolated_iff {cfg : Config} {env : Env} {a : AppState} {source : ClientId} {id : Uuid} {raw : Bytes}
    {call : ActiveCall} {msg : BrewMessage} {d : ConnVersion} (hlive : a.inner.calls[id]? = some call)
    (hkind : call.kind = .«private») (hout : ¬ call.isParty source)
    (hparse : parseWithVersion raw (clientVersion a.inner source) = some (.ok (msg, d)))
    (hspoken : spokenFor msg = some id) :
    Isolated a.inner (a.next cfg (.packet env source raw)).inner (a.sent cfg (.packet env source raw)) call ↔
      isRelayed msg = false ∨
        (∀ c, call.isParty c → c ∉ a.inner.clients) ∧ call.lastActivityMs = env.nowMs := by
  obtain ⟨hcalls, hclients⟩ := read_packet env a.inner source d
  have hroute := @routePacket_outsider cfg env _ _ _ _ _ _ _ hlive hkind hout hparse hspoken
  generalize promoteClientVersion (purgeEphemeral env a.inner) source d = t at hcalls hclients hroute
  have hrun : a.run cfg (.packet env source raw) = settle a (routePacket cfg env a.inner source raw) := rfl
  rw [AppState.next, AppState.sent, hrun, hroute]
  cases hmsg : isRelayed msg with
  | false =>
    have hiso : Isolated a.inner t [] call := ⟨fun _ hm => absurd hm List.not_mem_nil, hcalls⟩
    exact ⟨fun _ => .inl rfl, fun _ => hiso⟩
  | true =>
    have hlive' : t.calls[id]? = some call := by rw [hcalls, hlive]
    change Isolated a.inner (touch env t id call) (t.sendMany (otherParties call source) raw) call ↔ _
    constructor
    · intro hiso
      refine .inr ⟨?_, (touch_calls_eq hlive').mp (hiso.calls.trans hcalls.symm)⟩
      intro c hc hclient
      have hsent : (c, raw) ∈ t.sendMany (otherParties call source) raw :=
        Inner.mem_sendMany.mpr ⟨rfl, (mem_parties hkind hout).mpr hc, (hclients c).mpr hclient⟩
      exact hiso.unsent _ hsent hc
    · rintro (h | ⟨hgone, hactive⟩)
      · cases h
      · refine ⟨?_, ((touch_calls_eq hlive').mpr hactive).trans hcalls⟩
        intro m hm hparty
        obtain ⟨-, -, hclient⟩ := Inner.mem_sendMany.mp hm
        exact hgone m.1 hparty ((hclients m.1).mp hclient)

/-- A radio on connection 2, and a private call to it from connection 1; connection
3 looks on. -/
def privateCall : AppState :=
  [.connect 1 (.accepted .basestation) none false, .connect 2 (.accepted .basestation) none false,
    .connect 3 (.accepted .basestation) none false,
    .packet (.plain 5) 2 (buildSubscriberMessage subRegister 8 []),
    .packet (.plain 6) 1 (buildCircularCallSetup 4 7 8 0)].foldl (AppState.next {}) (AppState.start 9)

theorem isolated_release :
    Isolated privateCall.inner (privateCall.next {} (.packet (.plain 7) 3 (buildCallCause callRelease 4 1))).inner
      (privateCall.sent {} (.packet (.plain 7) 3 (buildCallCause callRelease 4 1)))
      { kind := .«private», owner := 1, sourceIssi := 7, destination := 8, priority := 0,
        peers := FinSet.ofList [2], startedAt := 0, lastActivityMs := 6 } := by
  have hparse : parseWithVersion (buildCallCause callRelease 4 1) (clientVersion privateCall.inner 3) =
      some (.ok (.callControl { callState := callRelease, identifier := 4, payload := .cause 1 }, .v0)) := by
    decide +kernel
  exact (isolated_iff (by decide +kernel) rfl (by decide) hparse rfl).mpr (.inl rfl)

/-- Connection 3 has no part in the call, yet its alert reaches both parties. -/
theorem not_isolated_alert :
    Reach (AppState.start 9) (fun a ev => ev.Allowed a) (AppState.next {}) privateCall ∧
      ¬ ∀ (env : Env) (source : ClientId) (raw : Bytes) (id : Uuid) (call : ActiveCall) (msg : BrewMessage)
        (d : ConnVersion), privateCall.inner.calls[id]? = some call → call.kind = .«private» → ¬ call.isParty source →
        parseWithVersion raw (clientVersion privateCall.inner source) = some (.ok (msg, d)) → spokenFor msg = some id →
        Isolated privateCall.inner (privateCall.next {} (.packet env source raw)).inner
          (privateCall.sent {} (.packet env source raw)) call := by
  constructor
  · exact .of_list _ .init (by decide +kernel)
  · intro hall
    have h := hall (.plain 7) 3 (buildCallControlEmpty callAlert 4) 4
      { kind := .«private», owner := 1, sourceIssi := 7, destination := 8, priority := 0,
        peers := FinSet.ofList [2], startedAt := 0, lastActivityMs := 6 }
      (.callControl { callState := callAlert, identifier := 4, payload := .empty }) .v0 (by decide +kernel) rfl
      (by decide) (by decide +kernel) rfl
    have hsent : (2, buildCallControlEmpty callAlert 4) ∈
        privateCall.sent {} (.packet (.plain 7) 3 (buildCallControlEmpty callAlert 4)) := by decide +kernel
    exact h.unsent _ hsent (.inr (by decide))

end BrewServer
