import BrewServer.Calls

/-!
# What a message tells of a call

A connection learns of a group call from its `GROUP_TX`, hears its frames and is
told of its end. Every other message leaves the calls it knows as they are.
-/

namespace BrewServer

open Protocol Fedroute Router

/-- What a message says about the call it names. -/
inductive Signal
  | announce
  | speech
  | close
  deriving DecidableEq

/-- What call control in `state` says. -/
def stateSignal (state : UInt8) : Option Signal :=
  if state = callGroupTx then some .announce
  else if state = callGroupIdle ∨ state = callRelease then some .close
  else none

/-- What a frame of type `t` says. -/
def frameSignal (t : UInt8) : Option Signal :=
  if t = frameTrafficChannel ∨ t = frameDtmf then some .speech else none

/-- What a message says, and of which call. -/
def signal (raw : Bytes) : Option (Signal × Uuid) :=
  match raw with
  | c :: t :: rest =>
    let said := if c = classCallControl then stateSignal t else if c = classFrame then frameSignal t else none
    said.map fun sig => (sig, Uuid.fromBytes (rest.take 16))
  | _ => none

namespace Sends

/-- No message of these says anything about a call. -/
def Silent (sends : Sends) : Prop := ∀ m ∈ sends, signal m.2 = none

theorem silent_nil : Silent [] := fun _ hm => absurd hm List.not_mem_nil

theorem Silent.append {a b : Sends} (ha : a.Silent) (hb : b.Silent) : Silent (a ++ b) := by
  intro m hm
  rcases List.mem_append.mp hm with h | h
  · exact ha m h
  · exact hb m h

theorem silent_send {s : Inner} {c : ClientId} {raw : Bytes} (h : signal raw = none) : Silent (s.send c raw) := by
  intro m hm
  rw [(Inner.mem_send.mp hm).1]
  exact h

theorem silent_sendMany {s : Inner} {cs : FinSet ClientId} {raw : Bytes} (h : signal raw = none) :
    Silent (s.sendMany cs raw) := by
  intro m hm
  rw [(Inner.mem_sendMany.mp hm).1]
  exact h

theorem silent_flatMap {α : Type} {l : List α} {f : α → Sends} (h : ∀ a ∈ l, (f a).Silent) :
    Silent (l.flatMap f) := by
  intro m hm
  obtain ⟨a, ha, hm⟩ := List.mem_flatMap.mp hm
  exact h a ha m hm

end Sends

section Reading

variable {raw : Bytes} {v d : ConnVersion}

theorem signal_of_head {c : UInt8} (h : raw.head? = some c) (hc : c ≠ classCallControl) (hf : c ≠ classFrame) :
    signal raw = none := by
  unfold signal
  split
  · next c' t rest =>
    obtain rfl : c' = c := Option.some.inj h
    dsimp only
    rw [if_neg hc, if_neg hf]
    rfl
  · rfl

/-- The bytes behind the state are the call's id. -/
theorem signal_of_slice {c t : UInt8} {id : Bytes} (hc : raw[0]? = some c) (ht : raw[1]? = some t)
    (hid : slice raw 2 16 = some id) :
    signal raw = (if c = classCallControl then stateSignal t else if c = classFrame then frameSignal t
      else none).map fun sig => (sig, Uuid.fromBytes id) := by
  match raw with
  | [] => cases hc
  | [_] => cases ht
  | c' :: t' :: rest =>
    obtain rfl : c' = c := Option.some.inj hc
    obtain rfl : t' = t := Option.some.inj ht
    unfold slice at hid
    split at hid
    · obtain rfl : rest.take 16 = id := Option.some.inj hid
      rfl
    · cases hid

theorem signal_callControl {cc : CallControlMessage}
    (h : parseWithVersion raw v = some (.ok (.callControl cc, d))) :
    raw[1]? = some cc.callState ∧ signal raw = (stateSignal cc.callState).map fun sig => (sig, cc.identifier) := by
  have hhead : raw[0]? = some classCallControl := by
    rw [← List.head?_eq_getElem?]
    exact head?_of_parse h
  have hcall : parseCallControl raw v = some (.ok (.callControl cc, d)) := by
    unfold parseWithVersion at h
    split at h
    · cases h
    · simp only [Option.bind_eq_bind, hhead, Option.bind_some] at h
      rwa [if_neg (by decide), if_pos trivial] at h
  unfold parseCallControl at hcall
  split at hcall
  · cases hcall
  · simp only [Option.bind_eq_bind, Option.bind_eq_some_iff] at hcall
    obtain ⟨id, hid, t, ht, r, -, hcall⟩ := hcall
    split at hcall
    · cases hcall
    · cases hcall
      refine ⟨ht, ?_⟩
      rw [signal_of_slice hhead ht hid, if_pos rfl]

theorem signal_frame {f : FrameMessage} (h : parseWithVersion raw v = some (.ok (.frame f, d))) :
    signal raw = (frameSignal f.frameType).map fun sig => (sig, f.identifier) := by
  have hhead : raw[0]? = some classFrame := by
    rw [← List.head?_eq_getElem?]
    exact head?_of_parse h
  have hframe : parseFrame raw = some (.ok (.frame f)) := by
    unfold parseWithVersion at h
    split at h
    · cases h
    · simp only [Option.bind_eq_bind, hhead, Option.bind_some] at h
      rw [if_neg (by decide), if_neg (by decide), if_pos trivial] at h
      simp only [Option.bind_eq_some_iff, Option.pure_def, Option.some.injEq] at h
      obtain ⟨r, hr, h⟩ := h
      cases r with
      | error e => cases h
      | ok m =>
        cases h
        exact hr
  unfold parseFrame at hframe
  split at hframe
  · cases hframe
  · simp only [Option.bind_eq_bind, Option.bind_eq_some_iff, Option.pure_def, Option.some.injEq,
      Except.ok.injEq] at hframe
    obtain ⟨t, ht, id, hid, len, -, hframe⟩ := hframe
    cases hframe
    rw [signal_of_slice hhead ht hid, if_neg (by decide), if_pos rfl]

end Reading

section Building

theorem signal_built {c t : UInt8} {id : Uuid} {rest : Bytes} :
    signal ([c, t] ++ (id.asBytes ++ rest)) =
      (if c = classCallControl then stateSignal t else if c = classFrame then frameSignal t else none).map
        fun sig => (sig, id) := by
  have hid : (id.asBytes ++ rest).take 16 = id.asBytes := List.take_left' (Uuid.length_asBytes id)
  change Option.map (fun sig => (sig, Uuid.fromBytes ((id.asBytes ++ rest).take 16))) _ = _
  rw [hid, Uuid.fromBytes_asBytes]

theorem signal_buildCallCause (state : UInt8) (id : Uuid) (cause : UInt8) :
    signal (buildCallCause state id cause) = (stateSignal state).map fun sig => (sig, id) := by
  rw [buildCallCause, List.append_assoc, signal_built, if_pos rfl]

@[simp] theorem signal_buildGroupTx (id : Uuid) (src dest : UInt32) (p : UInt8) :
    signal (buildGroupTx id src dest p) = some (.announce, id) := by
  rw [buildGroupTx, signal_built]
  rfl

/-- Only what is behind the id may be cut off. -/
@[simp] theorem signal_adaptToVersion (raw : Bytes) (v : ConnVersion) : signal (adaptToVersion raw v) = signal raw := by
  have hcut : ∀ n : Nat, signal (raw.take (18 + n)) = signal raw := by
    intro n
    match raw with
    | [] => rw [List.take_nil]
    | [_] =>
      rw [List.take_of_length_le]
      rw [List.length_singleton]
      omega
    | c :: t :: rest =>
      have htake : (c :: t :: rest).take (18 + n) = c :: t :: rest.take (16 + n) := by
        rw [show 18 + n = (16 + n) + 1 + 1 by omega, List.take_succ_cons, List.take_succ_cons]
      have hid : (rest.take (16 + n)).take 16 = rest.take 16 := by rw [List.take_take, Nat.min_eq_left (by omega)]
      rw [htake, signal, signal, hid]
  unfold adaptToVersion
  split
  · rfl
  · split
    · exact hcut _
    · split
      · exact hcut _
      · rfl

@[simp] theorem signal_withEmergencyPriority (raw : Bytes) : signal (withEmergencyPriority raw) = signal raw := by
  unfold withEmergencyPriority
  match raw with
  | [] => rfl
  | [_] => rfl
  | c :: t :: rest =>
    have hset : (c :: t :: rest).set groupTxPriorityAt emergencyPriority =
        c :: t :: rest.set 24 emergencyPriority := rfl
    have hid : (rest.set 24 emergencyPriority).take 16 = rest.take 16 := by
      rw [List.take_set, List.set_eq_of_length_le]
      rw [List.length_take]
      omega
    rw [hset, signal, signal, hid]

end Building

end BrewServer
