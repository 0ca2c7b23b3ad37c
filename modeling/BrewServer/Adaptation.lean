import BrewServer.RoundTrip
import BrewServer.Router.Group

/-!
# What is edited in a packet on its way out

A packet for a v0 connection is cut back to its v0 length, and a group transmission of
an emergency has its priority raised. Both edit bytes at fixed places, so they are read
back field by field.
-/

namespace BrewServer.Protocol

open Router

section Fields

variable {a b raw : Bytes} {o n i k : ℕ}

/-- A field is read from its own bytes. -/
theorem slice_congr (hlen : o + n ≤ a.length ↔ o + n ≤ b.length) (h : ∀ j, o ≤ j → j < o + n → a[j]? = b[j]?) :
    slice a o n = slice b o n := by
  unfold slice
  by_cases hfit : o + n ≤ a.length
  · rw [if_pos hfit, if_pos (hlen.mp hfit)]
    congr 1
    apply List.ext_getElem?
    intro j
    simp only [List.getElem?_take, List.getElem?_drop]
    split
    · exact h (o + j) (by omega) (by omega)
    · rfl
  · rw [if_neg hfit, if_neg fun h => hfit (hlen.mpr h)]

theorem slice_take (h : o + n ≤ k) : slice (raw.take k) o n = slice raw o n := by
  apply slice_congr
  · rw [List.length_take]
    omega
  · intro j _ hj
    rw [List.getElem?_take, if_pos (by omega)]

theorem slice_set (x : UInt8) (h : i < o ∨ o + n ≤ i) : slice (raw.set i x) o n = slice raw o n := by
  apply slice_congr
  · rw [List.length_set]
  · intro j hj hj'
    exact List.getElem?_set_ne (by omega)

theorem u32At_take (h : o + 4 ≤ k) : u32At (raw.take k) o = u32At raw o := by rw [u32At, slice_take h, u32At]

theorem u16At_take (h : o + 2 ≤ k) : u16At (raw.take k) o = u16At raw o := by rw [u16At, slice_take h, u16At]

theorem u32At_set (x : UInt8) (h : i < o ∨ o + 4 ≤ i) : u32At (raw.set i x) o = u32At raw o := by
  rw [u32At, slice_set x h, u32At]

theorem u16At_set (x : UInt8) (h : i < o ∨ o + 2 ≤ i) : u16At (raw.set i x) o = u16At raw o := by
  rw [u16At, slice_set x h, u16At]

end Fields

/-- The payload without the talker's name. -/
def CallPayload.withoutMnemonic : CallPayload → CallPayload
  | .groupTransmission gt => .groupTransmission { gt with mnemonic := none }
  | .circularCall c => .circularCall { c with mnemonic := none }
  | p => p

/-- The message without the talker's name. -/
def BrewMessage.withoutMnemonic : BrewMessage → BrewMessage
  | .callControl cc => .callControl { cc with payload := cc.payload.withoutMnemonic }
  | m => m

/-- How much of a payload a v0 connection receives. -/
def v0Payload (callState : UInt8) (payload : Bytes) : Bytes :=
  if callState = callGroupTx then payload.take groupTxBaseLen
  else if callState = callSetupRequest then payload.take circularCallBaseLen
  else payload

section Payloads

variable {data data' payload : Bytes} {callState : UInt8} {v w d : ConnVersion} {p : CallPayload} {id : Uuid}

theorem parseGroupTx_take {gt : GroupTransmission} (h : parseGroupTx payload = some gt) :
    parseGroupTx (payload.take groupTxBaseLen) = some { gt with mnemonic := none } := by
  have hshort : ¬ groupTxBaseLen < (payload.take groupTxBaseLen).length := by
    rw [List.length_take]
    omega
  have hbyte : ∀ i < 12, (payload.take groupTxBaseLen)[i]? = payload[i]? := fun i hi =>
    (List.getElem?_take).trans (if_pos hi)
  simp only [parseGroupTx, Option.bind_eq_bind, Option.bind_eq_some_iff, Option.pure_def, Option.some.injEq] at h
  obtain ⟨source, hsource, destination, hdest, priority, hpriority, access, haccess, service, hservice, rfl⟩ := h
  rw [parseGroupTx, if_neg hshort, u32At_take (by decide), u32At_take (by decide), u16At_take (by decide),
    hbyte 8 (by decide), hbyte 9 (by decide), hsource, hdest, hpriority, haccess, hservice]
  rfl

theorem parseCircularCall_take {mnemonic : Option String} {c : CircularCall}
    (h : parseCircularCall payload mnemonic = some c) :
    parseCircularCall (payload.take circularCallBaseLen) none = some { c with mnemonic := none } := by
  have hbyte : ∀ i < 51, (payload.take circularCallBaseLen)[i]? = payload[i]? := fun i hi =>
    (List.getElem?_take).trans (if_pos hi)
  simp only [parseCircularCall, Option.bind_eq_bind, Option.bind_eq_some_iff, Option.pure_def, Option.some.injEq] at h
  obtain ⟨source, hsource, destination, hdest, number, hnumber, priority, hpriority, service, hservice, rfl⟩ := h
  rw [parseCircularCall, u32At_take (by decide), u32At_take (by decide), slice_take (by decide),
    hbyte 40 (by decide), hbyte 41 (by decide), hsource, hdest, hnumber, hpriority, hservice]
  rfl

theorem mnemonic_parseCircularCall {c : CircularCall} (h : parseCircularCall payload none = some c) :
    c.mnemonic = none := by
  simp only [parseCircularCall, Option.bind_eq_bind, Option.bind_eq_some_iff, Option.pure_def, Option.some.injEq] at h
  obtain ⟨source, -, destination, -, number, -, priority, -, service, -, rfl⟩ := h
  rfl

/-- No other payload carries a name or shows a version. -/
theorem parseCallPayload_unnamed (hgroup : callState ≠ callGroupTx) (hsetup : callState ≠ callSetupRequest)
    (h : parseCallPayload data callState payload v = some (.ok (p, d))) :
    p.withoutMnemonic = p ∧ parseCallPayload data' callState payload w = some (.ok (p, w)) := by
  unfold parseCallPayload at h ⊢
  simp only [if_neg hgroup, if_neg hsetup, Option.bind_eq_bind, Option.pure_def] at h ⊢
  by_cases hconnect : callState = callConnectRequest
  · simp only [if_pos hconnect] at h ⊢
    by_cases hshort : payload.length < circularCallBaseLen
    · simp [if_pos hshort] at h
    · simp only [if_neg hshort, Option.bind_eq_some_iff, Option.some.injEq, Except.ok.injEq, Prod.mk.injEq] at h ⊢
      obtain ⟨c, hc, rfl, -⟩ := h
      constructor
      · show CallPayload.circularCall { c with mnemonic := none } = .circularCall c
        rw [← mnemonic_parseCircularCall hc]
      · exact ⟨c, hc, rfl, trivial⟩
  simp only [if_neg hconnect] at h ⊢
  by_cases hcause : callState = callGroupIdle ∨ callState = callSetupReject ∨ callState = callRelease
  · simp only [if_pos hcause] at h ⊢
    by_cases hshort : payload.isEmpty = true
    · simp only [if_pos hshort, Option.some.injEq, reduceCtorEq] at h
    · simp only [if_neg hshort, Option.bind_eq_some_iff, Option.some.injEq, Except.ok.injEq, Prod.mk.injEq] at h ⊢
      obtain ⟨cause, hfirst, rfl, -⟩ := h
      exact ⟨rfl, cause, hfirst, rfl, trivial⟩
  simp only [if_neg hcause] at h ⊢
  by_cases hempty : callState = callSetupAccept ∨ callState = callAlert
  · simp only [if_pos hempty, Option.some.injEq, Except.ok.injEq, Prod.mk.injEq] at h ⊢
    obtain ⟨rfl, -⟩ := h
    exact ⟨rfl, rfl, trivial⟩
  simp only [if_neg hempty] at h ⊢
  by_cases htransfer : callState = callShortTransfer
  · simp only [if_pos htransfer] at h ⊢
    by_cases hshort : payload.length < 8
    · simp [if_pos hshort] at h
    · simp only [if_neg hshort, Option.bind_eq_some_iff, Option.some.injEq, Except.ok.injEq, Prod.mk.injEq] at h ⊢
      obtain ⟨source, hsource, destination, hdest, rfl, -⟩ := h
      exact ⟨rfl, source, hsource, destination, hdest, rfl, trivial⟩
  · simp only [if_neg htransfer, Option.some.injEq, Except.ok.injEq, Prod.mk.injEq] at h ⊢
    obtain ⟨rfl, -⟩ := h
    exact ⟨rfl, rfl, trivial⟩

theorem parseCallPayload_groupTx_iff {r : CallPayload × ConnVersion} :
    parseCallPayload data callGroupTx payload v = some (.ok r) ↔
      groupTxBaseLen ≤ payload.length ∧ ∃ gt, parseGroupTx payload = some gt ∧
        r = (.groupTransmission gt, if groupTxBaseLen < payload.length then .v1 else v) := by
  unfold parseCallPayload
  by_cases hshort : payload.length < groupTxBaseLen
  · simp [if_pos hshort, Nat.not_le.mpr hshort]
  · simp only [if_pos, if_neg hshort, Option.bind_eq_bind, Option.bind_eq_some_iff, Option.pure_def, Option.some.injEq,
      Except.ok.injEq, Nat.not_lt.mp hshort, true_and]
    simp only [eq_comm]

theorem parseCallPayload_setup_iff {r : CallPayload × ConnVersion} :
    parseCallPayload data callSetupRequest payload v = some (.ok r) ↔
      circularCallBaseLen ≤ payload.length ∧ ∃ c,
        parseCircularCall payload (if circularCallBaseLen + mnemonicFieldLen ≤ payload.length then
          (slice payload circularCallBaseLen mnemonicFieldLen).bind decodeMnemonic else none) = some c ∧
        r = (.circularCall c, if circularCallBaseLen + mnemonicFieldLen ≤ payload.length then .v1 else v) := by
  have hgroup : callSetupRequest ≠ callGroupTx := by decide
  unfold parseCallPayload
  by_cases hshort : payload.length < circularCallBaseLen
  · simp [if_pos hshort, if_neg hgroup, Nat.not_le.mpr hshort]
  · simp only [if_pos, if_neg hshort, if_neg hgroup, Option.bind_eq_bind, Option.bind_eq_some_iff, Option.pure_def,
      Option.some.injEq, Except.ok.injEq, Nat.not_lt.mp hshort, true_and, decide_eq_true_eq]
    simp only [eq_comm]

/-- The payload of a v0 connection is read as the whole payload is, but for the talker's name. -/
theorem parseCallPayload_v0Payload (h : parseCallPayload data callState payload v = some (.ok (p, d))) :
    parseCallPayload data' callState (v0Payload callState payload) .v0 = some (.ok (p.withoutMnemonic, .v0)) := by
  unfold v0Payload
  by_cases hgroup : callState = callGroupTx
  · subst hgroup
    obtain ⟨hlen, gt, hgt, heq⟩ := parseCallPayload_groupTx_iff.mp h
    have hlen' : (payload.take groupTxBaseLen).length = groupTxBaseLen := by
      rw [List.length_take]
      omega
    obtain ⟨rfl, -⟩ := Prod.mk.inj heq
    rw [if_pos rfl]
    apply parseCallPayload_groupTx_iff.mpr
    rw [hlen']
    exact ⟨le_rfl, _, parseGroupTx_take hgt, rfl⟩
  · rw [if_neg hgroup]
    by_cases hsetup : callState = callSetupRequest
    · subst hsetup
      obtain ⟨hlen, c, hc, heq⟩ := parseCallPayload_setup_iff.mp h
      have hlen' : (payload.take circularCallBaseLen).length = circularCallBaseLen := by
        rw [List.length_take]
        omega
      obtain ⟨rfl, -⟩ := Prod.mk.inj heq
      rw [if_pos rfl]
      apply parseCallPayload_setup_iff.mpr
      rw [hlen']
      exact ⟨le_rfl, _, parseCircularCall_take hc, rfl⟩
    · obtain ⟨hunnamed, hparse⟩ :
          p.withoutMnemonic = p ∧ parseCallPayload data' callState payload .v0 = some (.ok (p, .v0)) :=
        parseCallPayload_unnamed hgroup hsetup h
      rw [if_neg hsetup, hunnamed]
      exact hparse

/-- An emergency's priority is all that changes in its payload. -/
theorem parseCallPayload_raised {gt : GroupTransmission}
    (h : parseCallPayload data callGroupTx payload v = some (.ok (.groupTransmission gt, d))) :
    parseCallPayload data' callGroupTx (payload.set 8 emergencyPriority) v =
      some (.ok (.groupTransmission { gt with priority := emergencyPriority }, d)) := by
  obtain ⟨hlen, gt', hgt, heq⟩ := parseCallPayload_groupTx_iff.mp h
  obtain ⟨hgt', rfl⟩ := Prod.mk.inj heq
  obtain rfl := CallPayload.groupTransmission.inj hgt'
  apply parseCallPayload_groupTx_iff.mpr
  rw [List.length_set]
  refine ⟨hlen, _, ?_, rfl⟩
  have hlen' : 8 < payload.length := Nat.lt_of_lt_of_le (by decide) hlen
  simp only [parseGroupTx, Option.bind_eq_bind, Option.bind_eq_some_iff, Option.pure_def, Option.some.injEq] at hgt ⊢
  obtain ⟨source, hsource, destination, hdest, priority, hpriority, access, haccess, service, hservice, rfl⟩ := hgt
  refine ⟨source, ?_, destination, ?_, emergencyPriority, ?_, access, ?_, service, ?_, ?_⟩
  · rw [u32At_set _ (by decide), hsource]
  · rw [u32At_set _ (by decide), hdest]
  · exact List.getElem?_set_self hlen'
  · rw [List.getElem?_set_ne (by decide), haccess]
  · rw [u16At_set _ (by decide), hservice]
  · rw [List.length_set, slice_set _ (by decide), List.drop_set_of_lt (by decide)]

end Payloads

/-! ## Whole packets -/

section Packets

variable {raw : Bytes} {v d : ConnVersion} {m : BrewMessage}

theorem parseCallControl_of_parse (h : parseWithVersion raw v = some (.ok (m, d)))
    (hclass : raw[0]? = some classCallControl) : parseCallControl raw v = some (.ok (m, d)) := by
  unfold parseWithVersion at h
  split at h
  · cases h
  · simp only [hclass, Option.bind_eq_bind, Option.bind_some] at h
    rwa [if_neg (by decide), if_pos trivial] at h

/-- An accepted call control is its head and its payload. -/
theorem callControl_of_parse (h : parseWithVersion raw v = some (.ok (m, d))) (hclass : raw[0]? = some classCallControl) :
    ∃ (callState : UInt8) (id : Uuid) (payload : Bytes) (p : CallPayload),
      raw = [classCallControl, callState] ++ id.asBytes ++ payload ∧
      m = .callControl { callState, identifier := id, payload := p } ∧
      parseCallPayload raw callState payload v = some (.ok (p, d)) := by
  have hcc := parseCallControl_of_parse h hclass
  unfold parseCallControl at hcc
  split at hcc
  · cases hcc
  · next hlen =>
    simp only [Option.bind_eq_bind, Option.bind_eq_some_iff] at hcc
    obtain ⟨id, hid, callState, hstate, r, hr, hcc⟩ := hcc
    split at hcc
    · cases hcc
    · next p d' =>
      cases hcc
      have hfit : 2 + 16 ≤ raw.length := by omega
      rw [slice, if_pos hfit] at hid
      obtain rfl := Option.some.inj hid
      have hidLen : ((raw.drop 2).take 16).length = 16 := by
        rw [List.length_take, List.length_drop]
        omega
      refine ⟨callState, _, raw.drop 18, p, ?_, rfl, hr⟩
      have hhead : raw.take 2 = [classCallControl, callState] := by
        rcases raw with _ | ⟨c, _ | ⟨t, rest⟩⟩
        · cases hclass
        · cases hstate
        · cases hclass
          cases hstate
          rfl
      rw [Uuid.asBytes_fromBytes hidLen]
      calc raw = raw.take 2 ++ raw.drop 2 := (List.take_append_drop 2 raw).symm
        _ = [classCallControl, callState] ++ raw.drop 2 := by rw [hhead]
        _ = [classCallControl, callState] ++ ((raw.drop 2).take 16 ++ (raw.drop 2).drop 16) := by
          rw [List.take_append_drop]
        _ = [classCallControl, callState] ++ (raw.drop 2).take 16 ++ raw.drop 18 := by
          rw [List.drop_drop, List.append_assoc]

/-- No other packet carries a name or shows a version. -/
theorem parseWithVersion_unversioned (h : parseWithVersion raw v = some (.ok (m, d)))
    (hclass : raw[0]? ≠ some classCallControl) (w : ConnVersion) :
    m.withoutMnemonic = m ∧ parseWithVersion raw w = some (.ok (m, w)) := by
  constructor
  · have hhead := head?_of_parse h
    rw [List.head?_eq_getElem?] at hhead
    cases m with
    | callControl cc => exact absurd hhead hclass
    | subscriber _ => rfl
    | frame _ => rfl
    | error _ => rfl
    | service _ => rfl
  · have hmap : ∀ {r : Except ParseError BrewMessage},
        r.map (fun m => (m, v)) = .ok (m, d) → r.map (fun m => (m, w)) = .ok (m, w) := by
      intro r hr
      cases r with
      | error e => cases hr
      | ok m' =>
        cases hr
        rfl
    unfold parseWithVersion at h ⊢
    by_cases hshort : raw.length < 2
    · rw [if_pos hshort] at h
      cases h
    simp only [if_neg hshort, Option.bind_eq_bind, Option.bind_eq_some_iff] at h ⊢
    obtain ⟨c, hc, h⟩ := h
    refine ⟨c, hc, ?_⟩
    have hnot : c ≠ classCallControl := fun heq => hclass (hc.trans (congrArg some heq))
    by_cases hsub : c = classSubscriber
    · simp only [if_pos hsub, Option.bind_eq_some_iff, Option.pure_def, Option.some.injEq] at h ⊢
      obtain ⟨r, hr, h⟩ := h
      exact ⟨r, hr, hmap h⟩
    simp only [if_neg hsub, if_neg hnot] at h ⊢
    by_cases hframe : c = classFrame
    · simp only [if_pos hframe, Option.bind_eq_some_iff, Option.pure_def, Option.some.injEq] at h ⊢
      obtain ⟨r, hr, h⟩ := h
      exact ⟨r, hr, hmap h⟩
    simp only [if_neg hframe] at h ⊢
    by_cases herror : c = classError
    · simp only [if_pos herror, Option.bind_eq_some_iff, Option.pure_def, Option.some.injEq, Except.ok.injEq,
        Prod.mk.injEq] at h ⊢
      obtain ⟨e, he, rfl, -⟩ := h
      exact ⟨e, he, rfl, trivial⟩
    simp only [if_neg herror] at h ⊢
    by_cases hservice : c = classService
    · simp only [if_pos hservice, Option.bind_eq_some_iff, Option.pure_def, Option.some.injEq] at h ⊢
      obtain ⟨r, hr, h⟩ := h
      exact ⟨r, hr, hmap h⟩
    · rw [if_neg hservice] at h
      cases h

variable {callState : UInt8} {id : Uuid} {payload : Bytes}

theorem length_callHead : ([classCallControl, callState] ++ id.asBytes).length = 18 := by simp

theorem adaptToVersion_callControl :
    adaptToVersion ([classCallControl, callState] ++ id.asBytes ++ payload) .v0 =
      [classCallControl, callState] ++ id.asBytes ++ v0Payload callState payload := by
  have htake : ∀ n, ([classCallControl, callState] ++ id.asBytes ++ payload).take (18 + n) =
      [classCallControl, callState] ++ id.asBytes ++ payload.take n := by
    intro n
    rw [List.take_append, length_callHead, List.take_of_length_le (by rw [length_callHead]; omega), Nat.add_sub_cancel_left]
  unfold adaptToVersion v0Payload
  rw [if_neg (by simp [ConnVersion.hasMnemonic]), htake, htake]
  have hstate : ([classCallControl, callState] ++ id.asBytes ++ payload)[1]? = some callState := rfl
  simp only [hstate, Option.some.injEq]
  split
  · rfl
  · split <;> rfl

theorem v0Payload_prefix : v0Payload callState payload <+: payload := by
  unfold v0Payload
  split
  · exact List.take_prefix _ _
  · split
    · exact List.take_prefix _ _
    · exact List.prefix_rfl

theorem v0Payload_idem : v0Payload callState (v0Payload callState payload) = v0Payload callState payload := by
  unfold v0Payload
  by_cases hgroup : callState = callGroupTx
  · simp only [if_pos hgroup, List.take_take, Nat.min_self]
  · by_cases hsetup : callState = callSetupRequest
    · simp only [if_neg hgroup, if_pos hsetup, List.take_take, Nat.min_self]
    · simp only [if_neg hgroup, if_neg hsetup]

theorem withEmergencyPriority_callControl :
    withEmergencyPriority ([classCallControl, callState] ++ id.asBytes ++ payload) =
      [classCallControl, callState] ++ id.asBytes ++ payload.set 8 emergencyPriority := by
  unfold withEmergencyPriority
  rw [List.set_append_right _ _ (by rw [length_callHead]; decide), length_callHead]
  rfl

/-- Cutting a packet back and raising its priority edit bytes apart. -/
theorem adaptToVersion_withEmergencyPriority {w : ConnVersion} :
    adaptToVersion (withEmergencyPriority ([classCallControl, callGroupTx] ++ id.asBytes ++ payload)) w =
      withEmergencyPriority (adaptToVersion ([classCallControl, callGroupTx] ++ id.asBytes ++ payload) w) := by
  cases w with
  | v1 => simp [adaptToVersion, ConnVersion.hasMnemonic]
  | v0 =>
    rw [withEmergencyPriority_callControl, adaptToVersion_callControl, adaptToVersion_callControl,
      withEmergencyPriority_callControl, v0Payload, v0Payload, if_pos rfl, if_pos rfl, List.take_set]

/-- A packet cut back for a v0 connection is read as the whole packet is, but for the
talker's name, and an emergency changes a group transmission's priority alone. -/
theorem adaptToVersion_withEmergencyPriority_parsed (h : parseWithVersion raw v = some (.ok (m, d))) :
    (adaptToVersion raw .v0 <+: raw ∧
      parseWithVersion (adaptToVersion raw .v0) .v0 = some (.ok (m.withoutMnemonic, .v0)) ∧
      adaptToVersion (adaptToVersion raw .v0) .v0 = adaptToVersion raw .v0) ∧
    ∀ id gt, m = .callControl ⟨callGroupTx, id, .groupTransmission gt⟩ →
      parseWithVersion (withEmergencyPriority raw) v =
        some (.ok (.callControl ⟨callGroupTx, id, .groupTransmission { gt with priority := emergencyPriority }⟩, d)) ∧
      ∀ w, adaptToVersion (withEmergencyPriority raw) w = withEmergencyPriority (adaptToVersion raw w) := by
  by_cases hclass : raw[0]? = some classCallControl
  · obtain ⟨callState, id, payload, p, rfl, rfl, hp⟩ := callControl_of_parse h hclass
    constructor
    · rw [adaptToVersion_callControl, adaptToVersion_callControl, v0Payload_idem, parseWithVersion_callControl,
        parseCallPayload_v0Payload hp]
      exact ⟨(List.prefix_append_right_inj _).mpr v0Payload_prefix, rfl, rfl⟩
    · intro id' gt heq
      cases heq
      constructor
      · rw [withEmergencyPriority_callControl, parseWithVersion_callControl, parseCallPayload_raised hp]
        rfl
      · intro w
        exact adaptToVersion_withEmergencyPriority
  · obtain ⟨hunnamed, hparse⟩ := parseWithVersion_unversioned h hclass .v0
    have hsame : adaptToVersion raw .v0 = raw := by
      unfold adaptToVersion
      rw [if_pos (by simp [hclass])]
    constructor
    · rw [hsame, hsame, hunnamed]
      exact ⟨List.prefix_rfl, hparse, rfl⟩
    · rintro id gt rfl
      have hhead := head?_of_parse h
      rw [List.head?_eq_getElem?] at hhead
      exact absurd hhead hclass

/-- A transmission of ISSI 1 to group 91 under the name `AB`. -/
def namedTransmission : Bytes :=
  [classCallControl, callGroupTx] ++ (1 : Uuid).asBytes ++ le32 1 ++ le32 91 ++ [0, 0] ++ le16 0 ++ [0, 16, 65, 66] ++
    List.replicate 30 0

theorem namedTransmission_adapted :
    parseWithVersion (adaptToVersion namedTransmission .v0) .v0 =
      some (.ok (.callControl ⟨callGroupTx, 1, .groupTransmission ⟨1, 91, 0, 0, 0, none⟩⟩, .v0)) ∧
    parseWithVersion (withEmergencyPriority namedTransmission) .v0 =
      some (.ok (.callControl ⟨callGroupTx, 1, .groupTransmission ⟨1, 91, 15, 0, 0, some "AB"⟩⟩, .v1)) := by
  have hparse : parseWithVersion namedTransmission .v0 =
      some (.ok (.callControl ⟨callGroupTx, 1, .groupTransmission ⟨1, 91, 0, 0, 0, some "AB"⟩⟩, .v1)) := by
    decide +kernel
  obtain ⟨⟨-, hadapted, -⟩, hraised⟩ := adaptToVersion_withEmergencyPriority_parsed hparse
  exact ⟨hadapted, (hraised 1 ⟨1, 91, 0, 0, 0, some "AB"⟩ rfl).1⟩

end Packets

end BrewServer.Protocol
