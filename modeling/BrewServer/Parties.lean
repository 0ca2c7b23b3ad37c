import BrewServer.Publish
import BrewServer.Signals

/-!
# Who takes part in a call

Most operations leave the parties of every call alone and say nothing of any
call. A packet otherwise carries a frame, ends a call, prunes a link off one, or
opens one.
-/

namespace BrewServer

open Protocol Fedroute Router Sip

/-- The parties of a call. -/
structure Roster where
  kind : CallKind
  owner : ClientId
  destination : UInt32
  peers : FinSet ClientId
  deriving DecidableEq

def ActiveCall.roster (call : ActiveCall) : Roster :=
  { kind := call.kind, owner := call.owner, destination := call.destination, peers := call.peers }

/-- Whether a connection takes part, as the talker or as a listener. -/
def Roster.Has (r : Roster) (c : ClientId) : Prop := r.owner = c ∨ c ∈ r.peers

instance (r : Roster) (c : ClientId) : Decidable (r.Has c) := by unfold Roster.Has; infer_instance

def Inner.roster (s : Inner) (id : Uuid) : Option Roster := (s.calls[id]?).map ActiveCall.roster

theorem Inner.roster_eq_some {s : Inner} {id : Uuid} {r : Roster} :
    s.roster id = some r ↔ ∃ call, s.calls[id]? = some call ∧ call.roster = r := Option.map_eq_some_iff

theorem Inner.roster_of_call {s : Inner} {id : Uuid} {call : ActiveCall} (h : s.calls[id]? = some call) :
    s.roster id = some call.roster := by rw [Inner.roster, h, Option.map_some]

theorem Inner.roster_congr {s s' : Inner} (h : s'.calls = s.calls) (id : Uuid) : s'.roster id = s.roster id := by
  rw [Inner.roster, h, Inner.roster]

theorem Inner.roster_insert {s s' : Inner} {id : Uuid} {call : ActiveCall} (h : s'.calls = s.calls.insert id call)
    (k : Uuid) : s'.roster k = if id = k then some call.roster else s.roster k := by
  rw [Inner.roster, h, FinMap.getElem?_insert]
  split <;> rfl

theorem Inner.roster_erase {s s' : Inner} {id : Uuid} (h : s'.calls = s.calls.erase id) (k : Uuid) :
    s'.roster k = if id = k then none else s.roster k := by
  rw [Inner.roster, h, FinMap.getElem?_erase]
  split <;> rfl

/-- No held SDS header says anything about a call. -/
def SilentHeld (s : Inner) : Prop :=
  ∀ (id : Uuid) (r : SdsRoute) (h : Bytes), s.sdsRoutes[id]? = some r → r.heldHeader = some h → signal h = none

namespace SilentHeld

variable {s s' : Inner} {id : Uuid}

theorem congr (h : SilentHeld s) (hd : s'.sdsRoutes = s.sdsRoutes) : SilentHeld s' :=
  fun id r hdr hr => h id r hdr (hd ▸ hr)

theorem insert (h : SilentHeld s) {r : SdsRoute} (hd : s'.sdsRoutes = s.sdsRoutes.insert id r)
    (hr : ∀ hdr, r.heldHeader = some hdr → signal hdr = none) : SilentHeld s' := by
  intro id' r' hdr hr'
  rw [hd, FinMap.getElem?_insert] at hr'
  split at hr'
  · cases hr'
    exact hr hdr
  · exact h id' r' hdr hr'

theorem erase (h : SilentHeld s) (hd : s'.sdsRoutes = s.sdsRoutes.erase id) : SilentHeld s' := by
  intro id' r' hdr hr'
  rw [hd, FinMap.getElem?_erase] at hr'
  split at hr'
  · cases hr'
  · exact h id' r' hdr hr'

theorem filter (h : SilentHeld s) {p : Uuid → SdsRoute → Bool} (hd : s'.sdsRoutes = s.sdsRoutes.filter p) :
    SilentHeld s' := by
  intro id' r' hdr hr'
  rw [hd] at hr'
  exact h id' r' hdr (FinMap.getElem?_filter.mp hr').1

end SilentHeld

/-- A step that leaves the parties of every call alone and says nothing of any. -/
structure OffCall (s s' : Inner) (sends : Sends) : Prop where
  rosters : ∀ id : Uuid, s'.roster id = s.roster id
  headers : s'.groupTxRaw = s.groupTxRaw
  held : SilentHeld s → SilentHeld s'
  silent : SilentHeld s → sends.Silent

namespace OffCall

variable {s s' s'' : Inner} {sends : Sends}

theorem refl (s : Inner) : OffCall s s [] := ⟨fun _ => rfl, rfl, id, fun _ => Sends.silent_nil⟩

theorem trans {a b : Sends} (h : OffCall s s' a) (h' : OffCall s' s'' b) : OffCall s s'' (a ++ b) :=
  ⟨fun id => (h'.rosters id).trans (h.rosters id), h'.headers.trans h.headers, fun hs => h'.held (h.held hs),
    fun hs => (h.silent hs).append (h'.silent (h.held hs))⟩

theorem of_eq (hc : s'.calls = s.calls) (hh : s'.groupTxRaw = s.groupTxRaw) (hd : s'.sdsRoutes = s.sdsRoutes)
    (hs : sends.Silent) : OffCall s s' sends :=
  ⟨Inner.roster_congr hc, hh, fun h => h.congr hd, fun _ => hs⟩

theorem sends_only (hs : sends.Silent) : OffCall s s sends := .of_eq rfl rfl rfl hs

theorem of_registers (h : Registers s s') (hs : sends.Silent) : OffCall s s' sends :=
  .of_eq h.calls h.groupTxRaw h.sdsRoutes hs

theorem of_fedOnly (h : FedOnly s s') (hs : sends.Silent) : OffCall s s' sends :=
  .of_eq (congrArg Inner.calls h :) (congrArg Inner.groupTxRaw h :) (congrArg Inner.sdsRoutes h :) hs

end OffCall

section Federation

variable {s : Inner} {nowMs : UInt64} {source : ClientId}

theorem silent_relay {links : FinSet ClientId} {except : Option ClientId} {path : List UInt64}
    {build : List UInt64 → Bytes} (h : ∀ p, signal (build p) = none) : (relay s links except path build).Silent := by
  unfold relay
  split
  · exact Sends.silent_nil
  · refine Sends.silent_flatMap fun link _ => ?_
    split
    · exact Sends.silent_nil
    · split
      · exact Sends.silent_nil
      · split
        · exact Sends.silent_nil
        · exact Sends.silent_send (h _)

theorem signal_buildBts (a : BtsAdvert) : signal (buildBts a) = none := signal_of_head rfl (by decide) (by decide)
theorem signal_buildEmergency (a : EmAdvert) : signal (buildEmergency a) = none :=
  signal_of_head rfl (by decide) (by decide)
theorem signal_buildMsPos (a : MsAdvert) : signal (buildMsPos a) = none := signal_of_head rfl (by decide) (by decide)
theorem signal_buildPrune (id : Uuid) (src : UInt32) : signal (buildPrune id src) = none :=
  signal_of_head rfl (by decide) (by decide)
theorem signal_buildSubscriberMessage (t : UInt8) (issi : UInt32) (groups : List UInt32) :
    signal (buildSubscriberMessage t issi groups) = none := signal_of_head rfl (by decide) (by decide)

theorem silent_relayBts {except : Option ClientId} {a : BtsAdvert} : (relayBts s except a).Silent :=
  silent_relay fun _ => signal_buildBts _
theorem silent_relayEm {except : Option ClientId} {a : EmAdvert} : (relayEm s except a).Silent :=
  silent_relay fun _ => signal_buildEmergency _
theorem silent_relayMs {except : Option ClientId} {a : MsAdvert} : (relayMs s except a).Silent :=
  silent_relay fun _ => signal_buildMsPos _

theorem signal_fedUpdate {selfId nbrId : UInt64} {link : ClientId} {issi : UInt32} {eff : Option Subscriber} :
    signal (fedUpdate selfId link nbrId issi eff) = none := by
  unfold fedUpdate
  split
  · split
    · exact signal_of_head rfl (by decide) (by decide)
    · exact signal_of_head rfl (by decide) (by decide)
  · exact signal_of_head rfl (by decide) (by decide)

theorem offCall_acceptBts {a : BtsAdvert} :
    OffCall s (acceptBts s nowMs source a).1 (acceptBts s nowMs source a).2 := by
  refine .of_fedOnly fedOnly_acceptBts ?_
  unfold acceptBts
  split
  · exact Sends.silent_nil
  · split
    · exact Sends.silent_nil
    · split
      · exact Sends.silent_nil
      · split
        · exact Sends.silent_nil
        · dsimp only
          exact silent_relayBts

theorem offCall_acceptEm {a : EmAdvert} : OffCall s (acceptEm s nowMs source a).1 (acceptEm s nowMs source a).2 := by
  refine .of_fedOnly fedOnly_acceptEm ?_
  unfold acceptEm
  split
  · exact Sends.silent_nil
  · split
    · exact Sends.silent_nil
    · split
      · exact Sends.silent_nil
      · dsimp only
        exact silent_relayEm

theorem offCall_acceptMs {a : MsAdvert} : OffCall s (acceptMs s source a).1 (acceptMs s source a).2 := by
  refine .of_fedOnly fedOnly_acceptMs ?_
  unfold acceptMs
  split
  · exact Sends.silent_nil
  · split
    · exact Sends.silent_nil
    · split
      · exact Sends.silent_nil
      · split
        · exact Sends.silent_nil
        · dsimp only
          exact silent_relayMs

theorem offCall_advertiseBts {key name : String} {lat lon : F64} {online : Bool} :
    OffCall s (advertiseBts s nowMs key name lat lon online).1 (advertiseBts s nowMs key name lat lon online).2 := by
  refine .of_fedOnly fedOnly_advertiseBts ?_
  unfold advertiseBts
  split
  · split
    · exact Sends.silent_nil
    · dsimp only
      exact silent_relayBts
  · split
    · exact Sends.silent_nil
    · dsimp only
      exact silent_relayBts

theorem offCall_advertiseEmergency {issi : UInt32} {dest : Option UInt32} {bts : String} {active : Bool} :
    OffCall s (advertiseEmergency s nowMs issi dest bts active).1
      (advertiseEmergency s nowMs issi dest bts active).2 := by
  refine .of_fedOnly fedOnly_advertiseEmergency ?_
  unfold advertiseEmergency
  split
  · dsimp only
    exact silent_relayEm
  · split
    · exact Sends.silent_nil
    · dsimp only
      exact silent_relayEm

theorem offCall_advertiseMs {issi : UInt32} {lat lon : F64} {atMs : UInt64} {station : String} :
    OffCall s (advertiseMs s issi lat lon atMs station).1 (advertiseMs s issi lat lon atMs station).2 := by
  refine .of_fedOnly fedOnly_advertiseMs ?_
  unfold advertiseMs
  split
  · exact Sends.silent_nil
  · split
    · exact Sends.silent_nil
    · dsimp only
      exact silent_relayMs

theorem offCall_receiveHello {nbrId : UInt64} {version : UInt8} :
    OffCall s (receiveHello s nowMs source nbrId version).1 (receiveHello s nowMs source nbrId version).2 := by
  refine .of_eq rfl rfl rfl (Sends.silent_flatMap fun m hm => Sends.silent_send ?_)
  simp only [List.mem_append] at hm
  rcases hm with (h | h) | h
  · obtain ⟨a, -, rfl⟩ := List.mem_map.mp h
    exact signal_buildBts a
  · split at h
    · obtain ⟨a, -, rfl⟩ := List.mem_map.mp h
      exact signal_buildMsPos _
    · cases h
  · split at h
    · obtain ⟨a, -, rfl⟩ := List.mem_map.mp h
      exact signal_buildEmergency a
    · cases h

theorem signal_legacyUpdates {issi : UInt32} {old new : Option Subscriber} {peer : ClientId} {raw : Bytes}
    (h : raw ∈ legacyUpdates issi old new peer) : signal raw = none := by
  obtain ⟨t, groups, rfl⟩ := mem_legacyUpdates h
  exact signal_buildSubscriberMessage t issi groups

theorem silent_publish {issi : UInt32} {old : Option Subscriber} : (publish s issi old).1.Silent := by
  unfold publish
  dsimp only
  split
  · exact Sends.silent_nil
  · refine Sends.silent_flatMap fun e _ => fun m hm => ?_
    obtain ⟨raw, hraw, rfl⟩ := List.mem_map.mp hm
    unfold linkUpdates at hraw
    split at hraw
    · cases hraw
    · split at hraw
      · rw [List.mem_singleton.mp hraw]
        exact signal_fedUpdate
      · exact signal_legacyUpdates hraw

end Federation

section Handlers

variable {cfg : Config} {env : Env} {s : Inner} {source : ClientId} {id : Uuid} {raw : Bytes}

theorem offCall_purgeEphemeral : OffCall s (purgeEphemeral env s) [] :=
  ⟨fun _ => rfl, rfl, fun h => h.filter rfl, fun _ => Sends.silent_nil⟩

theorem offCall_promoteClientVersion {v : ConnVersion} : OffCall s (promoteClientVersion s source v) [] := by
  unfold promoteClientVersion
  split
  · exact .of_eq rfl rfl rfl Sends.silent_nil
  · exact .refl s

theorem offCall_noteCall {src : UInt32} {link : ClientId} {now : Nat} : OffCall s (noteCall s id src link now) [] :=
  .of_eq rfl rfl rfl Sends.silent_nil

/-- Activity changes no party. -/
theorem roster_touch {call : ActiveCall} (hc : s.calls[id]? = some call) (k : Uuid) :
    (touch env s id call).roster k = s.roster k := by
  have hcalls : (touch env s id call).calls = s.calls.insert id { call with lastActivityMs := env.nowMs } := rfl
  rw [Inner.roster_insert hcalls]
  split
  · next hk =>
    subst hk
    exact (Inner.roster_of_call hc).symm
  · rfl

theorem offCall_touch {call : ActiveCall} {sends : Sends} (hc : s.calls[id]? = some call) (hs : sends.Silent) :
    OffCall s (touch env s id call) sends :=
  ⟨roster_touch hc, rfl, fun h => h.congr rfl, fun _ => hs⟩

theorem offCall_reportPosition {issi : UInt32} :
    OffCall s (reportPosition env s source issi raw).1 (reportPosition env s source issi raw).2 := by
  unfold reportPosition
  split
  · exact .refl s
  · unfold advertiseIfLocal
    split
    · exact .refl s
    · exact offCall_advertiseMs

theorem offCall_openSdsRoute {src dest : UInt32} {lipOnly : Bool} (hraw : signal raw = none) :
    OffCall s (openSdsRoute env s source id src dest lipOnly raw).1
      (openSdsRoute env s source id src dest lipOnly raw).2 := by
  refine ⟨fun _ => rfl, rfl, fun h => h.insert rfl fun hdr hh => ?_, fun _ => ?_⟩
  · dsimp only at hh
    split at hh
    · exact Option.some.inj hh ▸ hraw
    · cases hh
  · unfold openSdsRoute
    dsimp only
    split
    · exact Sends.silent_nil
    · exact Sends.silent_sendMany hraw

theorem offCall_handleSdsHeader {payload : CallPayload} (hraw : signal raw = none) :
    OffCall s (handleSdsHeader env s source id payload raw).inner
      (handleSdsHeader env s source id payload raw).sends := by
  unfold handleSdsHeader
  split
  · split
    · exact .refl s
    · dsimp only
      refine OffCall.trans ?_ (offCall_openSdsRoute hraw)
      split
      · exact offCall_noteCall
      · exact offCall_noteCall.trans offCall_reportPosition
  · exact .refl s

theorem offCall_originate {client : ClientId} {src dest : UInt32} {lengthBits : UInt16} {data : Bytes} :
    OffCall s (originate env s client id src dest lengthBits data).1
      (originate env s client id src dest lengthBits data).2 := by
  unfold originate
  dsimp only
  split
  · exact .refl s
  · refine ⟨fun _ => rfl, rfl, fun h => h.insert rfl (fun _ hh => nomatch hh), fun _ => ?_⟩
    exact (Sends.silent_send rfl).append (Sends.silent_send rfl)

theorem offCall_takeRoute {route : SdsRoute} (hraw : signal raw = none) (hr : s.sdsRoutes[id]? = some route) :
    OffCall s (takeRoute s id route) ((route.heldHeader.map ((takeRoute s id route).sendMany route.targets)).getD [] ++
      (takeRoute s id route).sendMany route.targets raw) := by
  refine ⟨fun _ => rfl, rfl, fun h => h.insert rfl (fun _ hh => nomatch hh), fun hheld => ?_⟩
  refine Sends.Silent.append ?_ (Sends.silent_sendMany hraw)
  cases hh : route.heldHeader with
  | none => exact Sends.silent_nil
  | some hdr => exact Sends.silent_sendMany (hheld id route hdr hr hh)

theorem offCall_handleSdsTransfer (hraw : signal raw = none) :
    OffCall s (handleSdsTransfer env s source id raw).inner (handleSdsTransfer env s source id raw).sends := by
  unfold handleSdsTransfer
  split
  · next route hroute =>
    split
    · exact .refl s
    · split
      · exact ⟨fun _ => rfl, rfl, fun h => h.erase rfl, fun _ => Sends.silent_nil⟩
      · refine OffCall.trans ?_ offCall_reportPosition
        unfold forwardSds
        dsimp only
        refine (offCall_takeRoute hraw hroute).trans ?_
        split
        · unfold reportStored
          split
          · exact .refl _
          · exact offCall_originate
        · exact .refl _
  · split
    · exact .refl s
    · exact offCall_reportPosition

theorem offCall_handleSdsReport (hraw : signal raw = none) :
    OffCall s (handleSdsReport s source id raw).inner (handleSdsReport s source id raw).sends := by
  unfold handleSdsReport
  split
  · exact .refl s
  · split
    · exact .refl s
    · dsimp only
      split
      · exact ⟨fun _ => rfl, rfl, fun h => h.erase rfl, fun _ => Sends.silent_send hraw⟩
      · exact .sends_only (Sends.silent_send hraw)

theorem offCall_deliverStored {src dest : UInt32} {lengthBits : UInt16} {data : Bytes} :
    OffCall s (deliverStored env s id src dest lengthBits data).1
      (deliverStored env s id src dest lengthBits data).2 := by
  unfold deliverStored
  split
  · exact .refl s
  · exact offCall_originate

/-- A frame either is voice or DTMF of a call its sender may speak on, or leaves
the calls alone. -/
theorem frame_cases (f : FrameMessage) (hraw : signal raw = (frameSignal f.frameType).map fun sig => (sig, f.identifier)) :
    OffCall s (frame env s source f raw).inner (frame env s source f raw).sends ∨
      ∃ call : ActiveCall, s.calls[f.identifier]? = some call ∧ mayInject call source = true ∧
        signal raw = some (.speech, f.identifier) ∧ (frame env s source f raw).inner = touch env s f.identifier call ∧
        (frame env s source f raw).sends = s.sendMany (otherParties call source) raw := by
  have hsilent : frameSignal f.frameType = none → signal raw = none := fun h => by rw [hraw, h]; rfl
  unfold frame
  split
  · next ht => exact .inl (offCall_handleSdsTransfer (hsilent (by rw [ht]; rfl)))
  · split
    · next ht => exact .inl (offCall_handleSdsReport (hsilent (by rw [ht]; rfl)))
    · split
      · next ht =>
        have hspeech : signal raw = some (.speech, f.identifier) := by
          rw [hraw, frameSignal, if_pos ht]
          rfl
        unfold routeCallFrame
        cases hc : s.calls[f.identifier]? with
        | none => exact .inl (.refl s)
        | some call =>
          dsimp only
          split
          · next hmay => exact .inr ⟨call, rfl, hmay, hspeech, rfl, rfl⟩
          · exact .inl (.refl s)
      · exact .inl (.refl s)

theorem sdsRoutes_handlePrivateSetup {payload : CallPayload} :
    (handlePrivateSetup env s source id payload raw).inner.sdsRoutes = s.sdsRoutes := by
  unfold handlePrivateSetup
  split
  · rfl
  · split
    · rfl
    · dsimp only
      split
      · rfl
      · split
        · unfold offerToSip
          split <;> rfl
        · split <;> rfl

theorem silent_handlePrivateSetup {payload : CallPayload} (hraw : signal raw = none)
    (hsip : env.sip.placement = none) : (handlePrivateSetup env s source id payload raw).sends.Silent := by
  have hreject : ∀ t : Inner, (rejectSetup t source id).Silent := fun t =>
    Sends.silent_send (by rw [signal_buildCallCause]; rfl)
  unfold handlePrivateSetup
  split
  · exact Sends.silent_nil
  · split
    · exact Sends.silent_nil
    · dsimp only
      split
      · exact hreject _
      · split
        · unfold offerToSip
          split
          · exact hreject _
          · exact Sends.silent_nil
          · next hp =>
            rw [hp] at hsip
            cases hsip
        · split
          · dsimp only
            split
            · exact Sends.silent_nil
            · exact hreject _
          · unfold connectPrivate
            dsimp only
            split
            · intro m hm
              rw [List.mem_singleton.mp hm, signal_adaptToVersion]
              exact hraw
            · exact Sends.silent_nil

/-- Without the bridge, a private call is between its caller and the connection its
destination is registered on. -/
theorem reached_handlePrivateSetup {payload : CallPayload} {req : SetupRequest} {call : ActiveCall}
    (hreq : setupRequest payload = some req) (hacc : acceptsSetup env s source id req = true)
    (hset : SetUp env s (handlePrivateSetup env s source id payload raw).inner source id call)
    (hsip : env.sip.placement = none) :
    ∃ sub, s.subscribers[req.destination]? = some sub ∧ call.peers = FinSet.ofList [sub.clientId] := by
  rw [acceptsSetup, Bool.and_eq_true, Bool.and_eq_true, Bool.not_eq_true', Bool.not_eq_true'] at hacc
  obtain ⟨⟨hdup, hbarred⟩, hdest⟩ := hacc
  cases hsub : s.subscribers[req.destination]? with
  | none =>
    rw [hsub, hsip] at hdest
    cases hdest
  | some sub =>
    rw [hsub] at hdest
    refine ⟨sub, rfl, ?_⟩
    have hstate : (handlePrivateSetup env s source id payload raw).inner =
        (connectPrivate env (noteCall s id req.source source env.now) source id req raw sub.clientId).1 := by
      unfold handlePrivateSetup
      rw [hreq]
      dsimp only
      rw [if_neg (by rw [hdup]; decide), if_neg (by rw [hbarred]; decide), hsub]
      dsimp only
      rw [if_neg (bne_iff_ne.mp hdest)]
    have hget : (connectPrivate env (noteCall s id req.source source env.now) source id req raw sub.clientId).1.calls[id]? =
        some _ := FinMap.getElem?_insert.trans (if_pos rfl)
    rw [← hstate, hset.calls, FinMap.getElem?_insert, if_pos rfl] at hget
    rw [Option.some.inj hget]

/-- Call control of a private call that is under way. -/
theorem routePrivateControl_cases (hraw : signal raw = none) :
    routePrivateControl env s source id raw = endCall env s source id raw ∧ raw[1]? = some callSetupReject ∨
      OffCall s (routePrivateControl env s source id raw).inner (routePrivateControl env s source id raw).sends := by
  unfold routePrivateControl
  split
  · next hreject => exact .inl ⟨rfl, hreject⟩
  · refine .inr ?_
    cases hc : s.calls[id]? with
    | none => exact .refl s
    | some call =>
      dsimp only
      split
      · exact .refl s
      · exact offCall_touch hc (Sends.silent_sendMany hraw)

/-- Only the talker ends a group call, either party a private one. -/
theorem endCall_cases (env : Env) (s : Inner) (source : ClientId) (id : Uuid) (raw : Bytes) :
    endCall env s source id raw = { inner := s } ∨
      ∃ call : ActiveCall, s.calls[id]? = some call ∧
        (call.owner = source ∨ (call.kind = .«private» ∧ source ∈ call.peers)) ∧
        (endCall env s source id raw).inner =
          noteCall (removeCall s id call) id call.sourceIssi call.owner env.now ∧
        (endCall env s source id raw).sends = s.sendMany (otherParties call source) raw := by
  unfold endCall
  cases hc : s.calls[id]? with
  | none => exact .inl rfl
  | some call =>
    dsimp only
    split
    · exact .inl rfl
    · next hparty =>
      rw [not_not] at hparty
      split
      · exact .inl rfl
      · next htalker =>
        refine .inr ⟨call, rfl, ?_, rfl, rfl⟩
        rcases hparty with ho | hp
        · exact .inl ho
        · cases hk : call.kind with
          | group =>
            by_contra hno
            exact htalker ⟨hk, fun ho => hno (.inl ho)⟩
          | «private» => exact .inr ⟨rfl, hp⟩

end Handlers

section Packets

/-- What the talkers and parties displaced by a transmission are told. -/
def releases (cfg : Config) (s : Inner) (id : Uuid) (gt : GroupTransmission) : Sends :=
  match floorHolder cfg s id gt with
  | some (existingId, existing) => (preempt cfg s existingId existing).2
  | none => []

/-- What call control of `source` does to the calls. -/
inductive ControlChange (cfg : Config) (env : Env) (s : Inner) (source : ClientId) (cc : CallControlMessage)
    (raw : Bytes) : Inner → Sends → Prop
  | off {s' : Inner} {sends : Sends} (off : OffCall s s' sends) : ControlChange cfg env s source cc raw s' sends
  | close {call : ActiveCall} (live : s.calls[cc.identifier]? = some call)
      (party : call.owner = source ∨ (call.kind = .«private» ∧ source ∈ call.peers))
      (said : (cc.callState = callSetupReject ∧ signal raw = none) ∨
        ((cc.callState = callGroupIdle ∨ cc.callState = callRelease) ∧ signal raw = some (.close, cc.identifier))) :
      ControlChange cfg env s source cc raw
        (noteCall (removeCall s cc.identifier call) cc.identifier call.sourceIssi call.owner env.now)
        (s.sendMany (otherParties call source) raw)
  | announce {gt : GroupTransmission} (state : cc.callState = callGroupTx)
      (payload : cc.payload = .groupTransmission gt)
      (accepted : acceptsGroupTx cfg env s source cc.identifier gt = true)
      (said : signal raw = some (.announce, cc.identifier)) :
      ControlChange cfg env s source cc raw
        (installGroupTx cfg env (freeFloor cfg s cc.identifier gt) source cc.identifier gt raw).1
        (releases cfg s cc.identifier gt ++
          (installGroupTx cfg env (freeFloor cfg s cc.identifier gt) source cc.identifier gt raw).2)
  | setUp {s' : Inner} {sends : Sends} {req : SetupRequest} {call : ActiveCall}
      (state : cc.callState = callSetupRequest) (request : setupRequest cc.payload = some req)
      (accepted : acceptsSetup env s source cc.identifier req = true)
      (opened : SetUp env s s' source cc.identifier call)
      (reached : ∃ sub, s.subscribers[req.destination]? = some sub ∧ call.peers = FinSet.ofList [sub.clientId])
      (routes : s'.sdsRoutes = s.sdsRoutes) (silent : sends.Silent) : ControlChange cfg env s source cc raw s' sends

variable {cfg : Config} {env : Env} {s : Inner} {source : ClientId} {raw : Bytes}

theorem controlChange_handleGroupTx {cc : CallControlMessage} (state : cc.callState = callGroupTx)
    (hraw : signal raw = some (.announce, cc.identifier)) :
    ControlChange cfg env s source cc raw (handleGroupTx cfg env s source cc.identifier cc.payload raw).inner
      (handleGroupTx cfg env s source cc.identifier cc.payload raw).sends := by
  unfold handleGroupTx
  split
  · next gt hpayload =>
    split
    · exact .off (.refl s)
    · next hblocked =>
      split
      · refine .off (.sends_only ?_)
        split
        · exact Sends.silent_send (signal_buildPrune ..)
        · exact Sends.silent_nil
      · next hdup =>
        rw [Bool.not_eq_true] at hblocked hdup
        cases hholder : floorHolder cfg s cc.identifier gt with
        | none =>
          have haccepted : acceptsGroupTx cfg env s source cc.identifier gt = true := by
            rw [acceptsGroupTx, hblocked, hdup, hholder]
            rfl
          have h := ControlChange.announce state hpayload haccepted hraw
          rw [freeFloor, releases, hholder] at h
          exact h
        | some holder =>
          obtain ⟨existingId, existing⟩ := holder
          dsimp only
          split
          · exact .off (.refl s)
          · next hwins =>
            rw [Bool.not_eq_true, Bool.not_eq_false'] at hwins
            have haccepted : acceptsGroupTx cfg env s source cc.identifier gt = true := by
              rw [acceptsGroupTx, hblocked, hdup, hholder]
              exact hwins
            have h := ControlChange.announce state hpayload haccepted hraw
            rw [freeFloor, releases, hholder] at h
            exact h
  · exact .off (.refl s)

theorem controlChange_endCall {cc : CallControlMessage}
    (hraw : (cc.callState = callSetupReject ∧ signal raw = none) ∨
      ((cc.callState = callGroupIdle ∨ cc.callState = callRelease) ∧ signal raw = some (.close, cc.identifier))) :
    ControlChange cfg env s source cc raw (endCall env s source cc.identifier raw).inner
      (endCall env s source cc.identifier raw).sends := by
  rcases endCall_cases env s source cc.identifier raw with heq | ⟨call, hlive, hparty, hinner, hsends⟩
  · rw [heq]
    exact .off (.refl s)
  · rw [hinner, hsends]
    exact .close hlive hparty hraw

theorem controlChange_callControl {cc : CallControlMessage} (hsip : env.sip.placement = none)
    (hone : raw[1]? = some cc.callState)
    (hraw : signal raw = (stateSignal cc.callState).map fun sig => (sig, cc.identifier)) :
    ControlChange cfg env s source cc raw (callControl cfg env s source cc raw).inner
      (callControl cfg env s source cc raw).sends := by
  unfold callControl
  split
  · next hstate =>
    refine controlChange_handleGroupTx hstate ?_
    rw [hraw, stateSignal, if_pos hstate]
    rfl
  · next hgroup =>
    split
    · next hstate =>
      refine .off (offCall_handleSdsHeader ?_)
      rw [hraw, hstate]
      rfl
    · split
      · next hstate =>
        have hsilent : signal raw = none := by
          rw [hraw, hstate]
          rfl
        rcases handlePrivateSetup_calls env s source cc.identifier cc.payload raw with
          heq | ⟨src, heq⟩ | ⟨req, call, hreq, hacc, hset⟩
        · rw [heq]
          exact .off (.sends_only (silent_handlePrivateSetup hsilent hsip))
        · rw [heq]
          exact .off (.of_eq rfl rfl rfl (silent_handlePrivateSetup hsilent hsip))
        · exact .setUp hstate hreq hacc hset (reached_handlePrivateSetup hreq hacc hset hsip)
            sdsRoutes_handlePrivateSetup (silent_handlePrivateSetup hsilent hsip)
      · split
        · next hstate =>
          have hsilent : signal raw = none := by
            rw [hraw]
            simp only [List.mem_cons, List.not_mem_nil, or_false] at hstate
            rcases hstate with h | h | h | h | h | h | h <;> rw [h] <;> rfl
          rcases @routePrivateControl_cases env s source cc.identifier raw hsilent with ⟨heq, hreject⟩ | hoff
          · rw [heq]
            exact controlChange_endCall (.inl ⟨Option.some.inj (hone.symm.trans hreject), hsilent⟩)
          · exact .off hoff
        · split
          · next hstate =>
            refine controlChange_endCall (.inr ⟨hstate, ?_⟩)
            rw [hraw, stateSignal, if_neg hgroup, if_pos hstate]
            rfl
          · exact .off (.refl s)

/-- What a packet of `source` that is no SUB message does to the calls. -/
inductive PacketCalls (cfg : Config) (env : Env) (s : Inner) (source : ClientId) (raw : Bytes) : Inner → Sends → Prop
  | off {s' : Inner} {sends : Sends} (off : OffCall s s' sends) : PacketCalls cfg env s source raw s' sends
  | prune {t : Inner} {id : Uuid} {src : UInt32} (before : Passive s t []) (off : OffCall s t [])
      (fed : raw.head? = some classFederation)
      (asked : ∃ n, s.fed.links[source]? = some n ∧ parse raw n = some (.ok (.prune id src))) :
      PacketCalls cfg env s source raw (receivePrune t source id src) []
  | speech {t : Inner} {id : Uuid} {call : ActiveCall} (before : Passive s t []) (off : OffCall s t [])
      (live : t.calls[id]? = some call) (may : mayInject call source = true)
      (said : signal raw = some (.speech, id)) :
      PacketCalls cfg env s source raw (touch env t id call) (t.sendMany (otherParties call source) raw)
  | control {t s' : Inner} {sends : Sends} {cc : CallControlMessage} (before : Passive s t []) (off : OffCall s t [])
      (arrives : arriving env s source raw = some (t, cc)) (change : ControlChange cfg env t source cc raw s' sends) :
      PacketCalls cfg env s source raw s' sends

theorem offCall_receiveRoute {nowMs : UInt64} {issi : UInt32} {a : Advert} :
    OffCall s (receiveRoute s nowMs source issi a).1 (receiveRoute s nowMs source issi a).2.1 := by
  rw [receiveRoute_eq.1, receiveRoute_eq.2]
  exact .of_registers (registers_takeOffer.trans registers_reroute) silent_publish

theorem offCall_receiveWithdraw {issi : UInt32} :
    OffCall s (receiveWithdraw s source issi).1 (receiveWithdraw s source issi).2.1 := by
  refine .of_registers registers_receiveWithdraw ?_
  unfold receiveWithdraw
  dsimp only
  split
  · rw [(settleRoute_eq (by rw [withdrawOffer_subscribers])).2]
    exact silent_publish
  · exact Sends.silent_nil

/-- A federation message prunes a call or leaves them all alone. -/
theorem handle_cases {nowMs : UInt64} :
    OffCall s (handle s nowMs source raw).1 (handle s nowMs source raw).2.1 ∨
      ∃ (id : Uuid) (src : UInt32),
        (∃ n, s.fed.links[source]? = some n ∧ parse raw n = some (.ok (.prune id src))) ∧
        (handle s nowMs source raw).1 = receivePrune s source id src ∧ (handle s nowMs source raw).2.1 = [] := by
  unfold handle
  cases hlink : s.fed.links[source]? with
  | none => exact .inl (.refl s)
  | some nbrId =>
    dsimp only
    split
    · next msg hparse =>
      cases msg with
      | route issi a => exact .inl offCall_receiveRoute
      | withdraw issi => exact .inl offCall_receiveWithdraw
      | prune id src => exact .inr ⟨id, src, ⟨nbrId, rfl, hparse⟩, rfl, rfl⟩
      | btsHello version => exact .inl offCall_receiveHello
      | bts a => exact .inl offCall_acceptBts
      | msPos a => exact .inl offCall_acceptMs
      | emergency a => exact .inl offCall_acceptEm
      | unknown t => exact .inl (.refl s)
    · exact .inl (.refl s)

theorem packetCalls_routePacket (hsip : env.sip.placement = none) (hsub : asSubscriber raw = none) :
    PacketCalls cfg env s source raw (routePacket cfg env s source raw).inner
      (routePacket cfg env s source raw).sends := by
  have hpurge : Passive s (purgeEphemeral env s) [] ∧ OffCall s (purgeEphemeral env s) [] :=
    ⟨passive_purgeEphemeral, offCall_purgeEphemeral⟩
  unfold routePacket
  dsimp only
  split
  · rcases @handle_cases (purgeEphemeral env s) source raw env.nowMs with hoff | ⟨id, src, hasked, hstate, hsends⟩
    · exact .off (hpurge.2.trans hoff)
    · rw [ofHandled, hstate, hsends]
      exact .prune hpurge.1 hpurge.2 ‹_› hasked
  · next hfed =>
    split
    · next msg d hparse =>
      have hpromote : Passive s (promoteClientVersion (purgeEphemeral env s) source d) [] ∧
          OffCall s (promoteClientVersion (purgeEphemeral env s) source d) [] :=
        ⟨hpurge.1.trans passive_promoteClientVersion, hpurge.2.trans offCall_promoteClientVersion⟩
      cases msg with
      | subscriber msg =>
        rw [asSubscriber_iff.mpr ⟨d, hparse⟩] at hsub
        cases hsub
      | error e => exact .off hpromote.2
      | service m => exact .off hpromote.2
      | frame f =>
        rcases frame_cases f (signal_frame hparse) with hoff | ⟨call, hlive, hmay, hsaid, hstate, hsends⟩
        · exact .off (hpromote.2.trans hoff)
        · rw [dispatch, hstate, hsends]
          exact .speech hpromote.1 hpromote.2 hlive hmay hsaid
      | callControl cc =>
        refine .control hpromote.1 hpromote.2 ?_
          (controlChange_callControl hsip (signal_callControl hparse).1 (signal_callControl hparse).2)
        rw [arriving, if_neg hfed, hparse]
    · exact .off hpurge.2

/-- A SUB message is handled on tables whose calls are as they were. -/
theorem routePacket_subscribes {msg : SubscriberMessage} (h : asSubscriber raw = some msg) :
    ∃ t : Inner, Passive s t [] ∧ OffCall s t [] ∧
      routePacket cfg env s source raw = ofHandled (handleSubscriber t env.nowMs source msg) := by
  obtain ⟨d, hp⟩ := (asSubscriber_iff (v := clientVersion (purgeEphemeral env s) source)).mp h
  have hhead : raw.head? = some classSubscriber := head?_of_parse hp
  refine ⟨promoteClientVersion (purgeEphemeral env s) source d,
    passive_purgeEphemeral.trans passive_promoteClientVersion,
    offCall_purgeEphemeral.trans offCall_promoteClientVersion, ?_⟩
  unfold routePacket
  dsimp only
  rw [if_neg (by rw [hhead]; decide), hp]
  rfl

/-- The outside, but for a route to SIP. -/
def withoutRoute (env : Env) : Env := { env with sip := .noRoute }

/-- Only a setup that is placed reads the route to SIP. -/
theorem handlePrivateSetup_placement {callId : String} {v : ClientId} (hsip : env.sip = .placed callId v) (id : Uuid)
    (payload : CallPayload) :
    (∃ src : UInt32, handlePrivateSetup env s source id payload raw =
        placeOutbound env (noteCall s id src source env.now) source id callId v) ∨
      handlePrivateSetup env s source id payload raw = handlePrivateSetup (withoutRoute env) s source id payload raw := by
  unfold handlePrivateSetup
  cases setupRequest payload with
  | none => exact .inr rfl
  | some req =>
    dsimp only
    change _ ∨ _ = if (s.isPeer source && isDuplicate s id req.source source env.now) = true then _ else _
    split
    · exact .inr rfl
    · change _ ∨ _ = if barred env req = true then _ else _
      split
      · exact .inr rfl
      · cases s.subscribers[req.destination]? with
        | none =>
          refine .inl ⟨req.source, ?_⟩
          dsimp only
          rw [offerToSip, hsip]
        | some sub => exact .inr rfl

/-- A packet either places a private call to SIP or does what it does without a
route there. -/
theorem routePacket_placement (cfg : Config) (env : Env) (s : Inner) (source : ClientId) (raw : Bytes) :
    (∃ (t : Inner) (cc : CallControlMessage) (callId : String) (v : ClientId) (src : UInt32), Passive s t [] ∧
      OffCall s t [] ∧ arriving env s source raw = some (t, cc) ∧ cc.callState = callSetupRequest ∧
        env.sip = .placed callId v ∧ routePacket cfg env s source raw =
          placeOutbound env (noteCall t cc.identifier src source env.now) source cc.identifier callId v) ∨
      env.sip.placement = none ∨
        routePacket cfg env s source raw = routePacket cfg (withoutRoute env) s source raw := by
  cases hsip : env.sip with
  | noRoute => exact .inr (.inl rfl)
  | noRtpPort => exact .inr (.inl rfl)
  | placed callId v =>
    have hpurge : purgeEphemeral (withoutRoute env) s = purgeEphemeral env s := rfl
    unfold routePacket
    dsimp only
    rw [hpurge]
    split
    · exact .inr (.inr rfl)
    · next hfed =>
      split
      · next msg d hparse =>
        cases msg with
        | subscriber msg => exact .inr (.inr rfl)
        | frame f => exact .inr (.inr rfl)
        | error e => exact .inr (.inr rfl)
        | service m => exact .inr (.inr rfl)
        | callControl cc =>
          have harrives : arriving env s source raw = some (promoteClientVersion (purgeEphemeral env s) source d, cc) := by
            rw [arriving, if_neg hfed, hparse]
          rw [dispatch, dispatch]
          by_cases hstate : cc.callState = callSetupRequest
          · have hcontrol : ∀ e : Env, callControl cfg e (promoteClientVersion (purgeEphemeral env s) source d) source cc raw =
                handlePrivateSetup e (promoteClientVersion (purgeEphemeral env s) source d) source cc.identifier
                  cc.payload raw := by
              intro e
              unfold callControl
              rw [hstate]
              rfl
            rw [hcontrol, hcontrol]
            rcases handlePrivateSetup_placement hsip cc.identifier cc.payload with ⟨src, heq⟩ | heq
            · exact .inl ⟨_, cc, callId, v, src, passive_purgeEphemeral.trans passive_promoteClientVersion,
                offCall_purgeEphemeral.trans offCall_promoteClientVersion, harrives, hstate, rfl, heq⟩
            · exact .inr (.inr heq)
          · refine .inr (.inr ?_)
            unfold callControl
            rw [if_neg hstate, if_neg hstate]
            rfl
      · exact .inr (.inr rfl)

end Packets

section Rosters

variable {cfg : Config} {env : Env} {s : Inner} {source : ClientId} {id : Uuid} {raw : Bytes}

/-- A prune takes one link off one call at most. -/
theorem roster_receivePrune {src : UInt32} (k : Uuid) :
    (receivePrune s source id src).roster k = s.roster k ∨
      (id = k ∧ (receivePrune s source id src).roster k =
        (s.roster k).map fun r => { r with peers := r.peers.erase source }) := by
  unfold receivePrune
  cases hc : s.calls[id]? with
  | none => exact .inl rfl
  | some call =>
    dsimp only
    split
    · have hcalls : ({ s with calls := s.calls.insert id { call with peers := call.peers.erase source } } : Inner).calls =
          s.calls.insert id { call with peers := call.peers.erase source } := rfl
      rw [Inner.roster_insert hcalls]
      split
      · next hk =>
        subst hk
        rw [Inner.roster_of_call hc]
        exact .inr ⟨rfl, rfl⟩
      · exact .inl rfl
    · exact .inl rfl

theorem roster_removeCall {call : ActiveCall} {src : UInt32} {link : ClientId} {now : Nat} (k : Uuid) :
    (noteCall (removeCall s id call) id src link now).roster k = if id = k then none else s.roster k :=
  Inner.roster_erase rfl k

/-- A call that takes on a connection, if it is a group call to one of `groups`
that does not reach it yet. -/
def Roster.enter (r : Roster) (client : ClientId) (groups : FinSet UInt32) : Roster :=
  if r.kind = .group ∧ r.destination ∈ groups ∧ ¬ r.Has client then { r with peers := r.peers.insert client } else r

theorem joins_iff {client : ClientId} {groups : FinSet UInt32} {call : ActiveCall} :
    joins client groups call = true ↔
      call.roster.kind = .group ∧ call.roster.destination ∈ groups ∧ ¬ call.roster.Has client := by
  unfold joins Roster.Has ActiveCall.roster
  rw [Bool.and_eq_true, Bool.and_eq_true, Bool.and_eq_true, decide_eq_true_eq, Std.ExtTreeSet.contains_iff_mem,
    bne_iff_ne, Bool.not_eq_true', ← Bool.not_eq_true, Std.ExtTreeSet.contains_iff_mem, not_or, and_assoc, and_assoc]

theorem roster_lateEntry {client : ClientId} {groups : FinSet UInt32} (hpeer : s.isPeer client = false)
    (hc : client ∈ s.clients) (k : Uuid) :
    (lateEntry s client groups).1.roster k = (s.roster k).map fun r => r.enter client groups := by
  obtain ⟨entry, hentry⟩ := FinMap.mem_iff.mp hc
  unfold lateEntry
  split
  · next hnone =>
    rw [hpeer, Bool.or_false, FinSet.isEmpty_iff_forall] at hnone
    cases hr : s.roster k with
    | none => rw [Option.map_none]
    | some r =>
      rw [Option.map_some, Roster.enter, if_neg]
      exact fun h => hnone r.destination h.2.1
  · rw [hentry]
    dsimp only
    rw [Inner.roster, FinMap.getElem?_map, Inner.roster, Option.map_map, Option.map_map]
    refine congrFun (congrArg Option.map ?_) _
    funext call
    dsimp only [Function.comp]
    by_cases hj : joins client groups call = true
    · rw [if_pos hj, Roster.enter, if_pos (joins_iff.mp hj)]
      rfl
    · rw [if_neg hj, Roster.enter, if_neg (mt joins_iff.mpr hj)]

/-- The alarm only brings connections in. -/
theorem roster_emergencyRaised {issi : UInt32} (k : Uuid) :
    ((emergencyRaised s issi).1.roster k = none ∧ s.roster k = none) ∨
      ∃ (r : Roster) (brought : FinSet ClientId), s.roster k = some r ∧
        (emergencyRaised s issi).1.roster k = some { r with peers := r.peers ∪ brought } := by
  have hget : (emergencyRaised s issi).1.calls[k]? = _ := FinMap.getElem?_map
  cases hc : s.calls[k]? with
  | none =>
    rw [hc] at hget
    refine .inl ⟨?_, ?_⟩
    · rw [Inner.roster, hget]
      rfl
    · rw [Inner.roster, hc]
      rfl
  | some call =>
    rw [hc, Option.map_some] at hget
    have hnone : call.peers ∪ (∅ : FinSet ClientId) = call.peers := FinSet.ext fun c => by
      rw [Std.ExtTreeSet.mem_union_iff]
      exact or_iff_left Std.ExtTreeSet.not_mem_empty
    split at hget
    · exact .inr ⟨call.roster, _, Inner.roster_of_call hc, Inner.roster_of_call hget⟩
    · refine .inr ⟨call.roster, ∅, Inner.roster_of_call hc, ?_⟩
      rw [Inner.roster_of_call hget]
      exact congrArg (fun peers => some { call.roster with peers }) hnone.symm

/-- What is left of a call when a party closes its connection. -/
def Roster.depart (r : Roster) (c : ClientId) : Option Roster :=
  if r.Has c then
    if r.kind = .group ∧ r.owner ≠ c then some { r with peers := r.peers.erase c } else none
  else some r

theorem roster_leaveCall {c : ClientId} {r : Effect} {e : Uuid × ActiveCall} (hlive : r.inner.roster e.1 = some e.2.roster)
    (hhas : e.2.roster.Has c) (k : Uuid) :
    (leaveCall c r e).inner.roster k =
      if e.1 = k then (r.inner.roster k).bind fun r => r.depart c else r.inner.roster k := by
  have hdepart : e.2.roster.depart c =
      if e.2.kind = .group ∧ e.2.owner ≠ c then some { e.2.roster with peers := e.2.peers.erase c } else none := by
    rw [Roster.depart, if_pos hhas]
    rfl
  unfold leaveCall
  dsimp only
  split
  · next hlisten =>
    refine (Inner.roster_insert (s := r.inner) rfl k).trans ?_
    split
    · next hk =>
      rw [← hk, hlive, Option.bind_some, hdepart, if_pos hlisten]
      rfl
    · rfl
  · next hends =>
    refine (Inner.roster_erase (s := r.inner) rfl k).trans ?_
    split
    · next hk => rw [← hk, hlive, Option.bind_some, hdepart, if_neg hends]
    · rfl

theorem roster_leaveCalls {c : ClientId} (k : Uuid) :
    (leaveCalls s c).inner.roster k = (s.roster k).bind fun r => r.depart c := by
  have hfold : ∀ (es : List (Uuid × ActiveCall)) (r : Effect), (es.map (·.1)).Nodup →
      (∀ e ∈ es, r.inner.roster e.1 = some e.2.roster ∧ e.2.roster.Has c) →
      (es.foldl (leaveCall c) r).inner.roster k =
        if k ∈ es.map (·.1) then (r.inner.roster k).bind fun r => r.depart c else r.inner.roster k := by
    intro es
    induction es with
    | nil => exact fun r _ _ => (if_neg List.not_mem_nil).symm
    | cons e es ih =>
      intro r hn hes
      have hn' := List.nodup_cons.mp hn
      have hone := roster_leaveCall (hes e List.mem_cons_self).1 (hes e List.mem_cons_self).2
      have hkept : ∀ e' ∈ es, (leaveCall c r e).inner.roster e'.1 = some e'.2.roster ∧ e'.2.roster.Has c := by
        intro e' he'
        have hne : e.1 ≠ e'.1 := fun h => hn'.1 (List.mem_map.mpr ⟨e', he', h.symm⟩)
        rw [hone, if_neg hne]
        exact hes e' (List.mem_cons_of_mem e he')
      rw [List.foldl_cons, ih (leaveCall c r e) hn'.2 hkept, hone, List.map_cons]
      by_cases hk : e.1 = k
      · subst hk
        rw [if_pos rfl, if_neg hn'.1, if_pos List.mem_cons_self]
      · rw [if_neg hk]
        refine if_congr ?_ rfl rfl
        rw [List.mem_cons, or_iff_right fun h => hk h.symm]
  have hinvolved : ∀ call : ActiveCall, involves c call = true ↔ call.roster.Has c := by
    intro call
    rw [involves, Bool.or_eq_true, beq_iff_eq, Std.ExtTreeSet.contains_iff_mem]
    rfl
  have hlive : ∀ e ∈ s.calls.toList.filter (fun e => involves c e.2),
      s.roster e.1 = some e.2.roster ∧ e.2.roster.Has c := by
    intro e he
    obtain ⟨hm, hi⟩ := List.mem_filter.mp he
    exact ⟨Inner.roster_of_call (FinMap.mem_toList.mp hm), (hinvolved e.2).mp hi⟩
  unfold leaveCalls
  rw [hfold _ { inner := s } (nodup_calls_filter ..) hlive]
  split
  · rfl
  · next hk =>
    cases hc : s.calls[k]? with
    | none =>
      change s.roster k = _
      rw [Inner.roster, hc]
      rfl
    | some call =>
      have hno : ¬ call.roster.Has c := fun hhas =>
        hk (List.mem_map.mpr ⟨(k, call), List.mem_filter.mpr ⟨FinMap.mem_toList.mpr hc, (hinvolved call).mpr hhas⟩, rfl⟩)
      change s.roster k = _
      rw [Inner.roster_of_call hc, Option.bind_some, Roster.depart, if_neg hno]

/-- A closing connection leaves every call it took part in. -/
theorem roster_cleanupClient {c : ClientId} (k : Uuid) :
    (cleanupClient s c).inner.roster k = (s.roster k).bind fun r => r.depart c := by
  have hforget : ∀ t : Inner, (forgetRoutes t c).roster k = t.roster k := fun t => Inner.roster_congr rfl k
  have hdropped : (dropRegistrations s c).1.roster k = (detach s c).roster k :=
    Inner.roster_congr registers_dropRegistrations.calls k
  have hdetach : (detach s c).roster k = s.roster k := Inner.roster_congr rfl k
  rw [(cleanupClient_eq s c).1, hforget, roster_leaveCalls, hdropped, hdetach]

theorem roster_installGroupTx {gt : GroupTransmission} (k : Uuid) :
    (installGroupTx cfg env s source id gt raw).1.roster k =
      if id = k then
        some ⟨.group, source, gt.destination,
          groupTargets cfg s source id gt (isEmergencyCall env gt.source gt.priority)⟩
      else s.roster k := by
  have hget : (installGroupTx cfg env s source id gt raw).1.calls[k]? = if id = k then some _ else s.calls[k]? :=
    FinMap.getElem?_insert
  rw [Inner.roster, hget]
  split <;> rfl

theorem roster_freeFloor {gt : GroupTransmission} (k : Uuid) :
    (freeFloor cfg s id gt).roster k =
      if (floorHolder cfg s id gt).any (·.1 == k) then none else s.roster k := by
  unfold freeFloor
  cases floorHolder cfg s id gt with
  | none => rfl
  | some holder =>
    have hcalls : (preempt cfg s holder.1 holder.2).1.calls = s.calls.erase holder.1 := rfl
    have herase := Inner.roster_erase hcalls k
    rw [Option.any_some]
    by_cases hk : holder.1 = k
    · rw [if_pos hk] at herase
      rw [if_pos (beq_iff_eq.mpr hk)]
      exact herase
    · rw [if_neg hk] at herase
      rw [if_neg fun h => hk (beq_iff_eq.mp h)]
      exact herase

theorem roster_setUp {s' : Inner} {call : ActiveCall} (h : SetUp env s s' source id call) (k : Uuid) :
    s'.roster k = if id = k then some call.roster else s.roster k := Inner.roster_insert h.calls k

end Rosters

section Sweep

/-- One call of the sweep, when no leg is on it. -/
def sweepStep (env : Env) (q : Inner × Sends) (e : Uuid × ActiveCall) : Inner × Sends :=
  ((sweepEnd env q.1 e.1 e.2).inner, q.2 ++ (sweepEnd env q.1 e.1 e.2).sends)

def sweepAll (cfg : Config) (env : Env) (s : Inner) : Inner × Sends :=
  (sweptCalls cfg env s).foldl (sweepStep env) (s, [])

/-- What one swept call keeps, all keep. -/
theorem sweepAll_induct {P : Inner × Sends → Prop} {cfg : Config} {env : Env} {s : Inner} (hstart : P (s, []))
    (hstep : ∀ q, P q → ∀ e ∈ sweptCalls cfg env s, P (sweepStep env q e)) : P (sweepAll cfg env s) :=
  List.foldlRecOn (sweptCalls cfg env s) _ hstart hstep

/-- Without the bridge, a tick of the sweep ends the calls it found and no more. -/
theorem sweep_of_empty (cfg : Config) (env : Env) {a : AppState} (hl : a.legs = ∅) :
    runCallDurationSweep cfg env a =
      ({ inner := (sweepAll cfg env a.inner).1, legs := ∅ }, (sweepAll cfg env a.inner).2) := by
  have hfold : ∀ (es : List (Uuid × ActiveCall)) (q : AppState × Sends), q.1.legs = ∅ →
      es.foldl (fun q e => ((settle q.1 (sweepEnd env q.1.inner e.1 e.2)).1,
          q.2 ++ (settle q.1 (sweepEnd env q.1.inner e.1 e.2)).2)) q =
        ({ inner := (es.foldl (sweepStep env) (q.1.inner, q.2)).1, legs := ∅ },
          (es.foldl (sweepStep env) (q.1.inner, q.2)).2) := by
    intro es
    induction es with
    | nil =>
      rintro ⟨⟨inner, legs⟩, sends⟩ rfl
      rfl
    | cons e es ih =>
      intro q hq
      have hone := settle_of_empty (e := sweepEnd env q.1.inner e.1 e.2) hq placed_sweepEnd
      rw [List.foldl_cons, List.foldl_cons, ih _ (by rw [hone]), hone]
      rfl
  exact hfold (sweptCalls cfg env a.inner) (a, []) hl

/-- What ending a call in its owner's name gives. -/
theorem sweepEnd_cases (env : Env) (s : Inner) (id : Uuid) (swept : ActiveCall) :
    sweepEnd env s id swept = { inner := s } ∨
      ∃ (call : ActiveCall) (raw : Bytes), s.calls[id]? = some call ∧
        (call.owner = swept.owner ∨ (call.kind = .«private» ∧ swept.owner ∈ call.peers)) ∧
        signal raw = some (.close, id) ∧
        (sweepEnd env s id swept).inner =
          noteCall (removeCall s id call) id call.sourceIssi call.owner env.now ∧
        (sweepEnd env s id swept).sends = s.sendMany (otherParties call swept.owner) raw := by
  have hclose : signal (buildCallCause (if swept.kind = .group then callGroupIdle else callRelease) id 0) =
      some (.close, id) := by
    rw [signal_buildCallCause]
    split <;> rfl
  rcases endCall_cases env s swept.owner id
    (buildCallCause (if swept.kind = .group then callGroupIdle else callRelease) id 0) with
    heq | ⟨call, hlive, hparty, hinner, hsends⟩
  · exact .inl heq
  · exact .inr ⟨call, _, hlive, hparty, hclose, hinner, hsends⟩

/-- The sweep only ends calls. -/
theorem roster_foldl_sweepStep {env : Env} {es : List (Uuid × ActiveCall)} {q : Inner × Sends} {k : Uuid} {r : Roster}
    (h : (es.foldl (sweepStep env) q).1.roster k = some r) : q.1.roster k = some r := by
  induction es generalizing q with
  | nil => exact h
  | cons e es ih =>
    have hend : (sweepEnd env q.1 e.1 e.2).inner.roster k = some r := ih h
    rcases sweepEnd_cases env q.1 e.1 e.2 with heq | ⟨call, raw, -, -, -, hinner, -⟩
    · rw [heq] at hend
      exact hend
    · rw [hinner, roster_removeCall] at hend
      split at hend
      · cases hend
      · exact hend

theorem roster_sweepAll {cfg : Config} {env : Env} {s s' : Inner} {sends : Sends} {k : Uuid} {r : Roster}
    (h : sweepAll cfg env s = (s', sends)) (hr : s'.roster k = some r) : s.roster k = some r := by
  have hswept : (sweepAll cfg env s).1.roster k = some r := by rw [h, hr]
  exact roster_foldl_sweepStep hswept

theorem passive_sweepAll {cfg : Config} {env : Env} {s s' : Inner} {sends : Sends}
    (h : sweepAll cfg env s = (s', sends)) : Passive s s' sends := by
  have hall : Passive s (sweepAll cfg env s).1 (sweepAll cfg env s).2 :=
    sweepAll_induct (P := fun q => Passive s q.1 q.2) (.refl s) fun _ hq _ _ => hq.trans passive_sweepEnd
  rw [h] at hall
  exact hall

end Sweep

section Runs

variable {cfg : Config} {a : AppState}

/-- Without the bridge, an event gives what its handler gives. -/
theorem run_of_empty (ev : Event) (hl : a.legs = ∅) (hr : ev.Routed) (hsip : ev.WithoutSip) :
    a.run cfg ev = ({ inner := (routeEvent cfg a.inner ev).inner, legs := ∅ }, (routeEvent cfg a.inner ev).sends) := by
  rw [a.run_routed cfg hr, settle_of_empty hl (placed_of_withoutSip hsip)]

theorem run_connect (hl : a.legs = ∅) (id : ClientId) (client : Client) (neighbour : Option UInt64) (console : Bool) :
    a.run cfg (.connect id client neighbour console) =
      ({ inner := (openSession a.inner id client neighbour console).1, legs := ∅ },
        (openSession a.inner id client neighbour console).2) :=
  run_of_empty (.connect id client neighbour console) hl trivial trivial

theorem run_packet (hl : a.legs = ∅) {env : Env} (source : ClientId) (raw : Bytes) (hsip : env.sip.placement = none) :
    a.run cfg (.packet env source raw) =
      ({ inner := (routePacket cfg env a.inner source raw).inner, legs := ∅ },
        (routePacket cfg env a.inner source raw).sends) :=
  run_of_empty (.packet env source raw) hl trivial hsip

theorem run_disconnect (hl : a.legs = ∅) (id : ClientId) :
    a.run cfg (.disconnect id) =
      ({ inner := (cleanupClient a.inner id).inner, legs := ∅ }, (cleanupClient a.inner id).sends) :=
  run_of_empty (.disconnect id) hl trivial trivial

theorem run_alarm (hl : a.legs = ∅) (issi : UInt32) :
    a.run cfg (.alarm issi) =
      ({ inner := (emergencyRaised a.inner issi).1, legs := ∅ }, (emergencyRaised a.inner issi).2) :=
  run_of_empty (.alarm issi) hl trivial trivial

/-- Without the bridge, a tick of the sweep. -/
theorem run_sweep_of_empty (cfg : Config) (hl : a.legs = ∅) (env : Env) :
    ∃ (s' : Inner) (sends : Sends), sweepAll cfg env a.inner = (s', sends) ∧
      a.run cfg (.sweep env) = ({ inner := s', legs := ∅ }, sends) ∧ Passive a.inner s' sends := by
  cases h : sweepAll cfg env a.inner with
  | mk s' sends =>
    refine ⟨s', sends, rfl, ?_, passive_sweepAll h⟩
    rw [a.run_sweep cfg env, sweep_of_empty cfg env hl, h]

/-- Events that concern neither a call nor a registration. -/
def Event.Aside : Event → Prop
  | .smsDeliver .. | .advertiseBts .. | .advertiseEmergency .. => True
  | _ => False

theorem run_aside (cfg : Config) {ev : Event} (hl : a.legs = ∅) (h : ev.Aside) :
    ∃ (s' : Inner) (sends : Sends), a.run cfg ev = ({ inner := s', legs := ∅ }, sends) ∧
      Passive a.inner s' sends ∧ OffCall a.inner s' sends := by
  cases ev with
  | smsDeliver env id src dest lengthBits data =>
    exact ⟨_, _, run_of_empty (.smsDeliver env id src dest lengthBits data) hl trivial trivial,
      passive_deliverStored, offCall_deliverStored⟩
  | advertiseBts nowMs key name lat lon online =>
    exact ⟨_, _, run_of_empty (.advertiseBts nowMs key name lat lon online) hl trivial trivial,
      passive_advertiseBts, offCall_advertiseBts⟩
  | advertiseEmergency nowMs issi dest bts active =>
    exact ⟨_, _, run_of_empty (.advertiseEmergency nowMs issi dest bts active) hl trivial trivial,
      passive_advertiseEmergency, offCall_advertiseEmergency⟩
  | connect id client neighbour console => exact h.elim
  | packet env source raw => exact h.elim
  | disconnect id => exact h.elim
  | alarm issi => exact h.elim
  | sweep env => exact h.elim
  | sipPrivate env callId issi v id rtpPort => exact h.elim
  | sipGroup env callId g v id rtpPort => exact h.elim
  | sipEnd callId => exact h.elim

end Runs

end BrewServer
