import BrewServer.Steps

/-!
# What the operations do to the calls

Most operations leave the running calls to go on, or end some of them. Only an
accepted group transmission and an accepted private setup open a call.
-/

namespace BrewServer

open Protocol Fedroute Router Sip

/-- No call is opened and no connection joins: calls go on or end, the floor of a
call that goes on stays with it, and a party is added only to a group call, from
the connections there are. -/
structure Continues (s s' : Inner) : Prop where
  calls : ∀ (id : Uuid) (call' : ActiveCall), s'.calls[id]? = some call' → ∃ call : ActiveCall,
    s.calls[id]? = some call ∧ call'.kind = call.kind ∧ call'.destination = call.destination ∧
      call'.owner = call.owner ∧ call'.sourceIssi = call.sourceIssi ∧
      ∀ c ∈ call'.peers, c ∈ call.peers ∨ call.kind = .group ∧ (c ∈ s.consoles ∨ c ∈ s.clients)
  floor : ∀ (g : UInt32) (id : Uuid), s'.groupFloor[g]? = some id → s.groupFloor[g]? = some id
  kept : ∀ (id : Uuid) (call : ActiveCall), s'.calls[id]? = some call → call.kind = .group →
    s.groupFloor[call.destination]? = some id → s'.groupFloor[call.destination]? = some id
  clients : ∀ c ∈ s'.clients, c ∈ s.clients
  consoles : ∀ c ∈ s'.consoles, c ∈ s.consoles

namespace Continues

theorem refl (s : Inner) : Continues s s :=
  ⟨fun _ call h => ⟨call, h, rfl, rfl, rfl, rfl, fun _ hc => .inl hc⟩, fun _ _ h => h, fun _ _ _ _ h => h,
    fun _ h => h, fun _ h => h⟩

theorem trans {s s' s'' : Inner} (h : Continues s s') (h' : Continues s' s'') : Continues s s'' := by
  refine ⟨fun id call'' hc'' => ?_, fun g id hf => h.floor g id (h'.floor g id hf), fun id call'' hc'' hk hf => ?_,
    fun c hc => h.clients c (h'.clients c hc), fun c hc => h.consoles c (h'.consoles c hc)⟩
  · obtain ⟨call', hc', hk', hd', ho', hs', hp'⟩ := h'.calls id call'' hc''
    obtain ⟨call, hc, hk, hd, ho, hs, hp⟩ := h.calls id call' hc'
    refine ⟨call, hc, hk'.trans hk, hd'.trans hd, ho'.trans ho, hs'.trans hs, fun c hm => ?_⟩
    rcases hp' c hm with hm | ⟨hg, hm⟩
    · exact hp c hm
    · exact .inr ⟨hk ▸ hg, hm.imp (h.consoles c) (h.clients c)⟩
  · obtain ⟨call', hc', hk', hd', -⟩ := h'.calls id call'' hc''
    refine h'.kept id call'' hc'' hk ?_
    rw [hd'] at hf ⊢
    exact h.kept id call' hc' (hk'.symm.trans hk) hf

/-- The calls are as they were. -/
theorem of_eq {s s' : Inner} (hc : s'.calls = s.calls) (hf : s'.groupFloor = s.groupFloor)
    (hcl : s'.clients = s.clients) (hco : s'.consoles = s.consoles) : Continues s s' :=
  ⟨fun _ call h => ⟨call, hc ▸ h, rfl, rfl, rfl, rfl, fun _ hm => .inl hm⟩, fun _ _ h => hf ▸ h,
    fun _ _ _ _ h => hf ▸ h, fun _ h => hcl ▸ h, fun _ h => hco ▸ h⟩

/-- Each call is changed in place, or not at all. -/
theorem of_map {s s' : Inner} (hcalls : ∀ id : Uuid, ∃ f : ActiveCall → ActiveCall,
      s'.calls[id]? = (s.calls[id]?).map f ∧ ∀ call, (f call).kind = call.kind ∧
        (f call).destination = call.destination ∧ (f call).owner = call.owner ∧
        (f call).sourceIssi = call.sourceIssi ∧
        ∀ c ∈ (f call).peers, c ∈ call.peers ∨ call.kind = .group ∧ (c ∈ s.consoles ∨ c ∈ s.clients))
    (hf : s'.groupFloor = s.groupFloor) (hcl : s'.clients = s.clients) (hco : s'.consoles = s.consoles) :
    Continues s s' := by
  refine ⟨fun id call' h => ?_, fun _ _ h => hf ▸ h, fun _ _ _ _ h => hf ▸ h, fun _ h => hcl ▸ h, fun _ h => hco ▸ h⟩
  obtain ⟨f, hm, hf⟩ := hcalls id
  rw [hm] at h
  obtain ⟨call, hc, rfl⟩ := Option.map_eq_some_iff.mp h
  exact ⟨call, hc, hf call⟩

theorem of_insert {s s' : Inner} {id : Uuid} {call call' : ActiveCall} (hcalls : s'.calls = s.calls.insert id call')
    (hc : s.calls[id]? = some call) (hk : call'.kind = call.kind) (hd : call'.destination = call.destination)
    (ho : call'.owner = call.owner) (hs : call'.sourceIssi = call.sourceIssi)
    (hp : ∀ c ∈ call'.peers, c ∈ call.peers) (hf : s'.groupFloor = s.groupFloor) (hcl : s'.clients = s.clients)
    (hco : s'.consoles = s.consoles) : Continues s s' := by
  refine ⟨fun id' c h => ?_, fun _ _ h => hf ▸ h, fun _ _ _ _ h => hf ▸ h, fun _ h => hcl ▸ h, fun _ h => hco ▸ h⟩
  rw [hcalls, FinMap.getElem?_insert] at h
  split at h
  · next hid =>
    cases h
    exact ⟨call, hid ▸ hc, hk, hd, ho, hs, fun c hm => .inl (hp c hm)⟩
  · exact ⟨c, h, rfl, rfl, rfl, rfl, fun _ hm => .inl hm⟩

/-- A call ends, and its group's floor with it. -/
theorem of_erase {s s' : Inner} {id : Uuid} {g : UInt32} (hcalls : s'.calls = s.calls.erase id)
    (hf : s'.groupFloor = s.groupFloor ∨ (s.groupFloor[g]? = some id ∧ s'.groupFloor = s.groupFloor.erase g))
    (hcl : ∀ c ∈ s'.clients, c ∈ s.clients) (hco : s'.consoles = s.consoles) : Continues s s' := by
  have hcall : ∀ (id' : Uuid) (call : ActiveCall), s'.calls[id']? = some call →
      id ≠ id' ∧ s.calls[id']? = some call := by
    intro id' call h
    rw [hcalls, FinMap.getElem?_erase] at h
    split at h
    · cases h
    · next hne => exact ⟨hne, h⟩
  refine ⟨fun id' call h => ⟨call, (hcall id' call h).2, rfl, rfl, rfl, rfl, fun _ hm => .inl hm⟩, fun g' id' h => ?_,
    fun id' call h _ hfl => ?_, hcl, fun _ h => hco ▸ h⟩
  · rcases hf with hf | ⟨-, hf⟩
    · exact hf ▸ h
    · rw [hf, FinMap.getElem?_erase] at h
      split at h
      · cases h
      · exact h
  · rcases hf with hf | ⟨hg, hf⟩
    · exact hf ▸ hfl
    · rw [hf, FinMap.getElem?_erase, if_neg, hfl]
      rintro rfl
      rw [hg] at hfl
      exact (hcall id' call h).1 (Option.some.inj hfl)

theorem of_registers {s s' : Inner} (h : Registers s s') : Continues s s' :=
  .of_eq h.calls h.groupFloor h.clients h.consoles

end Continues

section Adverts

variable {s : Inner} {nowMs : UInt64} {source : ClientId}

/-- Only what federation keeps changed. -/
def FedOnly (s s' : Inner) : Prop := { s' with fed := s.fed } = s

theorem FedOnly.continues {s s' : Inner} (h : FedOnly s s') : Continues s s' :=
  .of_eq (congrArg Inner.calls h :) (congrArg Inner.groupFloor h :) (congrArg Inner.clients h :)
    (congrArg Inner.consoles h :)

theorem fedOnly_acceptBts {a : BtsAdvert} : FedOnly s (acceptBts s nowMs source a).1 := by
  unfold acceptBts
  split
  · rfl
  · split
    · rfl
    · split
      · rfl
      · split <;> rfl

theorem fedOnly_acceptEm {a : EmAdvert} : FedOnly s (acceptEm s nowMs source a).1 := by
  unfold acceptEm
  split
  · rfl
  · split
    · rfl
    · split <;> rfl

theorem fedOnly_acceptMs {a : MsAdvert} : FedOnly s (acceptMs s source a).1 := by
  unfold acceptMs
  split
  · rfl
  · split
    · rfl
    · split
      · rfl
      · split <;> rfl

theorem fedOnly_advertiseBts {key name : String} {lat lon : F64} {online : Bool} :
    FedOnly s (advertiseBts s nowMs key name lat lon online).1 := by
  unfold advertiseBts
  split <;> split <;> rfl

theorem fedOnly_advertiseEmergency {issi : UInt32} {dest : Option UInt32} {bts : String} {active : Bool} :
    FedOnly s (advertiseEmergency s nowMs issi dest bts active).1 := by
  unfold advertiseEmergency
  split
  · rfl
  · split <;> rfl

theorem fedOnly_advertiseMs {issi : UInt32} {lat lon : F64} {atMs : UInt64} {station : String} :
    FedOnly s (advertiseMs s issi lat lon atMs station).1 := by
  unfold advertiseMs
  split
  · rfl
  · split <;> rfl

end Adverts

section Handlers

variable {cfg : Config} {env : Env} {s : Inner} {source : ClientId} {id : Uuid} {raw : Bytes}

theorem continues_receivePrune {sourceIssi : UInt32} : Continues s (receivePrune s source id sourceIssi) := by
  unfold receivePrune
  split
  · exact .refl s
  · next call hc =>
    split
    · exact .of_insert rfl hc rfl rfl rfl rfl (fun c hm => (FinSet.mem_erase.mp hm).2) rfl rfl rfl
    · exact .refl s

theorem continues_purgeEphemeral : Continues s (purgeEphemeral env s) := .of_eq rfl rfl rfl rfl

theorem continues_promoteClientVersion {v : ConnVersion} : Continues s (promoteClientVersion s source v) := by
  unfold promoteClientVersion
  split
  · exact ⟨(Continues.refl s).calls, fun _ _ h => h, fun _ _ _ _ h => h,
      fun c hc => Std.ExtTreeMap.mem_modify.mp hc, fun _ h => h⟩
  · exact .refl s

theorem continues_noteCall {src : UInt32} {link : ClientId} {now : Nat} : Continues s (noteCall s id src link now) :=
  .of_eq rfl rfl rfl rfl

theorem continues_touch {call : ActiveCall} (hc : s.calls[id]? = some call) : Continues s (touch env s id call) :=
  .of_insert rfl hc rfl rfl rfl rfl (fun _ hm => hm) rfl rfl rfl

theorem continues_routeCallFrame : Continues s (routeCallFrame env s source id raw).inner := by
  unfold routeCallFrame
  split
  · exact .refl s
  · next call hc =>
    split
    · exact continues_touch hc
    · exact .refl s

theorem continues_removeCall {call : ActiveCall} : Continues s (removeCall s id call) := by
  refine .of_erase (g := call.destination) rfl ?_ (fun _ h => h) rfl
  unfold removeCall
  dsimp only
  split
  · next h => exact .inr ⟨h.2, rfl⟩
  · exact .inl rfl

theorem continues_endCall : Continues s (endCall env s source id raw).inner := by
  unfold endCall
  split
  · exact .refl s
  · split
    · exact .refl s
    · split
      · exact .refl s
      · exact continues_removeCall.trans continues_noteCall

theorem continues_emergencyRaised {issi : UInt32} : Continues s (emergencyRaised s issi).1 := by
  unfold emergencyRaised
  dsimp only
  refine .of_map (fun id => ⟨_, FinMap.getElem?_map, fun call => ?_⟩) rfl rfl rfl
  split
  · next hraises =>
    have hgroup : call.kind = .group := by simp_all
    refine ⟨rfl, rfl, rfl, rfl, fun c hm => ?_⟩
    rw [Std.ExtTreeSet.mem_union_iff, FinSet.mem_ofList, List.mem_filter, List.mem_append, Std.ExtTreeSet.mem_toList] at hm
    rcases hm with hm | ⟨hm | hm, -⟩
    · exact .inl hm
    · exact .inr ⟨hgroup, .inl hm⟩
    · obtain ⟨e, he, rfl⟩ := List.mem_map.mp hm
      exact .inr ⟨hgroup, .inr (FinMap.mem_of_getElem? (FinMap.mem_toList.mp (List.mem_filter.mp he).1))⟩
  · exact ⟨rfl, rfl, rfl, rfl, fun _ hm => .inl hm⟩

theorem continues_lateEntry {groups : FinSet UInt32} : Continues s (lateEntry s source groups).1 := by
  unfold lateEntry
  split
  · exact .refl s
  · split
    · exact .refl s
    · next client hclient =>
      refine .of_map (fun id => ⟨_, FinMap.getElem?_map, fun call => ?_⟩) rfl rfl rfl
      split
      · next hjoins =>
        have hgroup : call.kind = .group := by simp_all [joins]
        refine ⟨rfl, rfl, rfl, rfl, fun c hm => ?_⟩
        rcases FinSet.mem_insert.mp hm with rfl | hm
        · exact .inr ⟨hgroup, .inr (FinMap.mem_of_getElem? hclient)⟩
        · exact .inl hm
      · exact ⟨rfl, rfl, rfl, rfl, fun _ hm => .inl hm⟩

theorem continues_reportPosition {issi : UInt32} : Continues s (reportPosition env s source issi raw).1 := by
  unfold reportPosition
  split
  · exact .refl s
  · unfold advertiseIfLocal
    split
    · exact .refl s
    · exact fedOnly_advertiseMs.continues

theorem continues_openSdsRoute {src dest : UInt32} {lipOnly : Bool} :
    Continues s (openSdsRoute env s source id src dest lipOnly raw).1 := .of_eq rfl rfl rfl rfl

theorem continues_handleSdsHeader {payload : CallPayload} :
    Continues s (handleSdsHeader env s source id payload raw).inner := by
  unfold handleSdsHeader
  split
  · split
    · exact .refl s
    · dsimp only
      refine Continues.trans ?_ continues_openSdsRoute
      split
      · exact continues_noteCall
      · exact continues_noteCall.trans continues_reportPosition
  · exact .refl s

theorem continues_originate {client : ClientId} {src dest : UInt32} {lengthBits : UInt16} {data : Bytes} :
    Continues s (originate env s client id src dest lengthBits data).1 := by
  unfold originate
  dsimp only
  split
  · exact .refl s
  · exact .of_eq rfl rfl rfl rfl

theorem continues_forwardSds {route : SdsRoute} : Continues s (forwardSds env s source id route raw).1 := by
  unfold forwardSds
  dsimp only
  have htaken : Continues s (takeRoute s id route) := .of_eq rfl rfl rfl rfl
  split
  · unfold reportStored
    split
    · exact htaken
    · exact htaken.trans continues_originate
  · exact htaken

theorem continues_frame {f : FrameMessage} : Continues s (frame env s source f raw).inner := by
  unfold frame
  split
  · unfold handleSdsTransfer
    split
    · split
      · exact .refl s
      · split
        · exact .of_eq rfl rfl rfl rfl
        · exact continues_forwardSds.trans continues_reportPosition
    · split
      · exact .refl s
      · exact continues_reportPosition
  · split
    · unfold handleSdsReport
      split
      · exact .refl s
      · split
        · exact .refl s
        · dsimp only
          split
          · exact .of_eq rfl rfl rfl rfl
          · exact .refl s
    · split
      · exact continues_routeCallFrame
      · exact .refl s

theorem continues_routePrivateControl : Continues s (routePrivateControl env s source id raw).inner := by
  unfold routePrivateControl
  split
  · exact continues_endCall
  · split
    · exact .refl s
    · next call hc =>
      split
      · exact .refl s
      · exact continues_touch hc

theorem continues_deliverStored {src dest : UInt32} {lengthBits : UInt16} {data : Bytes} :
    Continues s (deliverStored env s id src dest lengthBits data).1 := by
  unfold deliverStored
  split
  · exact .refl s
  · exact continues_originate

theorem continues_handleSubscriber {nowMs : UInt64} {msg : SubscriberMessage} :
    Continues s (handleSubscriber s nowMs source msg).1 := by
  rcases handleSubscriber_cases s nowMs source msg with heq | ⟨ticked, new, groups, -, hentry, heq⟩
  · rw [heq]
    exact .refl s
  · rw [heq]
    exact (Continues.of_registers (hentry.registers.trans registers_applyEntry)).trans continues_lateEntry

theorem continues_handle {nowMs : UInt64} : Continues s (handle s nowMs source raw).1 := by
  unfold handle
  split
  · exact .refl s
  · split
    · next msg _ =>
      cases msg with
      | route issi a =>
        rw [handleMessage, receiveRoute_eq.1]
        exact .of_registers (registers_takeOffer.trans registers_reroute)
      | withdraw issi => exact .of_registers registers_receiveWithdraw
      | prune id src => exact continues_receivePrune
      | btsHello version => exact .of_eq rfl rfl rfl rfl
      | bts a => exact fedOnly_acceptBts.continues
      | msPos a => exact fedOnly_acceptMs.continues
      | emergency a => exact fedOnly_acceptEm.continues
      | unknown t => exact .refl s
    · exact .refl s

end Handlers

section Cleanup

variable {s : Inner} {id : ClientId}

/-- The calls of a closing connection go one by one, each as it was found. -/
theorem continues_foldl_leaveCall {es : List (Uuid × ActiveCall)} {r : Effect} (hn : (es.map (·.1)).Nodup)
    (hes : ∀ e ∈ es, r.inner.calls[e.1]? = some e.2) : Continues r.inner (es.foldl (leaveCall id) r).inner := by
  induction es generalizing r with
  | nil => exact .refl _
  | cons e es ih =>
    have hn' := List.nodup_cons.mp hn
    have he := hes e List.mem_cons_self
    have hother : ∀ k : Uuid, e.1 ≠ k → (leaveCall id r e).inner.calls[k]? = r.inner.calls[k]? := by
      intro k hk
      unfold leaveCall
      dsimp only
      split
      · exact (FinMap.getElem?_insert).trans (if_neg hk)
      · exact (FinMap.getElem?_erase).trans (if_neg hk)
    have hfirst : Continues r.inner (leaveCall id r e).inner := by
      unfold leaveCall
      dsimp only
      split
      · exact .of_insert rfl he rfl rfl rfl rfl (fun c hm => (FinSet.mem_erase.mp hm).2) rfl rfl rfl
      · refine .of_erase (g := e.2.destination) rfl ?_ (fun _ h => h) rfl
        dsimp only
        split
        · next h => exact .inr ⟨h.2, rfl⟩
        · exact .inl rfl
    refine hfirst.trans (ih hn'.2 fun e' he' => ?_)
    rw [hother, hes e' (List.mem_cons_of_mem e he')]
    exact fun hk => hn'.1 (List.mem_map.mpr ⟨e', he', hk.symm⟩)

theorem nodup_calls_filter (calls : FinMap Uuid ActiveCall) (p : Uuid × ActiveCall → Bool) :
    ((calls.toList.filter p).map (·.1)).Nodup := by
  refine List.Nodup.sublist (List.filter_sublist.map _) ?_
  rw [Std.ExtTreeMap.map_fst_toList_eq_keys]
  exact FinMap.nodup_keys

theorem continues_leaveCalls : Continues s (leaveCalls s id).inner :=
  continues_foldl_leaveCall (r := { inner := s }) (nodup_calls_filter ..) fun _ he =>
    FinMap.mem_toList.mp (List.mem_filter.mp he).1

theorem continues_forgetRoutes : Continues s (forgetRoutes s id) := .of_eq rfl rfl rfl rfl

theorem continues_cleanupClient : Continues s (cleanupClient s id).inner := by
  have hdetach : Continues s (detach s id) :=
    ⟨(Continues.refl s).calls, fun _ _ h => h, fun _ _ _ _ h => h, fun c hc => (FinMap.mem_erase.mp hc).2,
      fun c hc => (FinSet.mem_erase.mp hc).2⟩
  rw [(cleanupClient_eq s id).1]
  exact ((hdetach.trans (.of_registers registers_dropRegistrations)).trans continues_leaveCalls).trans
    continues_forgetRoutes

end Cleanup

section Bridge

theorem continues_removeLeg {s : Inner} {leg : BridgedLeg} : Continues s (removeLeg s leg).1 := by
  have hcalls : (removeLeg s leg).1.calls = s.calls.erase leg.brewCallId := by
    unfold removeLeg
    dsimp only
    split <;> rfl
  have hclients : (removeLeg s leg).1.clients = s.clients.erase leg.virtualClient := by
    unfold removeLeg
    dsimp only
    split <;> rfl
  have hconsoles : (removeLeg s leg).1.consoles = s.consoles := by
    unfold removeLeg
    dsimp only
    split <;> rfl
  refine .of_erase (g := leg.group.getD 0) hcalls ?_ (fun c hm => ?_) hconsoles
  · unfold removeLeg
    cases leg.group with
    | none => exact .inl (by dsimp only; split <;> rfl)
    | some g =>
      by_cases hg : s.groupFloor[g]? = some leg.brewCallId
      · exact .inr ⟨hg, by dsimp only; split <;> exact if_pos hg⟩
      · exact .inl (by dsimp only; split <;> exact if_neg hg)
  · rw [hclients] at hm
    exact (FinMap.mem_erase.mp hm).2

theorem continues_teardown (a : AppState) (callId : String) : Continues a.inner (teardown a callId).1.inner := by
  unfold teardown
  split
  · exact .refl _
  · exact continues_removeLeg

theorem continues_teardownByBrewCall (a : AppState) (id : Uuid) :
    Continues a.inner (teardownByBrewCall a id).1.inner := by
  unfold teardownByBrewCall
  split
  · exact .refl _
  · exact continues_teardown ..

theorem continues_settle (a : AppState) (e : Effect) : Continues e.inner (settle a e).1.inner :=
  settle_induct (P := fun r => Continues e.inner r.1.inner) (.refl _) fun r hr id _ =>
    hr.trans (continues_teardownByBrewCall r.1 id)

theorem continues_sweep (cfg : Config) (env : Env) (a : AppState) :
    Continues a.inner (runCallDurationSweep cfg env a).1.inner :=
  sweep_induct (P := fun r => Continues a.inner r.1.inner) (.refl _) fun r hr e _ =>
    hr.trans (continues_endCall.trans (continues_settle r.1 (sweepEnd env r.1.inner e.1 e.2)))

end Bridge

section Opening

variable {cfg : Config} {env : Env} {s : Inner} {source : ClientId} {id : Uuid} {raw : Bytes}

/-- Whether a group transmission is let through: not blacklisted, not a copy, and
its group's floor is free or won. -/
def acceptsGroupTx (cfg : Config) (env : Env) (s : Inner) (source : ClientId) (id : Uuid) (gt : GroupTransmission) :
    Bool :=
  !(env.blocked gt.source && !isEmergencyCall env gt.source gt.priority) &&
    !(s.isPeer source && isDuplicate s id gt.source source env.now) &&
    (floorHolder cfg s id gt).all fun e => wins cfg gt e.2

/-- The tables once the floor of a transmission's group is free. -/
def freeFloor (cfg : Config) (s : Inner) (id : Uuid) (gt : GroupTransmission) : Inner :=
  match floorHolder cfg s id gt with
  | some (existingId, existing) => (preempt cfg s existingId existing).1
  | none => s

theorem continues_freeFloor {gt : GroupTransmission} : Continues s (freeFloor cfg s id gt) := by
  unfold freeFloor
  split
  · exact .of_erase (g := 0) rfl (.inl rfl) (fun _ h => h) rfl
  · exact .refl s

theorem handleGroupTx_cases (cfg : Config) (env : Env) (s : Inner) (source : ClientId) (id : Uuid)
    (payload : CallPayload) (raw : Bytes) :
    (handleGroupTx cfg env s source id payload raw).inner = s ∨
      ∃ gt : GroupTransmission, payload = .groupTransmission gt ∧ acceptsGroupTx cfg env s source id gt = true ∧
        (handleGroupTx cfg env s source id payload raw).inner =
          (installGroupTx cfg env (freeFloor cfg s id gt) source id gt raw).1 := by
  unfold handleGroupTx
  split
  · next gt =>
    split
    · exact .inl rfl
    · next hblocked =>
      split
      · exact .inl rfl
      · next hdup =>
        rw [Bool.not_eq_true] at hblocked hdup
        split
        · next existingId existing hholder =>
          split
          · exact .inl rfl
          · next hwins =>
            rw [Bool.not_eq_true, Bool.not_eq_false'] at hwins
            refine .inr ⟨gt, rfl, ?_, ?_⟩
            · rw [acceptsGroupTx, hblocked, hdup, hholder]
              exact hwins
            · rw [freeFloor, hholder]
        · next hholder =>
          refine .inr ⟨gt, rfl, ?_, ?_⟩
          · rw [acceptsGroupTx, hblocked, hdup, hholder]
            rfl
          · rw [freeFloor, hholder]
  · exact .inl rfl

theorem handleGroupTx_accepted {gt : GroupTransmission} (h : acceptsGroupTx cfg env s source id gt = true) :
    (handleGroupTx cfg env s source id (.groupTransmission gt) raw).inner =
      (installGroupTx cfg env (freeFloor cfg s id gt) source id gt raw).1 := by
  rw [acceptsGroupTx, Bool.and_eq_true, Bool.and_eq_true, Bool.not_eq_true', Bool.not_eq_true'] at h
  obtain ⟨⟨hblocked, hnew⟩, hwins⟩ := h
  unfold handleGroupTx freeFloor
  dsimp only
  rw [hblocked, hnew]
  cases hholder : floorHolder cfg s id gt with
  | none => rfl
  | some holder =>
    rw [hholder] at hwins
    have hwin : wins cfg gt holder.2 = true := hwins
    simp [hwin]

theorem handleGroupTx_refused {gt : GroupTransmission} (h : acceptsGroupTx cfg env s source id gt = false) :
    (handleGroupTx cfg env s source id (.groupTransmission gt) raw).inner = s := by
  rcases handleGroupTx_cases cfg env s source id (.groupTransmission gt) raw with hsame | ⟨gt', hgt, haccepted, -⟩
  · exact hsame
  · cases hgt
    rw [h] at haccepted
    cases haccepted

/-- Whether a private setup becomes a call: not a copy, not barred, and its
destination is registered elsewhere or placed to SIP. -/
def acceptsSetup (env : Env) (s : Inner) (source : ClientId) (id : Uuid) (req : SetupRequest) : Bool :=
  !(s.isPeer source && isDuplicate s id req.source source env.now) && !barred env req &&
    match s.subscribers[req.destination]? with
    | none => env.sip.placement.isSome
    | some sub => sub.clientId != source

/-- A private call was opened under `id` by `source`. -/
structure SetUp (env : Env) (s s' : Inner) (source : ClientId) (id : Uuid) (call : ActiveCall) : Prop where
  calls : s'.calls = s.calls.insert id call
  kind : call.kind = .«private»
  owner : call.owner = source
  floor : s'.groupFloor = s.groupFloor
  consoles : s'.consoles = s.consoles
  groupTxRaw : s'.groupTxRaw = s.groupTxRaw
  party : (∃ (issi : UInt32) (sub : Subscriber), s.subscribers[issi]? = some sub ∧
      call.peers = FinSet.ofList [sub.clientId] ∧ s'.clients = s.clients) ∨
    ∃ (callId : String) (v : ClientId), env.sip = .placed callId v ∧ call.peers = FinSet.ofList [v] ∧
      s'.clients = s.clients.insert v virtualClientEntry

/-- A setup is noted at most, unless it opens a call. -/
theorem handlePrivateSetup_calls (env : Env) (s : Inner) (source : ClientId) (id : Uuid) (payload : CallPayload)
    (raw : Bytes) :
    (handlePrivateSetup env s source id payload raw).inner = s ∨
      (∃ src : UInt32, (handlePrivateSetup env s source id payload raw).inner = noteCall s id src source env.now) ∨
      ∃ (req : SetupRequest) (call : ActiveCall), setupRequest payload = some req ∧
        acceptsSetup env s source id req = true ∧
        SetUp env s (handlePrivateSetup env s source id payload raw).inner source id call := by
  unfold handlePrivateSetup
  split
  · exact .inl rfl
  · next req hreq =>
    split
    · exact .inl rfl
    · next hdup =>
      rw [Bool.not_eq_true] at hdup
      dsimp only
      split
      · exact .inr (.inl ⟨req.source, rfl⟩)
      · next hbarred =>
        rw [Bool.not_eq_true] at hbarred
        split
        · next hsub =>
          change s.subscribers[req.destination]? = none at hsub
          unfold offerToSip
          split
          · exact .inr (.inl ⟨req.source, rfl⟩)
          · exact .inr (.inl ⟨req.source, rfl⟩)
          · next callId v hsip =>
            refine .inr (.inr ⟨req, _, hreq, ?_, rfl, rfl, rfl, rfl, rfl, rfl, .inr ⟨callId, v, hsip, rfl, rfl⟩⟩)
            rw [acceptsSetup, hdup, hbarred, hsub, hsip]
            rfl
        · next sub hsub =>
          change s.subscribers[req.destination]? = some sub at hsub
          split
          · exact .inr (.inl ⟨req.source, rfl⟩)
          · next hne =>
            refine .inr (.inr ⟨req, _, hreq, ?_, rfl, rfl, rfl, rfl, rfl, rfl,
              .inl ⟨req.destination, sub, hsub, rfl, rfl⟩⟩)
            rw [acceptsSetup, hdup, hbarred, hsub]
            exact bne_iff_ne.mpr hne

/-- The tables a packet is handled on, and the call control it carries. -/
def arriving (env : Env) (s : Inner) (source : ClientId) (raw : Bytes) : Option (Inner × CallControlMessage) :=
  if raw.head? = some classFederation then none
  else
    match parseWithVersion raw (clientVersion (purgeEphemeral env s) source) with
    | some (.ok (.callControl cc, detected)) => some (promoteClientVersion (purgeEphemeral env s) source detected, cc)
    | _ => none

/-- What a packet does to the calls. -/
inductive CallStep (cfg : Config) (env : Env) (s : Inner) (source : ClientId) (raw : Bytes) (s' : Inner) : Prop
  | continues (h : Continues s s')
  | group {t : Inner} {cc : CallControlMessage} {gt : GroupTransmission} (before : Passive s t [])
      (continues : Continues s t) (arrives : arriving env s source raw = some (t, cc))
      (state : cc.callState = callGroupTx) (payload : cc.payload = .groupTransmission gt)
      (accepted : acceptsGroupTx cfg env t source cc.identifier gt = true)
      (opened : s' = (installGroupTx cfg env (freeFloor cfg t cc.identifier gt) source cc.identifier gt raw).1)
  | setup {t : Inner} {cc : CallControlMessage} {req : SetupRequest} {call : ActiveCall} (before : Passive s t [])
      (continues : Continues s t) (arrives : arriving env s source raw = some (t, cc))
      (state : cc.callState = callSetupRequest) (payload : setupRequest cc.payload = some req)
      (accepted : acceptsSetup env t source cc.identifier req = true)
      (opened : SetUp env t s' source cc.identifier call)

theorem callStep_routePacket : CallStep cfg env s source raw (routePacket cfg env s source raw).inner := by
  have hpurge : Continues s (purgeEphemeral env s) := continues_purgeEphemeral
  unfold routePacket
  dsimp only
  split
  · exact .continues (hpurge.trans continues_handle)
  · next hfed =>
    split
    · next msg d hparse =>
      have hpromote := hpurge.trans (@continues_promoteClientVersion (purgeEphemeral env s) source d)
      have hpassive := passive_purgeEphemeral.trans (@passive_promoteClientVersion (purgeEphemeral env s) source d)
      cases msg with
      | subscriber msg => exact .continues (hpromote.trans continues_handleSubscriber)
      | frame f => exact .continues (hpromote.trans continues_frame)
      | error e => exact .continues hpromote
      | service m => exact .continues hpromote
      | callControl cc =>
        have harrive : arriving env s source raw =
            some (promoteClientVersion (purgeEphemeral env s) source d, cc) := by
          rw [arriving, if_neg hfed, hparse]
        rw [dispatch]
        unfold callControl
        split
        · next hstate =>
          rcases handleGroupTx_cases cfg env (promoteClientVersion (purgeEphemeral env s) source d) source
            cc.identifier cc.payload raw with heq | ⟨gt, hgt, hacc, heq⟩
          · rw [heq]
            exact .continues hpromote
          · exact .group hpassive hpromote harrive hstate hgt hacc heq
        · split
          · exact .continues (hpromote.trans continues_handleSdsHeader)
          · split
            · next hstate =>
              rcases handlePrivateSetup_calls env (promoteClientVersion (purgeEphemeral env s) source d) source
                cc.identifier cc.payload raw with heq | ⟨src, heq⟩ | ⟨req, call, hreq, hacc, hset⟩
              · rw [heq]
                exact .continues hpromote
              · rw [heq]
                exact .continues (hpromote.trans continues_noteCall)
              · exact .setup hpassive hpromote harrive hstate hreq hacc hset
            · split
              · exact .continues (hpromote.trans continues_routePrivateControl)
              · split
                · exact .continues (hpromote.trans continues_endCall)
                · exact .continues hpromote
    · exact .continues hpurge

end Opening

end BrewServer
