import BrewServer.LateEntry

/-!
# What the operations do to the memory of calls

A call, an SDS or a turn is remembered with the connection it came in over. Only the
handlers of their headers and the end of a call write that memory.
-/

namespace BrewServer

open Protocol Fedroute Router Sip

/-- Calls go on or end, no connection becomes a peer, and the memory is as it was. -/
structure SameMemory (s s' : Inner) : Prop extends Continues s s' where
  memory : s'.recentCalls = s.recentCalls
  peers : ∀ c : ClientId, s'.isPeer c = true → s.isPeer c = true

theorem isPeer_of_clients {s s' : Inner} (h : s'.clients = s.clients) (c : ClientId) : s'.isPeer c = s.isPeer c := by
  rw [Inner.isPeer, Inner.isPeer, h]

theorem isPeer_of_erase {s s' : Inner} {v : ClientId} (h : s'.clients = s.clients.erase v) {c : ClientId}
    (hc : s'.isPeer c = true) : s.isPeer c = true := by
  rw [Inner.isPeer, h, FinMap.getElem?_erase] at hc
  split at hc
  · cases hc
  · exact hc

namespace SameMemory

variable {s s' s'' : Inner}

theorem refl (s : Inner) : SameMemory s s := ⟨.refl s, rfl, fun _ h => h⟩

theorem trans (h : SameMemory s s') (h' : SameMemory s' s'') : SameMemory s s'' :=
  ⟨h.toContinues.trans h'.toContinues, h'.memory.trans h.memory, fun c hc => h.peers c (h'.peers c hc)⟩

theorem of_clients (h : Continues s s') (hm : s'.recentCalls = s.recentCalls) (hc : s'.clients = s.clients) :
    SameMemory s s' :=
  ⟨h, hm, fun c hp => isPeer_of_clients hc c ▸ hp⟩

theorem of_registers (h : Registers s s') : SameMemory s s' := .of_clients (.of_registers h) h.recentCalls h.clients

theorem of_fedOnly (h : FedOnly s s') : SameMemory s s' :=
  .of_clients h.continues (congrArg Inner.recentCalls h :) (congrArg Inner.clients h :)

end SameMemory

section Handlers

variable {cfg : Config} {env : Env} {s : Inner} {source : ClientId} {id : Uuid} {raw : Bytes} {nowMs : UInt64}

theorem sameMemory_promoteClientVersion {v : ConnVersion} : SameMemory s (promoteClientVersion s source v) := by
  refine ⟨continues_promoteClientVersion, ?_, fun c hc => ?_⟩
  · unfold promoteClientVersion
    split <;> rfl
  · rw [passive_promoteClientVersion.isPeer] at hc
    exact hc

theorem sameMemory_touch {call : ActiveCall} (hc : s.calls[id]? = some call) : SameMemory s (touch env s id call) :=
  .of_clients (continues_touch hc) rfl rfl

theorem sameMemory_receivePrune {src : UInt32} : SameMemory s (receivePrune s source id src) := by
  refine .of_clients continues_receivePrune ?_ ?_
  · unfold receivePrune
    split
    · rfl
    · split <;> rfl
  · unfold receivePrune
    split
    · rfl
    · split <;> rfl

theorem sameMemory_handle : SameMemory s (handle s nowMs source raw).1 := by
  unfold handle
  split
  · exact .refl s
  · split
    · next msg _ =>
      cases msg with
      | route issi a =>
        rw [handleMessage, receiveRoute_eq.1]
        exact .of_registers (registers_takeOffer.trans registers_reroute)
      | withdraw issi => exact .of_registers registers_receiveWithdraw
      | prune id src => exact sameMemory_receivePrune
      | btsHello version => exact .of_clients (.of_eq rfl rfl rfl rfl) rfl rfl
      | bts a => exact .of_fedOnly fedOnly_acceptBts
      | msPos a => exact .of_fedOnly fedOnly_acceptMs
      | emergency a => exact .of_fedOnly fedOnly_acceptEm
      | unknown t => exact .refl s
    · exact .refl s

theorem sameMemory_lateEntry {groups : FinSet UInt32} : SameMemory s (lateEntry s source groups).1 := by
  refine .of_clients continues_lateEntry ?_ (lateEntry_same s source groups).2.1
  unfold lateEntry
  split
  · rfl
  · split <;> rfl

theorem sameMemory_handleSubscriber {msg : SubscriberMessage} : SameMemory s (handleSubscriber s nowMs source msg).1 := by
  rcases handleSubscriber_cases s nowMs source msg with heq | ⟨ticked, new, groups, -, hentry, heq⟩
  · rw [heq]
    exact .refl s
  · rw [heq]
    exact (SameMemory.of_registers (hentry.registers.trans registers_applyEntry)).trans sameMemory_lateEntry

theorem sameMemory_reportPosition {issi : UInt32} : SameMemory s (reportPosition env s source issi raw).1 := by
  unfold reportPosition
  split
  · exact .refl s
  · unfold advertiseIfLocal
    split
    · exact .refl s
    · exact .of_fedOnly fedOnly_advertiseMs

theorem sameMemory_originate {client : ClientId} {src dest : UInt32} {lengthBits : UInt16} {data : Bytes} :
    SameMemory s (originate env s client id src dest lengthBits data).1 := by
  unfold originate
  split
  · exact .refl s
  · exact .of_clients (.of_eq rfl rfl rfl rfl) rfl rfl

theorem sameMemory_forwardSds {route : SdsRoute} : SameMemory s (forwardSds env s source id route raw).1 := by
  have htaken : SameMemory s (takeRoute s id route) := .of_clients (.of_eq rfl rfl rfl rfl) rfl rfl
  unfold forwardSds
  dsimp only
  split
  · unfold reportStored
    split
    · exact htaken
    · exact htaken.trans sameMemory_originate
  · exact htaken

theorem sameMemory_handleSdsTransfer : SameMemory s (handleSdsTransfer env s source id raw).inner := by
  unfold handleSdsTransfer
  split
  · split
    · exact .refl s
    · split
      · exact .of_clients (.of_eq rfl rfl rfl rfl) rfl rfl
      · exact sameMemory_forwardSds.trans sameMemory_reportPosition
  · split
    · exact .refl s
    · exact sameMemory_reportPosition

theorem sameMemory_handleSdsReport : SameMemory s (handleSdsReport s source id raw).inner := by
  unfold handleSdsReport
  split
  · exact .refl s
  · split
    · exact .refl s
    · dsimp only
      split
      · exact .of_clients (.of_eq rfl rfl rfl rfl) rfl rfl
      · exact .refl s

theorem sameMemory_routeCallFrame : SameMemory s (routeCallFrame env s source id raw).inner := by
  unfold routeCallFrame
  split
  · exact .refl s
  · next call hcall =>
    split
    · exact sameMemory_touch hcall
    · exact .refl s

theorem sameMemory_frame {f : FrameMessage} : SameMemory s (frame env s source f raw).inner := by
  unfold frame
  split
  · exact sameMemory_handleSdsTransfer
  · split
    · exact sameMemory_handleSdsReport
    · split
      · exact sameMemory_routeCallFrame
      · exact .refl s

theorem sameMemory_deliverStored {src dest : UInt32} {lengthBits : UInt16} {data : Bytes} :
    SameMemory s (deliverStored env s id src dest lengthBits data).1 := by
  unfold deliverStored
  split
  · exact .refl s
  · exact sameMemory_originate

theorem sameMemory_emergencyRaised {issi : UInt32} : SameMemory s (emergencyRaised s issi).1 :=
  .of_clients continues_emergencyRaised rfl rfl

end Handlers

/-! ## The bridge and connections -/

section Bridge

variable {a : AppState} {s : Inner}

theorem sameMemory_removeLeg {leg : BridgedLeg} : SameMemory s (removeLeg s leg).1 := by
  refine ⟨continues_removeLeg, ?_, fun c hc => isPeer_of_erase (clients_removeLeg s leg) hc⟩
  unfold removeLeg
  dsimp only
  split <;> rfl

theorem sameMemory_teardown {callId : String} : SameMemory a.inner (teardown a callId).1.inner := by
  unfold teardown
  split
  · exact .refl _
  · exact sameMemory_removeLeg

theorem sameMemory_teardownByBrewCall {id : Uuid} : SameMemory a.inner (teardownByBrewCall a id).1.inner := by
  unfold teardownByBrewCall
  split
  · exact .refl _
  · exact sameMemory_teardown

theorem sameMemory_settle {e : Effect} : SameMemory e.inner (settle a e).1.inner :=
  settle_induct (P := fun r => SameMemory e.inner r.1.inner) (.refl _) fun _ hr _ _ => hr.trans sameMemory_teardownByBrewCall

/-- A connection that closes is forgotten. -/
theorem recentCalls_cleanupClient {id : ClientId} :
    (cleanupClient s id).inner.recentCalls = s.recentCalls.filter fun _ e => e.1 != id := by
  have hleft : (leaveCalls (dropRegistrations s id).1 id).inner.recentCalls = s.recentCalls := by
    refine leaveCalls_induct (P := fun r => r.inner.recentCalls = s.recentCalls) registers_dropRegistrations.recentCalls ?_
    intro r hr e _ _
    unfold leaveCall
    dsimp only
    split <;> exact hr
  rw [(cleanupClient_eq s id).1, forgetRoutes, hleft]

theorem isPeer_cleanupClient {id c : ClientId} (hc : (cleanupClient s id).inner.isPeer c = true) :
    s.isPeer c = true :=
  isPeer_of_erase (clients_cleanupClient s id) hc

end Bridge

end BrewServer
