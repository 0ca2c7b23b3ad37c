import BrewServer.Steps

/-!
# The group membership index

`group_clients` is kept next to the effective table: a connection is a member of
a group exactly when an entry routed over it has the group.
-/

namespace BrewServer

open Protocol Fedroute Router Sip

/-- The group index agrees with the effective table and stores no empty set. -/
structure GroupIndexed (s : Inner) : Prop where
  indexes : Indexes Subscriber.clientId Subscriber.groups s.subscribers s.groupClients
  noEmpty : NoEmptySet s.groupClients

namespace GroupIndexed

theorem congr {s s' : Inner} (h : GroupIndexed s) (hs : s'.subscribers = s.subscribers)
    (hg : s'.groupClients = s.groupClients) : GroupIndexed s' :=
  ⟨by rw [hs, hg]; exact h.indexes, by rw [hg]; exact h.noEmpty⟩

theorem sameRoutes {s s' : Inner} (h : GroupIndexed s) (hs : SameRoutes s s') : GroupIndexed s' :=
  h.congr hs.subscribers hs.groupClients

theorem empty (selfId : UInt64) : GroupIndexed (Inner.empty selfId) := by
  refine ⟨Indexes.empty, fun g m hm => ?_⟩
  rw [Inner.empty, Std.ExtTreeMap.getElem?_empty] at hm
  cases hm

/-- One entry is replaced: whoever lost a group only by this leaves it. -/
theorem setEffective {s : Inner} (h : GroupIndexed s) (issi : UInt32) (new : Option Subscriber) :
    GroupIndexed (Fedroute.setEffective s issi new) := by
  have hleft : ∀ t : FinMap UInt32 Subscriber, NoEmptySet ((s.subscribers[issi]?).elim s.groupClients
      (unindex Subscriber.clientId Subscriber.groups t s.groupClients)) := by
    intro t
    cases s.subscribers[issi]? with
    | none => exact h.noEmpty
    | some old => exact noEmptySet_unindex h.noEmpty
  cases new with
  | none => exact ⟨h.indexes.erase issi, hleft _⟩
  | some n => exact ⟨h.indexes.insert issi n, noEmptySet_index (hleft _)⟩

theorem reroute {s : Inner} (h : GroupIndexed s) (issi : UInt32) : GroupIndexed (Fedroute.reroute s issi).1 := by
  unfold Fedroute.reroute
  dsimp only
  split
  · exact h
  · exact h.setEffective issi _

theorem applyEntry {s : Inner} (h : GroupIndexed s) (issi : UInt32) (new : Option Subscriber) :
    GroupIndexed (Router.applyEntry s issi new) := by
  unfold Router.applyEntry
  split
  · exact (h.setEffective issi new).reroute issi
  · exact h.setEffective issi new

theorem handleSubscriber {s : Inner} (h : GroupIndexed s) (nowMs : UInt64) (source : ClientId)
    (msg : SubscriberMessage) : GroupIndexed (Router.handleSubscriber s nowMs source msg).1 := by
  rcases handleSubscriber_cases s nowMs source msg with heq | ⟨ticked, new, groups, -, hentry, heq⟩
  · rw [heq]
    exact h
  · rw [heq]
    have hticked : GroupIndexed ticked := h.congr hentry.subscribers hentry.groupClients
    exact (hticked.applyEntry msg.issi new).sameRoutes (lateEntry_same _ source groups).1

theorem receiveRoute {s : Inner} (h : GroupIndexed s) (nowMs : UInt64) (source : ClientId) (issi : UInt32)
    (a : Advert) : GroupIndexed (Fedroute.receiveRoute s nowMs source issi a).1 := by
  rw [receiveRoute_eq.1]
  exact (h.congr takeOffer_subscribers takeOffer_groupClients).reroute issi

theorem receiveWithdraw {s : Inner} (h : GroupIndexed s) (source : ClientId) (issi : UInt32) :
    GroupIndexed (Fedroute.receiveWithdraw s source issi).1 := by
  have hwithdrawn : GroupIndexed (withdrawOffer s issi source).1 :=
    h.congr withdrawOffer_subscribers withdrawOffer_groupClients
  rw [receiveWithdraw_eq]
  split
  · rw [(settleRoute_eq (by rw [withdrawOffer_subscribers])).1]
    exact hwithdrawn.reroute issi
  · exact hwithdrawn

/-- A closing connection leaves every group with its entries, before the entries
it shadowed are selected anew. -/
theorem unaffiliated {s : Inner} (h : GroupIndexed s) (id : ClientId) : GroupIndexed (unaffiliated s id) := by
  have hrows : ∀ (issi : UInt32) (sub : Subscriber),
      (BrewServer.unaffiliated s id).subscribers[issi]? = some sub ↔
        s.subscribers[issi]? = some sub ∧ sub.clientId ≠ id := by
    intro issi sub
    rw [unaffiliated_subscribers, Option.filter_eq_some_iff, decide_eq_true_eq]
  refine ⟨?_, ?_⟩
  · rw [unaffiliated_groupClients]
    exact h.indexes.dropMember hrows
  · rw [unaffiliated_groupClients]
    exact noEmptySet_dropMember s.groupClients id

theorem foldl_reselect {r : Inner × Sends} (h : GroupIndexed r.1) (previous : List (UInt32 × Option Subscriber)) :
    GroupIndexed (previous.foldl reselect r).1 := by
  induction previous generalizing r with
  | nil => exact h
  | cons e previous ih => exact ih (r := reselect r e) (h.reroute e.1)

theorem cleanupClient {s : Inner} (h : GroupIndexed s) (id : ClientId) :
    GroupIndexed (BrewServer.cleanupClient s id).inner := by
  refine GroupIndexed.sameRoutes ?_ (passive_cleanupClient s id).routes
  rw [dropRegistrations_eq]
  exact GroupIndexed.foldl_reselect (r := (BrewServer.unaffiliated s id, [])) (h.unaffiliated id) (previousOf s id)

theorem packetStep {s s' : Inner} {env : Env} {source : ClientId} {raw : Bytes} {sends : Sends}
    (h : GroupIndexed s) (hstep : PacketStep Passive s env source raw s' sends) : GroupIndexed s' := by
  cases hstep with
  | aside hp => exact h.sameRoutes hp.routes
  | subscriber before parsed => exact (h.sameRoutes before.routes).handleSubscriber ..
  | route before link parsed fed => exact (h.sameRoutes before.routes).receiveRoute ..
  | withdraw before link parsed fed => exact (h.sameRoutes before.routes).receiveWithdraw ..

theorem eventStep {s s' : Inner} {ev : Event} {sends : Sends} (h : GroupIndexed s)
    (hstep : EventStep Passive s ev s' sends) : GroupIndexed s' := by
  cases hstep with
  | aside hp => exact h.sameRoutes hp.routes
  | connect id client neighbour console =>
    refine h.congr ?_ ?_
    all_goals
      unfold openSession attachClient
      cases neighbour <;> cases console <;> rfl
  | disconnect id => exact h.cleanupClient id
  | packet hp => exact h.packetStep hp

end GroupIndexed

/-- A connection is a member of a group exactly when an ISSI routed over it has
the group, and no group is kept without members. -/
theorem members_iff_of_reach {cfg : Config} {selfId : UInt64} {a : AppState}
    (h : Reach (AppState.start selfId) (fun _ ev => ev.WithoutSip) (AppState.next cfg) a) :
    (∀ (g : UInt32) (c : ClientId), c ∈ a.inner.members g ↔
        ∃ (issi : UInt32) (sub : Subscriber), a.inner.subscribers[issi]? = some sub ∧ sub.clientId = c ∧
          g ∈ sub.groups) ∧
      ∀ (g : UInt32) (m : FinSet ClientId), a.inner.groupClients[g]? = some m → m.isEmpty = false := by
  have hinv : a.legs = ∅ ∧ GroupIndexed a.inner := by
    refine h.invariant (P := fun a => a.legs = ∅ ∧ GroupIndexed a.inner) ⟨rfl, .empty selfId⟩ ?_
    rintro a ev ⟨hl, hidx⟩ hev
    obtain ⟨hl', hstep⟩ := ran_withoutSip cfg hl hev
    exact ⟨hl', hidx.eventStep hstep⟩
  exact ⟨hinv.2.indexes, hinv.2.noEmpty⟩

/-- An ISSI affiliates over a connection, which is then a member. -/
theorem members_affiliated :
    (1 : ClientId) ∈ ((((AppState.start 9).next {} (.connect 1 (.accepted .basestation) none false)).next {}
      (.packet (.plain 5) 1 (buildSubscriberMessage subAffiliate 7 [91]))).inner.members 91) := by
  have hconnect : Event.WithoutSip (.connect 1 (.accepted .basestation) none false) := trivial
  have hpacket : Event.WithoutSip (.packet (.plain 5) 1 (buildSubscriberMessage subAffiliate 7 [91])) := rfl
  refine ((members_iff_of_reach (.step (.step .init hconnect) hpacket)).1 91 1).mpr ?_
  exact ⟨7, ⟨1, FinSet.ofList [91], .basestation, ⟨5, []⟩⟩, by decide +kernel, rfl, by decide⟩

end BrewServer
