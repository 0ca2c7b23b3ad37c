import BrewServer.RouteTable

/-!
# Who joins a group

A connection gets into a group by an entry that is routed over it, so it is a
session that is open.
-/

namespace BrewServer

open Protocol Fedroute Router Sip

/-- The sessions stay, and only sessions join a group. -/
structure Gains (s s' : Inner) : Prop where
  sessions : ∀ c : ClientId, s'.session c = s.session c
  members : ∀ (g : UInt32) (c : ClientId), c ∈ s'.members g → c ∈ s.members g ∨ (s'.session c).isSome = true

namespace Gains

variable {s s' s'' : Inner}

theorem refl (s : Inner) : Gains s s := ⟨fun _ => rfl, fun _ _ h => .inl h⟩

theorem trans (h : Gains s s') (h' : Gains s' s'') : Gains s s'' := by
  refine ⟨fun c => (h'.sessions c).trans (h.sessions c), fun g c hc => ?_⟩
  rcases h'.members g c hc with hm | hs
  · refine (h.members g c hm).imp_right fun hs => ?_
    rw [h'.sessions c]
    exact hs
  · exact .inr hs

theorem of_eq (hs : ∀ c : ClientId, s'.session c = s.session c) (hg : s'.groupClients = s.groupClients) : Gains s s' :=
  ⟨hs, fun g c hc => .inl (by rw [Inner.members, ← hg]; exact hc)⟩

theorem of_passive {sends : Sends} (h : Passive s s' sends) : Gains s s' := .of_eq h.aside.sessions h.routes.groupClients

end Gains

section Routes

variable {s : Inner} {issi : UInt32} {source : ClientId}

/-- Only the owner of the new entry joins a group. -/
theorem mem_members_setEffective {new : Option Subscriber} {g : UInt32} {c : ClientId}
    (h : c ∈ (setEffective s issi new).members g) : c ∈ s.members g ∨ ∃ n, new = some n ∧ n.clientId = c := by
  have hleft : ∀ t : FinMap UInt32 Subscriber, c ∈ membersOf ((s.subscribers[issi]?).elim s.groupClients
      (unindex Subscriber.clientId Subscriber.groups t s.groupClients)) g → c ∈ s.members g := by
    intro t ht
    cases hold : s.subscribers[issi]? with
    | none =>
      rw [hold] at ht
      exact ht
    | some old =>
      rw [hold] at ht
      exact (mem_unindex.mp ht).1
  cases new with
  | none => exact .inl (hleft _ h)
  | some n =>
    rcases mem_index.mp h with hm | ⟨ho, -⟩
    · exact .inl (hleft _ hm)
    · exact .inr ⟨n, rfl, ho⟩

theorem gains_setEffective {new : Option Subscriber} (hnew : ∀ n : Subscriber, new = some n → EntryOk s n) :
    Gains s (setEffective s issi new) := by
  have hsessions := (@registers_setEffective s issi new).sameLinks.sessions
  refine ⟨hsessions, fun g c hc => ?_⟩
  refine (mem_members_setEffective hc).imp_right ?_
  rintro ⟨n, hn, rfl⟩
  rw [hsessions]
  exact (hnew n hn).session

theorem gains_reroute (h : WellRouted s) : Gains s (reroute s issi).1 := by
  unfold reroute
  dsimp only
  split
  · exact .refl s
  · exact gains_setEffective fun n hn => h.chosen hn

theorem gains_applyEntry {new : Option Subscriber} (h : WellRouted s)
    (hnew : ∀ n : Subscriber, new = some n → EntryOk s n) : Gains s (applyEntry s issi new) := by
  unfold applyEntry
  split
  · exact (gains_setEffective hnew).trans (gains_reroute (h.setEffective hnew))
  · exact gains_setEffective hnew

theorem gains_handleSubscriber {nowMs : UInt64} {msg : SubscriberMessage} (h : WellRouted s)
    (hsession : (s.session source).isSome = true) : Gains s (handleSubscriber s nowMs source msg).1 := by
  rcases handleSubscriber_cases s nowMs source msg with heq | ⟨ticked, new, groups, hlink, hentry, heq⟩
  · rw [heq]
    exact .refl s
  · rw [heq]
    have hticked : Gains s ticked := .of_eq hentry.registers.sameLinks.sessions hentry.groupClients
    have happlied : Gains ticked (applyEntry ticked msg.issi new) := by
      refine gains_applyEntry (h.ticked hentry) fun n hn => ?_
      subst hn
      exact (h.entryChange hlink hsession hentry).congr hentry.registers.sameLinks
    obtain ⟨hsame, -, -, hsds, -⟩ := lateEntry_same (applyEntry ticked msg.issi new) source groups
    exact (hticked.trans happlied).trans (.of_passive (Passive.of_routes hsame hsds))

theorem gains_receiveRoute {nowMs n : UInt64} {a : Advert} (h : WellRouted s) (hlink : s.fed.links[source]? = some n)
    (hpath : PathFrom n a.path) : Gains s (receiveRoute s nowMs source issi a).1 := by
  rw [receiveRoute_eq.1]
  have htaken : Gains s (takeOffer s nowMs source issi a) :=
    .of_eq registers_takeOffer.sameLinks.sessions takeOffer_groupClients
  exact htaken.trans (gains_reroute (h.takeOffer hlink hpath))

theorem gains_receiveWithdraw (h : WellRouted s) : Gains s (receiveWithdraw s source issi).1 := by
  have hwithdrawn : Gains s (withdrawOffer s issi source).1 :=
    .of_eq registers_withdrawOffer.sameLinks.sessions withdrawOffer_groupClients
  rw [receiveWithdraw_eq]
  split
  · rw [(settleRoute_eq (by rw [withdrawOffer_subscribers])).1]
    exact hwithdrawn.trans (gains_reroute h.withdrawOffer)
  · exact hwithdrawn

theorem gains_packetStep {A : Inner → Inner → Sends → Prop} {env : Env} {raw : Bytes} {s' : Inner} {sends : Sends}
    (hA : ∀ {s' : Inner} {sends : Sends}, A s s' sends → Gains s s') (h : WellRouted s)
    (hsession : (s.session source).isSome = true) (hstep : PacketStep A s env source raw s' sends) : Gains s s' := by
  cases hstep with
  | aside ha => exact hA ha
  | subscriber before parsed =>
    refine (Gains.of_passive before).trans (gains_handleSubscriber (h.aside before.aside) ?_)
    rw [before.aside.sessions]
    exact hsession
  | route before link parsed fed =>
    rw [← before.routes.links] at link
    exact (Gains.of_passive before).trans (gains_receiveRoute (h.aside before.aside) link (pathFrom_of_parse parsed))
  | withdraw before link parsed fed => exact (Gains.of_passive before).trans (gains_receiveWithdraw (h.aside before.aside))

/-- A connection that closes is in no group any more. -/
theorem members_cleanupClient (h : WellRouted s) {g : UInt32} {c : ClientId}
    (hc : c ∈ (cleanupClient s source).inner.members g) :
    (c ∈ s.members g ∧ c ≠ source) ∨ ((cleanupClient s source).inner.session c).isSome = true := by
  have hfold : ∀ (previous : List (UInt32 × Option Subscriber)) (r : Inner × Sends), WellRouted r.1 →
      Gains r.1 (previous.foldl reselect r).1 := by
    intro previous
    induction previous with
    | nil => exact fun r _ => .refl r.1
    | cons e previous ih =>
      intro r hr
      exact (gains_reroute hr).trans (ih (reselect r e) (hr.reroute e.1))
  have hgains : Gains (unaffiliated s source) (cleanupClient s source).inner := by
    refine Gains.trans ?_ (.of_passive (passive_cleanupClient s source))
    rw [dropRegistrations_eq]
    exact hfold (previousOf s source) (unaffiliated s source, []) (h.unaffiliated source)
  refine (hgains.members g c hc).imp_left fun hm => ?_
  rw [Inner.members, unaffiliated_groupClients] at hm
  obtain ⟨hold, hne⟩ := mem_dropMember.mp hm
  exact ⟨hold, Ne.symm hne⟩

end Routes

end BrewServer
