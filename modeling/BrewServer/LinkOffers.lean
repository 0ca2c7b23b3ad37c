import BrewServer.AdjRibOut
import BrewServer.EffectiveTable

/-!
# What a loop-safe link brings

The offers of a link are what its messages make them: nothing else touches them while the
link is up. No entry is stamped above the registration clock of its server, so that a
route is never registered later than the servers it went through know.
-/

namespace BrewServer

open Protocol Fedroute Router Sip

/-- No entry is stamped above the registration clock. -/
def Stamped (s : Inner) : Prop :=
  ∀ (issi : UInt32) (sub : Subscriber), s.subscribers[issi]? = some sub → sub.route.reg ≤ s.fed.clock

section Stamps

variable {s s' : Inner} {issi k : UInt32}

theorem Stamped.table (h : Stamped s) (ht : SameTable s s') : Stamped s' := by
  intro k sub hs
  rw [ht.subscribers] at hs
  rw [ht.clock]
  exact h k sub hs

/-- What is selected anew was stamped before. -/
theorem reg_rerouted (h : Stamped s) (hc : Clocked s) {sub : Subscriber} (hs : rerouted s k = some sub) :
    sub.route.reg ≤ s.fed.clock := by
  unfold rerouted at hs
  split at hs
  · exact h k sub hs
  · rcases chosen_cases hs with ⟨hold, -⟩ | ⟨link, a, ho, rfl⟩
    · exact h k sub hold
    · exact hc k link a ho

theorem Stamped.reroute (h : Stamped s) (hc : Clocked s) : Stamped (Fedroute.reroute s issi).1 := by
  intro k sub hs
  rw [reroute_fed]
  rw [reroute_subscribers] at hs
  split at hs
  · exact reg_rerouted h hc hs
  · exact h k sub hs

theorem Stamped.setEffective {new : Option Subscriber} (h : Stamped s)
    (hnew : ∀ n : Subscriber, new = some n → n.route.reg ≤ s.fed.clock) : Stamped (Fedroute.setEffective s issi new) := by
  intro k sub hs
  rw [setEffective_subscribers] at hs
  split at hs
  · exact hnew sub hs
  · exact h k sub hs

theorem Stamped.applyEntry {new : Option Subscriber} (h : Stamped s) (hc : Clocked s)
    (hnew : ∀ n : Subscriber, new = some n → n.route.reg ≤ s.fed.clock) : Stamped (Router.applyEntry s issi new) := by
  unfold Router.applyEntry
  split
  · exact (h.setEffective hnew).reroute hc
  · exact h.setEffective hnew

theorem Stamped.handleSubscriber {nowMs : UInt64} {source : ClientId} {msg : SubscriberMessage} (h : Stamped s)
    (hc : Clocked s) : Stamped (Router.handleSubscriber s nowMs source msg).1 := by
  rcases handleSubscriber_cases s nowMs source msg with heq | ⟨ticked, new, groups, -, hentry, heq⟩
  · rw [heq]
    exact h
  · rw [heq]
    have ha : Advances s ticked := advances_entryChange hentry
    have hticked : Stamped ticked := by
      intro k sub hs
      rw [hentry.subscribers] at hs
      exact UInt64.le_trans (h k sub hs) ha.clock
    refine (hticked.applyEntry (ha.clocked hc) fun n hn => ?_).table
      (lateEntry_same (Router.applyEntry ticked msg.issi new) source groups).1.toSameTable
    subst hn
    cases hentry with
    | register mode asked => exact UInt64.le_refl _
    | appear mode asked absent => exact UInt64.le_refl _
    | affiliate o asked held own => exact h _ o held
    | deaffiliate o asked held own => exact h _ o held

theorem Stamped.dropRegistrations (h : Stamped s) (hw : WellRouted s) (hc : Clocked s) (id : ClientId) :
    Stamped (BrewServer.dropRegistrations s id).1 := by
  have hclock : (unaffiliated s id).fed.clock = s.fed.clock := clock_unaffiliated s id
  have hleft : Stamped (unaffiliated s id) := by
    intro k sub hs
    rw [unaffiliated_subscribers, Option.filter_eq_some_iff] at hs
    rw [hclock]
    exact h k sub hs.1
  have hoffers : Clocked (unaffiliated s id) := by
    intro k l a ho
    rw [hw.offer_unaffiliated] at ho
    rw [hclock]
    split at ho
    · cases ho
    · exact hc k l a ho
  intro k sub hs
  rw [registers_dropRegistrations_fed]
  rw [dropRegistrations_subscribers] at hs
  split at hs
  · exact reg_rerouted hleft hoffers hs
  · rw [hclock]
    exact h k sub hs

theorem Stamped.withdrawOffer {source : ClientId} (h : Stamped s) : Stamped (Fedroute.withdrawOffer s issi source).1 := by
  intro k sub hs
  rw [withdrawOffer_subscribers] at hs
  rw [withdrawOffer_clock]
  exact h k sub hs

theorem Stamped.takeOffer {nowMs : UInt64} {source : ClientId} {a : Advert} (h : Stamped s) :
    Stamped (Fedroute.takeOffer s nowMs source issi a) := by
  intro k sub hs
  rw [takeOffer_subscribers] at hs
  exact UInt64.le_trans (h k sub hs) advances_takeOffer.clock

/-- A step that keeps the entries stamped and the clock going. -/
structure Stamps (s s' : Inner) : Prop where
  clock : s.fed.clock ≤ s'.fed.clock
  stamped : Stamped s → Clocked s → Stamped s'

theorem Stamps.table (h : SameTable s s') : Stamps s s' := by
  refine ⟨?_, fun hs _ => hs.table h⟩
  rw [h.clock]
  exact UInt64.le_refl _

theorem Stamps.trans {s'' : Inner} (h : Stamps s s') (hc : Clocked s → Clocked s') (h' : Stamps s' s'') :
    Stamps s s'' :=
  ⟨UInt64.le_trans h.clock h'.clock, fun hs hk => h'.stamped (h.stamped hs hk) (hc hk)⟩

theorem Clocked.table (h : SameTable s s') (hc : Clocked s) : Clocked s' := (Advances.table h).clocked hc

theorem clock_handleSubscriber {nowMs : UInt64} {source : ClientId} {msg : SubscriberMessage} :
    s.fed.clock ≤ (handleSubscriber s nowMs source msg).1.fed.clock := by
  rcases handleSubscriber_cases s nowMs source msg with heq | ⟨ticked, new, groups, -, hentry, heq⟩
  · rw [heq]
    exact UInt64.le_refl _
  · rw [heq, (lateEntry_same (applyEntry ticked msg.issi new) source groups).1.toSameTable.clock, applyEntry_fed]
    exact (advances_entryChange hentry).clock

theorem clock_dropRegistrations {id : ClientId} : (dropRegistrations s id).1.fed.clock = s.fed.clock := by
  rw [registers_dropRegistrations_fed, clock_unaffiliated]

theorem stamps_packetStep {env : Env} {source : ClientId} {raw : Bytes} {sends : Sends}
    (h : PacketStep Joining s env source raw s' sends) : Stamps s s' := by
  have hbefore : ∀ {t t' : Inner}, Passive s t [] → Stamps t t' → Stamps s t' := fun hp ht =>
    (Stamps.table hp.routes.toSameTable).trans (Clocked.table hp.routes.toSameTable) ht
  cases h with
  | aside hj => exact .table hj.table
  | subscriber before parsed =>
    exact hbefore before ⟨clock_handleSubscriber, fun hs hc => hs.handleSubscriber hc⟩
  | route before link parsed fed =>
    rw [receiveRoute_eq.1]
    refine hbefore before ⟨?_, fun hs hc => hs.takeOffer.reroute (advances_takeOffer.clocked hc)⟩
    rw [reroute_fed]
    exact advances_takeOffer.clock
  | withdraw before link parsed fed =>
    refine hbefore before ?_
    rw [receiveWithdraw_eq]
    split
    · rw [(settleRoute_eq (by rw [withdrawOffer_subscribers])).1]
      refine ⟨?_, fun hs hc => hs.withdrawOffer.reroute (advances_withdrawOffer.clocked hc)⟩
      rw [reroute_fed]
      exact advances_withdrawOffer.clock
    · exact ⟨advances_withdrawOffer.clock, fun hs _ => hs.withdrawOffer⟩

theorem stamps_eventStep {a : AppState} {ev : Event} {sends : Sends} (hw : WellRouted a.inner)
    (h : EventStep Joining a.inner ev s' sends) : Stamps a.inner s' := by
  cases h with
  | aside hj => exact .table hj.table
  | connect id client neighbour console =>
    have hclock : (openSession a.inner id client neighbour console).1.fed.clock = a.inner.fed.clock := by
      rw [openSession_fed]
      cases neighbour <;> rfl
    refine ⟨by rw [hclock]; exact UInt64.le_refl _, fun hs _ k sub hk => ?_⟩
    rw [openSession_subscribers] at hk
    rw [hclock]
    exact hs k sub hk
  | disconnect id =>
    have htable := (passive_cleanupClient a.inner id).routes.toSameTable
    refine ⟨?_, fun hs hc => (hs.dropRegistrations hw hc id).table htable⟩
    rw [htable.clock, clock_dropRegistrations]
    exact UInt64.le_refl _
  | packet hp => exact stamps_packetStep hp

theorem stamps_next {cfg : Config} {a : AppState} {ev : Event} (hb : Bridged a) (hw : WellRouted a.inner)
    (hok : ev.Allowed a) : Stamps a.inner (a.next cfg ev).inner := by
  obtain ⟨mid, sends, more, hran⟩ := ran cfg hb hok
  have hstep := stamps_eventStep hw hran.event
  refine ⟨?_, fun hs hc => (hstep.stamped hs hc).table hran.aside.table⟩
  rw [hran.aside.table.clock]
  exact hstep.clock

theorem stamped_of_reach {cfg : Config} {selfId : UInt64} {a : AppState}
    (h : Reach (AppState.start selfId) (fun a ev => ev.Allowed a) (AppState.next cfg) a) : Stamped a.inner := by
  refine h.invariant_of (P := fun a => Sound selfId a ∧ Settled a.inner) (Q := fun a => Stamped a.inner)
    (fun _ h => ⟨sound_of_reach h, settled_of_reach h⟩) (fun issi sub hs => ?_) fun a ev hp hq hok => ?_
  · rw [AppState.start, Inner.empty, Std.ExtTreeMap.getElem?_empty] at hs
    cases hs
  · exact (stamps_next hp.1.bridged hp.1.routed hok).stamped hq hp.2.clocked

end Stamps

section Offers

variable {cfg : Config} {s : Inner} {a : AppState} {issi k : UInt32} {source link : ClientId}

theorem offer_takeOffer {nowMs : UInt64} {adv : Advert} :
    (takeOffer s nowMs source issi adv).offer k link =
      if issi = k ∧ source = link then
        if tooNew nowMs adv || adv.path.contains s.fed.selfId then none else some adv
      else s.offer k link := by
  unfold takeOffer
  split
  · exact offer_withdrawOffer
  · exact offer_storeOffer

theorem offer_reroute : (reroute s issi).1.offer k link = s.offer k link := by
  rw [Inner.offer, reroute_fed]
  rfl

theorem offer_receiveRoute {nowMs : UInt64} {adv : Advert} :
    (receiveRoute s nowMs source issi adv).1.offer k link =
      if issi = k ∧ source = link then
        if tooNew nowMs adv || adv.path.contains s.fed.selfId then none else some adv
      else s.offer k link := by
  rw [receiveRoute_eq.1, offer_reroute, offer_takeOffer]

theorem offer_receiveWithdraw :
    (receiveWithdraw s source issi).1.offer k link = if issi = k ∧ source = link then none else s.offer k link := by
  rw [receiveWithdraw_eq]
  split
  · rw [(settleRoute_eq (by rw [withdrawOffer_subscribers])).1, offer_reroute, offer_withdrawOffer]
  · exact offer_withdrawOffer

/-- A SUB message touches no offer. -/
theorem offer_handleSubscriber {nowMs : UInt64} {msg : SubscriberMessage} :
    (handleSubscriber s nowMs source msg).1.offer k link = s.offer k link := by
  rcases handleSubscriber_cases s nowMs source msg with heq | ⟨ticked, new, groups, -, hentry, heq⟩
  · rw [heq]
  · rw [heq, (lateEntry_same (applyEntry ticked msg.issi new) source groups).1.toSameTable.offer, Inner.offer,
      applyEntry_fed, hentry.ribIn]
    rfl

/-- Only what comes over a link, and its end, touches the offers of the link. -/
theorem offer_eventStep {ev : Event} {s' : Inner} {sends : Sends} (h : EventStep Joining s ev s' sends)
    (hother : ∀ env raw, ev ≠ .packet env link raw) (hclose : ev ≠ .disconnect link) :
    s'.offer k link = s.offer k link := by
  cases h with
  | aside hj => exact hj.table.offer k link
  | connect id client neighbour console => exact openSession_offer
  | disconnect id =>
    have hne : id ≠ link := fun he => hclose (he ▸ rfl)
    rw [(passive_cleanupClient s id).routes.toSameTable.offer, Inner.offer, registers_dropRegistrations_fed]
    exact offer_unaffiliated_ne hne
  | @packet env source raw _ _ hp =>
    have hne : source ≠ link := fun he => hother env raw (he ▸ rfl)
    cases hp with
    | aside hj => exact hj.table.offer k link
    | subscriber before parsed => rw [offer_handleSubscriber, before.routes.toSameTable.offer]
    | route before far parsed fed =>
      rw [offer_receiveRoute, if_neg fun h => hne h.2, before.routes.toSameTable.offer]
    | withdraw before far parsed fed =>
      rw [offer_receiveWithdraw, if_neg fun h => hne h.2, before.routes.toSameTable.offer]

theorem offer_next {ev : Event} (hb : Bridged a) (hok : ev.Allowed a) (hother : ∀ env raw, ev ≠ .packet env link raw)
    (hclose : ev ≠ .disconnect link) : (a.next cfg ev).inner.offer k link = a.inner.offer k link := by
  obtain ⟨mid, sends, more, hran⟩ := ran cfg hb hok
  rw [hran.aside.table.offer]
  exact offer_eventStep hran.event hother hclose

/-- A federation message is handled by what it is. -/
theorem routePacket_fed {env : Env} {raw : Bytes} {nbrId : UInt64} {msg : FedMessage}
    (hlink : s.fed.links[link]? = some nbrId) (hfed : raw.head? = some classFederation)
    (hparse : parse raw nbrId = some (.ok msg)) :
    (routePacket cfg env s link raw).inner = (handleMessage (purgeEphemeral env s) env.nowMs link nbrId msg).1 := by
  have hpurged : (purgeEphemeral env s).fed.links[link]? = some nbrId := by
    rw [(@passive_purgeEphemeral env s).routes.links]
    exact hlink
  unfold routePacket
  dsimp only
  rw [if_pos hfed, ofHandled, handle, hpurged]
  dsimp only
  rw [hparse]

section Arrival

variable {env : Env} {raw : Bytes} {nbrId : UInt64}

/-- A route that is not refused is the link's new offer. -/
theorem offer_of_route {adv : Advert} (hlink : s.fed.links[link]? = some nbrId)
    (hfed : raw.head? = some classFederation) (hparse : parse raw nbrId = some (.ok (.route issi adv)))
    (hself : s.fed.selfId ∉ adv.path) (hnew : tooNew env.nowMs adv = false) :
    (routePacket cfg env s link raw).inner.offer k link = if issi = k then some adv else s.offer k link := by
  have hpurged := (@passive_purgeEphemeral env s).routes.toSameTable
  have htake : (tooNew env.nowMs adv || adv.path.contains (purgeEphemeral env s).fed.selfId) = false := by
    rw [hpurged.selfId, hnew, Bool.false_or, ← Bool.not_eq_true]
    exact fun hmem => hself (List.contains_iff_mem.mp hmem)
  rw [routePacket_fed hlink hfed hparse, handleMessage, offer_receiveRoute, htake, hpurged.offer,
    if_neg Bool.false_ne_true]
  simp only [and_true]

theorem offer_of_withdraw (hlink : s.fed.links[link]? = some nbrId) (hfed : raw.head? = some classFederation)
    (hparse : parse raw nbrId = some (.ok (.withdraw issi))) :
    (routePacket cfg env s link raw).inner.offer k link = if issi = k then none else s.offer k link := by
  have hpurged := (@passive_purgeEphemeral env s).routes.toSameTable
  rw [routePacket_fed hlink hfed hparse, handleMessage, offer_receiveWithdraw, hpurged.offer]
  simp only [and_true]

/-- A packet that is neither leaves the offers alone. -/
theorem offer_of_other (hlink : s.fed.links[link]? = some nbrId) (hsip : env.sip.Fresh s)
    (heffect : fedEffect nbrId raw = none) :
    (routePacket cfg env s link raw).inner.offer k link = s.offer k link := by
  have hno : ∀ m : UInt64, s.fed.links[link]? = some m → ∀ msg, parse raw m = some (.ok msg) →
      raw.head? = some classFederation → (∀ issi adv, msg ≠ .route issi adv) ∧ ∀ issi, msg ≠ .withdraw issi := by
    intro m hm msg hparse hfed
    obtain rfl : nbrId = m := Option.some.inj (hlink.symm.trans hm)
    constructor
    · rintro issi adv rfl
      rw [fedEffect, if_pos hfed, hparse] at heffect
      cases heffect
    · rintro issi rfl
      rw [fedEffect, if_pos hfed, hparse] at heffect
      cases heffect
  have hstep : PacketStep Joining s env link raw (routePacket cfg env s link raw).inner
      (routePacket cfg env s link raw).sends := packetStep_joining hsip
  generalize (routePacket cfg env s link raw).sends = sends at hstep
  generalize (routePacket cfg env s link raw).inner = s' at hstep ⊢
  cases hstep with
  | aside hj => exact hj.table.offer k link
  | subscriber before parsed => rw [offer_handleSubscriber, before.routes.toSameTable.offer]
  | route before far parsed fed => exact absurd rfl ((hno _ far _ parsed fed).1 _ _)
  | withdraw before far parsed fed => exact absurd rfl ((hno _ far _ parsed fed).2 _)

/-- What comes over a link does to its offers what the message says. -/
theorem offers_of_packet (hlink : s.fed.links[link]? = some nbrId) (hsip : env.sip.Fresh s)
    (hfits : ∀ issi adv, raw.head? = some classFederation → parse raw nbrId = some (.ok (.route issi adv)) →
      s.fed.selfId ∉ adv.path ∧ tooNew env.nowMs adv = false) :
    (fun k => (routePacket cfg env s link raw).inner.offer k link) =
      applyTo (fedEffect nbrId) (fun k => s.offer k link) raw := by
  funext k
  by_cases hfed : raw.head? = some classFederation
  · by_cases hroute : ∃ issi adv, parse raw nbrId = some (.ok (.route issi adv))
    · obtain ⟨issi, adv, hparse⟩ := hroute
      obtain ⟨hself, hnew⟩ := hfits issi adv hfed hparse
      have heffect : fedEffect nbrId raw = some (issi, fun _ => some adv) := by rw [fedEffect, if_pos hfed, hparse]
      rw [offer_of_route hlink hfed hparse hself hnew, applyTo_of_set heffect]
    · by_cases hwithdraw : ∃ issi, parse raw nbrId = some (.ok (.withdraw issi))
      · obtain ⟨issi, hparse⟩ := hwithdraw
        have heffect : fedEffect nbrId raw = some (issi, fun _ => none) := by rw [fedEffect, if_pos hfed, hparse]
        rw [offer_of_withdraw hlink hfed hparse, applyTo_of_set heffect]
      · have heffect : fedEffect nbrId raw = none := by
          rw [fedEffect, if_pos hfed]
          split
          · next issi adv hparse => exact absurd ⟨issi, adv, hparse⟩ hroute
          · next issi hparse => exact absurd ⟨issi, hparse⟩ hwithdraw
          · rfl
        rw [offer_of_other hlink hsip heffect, applyTo_of_none heffect]
  · have heffect : fedEffect nbrId raw = none := if_neg hfed
    rw [offer_of_other hlink hsip heffect, applyTo_of_none heffect]

theorem offers_next (hb : Bridged a) (hok : (Event.packet env link raw).Allowed a)
    (hlink : a.inner.fed.links[link]? = some nbrId)
    (hfits : ∀ issi adv, raw.head? = some classFederation → parse raw nbrId = some (.ok (.route issi adv)) →
      a.inner.fed.selfId ∉ adv.path ∧ tooNew env.nowMs adv = false) :
    (fun k => (a.next cfg (.packet env link raw)).inner.offer k link) =
      applyTo (fedEffect nbrId) (fun k => a.inner.offer k link) raw := by
  have harrival : (fun k => (routePacket cfg env a.inner link raw).inner.offer k link) =
      applyTo (fedEffect nbrId) (fun k => a.inner.offer k link) raw := offers_of_packet hlink hok.2.2 hfits
  obtain ⟨more, hran⟩ : ∃ more, Ran cfg a (.packet env link raw) (routePacket cfg env a.inner link raw).inner
      (routePacket cfg env a.inner link raw).sends more := ran_routed hb hok trivial
  rw [← harrival]
  funext k
  exact hran.aside.table.offer k link

end Arrival

/-- A route that is sent misses the neighbour, and is stamped no later than the clock. -/
theorem route_of_sent {selfId nbrId : UInt64} {ev : Event} {raw : Bytes} {adv : Advert}
    (h : Reach (AppState.start selfId) (fun a ev => ev.Allowed a) (AppState.next cfg) a) (hok : ev.Allowed a)
    (hlink : (a.next cfg ev).inner.fed.links[link]? = some nbrId) (hraw : raw ∈ (a.sent cfg ev).on link)
    (hfed : raw.head? = some classFederation) (hparse : parse raw selfId = some (.ok (.route issi adv))) :
    nbrId ∉ adv.path ∧ adv.reg ≤ (a.next cfg ev).inner.fed.clock := by
  have hs := sound_of_reach h
  have hsound : Sound selfId (a.next cfg ev) := hs.next hok
  obtain ⟨k, rfl⟩ := mem_sent_fedRoute hs (quietHeld_of_reach h) hok hlink (Sends.mem_on.mp hraw) hfed
    (parse_comesFrom hparse).1
  have heff : ∀ e, (a.next cfg ev).inner.subscribers[k]? = some e → Extendable selfId e.route.path := by
    intro e he
    rw [← hsound.selfId]
    exact (hsound.routed.entry k e he).extendable
  rw [parse_fedUpdate heff] at hparse
  cases hoffer : offeredTo selfId link nbrId ((a.next cfg ev).inner.subscribers[k]?) with
  | none =>
    rw [hoffer] at hparse
    cases hparse
  | some adv' =>
    rw [hoffer] at hparse
    cases hparse
    refine ⟨(offeredTo_path heff (hsound.selfId ▸ (hsound.routed.link link nbrId hlink).2) hoffer).2, ?_⟩
    obtain ⟨e, he, hcond⟩ := Option.bind_eq_some_iff.mp hoffer
    have hstamped : Stamped (a.next cfg ev).inner := stamped_of_reach (.step h hok)
    split at hcond
    · cases hcond
      exact hstamped _ e he
    · cases hcond

end Offers

end BrewServer
