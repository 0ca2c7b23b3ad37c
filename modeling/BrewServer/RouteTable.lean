import BrewServer.Steps

/-!
# Well-formed routes

An entry is owned by a connected session, a link's offers come over that link,
and every path leads from the neighbour it came over without crossing this
server.
-/

namespace BrewServer

open Protocol Fedroute Router Sip

/-- An effective entry: local ones have no path, the others lead over a link. -/
structure EntryOk (s : Inner) (sub : Subscriber) : Prop where
  session : (s.session sub.clientId).isSome = true
  home : sub.clientId ∉ s.fed.links → sub.route.path = []
  away : ∀ n : UInt64, s.fed.links[sub.clientId]? = some n →
    sub.mode = .peer ∧ PathFrom n sub.route.path ∧ s.fed.selfId ∉ sub.route.path

/-- An offer: a path from the neighbour of its link. -/
def OfferOk (s : Inner) (link : ClientId) (a : Advert) : Prop :=
  ∃ n : UInt64, s.fed.links[link]? = some n ∧ PathFrom n a.path ∧ s.fed.selfId ∉ a.path

structure WellRouted (s : Inner) : Prop where
  entry : ∀ (issi : UInt32) (sub : Subscriber), s.subscribers[issi]? = some sub → EntryOk s sub
  offer : ∀ (issi : UInt32) (link : ClientId) (a : Advert), s.offer issi link = some a → OfferOk s link a
  link : ∀ (link : ClientId) (n : UInt64), s.fed.links[link]? = some n →
    s.session link = some .peer ∧ n ≠ s.fed.selfId

/-- The connections, as far as routes go. -/
structure SameLinks (s s' : Inner) : Prop where
  sessions : ∀ c : ClientId, s'.session c = s.session c
  links : s'.fed.links = s.fed.links
  selfId : s'.fed.selfId = s.fed.selfId

theorem Registers.sameLinks {s s' : Inner} (h : Registers s s') : SameLinks s s' :=
  ⟨fun c => session_congr (by rw [h.clients]), h.links, h.selfId⟩

theorem Aside.sameLinks {s s' : Inner} {sends : Sends} (h : Aside s s' sends) : SameLinks s s' :=
  ⟨h.sessions, h.table.links, h.table.selfId⟩

theorem Passive.aside {s s' : Inner} {sends : Sends} (h : Passive s s' sends) : Aside s s' sends := h.joining.aside

section Congr

variable {s s' : Inner}

/-- Only the connection the entry leads over matters. -/
theorem EntryOk.of_owner {sub : Subscriber} (h : EntryOk s sub)
    (hs : s'.session sub.clientId = s.session sub.clientId)
    (hl : s'.fed.links[sub.clientId]? = s.fed.links[sub.clientId]?) (hi : s'.fed.selfId = s.fed.selfId) :
    EntryOk s' sub := by
  refine ⟨by rw [hs]; exact h.session, fun hno => h.home fun hm => hno ?_, by rw [hl, hi]; exact h.away⟩
  obtain ⟨n, hn⟩ := FinMap.mem_iff.mp hm
  exact FinMap.mem_of_getElem? (hl.trans hn)

theorem EntryOk.congr {sub : Subscriber} (h : EntryOk s sub) (hl : SameLinks s s') : EntryOk s' sub :=
  h.of_owner (hl.sessions _) (by rw [hl.links]) hl.selfId

theorem OfferOk.of_link {link : ClientId} {a : Advert} (h : OfferOk s link a)
    (hl : s'.fed.links[link]? = s.fed.links[link]?) (hi : s'.fed.selfId = s.fed.selfId) : OfferOk s' link a := by
  unfold OfferOk
  rw [hl, hi]
  exact h

theorem OfferOk.congr {link : ClientId} {a : Advert} (h : OfferOk s link a) (hl : SameLinks s s') :
    OfferOk s' link a :=
  h.of_link (by rw [hl.links]) hl.selfId

theorem SameTable.offer (h : SameTable s s') (issi : UInt32) (link : ClientId) :
    s'.offer issi link = s.offer issi link := by
  unfold Inner.offer
  rw [h.ribIn]

end Congr

theorem chosen_cases {s : Inner} {issi : UInt32} {n : Subscriber} (h : chosen s issi = some n) :
    (s.subscribers[issi]? = some n ∧ n.clientId ∉ s.fed.links) ∨
      ∃ (link : ClientId) (a : Advert), s.offer issi link = some a ∧ n = subscriberOf link a := by
  unfold chosen at h
  dsimp only at h
  split at h
  · rw [localEntry, Option.filter_eq_some_iff] at h
    refine .inl ⟨h.1, fun hm => ?_⟩
    rw [Std.ExtTreeMap.mem_iff_contains] at hm
    rw [hm] at h
    exact absurd h.2 (by decide)
  · next link _ =>
    obtain ⟨a, ha, rfl⟩ := Option.map_eq_some_iff.mp h
    exact .inr ⟨link, a, ha, rfl⟩
  · cases h

theorem session_openSession {s : Inner} {id : ClientId} {client : Client} {neighbour : Option UInt64} {console : Bool}
    (hreal : client.mode = .terminal → client.remoteAddr.isSome = true) :
    (openSession s id client neighbour console).1.session id = some client.mode := by
  have hget : (openSession s id client neighbour console).1.clients[id]? = some client := by
    rw [clients_openSession, FinMap.getElem?_insert, if_pos rfl]
  rw [Inner.session, if_neg, hget, Option.map_some]
  rw [isBridged_iff, hget, Option.map_some, Client.kind]
  intro hk
  have hm := congrArg Prod.fst (Option.some.inj hk)
  have ha := congrArg Prod.snd (Option.some.inj hk)
  have := hreal hm
  rw [show client.remoteAddr = none from ha] at this
  cases this

namespace WellRouted

variable {s s' : Inner}

theorem aside {sends : Sends} (h : WellRouted s) (ha : Aside s s' sends) : WellRouted s' := by
  have hl := ha.sameLinks
  refine ⟨fun issi sub hs => ?_, fun issi link a ho => ?_, fun link n hn => ?_⟩
  · rw [ha.table.subscribers] at hs
    exact (h.entry issi sub hs).congr hl
  · rw [ha.table.offer] at ho
    exact (h.offer issi link a ho).congr hl
  · rw [hl.links] at hn
    rw [hl.sessions, hl.selfId]
    exact h.link link n hn

/-- Entries and offers may change as long as each is well-formed. -/
theorem registers (h : WellRouted s) (hr : Registers s s')
    (hentry : ∀ (issi : UInt32) (sub : Subscriber), s'.subscribers[issi]? = some sub → EntryOk s sub)
    (hoffer : ∀ (issi : UInt32) (link : ClientId) (a : Advert), s'.offer issi link = some a → OfferOk s link a) :
    WellRouted s' := by
  have hl := hr.sameLinks
  refine ⟨fun issi sub hs => (hentry issi sub hs).congr hl, fun issi link a ho => (hoffer issi link a ho).congr hl,
    fun link n hn => ?_⟩
  rw [hl.links] at hn
  rw [hl.sessions, hl.selfId]
  exact h.link link n hn

theorem subscriberOf {issi : UInt32} {link : ClientId} {a : Advert} (h : WellRouted s)
    (ho : s.offer issi link = some a) : EntryOk s (Fedroute.subscriberOf link a) := by
  obtain ⟨n, hn, hpath, hself⟩ := h.offer issi link a ho
  refine ⟨?_, fun hno => absurd (FinMap.mem_of_getElem? hn) hno, fun m hm => ?_⟩
  · change (s.session link).isSome = true
    rw [(h.link link n hn).1]
    rfl
  · change s.fed.links[link]? = some m at hm
    rw [hn] at hm
    cases hm
    exact ⟨rfl, hpath, hself⟩

theorem chosen {issi : UInt32} {n : Subscriber} (h : WellRouted s) (hc : Fedroute.chosen s issi = some n) :
    EntryOk s n := by
  rcases chosen_cases hc with ⟨hs, -⟩ | ⟨link, a, ho, rfl⟩
  · exact h.entry issi n hs
  · exact h.subscriberOf ho

theorem setEffective {issi : UInt32} {new : Option Subscriber} (h : WellRouted s)
    (hnew : ∀ n : Subscriber, new = some n → EntryOk s n) : WellRouted (Fedroute.setEffective s issi new) := by
  refine h.registers registers_setEffective (fun k sub hs => ?_) fun k link a ho => h.offer k link a ho
  rw [setEffective_subscribers] at hs
  split at hs
  · exact hnew sub hs
  · exact h.entry k sub hs

theorem reroute (h : WellRouted s) (issi : UInt32) : WellRouted (Fedroute.reroute s issi).1 := by
  unfold Fedroute.reroute
  dsimp only
  split
  · exact h
  · exact h.setEffective fun n hn => h.chosen hn

theorem applyEntry {issi : UInt32} {new : Option Subscriber} (h : WellRouted s)
    (hnew : ∀ n : Subscriber, new = some n → EntryOk s n) : WellRouted (Router.applyEntry s issi new) := by
  unfold Router.applyEntry
  split
  · exact (h.setEffective hnew).reroute issi
  · exact h.setEffective hnew

/-- Whoever sends a SUB message registers a local ISSI. -/
theorem entryChange {nowMs : UInt64} {source : ClientId} {msg : SubscriberMessage} {n : Subscriber} (h : WellRouted s)
    (hlink : source ∉ s.fed.links) (hsession : (s.session source).isSome = true)
    (hentry : EntryChange s nowMs source msg s' (some n)) : EntryOk s n := by
  have hnew : ∀ sub : Subscriber, sub.clientId = source → sub.route.path = [] → EntryOk s sub := by
    intro sub hc hp
    refine ⟨by rw [hc]; exact hsession, fun _ => hp, fun m hm => ?_⟩
    rw [hc] at hm
    exact absurd (FinMap.mem_of_getElem? hm) hlink
  refine hnew n hentry.owner ?_
  cases hentry with
  | register mode asked => rfl
  | appear mode asked absent => rfl
  | affiliate o asked held own => exact (h.entry _ o held).home (own ▸ hlink)
  | deaffiliate o asked held own => exact (h.entry _ o held).home (own ▸ hlink)

theorem ticked {nowMs : UInt64} {source : ClientId} {msg : SubscriberMessage} {new : Option Subscriber}
    (h : WellRouted s) (hentry : EntryChange s nowMs source msg s' new) : WellRouted s' := by
  refine h.registers hentry.registers (fun k sub hs => ?_) fun k link a ho => ?_
  · rw [hentry.subscribers] at hs
    exact h.entry k sub hs
  · rw [Inner.offer, hentry.ribIn] at ho
    exact h.offer k link a ho

theorem handleSubscriber {source : ClientId} (h : WellRouted s) (nowMs : UInt64) (msg : SubscriberMessage)
    (hsession : (s.session source).isSome = true) : WellRouted (Router.handleSubscriber s nowMs source msg).1 := by
  rcases handleSubscriber_cases s nowMs source msg with heq | ⟨ticked, new, groups, hlink, hentry, heq⟩
  · rw [heq]
    exact h
  · rw [heq]
    have happlied : WellRouted (Router.applyEntry ticked msg.issi new) := by
      refine (h.ticked hentry).applyEntry fun n hn => ?_
      subst hn
      exact (h.entryChange hlink hsession hentry).congr hentry.registers.sameLinks
    obtain ⟨hsame, -, -, hsds, -⟩ := lateEntry_same (Router.applyEntry ticked msg.issi new) source groups
    exact happlied.aside (Passive.of_routes hsame hsds).aside

/-- A route that comes in over a link is checked against the far server and
against this one. -/
theorem takeOffer {nowMs n : UInt64} {source : ClientId} {issi : UInt32} {a : Advert} (h : WellRouted s)
    (hlink : s.fed.links[source]? = some n) (hpath : PathFrom n a.path) :
    WellRouted (Fedroute.takeOffer s nowMs source issi a) := by
  unfold Fedroute.takeOffer
  split
  · refine h.registers registers_withdrawOffer (fun k sub hs => ?_) fun k link b ho => ?_
    · rw [withdrawOffer_subscribers] at hs
      exact h.entry k sub hs
    · rw [offer_withdrawOffer] at ho
      split at ho
      · cases ho
      · exact h.offer k link b ho
  · next hok =>
    refine h.registers registers_storeOffer (fun k sub hs => h.entry k sub hs) fun k link b ho => ?_
    rw [offer_storeOffer] at ho
    split at ho
    · next hk =>
      cases ho
      refine ⟨n, hk.2 ▸ hlink, hpath, fun hm => hok ?_⟩
      rw [List.contains_iff_mem.mpr hm, Bool.or_true]
    · exact h.offer k link b ho

theorem withdrawOffer {source : ClientId} {issi : UInt32} (h : WellRouted s) :
    WellRouted (Fedroute.withdrawOffer s issi source).1 := by
  refine h.registers registers_withdrawOffer (fun k sub hs => ?_) fun k link b ho => ?_
  · rw [withdrawOffer_subscribers] at hs
    exact h.entry k sub hs
  · rw [offer_withdrawOffer] at ho
    split at ho
    · cases ho
    · exact h.offer k link b ho

theorem receiveWithdraw {source : ClientId} {issi : UInt32} (h : WellRouted s) :
    WellRouted (Fedroute.receiveWithdraw s source issi).1 := by
  rw [receiveWithdraw_eq]
  split
  · rw [(settleRoute_eq (by rw [withdrawOffer_subscribers])).1]
    exact h.withdrawOffer.reroute issi
  · exact h.withdrawOffer

/-- Only the connection's own offers go. -/
theorem offer_unaffiliated {id : ClientId} {k : UInt32} {l : ClientId} (h : WellRouted s) :
    (BrewServer.unaffiliated s id).offer k l = if id = l then none else s.offer k l := by
  split
  · next hid =>
    subst hid
    by_cases hm : id ∈ s.fed.links
    · exact offer_unaffiliated_self hm
    · change (forgotten (detach s id) id (previousOf s id)).offer k id = none
      rw [offer_forgotten]
      split
      · rfl
      · change s.offer k id = none
        cases ho : s.offer k id with
        | none => rfl
        | some a =>
          obtain ⟨n, hn, -⟩ := h.offer k id a ho
          exact absurd (FinMap.mem_of_getElem? hn) hm
  · next hid => exact offer_unaffiliated_ne hid

/-- What a closing connection leaves leads over the others. -/
theorem unaffiliated (h : WellRouted s) (id : ClientId) : WellRouted (BrewServer.unaffiliated s id) := by
  have hr : Registers (detach s id) (BrewServer.unaffiliated s id) := registers_unaffiliated
  have hsession : ∀ c : ClientId, id ≠ c → (BrewServer.unaffiliated s id).session c = s.session c := by
    intro c hc
    refine session_congr ?_
    rw [hr.clients, detach_clients, FinMap.getElem?_erase, if_neg hc]
  have hlink : ∀ c : ClientId, id ≠ c → (BrewServer.unaffiliated s id).fed.links[c]? = s.fed.links[c]? := by
    intro c hc
    rw [hr.links]
    exact FinMap.getElem?_erase.trans (if_neg hc)
  have hself : (BrewServer.unaffiliated s id).fed.selfId = s.fed.selfId := hr.selfId
  refine ⟨fun issi sub hs => ?_, fun issi link a ho => ?_, fun link n hn => ?_⟩
  · rw [unaffiliated_subscribers, Option.filter_eq_some_iff, decide_eq_true_eq] at hs
    exact (h.entry issi sub hs.1).of_owner (hsession _ (Ne.symm hs.2)) (hlink _ (Ne.symm hs.2)) hself
  · rw [h.offer_unaffiliated] at ho
    split at ho
    · cases ho
    · next hid => exact (h.offer issi link a ho).of_link (hlink link hid) hself
  · by_cases hid : id = link
    · rw [hr.links] at hn
      change (s.fed.links.erase id)[link]? = some n at hn
      rw [FinMap.getElem?_erase, if_pos hid] at hn
      cases hn
    · rw [hlink link hid] at hn
      rw [hsession link hid, hself]
      exact h.link link n hn

theorem foldl_reselect {r : Inner × Sends} (h : WellRouted r.1) (previous : List (UInt32 × Option Subscriber)) :
    WellRouted (previous.foldl reselect r).1 := by
  induction previous generalizing r with
  | nil => exact h
  | cons e previous ih => exact ih (r := reselect r e) (h.reroute e.1)

theorem cleanupClient (h : WellRouted s) (id : ClientId) : WellRouted (BrewServer.cleanupClient s id).inner := by
  refine WellRouted.aside ?_ (passive_cleanupClient s id).aside
  rw [dropRegistrations_eq]
  exact foldl_reselect (r := (BrewServer.unaffiliated s id, [])) (h.unaffiliated id) (previousOf s id)

theorem openSession {id : ClientId} {client : Client} {neighbour : Option UInt64} {console : Bool} (h : WellRouted s)
    (hnew : id ∉ s.clients) (hreal : client.mode = .terminal → client.remoteAddr.isSome = true)
    (hpeer : ∀ n ∈ neighbour, client.mode = .peer ∧ n ≠ s.fed.selfId) :
    WellRouted (BrewServer.openSession s id client neighbour console).1 := by
  have hsession : ∀ c : ClientId, id ≠ c →
      (BrewServer.openSession s id client neighbour console).1.session c = s.session c := by
    intro c hc
    refine session_congr ?_
    rw [clients_openSession, FinMap.getElem?_insert, if_neg hc]
  have hnone : s.fed.links[id]? = none := by
    cases hl : s.fed.links[id]? with
    | none => rfl
    | some n =>
      have hs := (h.link id n hl).1
      rw [session_of_not_mem hnew] at hs
      cases hs
  have hlinks : ∀ c : ClientId, (BrewServer.openSession s id client neighbour console).1.fed.links[c]? =
      if id = c then neighbour else s.fed.links[c]? := by
    intro c
    rw [openSession_links]
    split
    · next hc => rw [← hc, hnone, Option.or_none]
    · rfl
  refine ⟨fun issi sub hs => ?_, fun issi link a ho => ?_, fun link n hn => ?_⟩
  · rw [openSession_subscribers] at hs
    have hok := h.entry issi sub hs
    have hne : id ≠ sub.clientId := by
      intro he
      have hsess := hok.session
      rw [← he, session_of_not_mem hnew] at hsess
      cases hsess
    exact hok.of_owner (hsession _ hne) (by rw [hlinks, if_neg hne]) openSession_selfId
  · rw [openSession_offer] at ho
    have hok := h.offer issi link a ho
    have hne : id ≠ link := by
      intro he
      obtain ⟨n, hn, -⟩ := hok
      rw [← he, hnone] at hn
      cases hn
    exact hok.of_link (by rw [hlinks, if_neg hne]) openSession_selfId
  · rw [hlinks] at hn
    rw [openSession_selfId]
    split at hn
    · next he =>
      obtain ⟨hmode, hself⟩ := hpeer n hn
      rw [← he, session_openSession hreal, hmode]
      exact ⟨rfl, hself⟩
    · next hne =>
      rw [hsession link hne]
      exact h.link link n hn

theorem session_of_allowed {a : AppState} {env : Env} {source : ClientId} {raw : Bytes}
    (h : (Event.packet env source raw).Allowed a) : (a.inner.session source).isSome = true := by
  obtain ⟨c, hc⟩ := FinMap.mem_iff.mp h.1
  rw [Inner.session, h.2.1, hc]
  rfl

theorem packetStep {env : Env} {source : ClientId} {raw : Bytes} {sends : Sends} (h : WellRouted s)
    (hsession : (s.session source).isSome = true) (hstep : PacketStep Joining s env source raw s' sends) :
    WellRouted s' := by
  have hbefore : ∀ {t : Inner}, Passive s t [] → WellRouted t ∧ t.fed.links = s.fed.links ∧
      (t.session source).isSome = true := by
    intro t hp
    refine ⟨h.aside hp.aside, hp.routes.links, ?_⟩
    rw [hp.aside.sessions]
    exact hsession
  cases hstep with
  | aside hj => exact h.aside hj.aside
  | subscriber before parsed =>
    obtain ⟨ht, -, hts⟩ := hbefore before
    exact ht.handleSubscriber env.nowMs _ hts
  | route before link parsed fed =>
    obtain ⟨ht, htl, -⟩ := hbefore before
    rw [receiveRoute_eq.1]
    rw [← htl] at link
    exact (ht.takeOffer link (pathFrom_of_parse parsed)).reroute _
  | withdraw before link parsed fed => exact (hbefore before).1.receiveWithdraw

theorem eventStep {a : AppState} {ev : Event} {sends : Sends} (h : WellRouted a.inner) (hok : ev.Allowed a)
    (hstep : EventStep Joining a.inner ev s' sends) : WellRouted s' := by
  cases hstep with
  | aside hj => exact h.aside hj.aside
  | connect id client neighbour console => exact h.openSession hok.1 hok.2.1 hok.2.2
  | disconnect id => exact h.cleanupClient id
  | packet hp => exact h.packetStep (session_of_allowed hok) hp

end WellRouted

/-- The server's own id never changes. -/
theorem selfId_eventStep {a : AppState} {ev : Event} {s' : Inner} {sends : Sends}
    (hstep : EventStep Joining a.inner ev s' sends) : s'.fed.selfId = a.inner.fed.selfId := by
  cases hstep with
  | aside hj => exact hj.table.selfId
  | connect id client neighbour console => exact openSession_selfId
  | disconnect id => exact (passive_cleanupClient a.inner id).routes.selfId.trans registers_dropRegistrations.selfId
  | @packet env source raw _ _ hp =>
    cases hp with
    | aside hj => exact hj.table.selfId
    | @subscriber t msg v d before parsed =>
      obtain ⟨t', hr, hp⟩ := registers_handleSubscriber t env.nowMs _ msg
      exact (hp.routes.selfId.trans hr.selfId).trans before.routes.selfId
    | @route t nbrId issi b before link parsed fed =>
      rw [receiveRoute_eq.1, (registers_takeOffer.trans registers_reroute).selfId]
      exact before.routes.selfId
    | @withdraw t nbrId issi before link parsed fed =>
      rw [registers_receiveWithdraw.selfId]
      exact before.routes.selfId

/-- What holds of a server's routes and legs in every state it reaches. -/
structure Sound (selfId : UInt64) (a : AppState) : Prop where
  routed : WellRouted a.inner
  bridged : Bridged a
  selfId : a.inner.fed.selfId = selfId

theorem sound_start (selfId : UInt64) : Sound selfId (AppState.start selfId) := by
  have hempty : ∀ {V : Type} {m : FinMap UInt32 V} {k : UInt32} {v : V}, m = ∅ → m[k]? ≠ some v := by
    rintro V m k v rfl h
    rw [Std.ExtTreeMap.getElem?_empty] at h
    cases h
  refine ⟨⟨fun issi sub hs => absurd hs (hempty rfl), fun issi link a ho => ?_, fun link n hn => ?_⟩,
    .of_empty rfl, rfl⟩
  · obtain ⟨offers, hoffers, -⟩ := Option.bind_eq_some_iff.mp ho
    exact absurd hoffers (hempty rfl)
  · change (∅ : FinMap ClientId UInt64)[link]? = some n at hn
    rw [Std.ExtTreeMap.getElem?_empty] at hn
    cases hn

theorem Sound.next {cfg : Config} {selfId : UInt64} {a : AppState} {ev : Event} (h : Sound selfId a)
    (hok : ev.Allowed a) : Sound selfId (a.next cfg ev) := by
  obtain ⟨mid, sends, more, hran⟩ := ran cfg h.bridged hok
  exact ⟨(h.routed.eventStep hok hran.event).aside hran.aside, hran.bridged,
    (hran.aside.table.selfId.trans (selfId_eventStep hran.event)).trans h.selfId⟩

theorem sound_of_reach {cfg : Config} {selfId : UInt64} {a : AppState}
    (h : Reach (AppState.start selfId) (fun a ev => ev.Allowed a) (AppState.next cfg) a) : Sound selfId a :=
  h.invariant (sound_start selfId) fun _ _ hs hok => hs.next hok

end BrewServer
