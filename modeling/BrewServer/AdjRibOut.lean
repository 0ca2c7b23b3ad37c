import BrewServer.Publish

/-!
# What a loop-safe link is offered

The server keeps no record of what it advertised. Replaying all it queued to a
link since the link came up still gives what the effective table offers now, and
each route on the way is one the neighbour accepts.
-/

namespace BrewServer

open Protocol Fedroute Router Sip

/-- The route that a negotiated link is offered for an effective entry. -/
def offeredTo (selfId : UInt64) (link : ClientId) (nbrId : UInt64) (eff : Option Subscriber) : Option Advert :=
  eff.bind fun e =>
    if e.clientId ≠ link ∧ nbrId ∉ e.route.path ∧ e.route.path.length < maxPath then
      some { reg := e.route.reg, path := selfId :: e.route.path, groups := sorted e.groups }
    else none

/-- A route for an offer, a withdrawal for none. -/
def updateOf (issi : UInt32) : Option Advert → FedMessage
  | some a => .route issi a
  | none => .withdraw issi

section Update

variable {selfId nbrId : UInt64} {link : ClientId} {issi : UInt32} {eff : Option Subscriber}

/-- A path that is still to be extended by this server. -/
def Extendable (selfId : UInt64) (path : List UInt64) : Prop := path.Nodup ∧ selfId ∉ path

theorem EntryOk.extendable {s : Inner} {sub : Subscriber} (h : EntryOk s sub) :
    Extendable s.fed.selfId sub.route.path := by
  cases hl : s.fed.links[sub.clientId]? with
  | none =>
    have hno : sub.clientId ∉ s.fed.links := by
      intro hm
      obtain ⟨n, hn⟩ := FinMap.mem_iff.mp hm
      rw [hl] at hn
      cases hn
    rw [h.home hno]
    exact ⟨List.nodup_nil, List.not_mem_nil⟩
  | some n =>
    obtain ⟨-, hpath, hself⟩ := h.away n hl
    exact ⟨hpath.nodup, hself⟩

/-- The offer's path is one from this server, and does not cross the neighbour. -/
theorem offeredTo_path {a : Advert} (heff : ∀ e, eff = some e → Extendable selfId e.route.path)
    (hne : nbrId ≠ selfId) (h : offeredTo selfId link nbrId eff = some a) : PathFrom selfId a.path ∧ nbrId ∉ a.path := by
  obtain ⟨e, he, h⟩ := Option.bind_eq_some_iff.mp h
  split at h
  · next hc =>
    cases h
    obtain ⟨hn, hself⟩ := heff e he
    refine ⟨⟨rfl, List.nodup_cons.mpr ⟨hself, hn⟩, hc.2.2⟩, ?_⟩
    rw [List.mem_cons, not_or]
    exact ⟨hne, hc.2.1⟩
  · cases h

theorem fedUpdate_of_some {a : Advert} (h : offeredTo selfId link nbrId eff = some a) :
    fedUpdate selfId link nbrId issi eff = buildRoute issi a.reg a.path a.groups := by
  obtain ⟨e, rfl, hoffer⟩ := Option.bind_eq_some_iff.mp h
  split at hoffer
  · next hc =>
    cases hoffer
    rw [fedUpdate, if_pos hc]
  · cases hoffer

theorem fedUpdate_of_none (h : offeredTo selfId link nbrId eff = none) :
    fedUpdate selfId link nbrId issi eff = buildWithdraw issi := by
  cases eff with
  | none => rfl
  | some e =>
    rw [offeredTo, Option.bind_some] at h
    split at h
    · cases h
    · next hc => rw [fedUpdate, if_neg hc]

/-- The neighbour reads an update as what it says. -/
theorem parse_fedUpdate (heff : ∀ e, eff = some e → Extendable selfId e.route.path) :
    parse (fedUpdate selfId link nbrId issi eff) selfId =
      some (.ok (updateOf issi (offeredTo selfId link nbrId eff))) := by
  cases h : offeredTo selfId link nbrId eff with
  | none =>
    rw [fedUpdate_of_none h]
    exact parse_buildWithdraw issi selfId
  | some a =>
    rw [fedUpdate_of_some h]
    refine parse_buildRoute issi a.reg a.groups ?_
    obtain ⟨e, rfl, hoffer⟩ := Option.bind_eq_some_iff.mp h
    split at hoffer
    · next hc =>
      cases hoffer
      obtain ⟨hn, hself⟩ := heff e rfl
      exact ⟨rfl, List.nodup_cons.mpr ⟨hself, hn⟩, hc.2.2⟩
    · cases hoffer

theorem offeredTo_congr {eff' : Option Subscriber} (h : same eff eff' = true) :
    offeredTo selfId link nbrId eff = offeredTo selfId link nbrId eff' := by
  cases eff with
  | none => rw [same_none_left.mp h]
  | some e =>
    cases eff' with
    | none => cases h
    | some e' =>
      obtain ⟨hc, hg, hr⟩ := same_some.mp h
      unfold offeredTo
      rw [Option.bind_some, Option.bind_some, hc, hg, hr]

end Update

section Mirror

/-- What a route or a withdrawal from `nbrId` does to the neighbour's offers. -/
def fedEffect (nbrId : UInt64) (raw : Bytes) : Option (UInt32 × (Option Advert → Option Advert)) :=
  if raw.head? = some classFederation then
    match parse raw nbrId with
    | some (.ok (.route issi a)) => some (issi, fun _ => some a)
    | some (.ok (.withdraw issi)) => some (issi, fun _ => none)
    | _ => none
  else none

/-- A message that is neither a route nor a withdrawal has no effect. -/
theorem fedEffect_of_other {nbrId : UInt64} {raw : Bytes}
    (h : raw.head? = some classFederation → raw[1]? ≠ some fedRoute ∧ raw[1]? ≠ some fedWithdraw) :
    fedEffect nbrId raw = none := by
  unfold fedEffect
  split
  · next hfed =>
    split
    · next issi a hp => exact absurd (parse_comesFrom hp).1 (h hfed).1
    · next issi hp => exact absurd (parse_comesFrom hp).1 (h hfed).2
    · rfl
  · rfl

theorem fedEffect_of_quiet {nbrId : UInt64} {raw : Bytes} (h : Quiet raw) : fedEffect nbrId raw = none :=
  fedEffect_of_other h.2

theorem head?_fedUpdate {selfId nbrId : UInt64} {link : ClientId} {issi : UInt32} {eff : Option Subscriber} :
    (fedUpdate selfId link nbrId issi eff).head? = some classFederation := by
  unfold fedUpdate
  split
  · split <;> rfl
  · rfl

theorem fedEffect_fedUpdate {selfId nbrId : UInt64} {link : ClientId} {issi : UInt32} {eff : Option Subscriber}
    (heff : ∀ e, eff = some e → Extendable selfId e.route.path) :
    fedEffect selfId (fedUpdate selfId link nbrId issi eff) =
      some (issi, fun _ => offeredTo selfId link nbrId eff) := by
  rw [fedEffect, if_pos head?_fedUpdate, parse_fedUpdate heff]
  cases offeredTo selfId link nbrId eff <;> rfl

variable {s s' : Inner} {sends : Sends} {link : ClientId} {nbrId : UInt64} {t : UInt32 → Option Advert}

/-- The neighbour's table holds what every effective entry offers it. -/
def Mirrored (s : Inner) (link : ClientId) (nbrId : UInt64) (t : UInt32 → Option Advert) : Prop :=
  ∀ issi : UInt32, t issi = offeredTo s.fed.selfId link nbrId (s.subscribers[issi]?)

theorem replay_on {selfId : UInt64} :
    replay (fedEffect selfId) t (sends.on link) = replay (fedEffect selfId) t (sends.registrations link) := by
  refine (replay_filter fun raw _ hq => fedEffect_of_quiet ?_).symm
  simpa using hq

/-- The updates of the entries a step changed bring the mirror up to date. -/
theorem Mirrored.published (h : Mirrored s link nbrId t) (hp : Published link s s' sends) (hr : WellRouted s')
    (hid : s'.fed.selfId = s.fed.selfId) (hl : s'.fed.links[link]? = some nbrId) :
    Mirrored s' link nbrId (replay (fedEffect s'.fed.selfId) t (sends.on link)) := by
  obtain ⟨issis, hn, hsame, hsent⟩ := hp
  have heff : ∀ (k : UInt32) (e : Subscriber), s'.subscribers[k]? = some e →
      Extendable s'.fed.selfId e.route.path := fun k e he => (hr.entry k e he).extendable
  have hupdate : ∀ (k : UInt32) (raw : Bytes), raw ∈ peerUpdates s' k (s.subscribers[k]?) link →
      fedEffect s'.fed.selfId raw = some (k, fun _ => offeredTo s'.fed.selfId link nbrId (s'.subscribers[k]?)) := by
    intro k raw hm
    unfold peerUpdates at hm
    split at hm
    · cases hm
    · rw [hl] at hm
      rw [List.mem_singleton.mp hm]
      exact fedEffect_fedUpdate (heff k)
  intro k
  rw [replay_on, hsent (hr.link link nbrId hl).1, replay_flatMap hn fun k' _ raw hm k'' g he => by
    rw [hupdate k' raw hm] at he
    cases he
    rfl]
  have hkeep : same (s.subscribers[k]?) (s'.subscribers[k]?) = true →
      t k = offeredTo s'.fed.selfId link nbrId (s'.subscribers[k]?) := by
    intro hs
    rw [h k, hid, offeredTo_congr hs]
  split
  · by_cases hs : same (s.subscribers[k]?) (s'.subscribers[k]?) = true
    · rw [peerUpdates, if_pos hs]
      exact hkeep hs
    · have heq : peerUpdates s' k (s.subscribers[k]?) link =
          [fedUpdate s'.fed.selfId link nbrId k (s'.subscribers[k]?)] := by
        rw [peerUpdates, if_neg hs, hl]
      rw [heq, replay_cons, replay_nil, applyTo_of_some (fedEffect_fedUpdate (heff k))]
  · next hk => exact hkeep (hsame k hk)

end Mirror

section Attach

variable {s : Inner} {id link : ClientId} {client : Client} {neighbour : Option UInt64} {nbrId : UInt64}
  {console : Bool}

/-- A negotiated link is greeted and sent every route it can use. -/
theorem openSession_sends_self (hm : client.mode = .peer) :
    (openSession s id client (some nbrId) console).2.on id = buildBtsHello ::
      (s.subscribers.keys.map fun issi => fedUpdate s.fed.selfId id nbrId issi (s.subscribers[issi]?)).filter
        fun msg => msg[1]? = some fedRoute := by
  unfold openSession attachClient
  dsimp only
  rw [if_pos hm, Sends.on_append, Sends.on_map_pair, if_pos rfl, Sends.on_cons, if_pos rfl, Sends.on_nil,
    List.append_nil, List.singleton_append, syncMessages]
  dsimp only
  rw [FinMap.getElem?_insert, if_pos rfl]

theorem updateType {selfId : UInt64} {issi : UInt32} {eff : Option Subscriber} :
    (fedUpdate selfId link nbrId issi eff)[1]? = some fedRoute ↔ (offeredTo selfId link nbrId eff).isSome = true := by
  cases h : offeredTo selfId link nbrId eff with
  | none =>
    rw [fedUpdate_of_none h]
    have ht : (buildWithdraw issi)[1]? = some fedWithdraw := rfl
    rw [ht]
    exact ⟨fun h => absurd h (by decide), fun h => by cases h⟩
  | some a =>
    rw [fedUpdate_of_some h]
    exact ⟨fun _ => rfl, fun _ => rfl⟩

/-- The first table a link is sent is what it is offered then. -/
theorem mirrored_openSession (hr : WellRouted s) (hm : client.mode = .peer) :
    Mirrored (openSession s id client (some nbrId) console).1 id nbrId
      (replay (fedEffect s.fed.selfId) (fun _ => none) ((openSession s id client (some nbrId) console).2.on id)) := by
  have heff : ∀ (k : UInt32) (e : Subscriber), s.subscribers[k]? = some e →
      Extendable s.fed.selfId e.route.path := fun k e he => (hr.entry k e he).extendable
  have heffect : ∀ k : UInt32, fedEffect s.fed.selfId (fedUpdate s.fed.selfId id nbrId k (s.subscribers[k]?)) =
      some (k, fun _ => offeredTo s.fed.selfId id nbrId (s.subscribers[k]?)) := fun k => fedEffect_fedUpdate (heff k)
  intro issi
  rw [openSession_subscribers, openSession_selfId, openSession_sends_self hm, replay_cons,
    applyTo_of_none (fedEffect_of_quiet quiet_buildBtsHello), List.filter_map, List.map_eq_flatMap,
    replay_flatMap (FinMap.nodup_keys.filter _) fun k _ raw hraw k' g he => by
      rw [List.mem_singleton.mp hraw, heffect k] at he
      cases he
      rfl]
  split
  · rw [replay_cons, replay_nil, applyTo_of_some (heffect issi)]
  · next hno =>
    cases hoff : offeredTo s.fed.selfId id nbrId (s.subscribers[issi]?) with
    | none => rfl
    | some a =>
      refine absurd (List.mem_filter.mpr ⟨?_, ?_⟩) hno
      · obtain ⟨e, he, -⟩ := Option.bind_eq_some_iff.mp hoff
        exact Std.ExtTreeMap.mem_keys.mpr (FinMap.mem_of_getElem? he)
      · refine decide_eq_true (updateType.mpr ?_)
        rw [hoff]
        rfl

end Attach

/-- A loop-safe link to the server `nbrId`, from when it comes up to its end, with
everything queued to it so far. -/
inductive LinkRun (cfg : Config) (selfId : UInt64) (link : ClientId) (nbrId : UInt64) : AppState → List Bytes → Prop
  | up {a : AppState} {client : Client} {console : Bool}
      (before : Reach (AppState.start selfId) (fun a ev => ev.Allowed a) (AppState.next cfg) a)
      (allowed : (Event.connect link client (some nbrId) console).Allowed a) :
      LinkRun cfg selfId link nbrId (a.next cfg (.connect link client (some nbrId) console))
        ((a.sent cfg (.connect link client (some nbrId) console)).on link)
  | step {a : AppState} {msgs : List Bytes} {ev : Event} (run : LinkRun cfg selfId link nbrId a msgs)
      (allowed : ev.Allowed a) (stays : ev ≠ .disconnect link) :
      LinkRun cfg selfId link nbrId (a.next cfg ev) (msgs ++ (a.sent cfg ev).on link)

section Run

variable {cfg : Config} {selfId : UInt64} {link : ClientId} {nbrId : UInt64} {a : AppState}

/-- Only the events that open and close it touch a connection and its link. -/
theorem sameLink_eventStep {ev : Event} {s' : Inner} {sends : Sends} (hstep : EventStep Joining a.inner ev s' sends)
    (hopen : ∀ client neighbour console, ev ≠ .connect link client neighbour console) (hclose : ev ≠ .disconnect link) :
    s'.session link = a.inner.session link ∧ s'.fed.links[link]? = a.inner.fed.links[link]? := by
  have hsame : ∀ {s s' : Inner}, SameLinks s s' →
      s'.session link = s.session link ∧ s'.fed.links[link]? = s.fed.links[link]? :=
    fun h => ⟨h.sessions link, by rw [h.links]⟩
  cases hstep with
  | aside hj => exact hsame hj.aside.sameLinks
  | connect id client neighbour console =>
    have hne : id ≠ link := fun he => hopen client neighbour console (he ▸ rfl)
    refine ⟨session_congr ?_, by rw [openSession_links, if_neg hne]⟩
    rw [clients_openSession, FinMap.getElem?_insert, if_neg hne]
  | disconnect id =>
    have hne : id ≠ link := fun he => hclose (he ▸ rfl)
    obtain ⟨hsession, hlink⟩ := hsame (passive_cleanupClient a.inner id).aside.sameLinks
    obtain ⟨hsession', hlink'⟩ := hsame (@registers_dropRegistrations a.inner id).sameLinks
    refine ⟨(hsession.trans hsession').trans (session_congr ?_), (hlink.trans hlink').trans ?_⟩
    · rw [detach_clients, FinMap.getElem?_erase, if_neg hne]
    · exact FinMap.getElem?_erase.trans (if_neg hne)
  | @packet env source raw _ _ hp =>
    cases hp with
    | aside hj => exact hsame hj.aside.sameLinks
    | @subscriber t msg v d before parsed =>
      obtain ⟨t', hr, hpass⟩ := registers_handleSubscriber t env.nowMs source msg
      obtain ⟨hb, hbl⟩ := hsame before.aside.sameLinks
      obtain ⟨ht, htl⟩ := hsame hr.sameLinks
      obtain ⟨hl, hll⟩ := hsame hpass.aside.sameLinks
      exact ⟨hl.trans (ht.trans hb), hll.trans (htl.trans hbl)⟩
    | @route t n issi b before far parsed fed =>
      rw [receiveRoute_eq.1]
      obtain ⟨hb, hbl⟩ := hsame before.aside.sameLinks
      obtain ⟨ht, htl⟩ := hsame (registers_takeOffer.trans registers_reroute).sameLinks
      exact ⟨ht.trans hb, htl.trans hbl⟩
    | @withdraw t n issi before far parsed fed =>
      obtain ⟨hb, hbl⟩ := hsame before.aside.sameLinks
      obtain ⟨ht, htl⟩ := hsame registers_receiveWithdraw.sameLinks
      exact ⟨ht.trans hb, htl.trans hbl⟩

theorem sameLink_next {ev : Event} (hb : Bridged a) (hok : ev.Allowed a)
    (hopen : ∀ client neighbour console, ev ≠ .connect link client neighbour console) (hclose : ev ≠ .disconnect link) :
    (a.next cfg ev).inner.session link = a.inner.session link ∧
      (a.next cfg ev).inner.fed.links[link]? = a.inner.fed.links[link]? := by
  obtain ⟨mid, sends, more, hran⟩ := ran cfg hb hok
  obtain ⟨hsession, hlink⟩ := sameLink_eventStep hran.event hopen hclose
  refine ⟨(hran.aside.sessions link).trans hsession, ?_⟩
  rw [hran.aside.table.links, hlink]

/-- A connection that is open is not opened again. -/
theorem ne_connect_of_session {ev : Event} (hok : ev.Allowed a) (hs : (a.inner.session link).isSome = true)
    (client : Client) (neighbour : Option UInt64) (console : Bool) : ev ≠ .connect link client neighbour console := by
  rintro rfl
  rw [session_of_not_mem hok.1] at hs
  cases hs

/-- A connection stays, over the same link, until it closes itself. -/
theorem stays_eventStep {ev : Event} {s' : Inner} {sends : Sends} (hok : ev.Allowed a)
    (hstep : EventStep Joining a.inner ev s' sends) (hs : (a.inner.session link).isSome = true)
    (hstay : ev ≠ .disconnect link) :
    s'.session link = a.inner.session link ∧ s'.fed.links[link]? = a.inner.fed.links[link]? :=
  sameLink_eventStep hstep (ne_connect_of_session hok hs) hstay

/-- What was queued since a link came up still mirrors the table after one more event. -/
theorem Mirrored.next {ev : Event} {t : UInt32 → Option Advert} (h : Mirrored a.inner link nbrId t)
    (hs : Sound selfId a) (hq : QuietHeld a.inner) (hup : a.inner.fed.links[link]? = some nbrId) (hok : ev.Allowed a)
    (hstay : ev ≠ .disconnect link) :
    (a.next cfg ev).inner.fed.links[link]? = some nbrId ∧
      Mirrored (a.next cfg ev).inner link nbrId (replay (fedEffect selfId) t ((a.sent cfg ev).on link)) := by
  obtain ⟨mid, sends, more, hran⟩ := ran cfg hs.bridged hok
  have hsound : Sound selfId (a.next cfg ev) := hs.next hok
  have hmidheld : QuietHeld mid := quietHeld_eventStep hran.event hq
  have hsession : a.inner.session link = some .peer := (hs.routed.link link nbrId hup).1
  have hother : ∀ client neighbour console, ev ≠ .connect link client neighbour console :=
    ne_connect_of_session hok (by rw [hsession]; rfl)
  have hlink : (a.next cfg ev).inner.fed.links[link]? = some nbrId :=
    (sameLink_next hs.bridged hok hother hstay).2.trans hup
  have hpub : Published link a.inner (a.next cfg ev).inner (sends ++ more) :=
    (published_eventStep hran.event hq hother).followed_aside hran.aside hmidheld
  refine ⟨hlink, ?_⟩
  have hmirrored := h.published hpub hsound.routed (hsound.selfId.trans hs.selfId.symm) hlink
  rw [hsound.selfId] at hmirrored
  rwa [hran.sent]

/-- What holds of a link while it is up. -/
structure LinkUp (selfId : UInt64) (link : ClientId) (nbrId : UInt64) (a : AppState) (msgs : List Bytes) : Prop where
  sound : Sound selfId a
  held : QuietHeld a.inner
  up : a.inner.fed.links[link]? = some nbrId
  mirrored : Mirrored a.inner link nbrId (replay (fedEffect selfId) (fun _ => none) msgs)

theorem quietHeld_of_reach (h : Reach (AppState.start selfId) (fun a ev => ev.Allowed a) (AppState.next cfg) a) :
    QuietHeld a.inner := by
  refine h.invariant_of (P := Sound selfId) (Q := fun a => QuietHeld a.inner) (fun _ h => sound_of_reach h)
    (fun id r hdr hr => ?_) fun a ev hs hq hok => ?_
  · rw [AppState.start, Inner.empty, Std.ExtTreeMap.getElem?_empty] at hr
    cases hr
  · obtain ⟨mid, sends, more, hran⟩ := ran cfg hs.bridged hok
    exact hran.aside.held (quietHeld_eventStep hran.event hq)

theorem LinkUp.step {ev : Event} {msgs : List Bytes} (h : LinkUp selfId link nbrId a msgs) (hok : ev.Allowed a)
    (hstay : ev ≠ .disconnect link) :
    LinkUp selfId link nbrId (a.next cfg ev) (msgs ++ (a.sent cfg ev).on link) := by
  obtain ⟨mid, sends, more, hran⟩ := ran cfg h.sound.bridged hok
  have hnext : (a.next cfg ev).inner.fed.links[link]? = some nbrId ∧ Mirrored (a.next cfg ev).inner link nbrId
      (replay (fedEffect selfId) (replay (fedEffect selfId) (fun _ => none) msgs) ((a.sent cfg ev).on link)) :=
    h.mirrored.next h.sound h.held h.up hok hstay
  refine ⟨h.sound.next hok, hran.aside.held (quietHeld_eventStep hran.event h.held), hnext.1, ?_⟩
  rw [replay_append]
  exact hnext.2

theorem next_connect (cfg : Config) (a : AppState) (id : ClientId) (client : Client) (neighbour : Option UInt64)
    (console : Bool) :
    a.next cfg (.connect id client neighbour console) =
      { a with inner := (openSession a.inner id client neighbour console).1 } := by
  have hr : (Event.connect id client neighbour console).Routed := trivial
  rw [AppState.next, a.run_routed cfg hr]
  rfl

theorem sent_connect (cfg : Config) (a : AppState) (id : ClientId) (client : Client) (neighbour : Option UInt64)
    (console : Bool) :
    a.sent cfg (.connect id client neighbour console) = (openSession a.inner id client neighbour console).2 := by
  have hr : (Event.connect id client neighbour console).Routed := trivial
  rw [AppState.sent, a.run_routed cfg hr]
  rfl

/-- A connection that is not open has no link. -/
theorem links_of_not_mem {s : Inner} (h : WellRouted s) (hno : link ∉ s.clients) : s.fed.links[link]? = none := by
  cases hl : s.fed.links[link]? with
  | none => rfl
  | some n =>
    have hsession := (h.link link n hl).1
    rw [session_of_not_mem hno] at hsession
    cases hsession

theorem LinkUp.of_connect {client : Client} {console : Bool}
    (h : Reach (AppState.start selfId) (fun a ev => ev.Allowed a) (AppState.next cfg) a)
    (hok : (Event.connect link client (some nbrId) console).Allowed a) :
    LinkUp selfId link nbrId (a.next cfg (.connect link client (some nbrId) console))
      ((a.sent cfg (.connect link client (some nbrId) console)).on link) := by
  have hs := sound_of_reach h
  have hq := quietHeld_of_reach h
  have hsound : Sound selfId (a.next cfg (.connect link client (some nbrId) console)) := hs.next hok
  rw [next_connect] at hsound ⊢
  rw [sent_connect]
  refine ⟨hsound, ?_, ?_, ?_⟩
  · exact @quietHeld_openSession a.inner link client (some nbrId) console hq
  · change (openSession a.inner link client (some nbrId) console).1.fed.links[link]? = some nbrId
    rw [openSession_links, if_pos rfl, Option.some_or]
  · have := @mirrored_openSession a.inner link client nbrId console hs.routed (hok.2.2 nbrId rfl).1
    rwa [hs.selfId] at this

theorem LinkRun.up_to {msgs : List Bytes} (h : LinkRun cfg selfId link nbrId a msgs) :
    LinkUp selfId link nbrId a msgs := by
  induction h with
  | up before allowed => exact .of_connect before allowed
  | step run allowed stays ih => exact ih.step allowed stays

end Run

/-- Replaying, in order, every route and withdrawal queued to a link since it
came up gives for every ISSI what the effective entry offers that link now. -/
theorem mirror_of_linkRun {cfg : Config} {selfId : UInt64} {link : ClientId} {nbrId : UInt64} {a : AppState}
    {msgs : List Bytes} (h : LinkRun cfg selfId link nbrId a msgs) (issi : UInt32) :
    parse (fedUpdate selfId link nbrId issi (a.inner.subscribers[issi]?)) selfId =
      some (.ok (updateOf issi (replay (fedEffect selfId) (fun _ => none) msgs issi))) := by
  have hup := h.up_to
  rw [hup.mirrored issi, hup.sound.selfId]
  refine parse_fedUpdate fun e he => ?_
  rw [← hup.sound.selfId]
  exact (hup.sound.routed.entry issi e he).extendable

/-- A server with one registration, before its peer link comes up. -/
def oneRegistration : AppState :=
  ((AppState.start 9).next {} (.connect 2 (.accepted .basestation) none false)).next {}
    (.packet (.plain 5) 2 (buildSubscriberMessage subAffiliate 7 [91]))

theorem oneRegistration_reach :
    Reach (AppState.start 9) (fun a ev => ev.Allowed a) (AppState.next {}) oneRegistration :=
  .step (.step .init (by decide +kernel)) (by decide +kernel)

/-- The peer link of the server above. -/
def peerUp : Event := .connect 1 (.accepted .peer) (some 5) false

/-- A link comes up on a server that already has a registration, and hears of a
second one. -/
theorem mirror_two_registrations :
    parse (fedUpdate 9 1 5 8 (((oneRegistration.next {} peerUp).next {}
        (.packet (.plain 6) 2 (buildSubscriberMessage subAffiliate 8 [92]))).inner.subscribers[(8 : UInt32)]?)) 9 =
      some (.ok (updateOf 8 (replay (fedEffect 9) (fun _ => none)
        ((oneRegistration.sent {} peerUp).on 1 ++
          ((oneRegistration.next {} peerUp).sent {}
            (.packet (.plain 6) 2 (buildSubscriberMessage subAffiliate 8 [92]))).on 1) 8))) := by
  have hup : LinkRun {} 9 1 5 (oneRegistration.next {} peerUp) ((oneRegistration.sent {} peerUp).on 1) :=
    .up oneRegistration_reach (by decide +kernel)
  have hok : (Event.packet (.plain 6) 2 (buildSubscriberMessage subAffiliate 8 [92])).Allowed
      (oneRegistration.next {} peerUp) := by decide +kernel
  exact mirror_of_linkRun (.step hup hok (by intro h; cases h)) 8

section Emission

variable {cfg : Config} {selfId : UInt64} {link : ClientId} {nbrId : UInt64} {a : AppState}

/-- A route that is sent over a link is an update of one entry for that link. -/
theorem mem_sent_fedRoute {ev : Event} {raw : Bytes} (hs : Sound selfId a) (hq : QuietHeld a.inner)
    (hok : ev.Allowed a) (hl : (a.next cfg ev).inner.fed.links[link]? = some nbrId)
    (hraw : (link, raw) ∈ a.sent cfg ev) (hfed : raw.head? = some classFederation) (ht : raw[1]? = some fedRoute) :
    ∃ issi : UInt32, raw = fedUpdate selfId link nbrId issi ((a.next cfg ev).inner.subscribers[issi]?) := by
  have hsound : Sound selfId (a.next cfg ev) := hs.next hok
  by_cases hconnect : ∃ client neighbour console, ev = .connect link client neighbour console
  · obtain ⟨client, neighbour, console, rfl⟩ := hconnect
    have hnext : (a.next cfg (.connect link client neighbour console)).inner =
        (openSession a.inner link client neighbour console).1 := by rw [next_connect]
    rw [sent_connect] at hraw
    rw [hnext, openSession_links, if_pos rfl, links_of_not_mem hs.routed hok.1, Option.or_none] at hl
    subst hl
    rw [hnext, openSession_subscribers]
    have hon := Sends.mem_on.mpr hraw
    rw [openSession_sends_self (hok.2.2 nbrId rfl).1] at hon
    rcases List.mem_cons.mp hon with rfl | hon
    · exact absurd ht (by decide)
    · obtain ⟨issi, -, rfl⟩ := List.mem_map.mp (List.mem_filter.mp hon).1
      exact ⟨issi, by rw [hs.selfId]⟩
  · obtain ⟨mid, sends, more, hran⟩ := ran cfg hs.bridged hok
    have hpub : Published link a.inner (a.next cfg ev).inner (sends ++ more) :=
      (published_eventStep hran.event hq fun client neighbour console he =>
        hconnect ⟨client, neighbour, console, he⟩).followed_aside hran.aside (quietHeld_eventStep hran.event hq)
    obtain ⟨issis, -, -, hsent⟩ := hpub
    have hreg : raw ∈ Sends.registrations (sends ++ more) link := by
      refine List.mem_filter.mpr ⟨Sends.mem_on.mpr (hran.sent ▸ hraw), decide_eq_true fun hquiet => ?_⟩
      exact (hquiet.2 hfed).1 ht
    rw [hsent (hsound.routed.link link nbrId hl).1, List.mem_flatMap] at hreg
    obtain ⟨issi, -, hm⟩ := hreg
    refine ⟨issi, ?_⟩
    unfold peerUpdates at hm
    split at hm
    · cases hm
    · rw [hl, hsound.selfId] at hm
      exact List.mem_singleton.mp hm

end Emission

/-- Stored offers and effective routes are paths from the neighbour they came
over that miss this server, and every route sent over a link is one that the
neighbour accepts and is not on. -/
theorem loopFree_of_reach {cfg : Config} {selfId : UInt64} {a : AppState}
    (h : Reach (AppState.start selfId) (fun a ev => ev.Allowed a) (AppState.next cfg) a) :
    (∀ (issi : UInt32) (link : ClientId) (adv : Advert), a.inner.offer issi link = some adv →
        ∃ n : UInt64, a.inner.fed.links[link]? = some n ∧ adv.path.head? = some n ∧ adv.path.Nodup ∧
          adv.path.length ≤ maxPath ∧ selfId ∉ adv.path) ∧
      (∀ (issi : UInt32) (sub : Subscriber), a.inner.subscribers[issi]? = some sub →
        sub.route.path.Nodup ∧ sub.route.path.length ≤ maxPath ∧ selfId ∉ sub.route.path ∧
          sub.route.path.head? = a.inner.fed.links[sub.clientId]?) ∧
      ∀ (ev : Event), ev.Allowed a → ∀ (link : ClientId) (nbrId : UInt64) (raw : Bytes),
        (a.next cfg ev).inner.fed.links[link]? = some nbrId → (link, raw) ∈ a.sent cfg ev →
        raw.head? = some classFederation → raw[1]? = some fedRoute →
        ∃ (issi : UInt32) (adv : Advert), parse raw selfId = some (.ok (.route issi adv)) ∧
          adv.path.head? = some selfId ∧ adv.path.Nodup ∧ adv.path.length ≤ maxPath ∧ nbrId ∉ adv.path := by
  have hs := sound_of_reach h
  refine ⟨fun issi link adv ho => ?_, fun issi sub hsub => ?_, fun ev hok link nbrId raw hl hraw hfed ht => ?_⟩
  · obtain ⟨n, hn, hpath, hself⟩ := hs.routed.offer issi link adv ho
    exact ⟨n, hn, hpath.head, hpath.nodup, hpath.short, hs.selfId ▸ hself⟩
  · have hentry := hs.routed.entry issi sub hsub
    have hext := hentry.extendable
    rw [hs.selfId] at hext
    cases hl : a.inner.fed.links[sub.clientId]? with
    | none =>
      have hno : sub.clientId ∉ a.inner.fed.links := by
        intro hm
        obtain ⟨n, hn⟩ := FinMap.mem_iff.mp hm
        rw [hl] at hn
        cases hn
      rw [hentry.home hno]
      exact ⟨List.nodup_nil, Nat.zero_le _, List.not_mem_nil, rfl⟩
    | some n =>
      obtain ⟨-, hpath, -⟩ := hentry.away n hl
      exact ⟨hext.1, hpath.short, hext.2, hpath.head⟩
  · have hsound : Sound selfId (a.next cfg ev) := hs.next hok
    obtain ⟨issi, rfl⟩ := mem_sent_fedRoute hs (quietHeld_of_reach h) hok hl hraw hfed ht
    obtain ⟨adv, hadv⟩ := Option.isSome_iff_exists.mp (updateType.mp ht)
    have heff : ∀ e, (a.next cfg ev).inner.subscribers[issi]? = some e → Extendable selfId e.route.path := by
      intro e he
      rw [← hsound.selfId]
      exact (hsound.routed.entry issi e he).extendable
    have hne : nbrId ≠ selfId := hsound.selfId ▸ (hsound.routed.link link nbrId hl).2
    obtain ⟨hpath, hnot⟩ := offeredTo_path heff hne hadv
    refine ⟨issi, adv, ?_, hpath.head, hpath.nodup, hpath.short, hnot⟩
    rw [parse_fedUpdate heff, hadv]
    rfl

/-- The routes that the link above is synced with. -/
theorem loopFree_sync :
    ∃ (issi : UInt32) (adv : Advert), parse (buildRoute 7 5 [9] [91]) 9 = some (.ok (.route issi adv)) ∧
      adv.path.head? = some 9 ∧ adv.path.Nodup ∧ adv.path.length ≤ maxPath ∧ (5 : UInt64) ∉ adv.path :=
  (loopFree_of_reach oneRegistration_reach).2.2 peerUp (by decide +kernel) 1 5 (buildRoute 7 5 [9] [91])
    (by decide +kernel) (by decide +kernel) rfl rfl

end BrewServer
