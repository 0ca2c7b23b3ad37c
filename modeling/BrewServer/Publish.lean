import BrewServer.Lib.KeyedLog
import BrewServer.RouteTable

/-!
# What the peer links are told

Every operation queues, to each peer link, exactly the updates of the entries it
changed, each as the entry is in the end.
-/

namespace BrewServer

open Protocol Fedroute Router Sip

/-- What a peer link is told when the entry of `issi` went from `old` to what the
table holds. -/
def peerUpdates (s : Inner) (issi : UInt32) (old : Option Subscriber) (link : ClientId) : List Bytes :=
  if same old (s.subscribers[issi]?) then []
  else
    match s.fed.links[link]? with
    | some nbrId => [fedUpdate s.fed.selfId link nbrId issi (s.subscribers[issi]?)]
    | none => legacyUpdates issi old (s.subscribers[issi]?) link

section Registration

theorem not_quiet_fedUpdate {selfId nbrId : UInt64} {link : ClientId} {issi : UInt32} {eff : Option Subscriber} :
    ¬ Quiet (fedUpdate selfId link nbrId issi eff) := by
  unfold fedUpdate
  split
  · split
    · exact fun h => (h.2 rfl).1 rfl
    · exact fun h => (h.2 rfl).2 rfl
  · exact fun h => (h.2 rfl).2 rfl

theorem not_quiet_subscriberMessage {t : UInt8} {issi : UInt32} {groups : List UInt32} :
    ¬ Quiet (buildSubscriberMessage t issi groups) := fun h => h.1 rfl

/-- Every message of a legacy update is a SUB message about its ISSI. -/
theorem mem_legacyUpdates {issi : UInt32} {old new : Option Subscriber} {peer : ClientId} {raw : Bytes}
    (h : raw ∈ legacyUpdates issi old new peer) :
    ∃ (t : UInt8) (groups : List UInt32), raw = buildSubscriberMessage t issi groups := by
  have hif : ∀ (t : UInt8) (groups : FinSet UInt32),
      raw ∈ (if groups.isEmpty then [] else [buildSubscriberMessage t issi (sorted groups)]) →
      ∃ (t : UInt8) (groups : List UInt32), raw = buildSubscriberMessage t issi groups := by
    intro t groups hm
    split at hm
    · cases hm
    · exact ⟨t, _, List.mem_singleton.mp hm⟩
  unfold legacyUpdates at h
  dsimp only at h
  split at h
  · cases h
  · split at h
    · exact ⟨_, _, List.mem_singleton.mp h⟩
    · cases h
  · rcases List.mem_cons.mp h with h | h
    · exact ⟨_, _, h⟩
    · exact hif _ _ h
  · rcases List.mem_append.mp h with h | h
    · split at h
      · rcases List.mem_cons.mp h with h | h
        · exact ⟨_, _, h⟩
        · exact hif _ _ h
      · exact hif _ _ h
    · exact hif _ _ h

theorem not_quiet_peerUpdates {s : Inner} {issi : UInt32} {old : Option Subscriber} {link : ClientId} {raw : Bytes}
    (h : raw ∈ peerUpdates s issi old link) : ¬ Quiet raw := by
  unfold peerUpdates at h
  split at h
  · cases h
  · split at h
    · rw [List.mem_singleton.mp h]
      exact not_quiet_fedUpdate
    · obtain ⟨t, groups, rfl⟩ := mem_legacyUpdates h
      exact not_quiet_subscriberMessage

end Registration

section Queued

/-- The registrations among what was queued to one connection. -/
def Sends.registrations (sends : Sends) (link : ClientId) : List Bytes :=
  (sends.on link).filter fun raw => ¬ BrewServer.Quiet raw

@[simp] theorem Sends.registrations_append (a b : Sends) (link : ClientId) :
    Sends.registrations (a ++ b) link = Sends.registrations a link ++ Sends.registrations b link := by
  unfold Sends.registrations
  rw [Sends.on_append, List.filter_append]

theorem Sends.registrations_of_quiet {sends : Sends} (h : sends.Quiet) (link : ClientId) :
    sends.registrations link = [] := by
  unfold Sends.registrations
  rw [List.filter_eq_nil_iff]
  intro raw hr
  rw [decide_eq_true_eq]
  exact not_not.mpr (h _ (Sends.mem_on.mp hr))

theorem Sends.registrations_of_ne {sends : Sends} {link : ClientId} (h : ∀ m ∈ sends, m.1 ≠ link) :
    sends.registrations link = [] := by
  unfold Sends.registrations
  rw [Sends.on_eq_nil h, List.filter_nil]

theorem Sends.on_map_pair (c link : ClientId) (msgs : List Bytes) :
    Sends.on (msgs.map fun msg => (c, msg)) link = if c = link then msgs else [] := by
  induction msgs with
  | nil => split <;> rfl
  | cons msg msgs ih =>
    rw [List.map_cons, Sends.on_cons, ih]
    split <;> rfl

/-- Messages queued to every connection in turn. -/
theorem Sends.on_flatMap_clients {clients : FinMap ClientId Client} {f : ClientId → Client → List Bytes}
    {link : ClientId} {client : Client} (hc : clients[link]? = some client) :
    Sends.on (clients.toList.flatMap fun e => (f e.1 e.2).map fun msg => (e.1, msg)) link = f link client := by
  obtain ⟨before, after, hsplit⟩ := List.append_of_mem (FinMap.mem_toList.mpr hc)
  have hn : (clients.toList.map (·.1)).Nodup := by
    rw [Std.ExtTreeMap.map_fst_toList_eq_keys]
    exact FinMap.nodup_keys
  rw [hsplit, List.map_append, List.map_cons, List.nodup_append, List.nodup_cons] at hn
  have hnil : ∀ l : List (ClientId × Client), link ∉ l.map (·.1) →
      Sends.on (l.flatMap fun e => (f e.1 e.2).map fun msg => (e.1, msg)) link = [] := by
    intro l hl
    refine Sends.on_eq_nil fun m hm heq => hl ?_
    obtain ⟨e, he, hm⟩ := List.mem_flatMap.mp hm
    obtain ⟨msg, -, rfl⟩ := List.mem_map.mp hm
    exact List.mem_map.mpr ⟨e, he, heq⟩
  have hbefore : link ∉ before.map (·.1) := fun hm => hn.2.2 link hm link List.mem_cons_self rfl
  rw [hsplit, List.flatMap_append, List.flatMap_cons, Sends.on_append, Sends.on_append, hnil before hbefore,
    hnil after hn.2.1.1, Sends.on_map_pair, if_pos rfl, List.nil_append, List.append_nil]

theorem session_peer {s : Inner} {link : ClientId} (h : s.session link = some .peer) :
    ∃ client : Client, s.clients[link]? = some client ∧ client.mode = .peer := by
  unfold Inner.session at h
  split at h
  · cases h
  · exact Option.map_eq_some_iff.mp h

theorem on_publish {s : Inner} {issi : UInt32} {old : Option Subscriber} {link : ClientId}
    (h : s.session link = some .peer) : (publish s issi old).1.on link = peerUpdates s issi old link := by
  obtain ⟨client, hc, hm⟩ := session_peer h
  unfold publish peerUpdates
  dsimp only
  split
  · rfl
  · dsimp only
    refine (Sends.on_flatMap_clients hc).trans ((if_neg (not_not.mpr hm)).trans ?_)
    cases s.fed.links[link]? <;> rfl

theorem registrations_publish {s : Inner} {issi : UInt32} {old : Option Subscriber} {link : ClientId}
    (h : s.session link = some .peer) : (publish s issi old).1.registrations link = peerUpdates s issi old link := by
  unfold Sends.registrations
  rw [on_publish h, List.filter_eq_self]
  intro raw hr
  exact decide_eq_true (not_quiet_peerUpdates hr)

end Queued

/-- A step tells a peer link the change of every entry it changed, once, as the
entry is in the end. -/
def Published (link : ClientId) (s s' : Inner) (sends : Sends) : Prop :=
  ∃ issis : List UInt32, issis.Nodup ∧
    (∀ k : UInt32, k ∉ issis → same (s.subscribers[k]?) (s'.subscribers[k]?) = true) ∧
    (s'.session link = some .peer →
      sends.registrations link = issis.flatMap fun k => peerUpdates s' k (s.subscribers[k]?) link)

namespace Published

variable {link : ClientId}

theorem peerUpdates_congr {s s' : Inner} (h : SameTable s s') (k : UInt32) (old : Option Subscriber)
    (link : ClientId) : peerUpdates s' k old link = peerUpdates s k old link := by
  unfold peerUpdates
  rw [h.subscribers, h.links, h.selfId]

theorem aside {s s' : Inner} {sends : Sends} (h : Aside s s' sends) (hq : QuietHeld s) :
    Published link s s' sends := by
  refine ⟨[], List.nodup_nil, fun k _ => ?_, fun _ => Sends.registrations_of_quiet (h.quiet hq) link⟩
  rw [h.table.subscribers]
  exact same_refl _

/-- What follows leaves the tables alone and tells the peers nothing. -/
theorem followed {s t s' : Inner} {a b : Sends} (h : Published link s t a) (table : SameTable t s')
    (sessions : ∀ c : ClientId, s'.session c = t.session c)
    (hb : t.session link = some .peer → b.registrations link = []) :
    Published link s s' (a ++ b) := by
  obtain ⟨issis, hn, hsame, hsent⟩ := h
  refine ⟨issis, hn, fun k hk => ?_, fun hl => ?_⟩
  · rw [table.subscribers]
    exact hsame k hk
  · rw [sessions] at hl
    rw [Sends.registrations_append, hb hl, List.append_nil, hsent hl]
    exact List.flatMap_congr fun k _ => (peerUpdates_congr table ..).symm

theorem followed_aside {s t s' : Inner} {a b : Sends} (h : Published link s t a) (hb : Aside t s' b) (hq : QuietHeld t) :
    Published link s s' (a ++ b) :=
  h.followed hb.table hb.sessions fun _ => Sends.registrations_of_quiet (hb.quiet hq) link

/-- What came before left the tables alone. -/
theorem preceded {s s₁ s' : Inner} {a : Sends} (hp : Passive s s₁ []) (h : Published link s₁ s' a) :
    Published link s s' a := by
  unfold Published
  rw [← hp.routes.subscribers]
  exact h

/-- One entry changes and is published. -/
theorem one {s s' : Inner} {issi : UInt32}
    (hother : ∀ k : UInt32, issi ≠ k → s'.subscribers[k]? = s.subscribers[k]?) :
    Published link s s' (publish s' issi (s.subscribers[issi]?)).1 := by
  refine ⟨[issi], List.pairwise_singleton _ issi, fun k hk => ?_, fun hl => ?_⟩
  · rw [hother k fun he => hk (he ▸ List.mem_singleton_self issi)]
    exact same_refl _
  · rw [registrations_publish hl, List.flatMap_singleton]

theorem refl (s : Inner) : Published link s s [] :=
  ⟨[], List.nodup_nil, fun _ _ => same_refl _, fun _ => rfl⟩

end Published

section Steps

variable {link : ClientId} {s : Inner} {nowMs : UInt64} {source : ClientId} {issi : UInt32}

theorem published_handleSubscriber {msg : SubscriberMessage} :
    Published link s (handleSubscriber s nowMs source msg).1 (handleSubscriber s nowMs source msg).2.1 := by
  rcases handleSubscriber_cases s nowMs source msg with heq | ⟨ticked, new, groups, -, hentry, heq⟩
  · rw [heq]
    exact .refl s
  · rw [heq]
    have hone : Published link s (applyEntry ticked msg.issi new)
        (publish (applyEntry ticked msg.issi new) msg.issi (s.subscribers[msg.issi]?)).1 :=
      .one fun k hk => by rw [applyEntry_subscribers_ne hk, hentry.subscribers]
    obtain ⟨hsame, -, -, hsds, hto⟩ := lateEntry_same (applyEntry ticked msg.issi new) source groups
    refine hone.followed hsame.toSameTable (Passive.of_routes hsame hsds).aside.sessions fun hl => ?_
    refine Sends.registrations_of_ne fun m hm he => ?_
    obtain ⟨hc, hnot⟩ := hto m hm
    obtain ⟨client, hclient, hmode⟩ := session_peer hl
    rw [Inner.isPeer, ← hc, he, hclient, Option.any_some, hmode] at hnot
    cases hnot

theorem published_receiveRoute {a : Advert} :
    Published link s (receiveRoute s nowMs source issi a).1 (receiveRoute s nowMs source issi a).2.1 := by
  rw [receiveRoute_eq.1, receiveRoute_eq.2]
  refine .one fun k hk => ?_
  rw [reroute_subscribers, if_neg hk, takeOffer_subscribers]

theorem published_receiveWithdraw :
    Published link s (receiveWithdraw s source issi).1 (receiveWithdraw s source issi).2.1 := by
  have hsettle := @settleRoute_eq (withdrawOffer s issi source).1 issi (s.subscribers[issi]?)
    (by rw [withdrawOffer_subscribers])
  unfold receiveWithdraw
  dsimp only
  split
  · rw [hsettle.1, hsettle.2]
    refine .one fun k hk => ?_
    rw [reroute_subscribers, if_neg hk, withdrawOffer_subscribers]
  · refine ⟨[], List.nodup_nil, fun k _ => ?_, fun _ => rfl⟩
    rw [withdrawOffer_subscribers]
    exact same_refl _

/-- A cleanup publishes each affected ISSI as it is in the end. -/
theorem published_dropRegistrations (s : Inner) (id : ClientId) :
    Published link s (dropRegistrations s id).1 (dropRegistrations s id).2 := by
  refine ⟨(previousOf s id).map (·.1), nodup_previousOf, fun k hk => ?_, fun hl => ?_⟩
  · rw [map_fst_previousOf, Std.ExtTreeSet.mem_toList] at hk
    rw [dropRegistrations_subscribers, if_neg hk]
    exact same_refl _
  · have hflat : ∀ l : List (UInt32 × Option Subscriber),
        Sends.registrations (l.flatMap fun e => (publish (dropRegistrations s id).1 e.1 e.2).1) link =
          l.flatMap fun e => peerUpdates (dropRegistrations s id).1 e.1 e.2 link := by
      intro l
      induction l with
      | nil => rfl
      | cons e l ih =>
        rw [List.flatMap_cons, List.flatMap_cons, Sends.registrations_append, ih, registrations_publish hl]
    rw [dropRegistrations_sends, hflat, List.flatMap_map]
    refine List.flatMap_congr fun e he => ?_
    rw [(mem_previousOf.mp he).2]

end Steps

/-- Only a new connection is sent anything as it opens. -/
theorem openSession_sends_to {s : Inner} {id : ClientId} {client : Client} {neighbour : Option UInt64} {console : Bool}
    (m : ClientId × Bytes) (hm : m ∈ (openSession s id client neighbour console).2) : m.1 = id := by
  unfold openSession attachClient at hm
  cases neighbour with
  | none =>
    dsimp only at hm
    rw [List.nil_append] at hm
    split at hm
    · obtain ⟨raw, -, rfl⟩ := List.mem_map.mp hm
      rfl
    · cases hm
  | some nbrId =>
    dsimp only at hm
    rcases List.mem_append.mp hm with hm | hm
    · rw [List.mem_singleton.mp hm]
    · split at hm
      · obtain ⟨raw, -, rfl⟩ := List.mem_map.mp hm
        rfl
      · cases hm

section Held

theorem Registers.quietHeld {s s' : Inner} (h : Registers s s') (hq : QuietHeld s) : QuietHeld s' :=
  fun id r hdr hr => hq id r hdr (h.sdsRoutes ▸ hr)

theorem quietHeld_openSession {s : Inner} {id : ClientId} {client : Client} {neighbour : Option UInt64}
    {console : Bool} (hq : QuietHeld s) : QuietHeld (openSession s id client neighbour console).1 := by
  have hsds : (openSession s id client neighbour console).1.sdsRoutes = s.sdsRoutes := by
    unfold openSession attachClient
    cases neighbour <;> cases console <;> rfl
  exact fun i r hdr hr => hq i r hdr (hsds ▸ hr)

theorem quietHeld_eventStep {s s' : Inner} {ev : Event} {sends : Sends} (h : EventStep Joining s ev s' sends)
    (hq : QuietHeld s) : QuietHeld s' := by
  cases h with
  | aside hj => exact hj.held hq
  | connect id client neighbour console => exact quietHeld_openSession hq
  | disconnect id =>
    have hd : QuietHeld (detach s id) := hq
    exact (passive_cleanupClient s id).held (registers_dropRegistrations.quietHeld hd)
  | @packet env source raw _ _ hp =>
    cases hp with
    | aside hj => exact hj.held hq
    | @subscriber t msg v d before parsed =>
      obtain ⟨t', hr, hpass⟩ := registers_handleSubscriber t env.nowMs source msg
      exact hpass.held (hr.quietHeld (before.held hq))
    | @route t nbrId issi a before link parsed fed =>
      rw [receiveRoute_eq.1]
      exact (registers_takeOffer.trans registers_reroute).quietHeld (before.held hq)
    | @withdraw t nbrId issi before link parsed fed => exact registers_receiveWithdraw.quietHeld (before.held hq)

end Held

/-- Every event but the opening of the link itself publishes what it changed. -/
theorem published_eventStep {link : ClientId} {s s' : Inner} {ev : Event} {sends : Sends}
    (h : EventStep Joining s ev s' sends) (hq : QuietHeld s)
    (hev : ∀ client neighbour console, ev ≠ .connect link client neighbour console) :
    Published link s s' sends := by
  cases h with
  | aside hj => exact .aside hj.aside hq
  | connect id client neighbour console =>
    have hne : id ≠ link := fun he => hev client neighbour console (he ▸ rfl)
    refine ⟨[], List.nodup_nil, fun k _ => ?_, fun _ => Sends.registrations_of_ne fun m hm he => ?_⟩
    · rw [openSession_subscribers]
      exact same_refl _
    · exact hne ((openSession_sends_to m hm).symm.trans he)
  | disconnect id =>
    rw [(cleanupClient_eq s id).2.1]
    have hd : QuietHeld (detach s id) := hq
    exact (published_dropRegistrations s id).followed_aside (passive_cleanupClient s id).aside
      (registers_dropRegistrations.quietHeld hd)
  | packet hp =>
    cases hp with
    | aside hj => exact .aside hj.aside hq
    | subscriber before parsed => exact .preceded before published_handleSubscriber
    | route before link parsed fed => exact .preceded before published_receiveRoute
    | withdraw before link parsed fed => exact .preceded before published_receiveWithdraw

end BrewServer
