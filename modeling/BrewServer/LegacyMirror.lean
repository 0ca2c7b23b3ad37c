import BrewServer.AdjRibOut
import BrewServer.EffectiveTable

/-!
# What a legacy peer link holds

A legacy peer applies the SUB messages it is sent to what it registered itself.
The differences it gets are right for every change but one: an entry of its own
that gives way to one elsewhere with fewer groups.
-/

namespace BrewServer

open Protocol Fedroute Router Sip

section Regroup

/-- What a SUB message does to the groups of its ISSI. -/
def regroup (msg : SubscriberMessage) (held : Option (FinSet UInt32)) : Option (FinSet UInt32) :=
  if msg.msgType = subRegister ∨ msg.msgType = subReregister then some (held.getD ∅)
  else if msg.msgType = subDeregister then none
  else if msg.msgType = subAffiliate then some (msg.groups.foldl (·.insert ·) (held.getD ∅))
  else if msg.msgType = subDeaffiliate then held.map fun groups => msg.groups.foldl (·.erase ·) groups
  else held

/-- `regroup` is what a registration does to the groups of its own entry. -/
theorem EntryChange.regroup {s s' : Inner} {nowMs : UInt64} {source : ClientId} {msg : SubscriberMessage}
    {new : Option Subscriber} (h : EntryChange s nowMs source msg s' new) :
    new.map (·.groups) = BrewServer.regroup msg ((s.subscribers[msg.issi]?).map (·.groups)) := by
  unfold BrewServer.regroup
  cases h with
  | register mode asked => rw [if_pos asked]; rfl
  | appear mode asked absent => rw [asked, absent]; rfl
  | affiliate o asked held own => rw [asked, held]; rfl
  | deaffiliate o asked held own => rw [asked, held]; rfl
  | deregister o asked held own => rw [asked]; rfl

/-- A SUB message as it changes the groups of one ISSI. -/
def subEffect (raw : Bytes) : Option (UInt32 × (Option (FinSet UInt32) → Option (FinSet UInt32))) :=
  (asSubscriber raw).map fun msg => (msg.issi, regroup msg)

theorem subEffect_of_quiet {raw : Bytes} (h : Quiet raw) : subEffect raw = none := by
  rw [subEffect, Option.map_eq_none_iff]
  cases hs : asSubscriber raw with
  | none => rfl
  | some msg =>
    obtain ⟨d, hp⟩ := (asSubscriber_iff (v := .v0)).mp hs
    exact absurd (head?_of_parse hp) h.1

variable {t : UInt32 → Option (FinSet UInt32)} {issi : UInt32}

/-- A queued SUB message changes its own ISSI. -/
theorem subEffect_build (msgType : UInt8) (issi : UInt32) (groups : List UInt32) :
    subEffect (buildSubscriberMessage msgType issi groups) =
      some (issi, regroup { msgType, issi, timestamp := 0, fraction := 0, groups }) := by
  rw [subEffect, asSubscriber_build]
  rfl

theorem replay_register {msgs : List Bytes} :
    replay subEffect t (buildSubscriberMessage subRegister issi [] :: msgs) issi =
      replay subEffect (Function.update t issi (some ((t issi).getD ∅))) msgs issi := by
  rw [replay_cons]
  refine replay_congr ?_
  rw [applyTo_of_some (subEffect_build ..), Function.update_self]
  rfl

/-- A SUB message that is left out when it names no group. -/
theorem replay_groups {msgType : UInt8} {step : FinSet UInt32 → UInt32 → FinSet UInt32} {h g : FinSet UInt32}
    (hstep : ∀ (msg : SubscriberMessage) (h : FinSet UInt32), msg.msgType = msgType →
      regroup msg (some h) = some (msg.groups.foldl step h)) (ht : t issi = some h) :
    replay subEffect t (if g.isEmpty then [] else [buildSubscriberMessage msgType issi (sorted g)]) issi =
      some ((sorted g).foldl step h) := by
  split
  · next he =>
    have hnil : sorted g = [] := by
      refine List.eq_nil_iff_forall_not_mem.mpr fun k hk => FinSet.isEmpty_iff_forall.mp he k ?_
      exact Std.ExtTreeSet.mem_toList.mp hk
    rw [replay_nil, ht, hnil]
    rfl
  · rw [replay_cons, replay_nil, applyTo_of_some (subEffect_build ..), ht]
    exact hstep _ h rfl

theorem regroup_affiliate (msg : SubscriberMessage) (h : FinSet UInt32) (ht : msg.msgType = subAffiliate) :
    regroup msg (some h) = some (msg.groups.foldl (·.insert ·) h) := by
  unfold regroup
  rw [ht]
  rfl

theorem regroup_deaffiliate (msg : SubscriberMessage) (h : FinSet UInt32) (ht : msg.msgType = subDeaffiliate) :
    regroup msg (some h) = some (msg.groups.foldl (·.erase ·) h) := by
  unfold regroup
  rw [ht]
  rfl

theorem mem_sorted {g : FinSet UInt32} {k : UInt32} : k ∈ sorted g ↔ k ∈ g := Std.ExtTreeSet.mem_toList

variable {old new : Option Subscriber} {peer : ClientId}

/-- The peer first hears of an entry: its groups join what the peer had. -/
theorem replay_legacyUpdates_new {n : Subscriber} (hold : old.filter (·.clientId ≠ peer) = none)
    (hn : n.clientId ≠ peer) :
    ∃ groups : FinSet UInt32, replay subEffect t (legacyUpdates issi old (some n) peer) issi = some groups ∧
      ∀ g : UInt32, g ∈ groups ↔ g ∈ (t issi).getD ∅ ∨ g ∈ n.groups := by
  have hnew : (some n).filter (·.clientId ≠ peer) = some n := by
    rw [Option.filter_some, if_pos (decide_eq_true hn)]
  refine ⟨(sorted n.groups).foldl (·.insert ·) ((t issi).getD ∅), ?_, fun g => ?_⟩
  · unfold legacyUpdates
    dsimp only
    rw [hold, hnew]
    dsimp only
    rw [replay_register, replay_groups regroup_affiliate (Function.update_self ..)]
  · rw [FinSet.mem_foldl_insert, mem_sorted]

/-- The peer hears how an entry it knows changed. -/
theorem replay_legacyUpdates_change {o n : Subscriber} (ho : o.clientId ≠ peer) (hn : n.clientId ≠ peer)
    (ht : t issi = some o.groups) :
    replay subEffect t (legacyUpdates issi (some o) (some n) peer) issi = some n.groups := by
  have hold : (some o).filter (·.clientId ≠ peer) = some o := by
    rw [Option.filter_some, if_pos (decide_eq_true ho)]
  have hnew : (some n).filter (·.clientId ≠ peer) = some n := by
    rw [Option.filter_some, if_pos (decide_eq_true hn)]
  unfold legacyUpdates
  dsimp only
  rw [hold, hnew]
  dsimp only
  rw [replay_append]
  -- whether or not it registered anew, the peer has the old groups and the new
  have hjoined : ∃ groups : FinSet UInt32, replay subEffect t
      (if o.route.reg ≠ n.route.reg then buildSubscriberMessage subRegister issi [] ::
          (if n.groups.isEmpty then [] else [buildSubscriberMessage subAffiliate issi (sorted n.groups)])
        else if (n.groups.filter fun g => !o.groups.contains g).isEmpty then []
          else [buildSubscriberMessage subAffiliate issi (sorted (n.groups.filter fun g => !o.groups.contains g))])
      issi = some groups ∧ ∀ g : UInt32, g ∈ groups ↔ g ∈ o.groups ∨ g ∈ n.groups := by
    split
    · refine ⟨(sorted n.groups).foldl (·.insert ·) o.groups, ?_, fun g => ?_⟩
      · rw [replay_register, replay_groups regroup_affiliate (Function.update_self ..), ht]
        rfl
      · rw [FinSet.mem_foldl_insert, mem_sorted]
    · refine ⟨_, replay_groups regroup_affiliate ht, fun g => ?_⟩
      rw [FinSet.mem_foldl_insert, mem_sorted, FinSet.mem_filter, Bool.not_eq_true',
        ← Bool.not_eq_true, Std.ExtTreeSet.contains_iff_mem]
      tauto
  obtain ⟨groups, heq, hmem⟩ := hjoined
  rw [replay_groups regroup_deaffiliate heq]
  refine congrArg some (FinSet.ext fun g => ?_)
  rw [FinSet.mem_foldl_erase, mem_sorted, FinSet.mem_filter, hmem, Bool.not_eq_true', ← Bool.not_eq_true,
    Std.ExtTreeSet.contains_iff_mem]
  tauto

/-- Nothing is said of an entry that runs over the peer. -/
theorem legacyUpdates_own {n : Subscriber} (hn : n.clientId = peer) :
    legacyUpdates issi old (some n) peer = [] := by
  have hnew : (some n).filter (·.clientId ≠ peer) = none := by
    rw [Option.filter_some, if_neg]
    rw [decide_eq_true_eq]
    exact not_not.mpr hn
  unfold legacyUpdates
  dsimp only
  rw [hnew]
  cases old.filter (·.clientId ≠ peer) <;> rfl

theorem replay_legacyUpdates_gone (ht : ∀ o : Subscriber, old = some o → o.clientId = peer → t issi = none)
    (hnone : old = none → t issi = none) :
    replay subEffect t (legacyUpdates issi old none peer) issi = none := by
  cases old with
  | none => exact hnone rfl
  | some o =>
    by_cases ho : o.clientId = peer
    · have hold : (some o).filter (·.clientId ≠ peer) = none := by
        rw [Option.filter_some, if_neg]
        rw [decide_eq_true_eq]
        exact not_not.mpr ho
      unfold legacyUpdates
      dsimp only
      rw [hold]
      exact ht o rfl ho
    · have hold : (some o).filter (·.clientId ≠ peer) = some o := by
        rw [Option.filter_some, if_pos (decide_eq_true ho)]
      unfold legacyUpdates
      dsimp only
      rw [hold, Option.filter_none]
      dsimp only
      rw [if_pos Option.isNone_none, replay_cons, replay_nil, applyTo_of_some (subEffect_build ..)]
      rfl

end Regroup

section Foreign

/-- A change in which the peer has no part: the entries over it keep their groups
or give way to another. -/
structure Foreign (link : ClientId) (old new : Option Subscriber) : Prop where
  kept : ∀ n : Subscriber, new = some n → n.clientId = link →
    ∃ o : Subscriber, old = some o ∧ o.clientId = link ∧ o.groups = n.groups
  stays : ∀ o : Subscriber, old = some o → o.clientId = link → new ≠ none

variable {link : ClientId} {s s' : Inner} {k : UInt32}

theorem Foreign.refl (old : Option Subscriber) : Foreign link old old :=
  ⟨fun n hn hc => ⟨n, hn, hc, rfl⟩, fun o ho _ hn => by rw [ho] at hn; cases hn⟩

theorem foreign_rerouted (hw : WellRouted s) (hlink : s.fed.links[link]? = none) :
    Foreign link (s.subscribers[k]?) (rerouted s k) := by
  have hlink' : link ∉ s.fed.links := by
    intro hm
    obtain ⟨n, hn⟩ := FinMap.mem_iff.mp hm
    rw [hlink] at hn
    cases hn
  rw [rerouted_eq_chosen hw]
  refine ⟨fun n hn hc => ?_, fun o ho hc => chosen_ne_none (localEntry_of_home ho (hc ▸ hlink'))⟩
  rcases chosen_cases hn with ⟨hs, -⟩ | ⟨l, a, ho, rfl⟩
  · exact ⟨n, hs, hc, rfl⟩
  · obtain ⟨m, hm, -⟩ := hw.offer k l a ho
    change l = link at hc
    rw [hc, hlink] at hm
    cases hm

/-- An entry that went comes back over a loop-safe link only. -/
theorem mem_links_of_withdrawn {n : Subscriber} (hw : WellRouted s)
    (hn : (applyEntry s k none).subscribers[k]? = some n) : n.clientId ∈ s.fed.links := by
  have hgone : WellRouted (setEffective s k none) := hw.setEffective fun n hn => nomatch hn
  have hnone : (setEffective s k none).subscribers[k]? = none := by rw [setEffective_subscribers, if_pos rfl]
  rw [applyEntry_none, reroute_subscribers, if_pos rfl, rerouted_eq_chosen hgone] at hn
  rcases chosen_cases hn with ⟨hs, -⟩ | ⟨l, a, ho, rfl⟩
  · rw [hnone] at hs
    cases hs
  · obtain ⟨m, hm, -⟩ := hw.offer k l a ho
    exact FinMap.mem_of_getElem? hm

theorem foreign_handleSubscriber {nowMs : UInt64} {source : ClientId} {msg : SubscriberMessage} (hw : WellRouted s)
    (hlink : s.fed.links[link]? = none) (hsource : source ≠ link) :
    Foreign link (s.subscribers[k]?) ((handleSubscriber s nowMs source msg).1.subscribers[k]?) := by
  rcases handleSubscriber_cases s nowMs source msg with heq | ⟨ticked, new, groups, -, hentry, heq⟩
  · rw [heq]
    exact .refl _
  · rw [heq, (lateEntry_same (applyEntry ticked msg.issi new) source groups).1.subscribers]
    by_cases hk : msg.issi = k
    · subst hk
      cases new with
      | some n =>
        have hfinal : (applyEntry ticked msg.issi (some n)).subscribers[msg.issi]? = some n := by
          rw [applyEntry_some, setEffective_subscribers, if_pos rfl]
        rw [hfinal]
        refine ⟨fun m hm hc => ?_, fun o _ _ hn => by cases hn⟩
        cases hm
        exact absurd (hentry.owner.symm.trans hc) hsource
      | none =>
        refine ⟨fun m hm hc => ?_, fun o ho hc => ?_⟩
        · obtain ⟨n, hn⟩ := FinMap.mem_iff.mp (mem_links_of_withdrawn (hw.ticked hentry) hm)
          rw [hc, hentry.registers.links, hlink] at hn
          cases hn
        · cases hentry with
          | deregister o' asked held own =>
            rw [held] at ho
            cases ho
            exact absurd (own.symm.trans hc) hsource
    · rw [applyEntry_subscribers_ne hk, hentry.subscribers]
      exact .refl _

theorem foreign_cleanupClient {id : ClientId} (hw : WellRouted s) (hlink : s.fed.links[link]? = none)
    (hne : id ≠ link) : Foreign link (s.subscribers[k]?) ((cleanupClient s id).inner.subscribers[k]?) := by
  rw [(passive_cleanupClient s id).routes.subscribers, dropRegistrations_subscribers]
  split
  · have hlink' : (unaffiliated s id).fed.links[link]? = none := by
      rw [registers_unaffiliated.links]
      exact FinMap.getElem?_erase.trans ((if_neg hne).trans hlink)
    have hre := foreign_rerouted (k := k) (hw.unaffiliated id) hlink'
    rw [unaffiliated_subscribers] at hre
    refine ⟨fun n hn hc => ?_, fun o ho hc => hre.stays o ?_ hc⟩
    · obtain ⟨o, ho, hown, hg⟩ := hre.kept n hn hc
      exact ⟨o, (Option.filter_eq_some_iff.mp ho).1, hown, hg⟩
    · rw [ho, Option.filter_some, if_pos]
      exact decide_eq_true fun he => hne (he.symm.trans hc)
  · exact .refl _

/-- Whether a SUB message is taken in depends on the entries alone. -/
theorem subscriberEntry_none_congr {nowMs : UInt64} {source : ClientId} {msg : SubscriberMessage}
    (hs : s'.subscribers = s.subscribers) :
    subscriberEntry s' nowMs source msg = none ↔ subscriberEntry s nowMs source msg = none := by
  unfold subscriberEntry
  dsimp only
  rw [hs]
  split_ifs
  · simp
  all_goals cases s.subscribers[msg.issi]? with
    | none => simp
    | some o => by_cases hc : o.clientId = source <;> simp [hc]

theorem handleSubscriber_ignored {nowMs : UInt64} {source : ClientId} {msg : SubscriberMessage}
    (h : subscriberEntry s nowMs source msg = none) : handleSubscriber s nowMs source msg = (s, [], none) := by
  unfold handleSubscriber
  split
  · rfl
  · rw [h]

end Foreign

/-- The SUB message of the peer itself that an event is, if it is taken in. -/
def ownRegistrations (a : AppState) (link : ClientId) : Event → List Bytes
  | .packet env source raw =>
    if source = link ∧ ((asSubscriber raw).bind (subscriberEntry a.inner env.nowMs source)).isSome then [raw] else []
  | _ => []

theorem foreign_eventStep {a : AppState} {ev : Event} {s' : Inner} {sends : Sends} {link : ClientId}
    (hw : WellRouted a.inner) (hstep : EventStep Joining a.inner ev s' sends)
    (hlink : a.inner.fed.links[link]? = none) (hown : ownRegistrations a link ev = []) (hstay : ev ≠ .disconnect link)
    (k : UInt32) : Foreign link (a.inner.subscribers[k]?) (s'.subscribers[k]?) := by
  cases hstep with
  | aside hj =>
    rw [hj.table.subscribers]
    exact .refl _
  | connect id client neighbour console =>
    rw [openSession_subscribers]
    exact .refl _
  | disconnect id => exact foreign_cleanupClient hw hlink fun he => hstay (he ▸ rfl)
  | @packet env source raw _ _ hp =>
    cases hp with
    | aside hj =>
      rw [hj.table.subscribers]
      exact .refl _
    | @subscriber t msg v d before parsed =>
      rw [← before.routes.subscribers]
      by_cases hs : source = link
      · have hmsg : asSubscriber raw = some msg := asSubscriber_iff.mpr ⟨d, parsed⟩
        have hnone : subscriberEntry a.inner env.nowMs source msg = none := by
          by_contra hsome
          unfold ownRegistrations at hown
          dsimp only at hown
          rw [if_pos ⟨hs, by rw [hmsg]; exact Option.isSome_iff_ne_none.mpr hsome⟩] at hown
          cases hown
        rw [handleSubscriber_ignored ((subscriberEntry_none_congr before.routes.subscribers).mpr hnone)]
        exact .refl _
      · exact foreign_handleSubscriber (hw.aside before.aside) (by rw [before.routes.links, hlink]) hs
    | @route t n issi b before far parsed fed =>
      rw [receiveRoute_eq.1, reroute_subscribers]
      have ht : (takeOffer t env.nowMs source issi b).subscribers = a.inner.subscribers := by
        rw [takeOffer_subscribers, before.routes.subscribers]
      have hfar : t.fed.links[source]? = some n := by rw [before.routes.links, far]
      split
      · next hk =>
        have hre : Foreign link ((takeOffer t env.nowMs source issi b).subscribers[issi]?)
            (rerouted (takeOffer t env.nowMs source issi b) issi) :=
          foreign_rerouted ((hw.aside before.aside).takeOffer hfar (pathFrom_of_parse parsed))
            (by rw [registers_takeOffer.links, before.routes.links, hlink])
        rw [ht, hk] at hre
        exact hk ▸ hre
      · rw [ht]
        exact .refl _
    | @withdraw t n issi before far parsed fed =>
      have ht : (withdrawOffer t issi source).1.subscribers = a.inner.subscribers := by
        rw [withdrawOffer_subscribers, before.routes.subscribers]
      rw [receiveWithdraw_eq]
      split
      · rw [(settleRoute_eq (by rw [withdrawOffer_subscribers])).1, reroute_subscribers]
        split
        · next hk =>
          have hre : Foreign link ((withdrawOffer t issi source).1.subscribers[issi]?)
              (rerouted (withdrawOffer t issi source).1 issi) :=
            foreign_rerouted (hw.aside before.aside).withdrawOffer
              (by rw [registers_withdrawOffer.links, before.routes.links, hlink])
          rw [ht, hk] at hre
          exact hk ▸ hre
        · rw [ht]
          exact .refl _
      · rw [ht]
        exact .refl _

section Held

/-- The peer's table holds the groups of every entry. -/
def Held (s : Inner) (t : UInt32 → Option (FinSet UInt32)) : Prop :=
  ∀ k : UInt32, t k = (s.subscribers[k]?).map (·.groups)

/-- An entry over the peer that gives way to one elsewhere keeps its groups. -/
def KeepsGroups (link : ClientId) (old new : Option Subscriber) : Prop :=
  ∀ o n : Subscriber, old = some o → new = some n → o.clientId = link → n.clientId ≠ link →
    ∀ g : UInt32, g ∈ o.groups → g ∈ n.groups

variable {link : ClientId} {s s' : Inner} {sends : Sends} {t : UInt32 → Option (FinSet UInt32)} {k : UInt32}
  {old new : Option Subscriber}

theorem replay_subEffect_on :
    replay subEffect t (sends.on link) = replay subEffect t (sends.registrations link) := by
  refine (replay_filter fun raw _ hq => subEffect_of_quiet ?_).symm
  simpa using hq

/-- Each ISSI sees the difference that its own entry made. -/
theorem replay_published (hp : Published link s s' sends) (hs : s'.session link = some .peer)
    (hl : s'.fed.links[link]? = none) :
    replay subEffect t (sends.on link) k =
      if same (s.subscribers[k]?) (s'.subscribers[k]?) then t k
      else replay subEffect t (legacyUpdates k (s.subscribers[k]?) (s'.subscribers[k]?) link) k := by
  obtain ⟨issis, hn, hsame, hsent⟩ := hp
  have hupdates : ∀ k : UInt32, peerUpdates s' k (s.subscribers[k]?) link =
      if same (s.subscribers[k]?) (s'.subscribers[k]?) then []
      else legacyUpdates k (s.subscribers[k]?) (s'.subscribers[k]?) link := by
    intro k
    unfold peerUpdates
    rw [hl]
  rw [replay_subEffect_on, hsent hs, replay_flatMap hn fun k' _ raw hm k'' g he => by
    rw [hupdates] at hm
    split at hm
    · cases hm
    · obtain ⟨msgType, groups, rfl⟩ := mem_legacyUpdates hm
      rw [subEffect_build] at he
      cases he
      rfl]
  rw [hupdates]
  split
  · split <;> rfl
  · next hk => rw [if_pos (hsame k hk)]

/-- The difference is right exactly when the peer's own entry keeps its groups. -/
theorem replay_legacyUpdates_iff (hf : Foreign link old new) (ht : t k = old.map (·.groups)) :
    replay subEffect t (legacyUpdates k old new link) k = new.map (·.groups) ↔ KeepsGroups link old new := by
  cases new with
  | none =>
    refine iff_of_true (replay_legacyUpdates_gone (fun o ho hc => absurd rfl (hf.stays o ho hc)) fun ho => ?_)
      fun o n _ hn => by cases hn
    rw [ht, ho]
    rfl
  | some n =>
    by_cases hn : n.clientId = link
    · refine iff_of_true ?_ fun o m _ hm _ hc => ?_
      · obtain ⟨o, rfl, -, hg⟩ := hf.kept n rfl hn
        rw [legacyUpdates_own hn, replay_nil, ht, Option.map_some, Option.map_some, hg]
      · cases hm
        exact absurd hn hc
    · by_cases hold : ∃ o : Subscriber, old = some o ∧ o.clientId ≠ link
      · obtain ⟨o, rfl, ho⟩ := hold
        refine iff_of_true (replay_legacyUpdates_change ho hn ht) fun o' m ho' _ hc => ?_
        cases ho'
        exact absurd hc ho
      · have hfilter : old.filter (·.clientId ≠ link) = none := by
          rw [Option.filter_eq_none_iff]
          intro o ho
          rw [decide_eq_true_eq]
          exact fun hc => hold ⟨o, ho, hc⟩
        obtain ⟨groups, heq, hmem⟩ : ∃ groups : FinSet UInt32, replay subEffect t (legacyUpdates k old (some n) link) k =
            some groups ∧ ∀ g : UInt32, g ∈ groups ↔ g ∈ (t k).getD ∅ ∨ g ∈ n.groups :=
          replay_legacyUpdates_new hfilter hn
        rw [heq, Option.map_some, Option.some.injEq]
        constructor
        · rintro rfl o m rfl hm - - g hg
          cases hm
          rw [hmem, ht]
          exact .inl hg
        · intro hkeep
          refine FinSet.ext fun g => ?_
          rw [hmem, ht]
          refine ⟨?_, .inr⟩
          rintro (hg | hg)
          · cases old with
            | none => exact absurd hg Std.ExtTreeSet.not_mem_empty
            | some o =>
              have hc : o.clientId = link := by
                by_contra hc
                exact hold ⟨o, rfl, hc⟩
              exact hkeep o n rfl rfl hc hn g hg
          · exact hg

theorem keepsGroups_of_same (h : same old new = true) : KeepsGroups link old new := by
  rintro o n rfl rfl ho hn
  exact absurd ((same_some.mp h).1.symm.trans ho) hn

theorem groups_of_same (h : same old new = true) : old.map (·.groups) = new.map (·.groups) := by
  cases old with
  | none => rw [same_none_left.mp h]
  | some o =>
    cases new with
    | none => cases h
    | some n => exact congrArg some (same_some.mp h).2.1

theorem Held.published (h : Held s t) (hp : Published link s s' sends) (hs : s'.session link = some .peer)
    (hl : s'.fed.links[link]? = none) (hf : Foreign link (s.subscribers[k]?) (s'.subscribers[k]?)) :
    replay subEffect t (sends.on link) k = (s'.subscribers[k]?).map (·.groups) ↔
      KeepsGroups link (s.subscribers[k]?) (s'.subscribers[k]?) := by
  rw [replay_published hp hs hl]
  split
  · next hsame => exact iff_of_true ((h k).trans (groups_of_same hsame)) (keepsGroups_of_same hsame)
  · exact replay_legacyUpdates_iff hf (h k)

theorem handleSubscriber_of_entry {nowMs : UInt64} {source : ClientId} {msg : SubscriberMessage} {ticked : Inner}
    (hlink : source ∉ s.fed.links) (h : subscriberEntry s nowMs source msg = some (ticked, new)) :
    (handleSubscriber s nowMs source msg).1.subscribers = (applyEntry ticked msg.issi new).subscribers := by
  unfold handleSubscriber
  rw [if_neg hlink, h]
  exact (lateEntry_same _ source _).1.subscribers

/-- The peer applies its own registration, then what it hears of it. -/
theorem Held.registered {nowMs : UInt64} {msg : SubscriberMessage} {ticked : Inner} (h : Held s t) (hw : WellRouted s)
    (hentry : EntryChange s nowMs link msg ticked new) (hp : Published link s s' sends)
    (hfinal : s'.subscribers = (applyEntry ticked msg.issi new).subscribers)
    (hs : s'.session link = some .peer) (hl : s'.fed.links[link]? = none) (hl' : s.fed.links[link]? = none) :
    Held s' (replay subEffect (Function.update t msg.issi (regroup msg (t msg.issi))) (sends.on link)) := by
  intro k
  rw [replay_published hp hs hl]
  by_cases hk : msg.issi = k
  · subst hk
    have hown : Function.update t msg.issi (regroup msg (t msg.issi)) msg.issi = new.map (·.groups) := by
      rw [Function.update_self, h, hentry.regroup]
    cases new with
    | some n =>
      have hn : s'.subscribers[msg.issi]? = some n := by
        rw [hfinal, applyEntry_some, setEffective_subscribers, if_pos rfl]
      rw [hn, legacyUpdates_own hentry.owner, replay_nil, hown, ite_self]
    | none =>
      obtain ⟨o, ho, hc⟩ : ∃ o : Subscriber, s.subscribers[msg.issi]? = some o ∧ o.clientId = link := by
        cases hentry with
        | deregister o asked held own => exact ⟨o, held, own⟩
      rw [ho]
      cases hn : s'.subscribers[msg.issi]? with
      | none =>
        rw [if_neg (by simp [same])]
        exact replay_legacyUpdates_gone (fun _ _ _ => hown) fun _ => hown
      | some n =>
        have hne : n.clientId ≠ link := by
          intro hc
          rw [hfinal] at hn
          obtain ⟨m, hm⟩ := FinMap.mem_iff.mp (mem_links_of_withdrawn (hw.ticked hentry) hn)
          rw [hc, hentry.registers.links, hl'] at hm
          cases hm
        have hsame : ¬ same (some o) (some n) = true := fun he => hne ((same_some.mp he).1.symm.trans hc)
        have hfilter : (some o).filter (·.clientId ≠ link) = none := by
          rw [Option.filter_some, if_neg]
          rw [decide_eq_true_eq]
          exact not_not.mpr hc
        obtain ⟨groups, heq, hmem⟩ : ∃ groups : FinSet UInt32,
            replay subEffect (Function.update t msg.issi (regroup msg (t msg.issi)))
              (legacyUpdates msg.issi (some o) (some n) link) msg.issi = some groups ∧
            ∀ g : UInt32, g ∈ groups ↔
              g ∈ (Function.update t msg.issi (regroup msg (t msg.issi)) msg.issi).getD ∅ ∨ g ∈ n.groups :=
          replay_legacyUpdates_new hfilter hne
        rw [if_neg hsame, heq]
        refine congrArg some (FinSet.ext fun g => ?_)
        rw [hmem, hown]
        refine ⟨fun hg => hg.elim (fun hg => absurd hg Std.ExtTreeSet.not_mem_empty) id, .inr⟩
  · have hstay : s'.subscribers[k]? = s.subscribers[k]? := by
      rw [hfinal, applyEntry_subscribers_ne hk, hentry.subscribers]
    rw [hstay, if_pos (same_refl _), Function.update_of_ne (Ne.symm hk)]
    exact h k

end Held

section Attach

variable {s : Inner} {id : ClientId} {client : Client} {console : Bool}

/-- A legacy link is sent every entry as a registration. -/
theorem openSession_sends_legacy (hm : client.mode = .peer) (hnone : s.fed.links[id]? = none) :
    (openSession s id client none console).2.on id =
      s.subscribers.keys.flatMap fun issi => legacyUpdates issi none (s.subscribers[issi]?) id := by
  unfold openSession attachClient
  dsimp only
  rw [if_pos hm, List.nil_append, Sends.on_map_pair, if_pos rfl, syncMessages]
  dsimp only
  rw [hnone]

/-- The first table a legacy link is sent has the groups of every entry. -/
theorem held_openSession (hm : client.mode = .peer) (hnone : s.fed.links[id]? = none)
    (hfresh : ∀ (k : UInt32) (sub : Subscriber), s.subscribers[k]? = some sub → sub.clientId ≠ id) :
    Held (openSession s id client none console).1
      (replay subEffect (fun _ => none) ((openSession s id client none console).2.on id)) := by
  intro k
  rw [openSession_subscribers, openSession_sends_legacy hm hnone,
    replay_flatMap FinMap.nodup_keys fun k' _ raw hraw k'' g he => by
      obtain ⟨msgType, groups, rfl⟩ := mem_legacyUpdates hraw
      rw [subEffect_build] at he
      cases he
      rfl]
  cases hs : s.subscribers[k]? with
  | none =>
    rw [if_neg fun hk => ?_]
    · rfl
    · obtain ⟨sub, hsub⟩ := FinMap.mem_iff.mp (Std.ExtTreeMap.mem_keys.mp hk)
      rw [hs] at hsub
      cases hsub
  | some sub =>
    rw [if_pos (Std.ExtTreeMap.mem_keys.mpr (FinMap.mem_of_getElem? hs))]
    have hforeign : Foreign id none (some sub) := by
      refine ⟨fun n hn hc => ?_, fun o ho => by cases ho⟩
      cases hn
      exact absurd hc (hfresh k sub hs)
    exact (replay_legacyUpdates_iff hforeign rfl).mpr fun o n ho => by cases ho

end Attach

/-- A legacy peer link from when it comes up to its end, along events that meet
`ok`, with the SUB messages the peer applies: its own, and what it is sent. -/
inductive LegacyRun (cfg : Config) (selfId : UInt64) (link : ClientId) (ok : AppState → Event → Prop) :
    AppState → List Bytes → Prop
  | up {a : AppState} {client : Client} {console : Bool}
      (before : Reach (AppState.start selfId) (fun a ev => ev.Allowed a) (AppState.next cfg) a)
      (peer : client.mode = .peer) (allowed : (Event.connect link client none console).Allowed a) :
      LegacyRun cfg selfId link ok (a.next cfg (.connect link client none console))
        ((a.sent cfg (.connect link client none console)).on link)
  | step {a : AppState} {log : List Bytes} {ev : Event} (run : LegacyRun cfg selfId link ok a log)
      (allowed : ev.Allowed a) (stays : ev ≠ .disconnect link) (met : ok a ev) :
      LegacyRun cfg selfId link ok (a.next cfg ev) (log ++ (ownRegistrations a link ev ++ (a.sent cfg ev).on link))

section Run

variable {cfg : Config} {selfId : UInt64} {link : ClientId} {a : AppState}

/-- Unless the peer itself registers, its entries that give way keep their groups. -/
def Event.KeepsGroups (cfg : Config) (link : ClientId) (a : AppState) (ev : Event) : Prop :=
  ownRegistrations a link ev = [] → ∀ k : UInt32,
    BrewServer.KeepsGroups link (a.inner.subscribers[k]?) ((a.next cfg ev).inner.subscribers[k]?)

/-- What holds of a legacy link while it is up. -/
structure LegacyUp (selfId : UInt64) (link : ClientId) (a : AppState) (log : List Bytes) : Prop where
  sound : Sound selfId a
  quiet : QuietHeld a.inner
  session : a.inner.session link = some .peer
  legacy : a.inner.fed.links[link]? = none
  held : Held a.inner (replay subEffect (fun _ => none) log)

/-- The peer's table has the groups of every entry that does not run over it. -/
def LegacyMirror (s : Inner) (link : ClientId) (log : List Bytes) : Prop :=
  ∀ k : UInt32, (∀ e : Subscriber, s.subscribers[k]? = some e → e.clientId ≠ link) →
    replay subEffect (fun _ => none) log k = (s.subscribers[k]?).map (·.groups)

theorem LegacyUp.mirror {log : List Bytes} (h : LegacyUp selfId link a log) : LegacyMirror a.inner link log :=
  fun k _ => h.held k

theorem ownRegistrations_cases (a : AppState) (link : ClientId) (ev : Event) :
    ownRegistrations a link ev = [] ∨
      ∃ (env : Env) (raw : Bytes) (msg : SubscriberMessage) (ticked : Inner) (new : Option Subscriber),
        ev = .packet env link raw ∧ ownRegistrations a link ev = [raw] ∧ asSubscriber raw = some msg ∧
          subscriberEntry a.inner env.nowMs link msg = some (ticked, new) := by
  cases ev with
  | packet env source raw =>
    unfold ownRegistrations
    dsimp only
    split
    · next h =>
      obtain ⟨rfl, h⟩ := h
      obtain ⟨e, he⟩ := Option.isSome_iff_exists.mp h
      obtain ⟨msg, hmsg, hentry⟩ := Option.bind_eq_some_iff.mp he
      exact .inr ⟨env, raw, msg, e.1, e.2, rfl, rfl, hmsg, hentry⟩
    · exact .inl rfl
  | _ => exact .inl rfl

/-- A registration of the peer itself. -/
theorem LegacyUp.registered {log : List Bytes} {env : Env} {raw : Bytes} {msg : SubscriberMessage} {ticked : Inner}
    {new : Option Subscriber} (h : LegacyUp selfId link a log) (hok : (Event.packet env link raw).Allowed a)
    (hmsg : asSubscriber raw = some msg) (hentry : subscriberEntry a.inner env.nowMs link msg = some (ticked, new))
    (hpub : Published link a.inner (a.next cfg (.packet env link raw)).inner (a.sent cfg (.packet env link raw)))
    (hs : (a.next cfg (.packet env link raw)).inner.session link = some .peer)
    (hl : (a.next cfg (.packet env link raw)).inner.fed.links[link]? = none) :
    Held (a.next cfg (.packet env link raw)).inner
      (replay subEffect (fun _ => none) (log ++ ([raw] ++ (a.sent cfg (.packet env link raw)).on link))) := by
  have hr : (Event.packet env link raw).Routed := trivial
  obtain ⟨more, hran⟩ := @ran_routed cfg _ _ h.sound.bridged hok hr
  obtain ⟨s₁, hbefore, hhandled⟩ := @routePacket_subscriber cfg env a.inner link raw msg hmsg
  have hlegacy : s₁.fed.links[link]? = none := by rw [hbefore.routes.links, h.legacy]
  have hno : link ∉ s₁.fed.links := by
    intro hm
    obtain ⟨n, hn⟩ := FinMap.mem_iff.mp hm
    rw [hlegacy] at hn
    cases hn
  obtain ⟨ticked', new', hentry'⟩ : ∃ (ticked' : Inner) (new' : Option Subscriber),
      subscriberEntry s₁ env.nowMs link msg = some (ticked', new') := by
    cases he : subscriberEntry s₁ env.nowMs link msg with
    | none =>
      rw [(subscriberEntry_none_congr hbefore.routes.subscribers).mp he] at hentry
      cases hentry
    | some e => exact ⟨e.1, e.2, rfl⟩
  have hfinal : (a.next cfg (.packet env link raw)).inner.subscribers =
      (applyEntry ticked' msg.issi new').subscribers := by
    rw [hran.aside.table.subscribers, ← handleSubscriber_of_entry hno hentry', ← hhandled]
    rfl
  have hheld : Held s₁ (replay subEffect (fun _ => none) log) := by
    intro k
    rw [hbefore.routes.subscribers]
    exact h.held k
  have hpub' : Published link s₁ (a.next cfg (.packet env link raw)).inner (a.sent cfg (.packet env link raw)) := by
    unfold Published
    rw [hbefore.routes.subscribers]
    exact hpub
  have happly : ∀ t : UInt32 → Option (FinSet UInt32),
      replay subEffect t [raw] = Function.update t msg.issi (regroup msg (t msg.issi)) := by
    intro t
    rw [replay_cons, replay_nil, applyTo, subEffect, hmsg]
    rfl
  rw [replay_append, replay_append, happly]
  exact hheld.registered (h.sound.routed.aside hbefore.aside) (entryChange hentry') hpub' hfinal hs hl hlegacy

theorem LegacyUp.step {ev : Event} {log : List Bytes} (h : LegacyUp selfId link a log) (hok : ev.Allowed a)
    (hstay : ev ≠ .disconnect link) :
    (LegacyMirror (a.next cfg ev).inner link (log ++ (ownRegistrations a link ev ++ (a.sent cfg ev).on link)) ↔
        ev.KeepsGroups cfg link a) ∧
      (ev.KeepsGroups cfg link a →
        LegacyUp selfId link (a.next cfg ev) (log ++ (ownRegistrations a link ev ++ (a.sent cfg ev).on link))) := by
  obtain ⟨mid, sends, more, hran⟩ := ran cfg h.sound.bridged hok
  have hsound : Sound selfId (a.next cfg ev) := h.sound.next hok
  have hmid : QuietHeld mid := quietHeld_eventStep hran.event h.quiet
  obtain ⟨hsession, hlegacy⟩ := stays_eventStep hok hran.event (by rw [h.session]; rfl) hstay
  have hs : (a.next cfg ev).inner.session link = some .peer := by
    rw [hran.aside.sessions, hsession, h.session]
  have hl : (a.next cfg ev).inner.fed.links[link]? = none := by
    rw [hran.aside.table.links, hlegacy, h.legacy]
  have hother : ∀ client neighbour console, ev ≠ .connect link client neighbour console := by
    rintro client neighbour console rfl
    have hsess := h.session
    rw [session_of_not_mem hok.1] at hsess
    cases hsess
  have hpub : Published link a.inner (a.next cfg ev).inner (a.sent cfg ev) := by
    rw [hran.sent]
    exact (published_eventStep hran.event h.quiet hother).followed_aside hran.aside hmid
  rcases ownRegistrations_cases a link ev with hown | ⟨env, raw, msg, ticked, new, rfl, hown, hmsg, hentry⟩
  · have hforeign : ∀ k : UInt32, Foreign link (a.inner.subscribers[k]?) ((a.next cfg ev).inner.subscribers[k]?) := by
      intro k
      rw [hran.aside.table.subscribers]
      exact foreign_eventStep h.sound.routed hran.event h.legacy hown hstay k
    have hiff : ∀ k : UInt32, _ ↔ _ := fun k => h.held.published hpub hs hl (hforeign k)
    rw [hown, List.nil_append]
    refine ⟨⟨fun hm _ k => ?_, fun hkeep k _ => ?_⟩, fun hkeep => ⟨hsound, hran.aside.held hmid, hs, hl, fun k => ?_⟩⟩
    · by_cases hover : ∀ e : Subscriber, (a.next cfg ev).inner.subscribers[k]? = some e → e.clientId ≠ link
      · have hk := hm k hover
        rw [replay_append] at hk
        exact (hiff k).mp hk
      · intro o n _ hn _ hc
        exact absurd (fun e he => by rw [hn] at he; cases he; exact hc) hover
    · rw [replay_append]
      exact (hiff k).mpr (hkeep hown k)
    · rw [replay_append]
      exact (hiff k).mpr (hkeep hown k)
  · have hheld := h.registered hok hmsg hentry hpub hs hl
    have hkeep : (Event.packet env link raw).KeepsGroups cfg link a := by
      intro hnil
      rw [hown] at hnil
      cases hnil
    rw [hown]
    exact ⟨iff_of_true (fun k _ => hheld k) hkeep, fun _ => ⟨hsound, hran.aside.held hmid, hs, hl, hheld⟩⟩

theorem LegacyUp.of_connect {client : Client} {console : Bool}
    (h : Reach (AppState.start selfId) (fun a ev => ev.Allowed a) (AppState.next cfg) a) (hm : client.mode = .peer)
    (hok : (Event.connect link client none console).Allowed a) :
    LegacyUp selfId link (a.next cfg (.connect link client none console))
      ((a.sent cfg (.connect link client none console)).on link) := by
  have hs := sound_of_reach h
  have hr : (Event.connect link client none console).Routed := trivial
  have hnext : (a.next cfg (.connect link client none console)).inner =
      (openSession a.inner link client none console).1 := by
    rw [AppState.next, a.run_routed cfg hr]
    rfl
  have hsent : a.sent cfg (.connect link client none console) = (openSession a.inner link client none console).2 := by
    rw [AppState.sent, a.run_routed cfg hr]
    rfl
  have hnone : a.inner.fed.links[link]? = none := by
    cases hl : a.inner.fed.links[link]? with
    | none => rfl
    | some n =>
      have hsess := (hs.routed.link link n hl).1
      rw [session_of_not_mem hok.1] at hsess
      cases hsess
  refine ⟨hs.next hok, ?_, ?_, ?_, ?_⟩
  · rw [hnext]
    exact quietHeld_openSession (quietHeld_of_reach h)
  · rw [hnext, session_openSession hok.2.1, hm]
  · rw [hnext, openSession_links, if_pos rfl, hnone]
    rfl
  · rw [hnext, hsent]
    refine held_openSession hm hnone fun k sub hsub hc => ?_
    have hsess := (hs.routed.entry k sub hsub).session
    rw [hc, session_of_not_mem hok.1] at hsess
    cases hsess

theorem LegacyRun.up_to {log : List Bytes} (h : LegacyRun cfg selfId link (Event.KeepsGroups cfg link) a log) :
    LegacyUp selfId link a log := by
  induction h with
  | up before peer allowed => exact .of_connect before peer allowed
  | step run allowed stays met ih => exact (ih.step allowed stays).2 met

end Run

/-- While every entry of the peer that gave way kept its groups, the peer's table
is right; and it stays right exactly when the next one keeps them too. -/
theorem legacyMirror_of_run {cfg : Config} {selfId : UInt64} {link : ClientId} {a : AppState} {log : List Bytes}
    (h : LegacyRun cfg selfId link (Event.KeepsGroups cfg link) a log) :
    LegacyMirror a.inner link log ∧
      ∀ ev : Event, ev.Allowed a → ev ≠ .disconnect link →
        (LegacyMirror (a.next cfg ev).inner link
            (log ++ (ownRegistrations a link ev ++ (a.sent cfg ev).on link)) ↔ ev.KeepsGroups cfg link a) := by
  have hup := h.up_to
  exact ⟨hup.mirror, fun ev hok hstay => (hup.step hok hstay).1⟩

/-- A server with a loop-safe peer link and a legacy one. -/
def twoPeers : AppState :=
  ((AppState.start 9).next {} (.connect 2 (.accepted .peer) (some 5) false)).next {}
    (.connect 1 (.accepted .peer) none false)

/-- The legacy peer registers an ISSI in one group. -/
def peerRegisters : Event := .packet (.plain 5) 1 (buildSubscriberMessage subAffiliate 7 [91])

/-- The ISSI moves to the other peer, in another group. -/
def moves : Event := .packet (.plain 6) 2 (buildRoute 7 1000 [5] [92])

/-- What the legacy peer applies until its ISSI has moved. -/
def peerLog : List Bytes :=
  (ownRegistrations twoPeers 1 peerRegisters ++ (twoPeers.sent {} peerRegisters).on 1) ++
    (ownRegistrations (twoPeers.next {} peerRegisters) 1 moves ++ ((twoPeers.next {} peerRegisters).sent {} moves).on 1)

theorem twoPeers_run (ok : AppState → Event → Prop) : LegacyRun {} 9 1 ok twoPeers [] := by
  have hreach : Reach (AppState.start 9) (fun a ev => ev.Allowed a) (AppState.next {})
      ((AppState.start 9).next {} (.connect 2 (.accepted .peer) (some 5) false)) := .step .init (by decide +kernel)
  exact .up hreach rfl (by decide +kernel)

/-- The mirror holds after the peer's own registration. -/
theorem legacyMirror_registered :
    LegacyMirror (twoPeers.next {} peerRegisters).inner 1
      ([] ++ (ownRegistrations twoPeers 1 peerRegisters ++ (twoPeers.sent {} peerRegisters).on 1)) := by
  have hmet : Event.KeepsGroups {} 1 twoPeers peerRegisters := by
    intro hnil
    exact absurd hnil (by decide +kernel)
  have hok : peerRegisters.Allowed twoPeers := by decide +kernel
  exact (legacyMirror_of_run (.step (twoPeers_run _) hok (by intro h; cases h) hmet)).1

/-- The peer's ISSI that moved away stays in its old group there. -/
theorem not_legacyMirror :
    ¬ ∀ (a : AppState) (log : List Bytes), LegacyRun {} 9 1 (fun _ _ => True) a log → LegacyMirror a.inner 1 log := by
  intro hall
  have hok : peerRegisters.Allowed twoPeers := by decide +kernel
  have hok' : moves.Allowed (twoPeers.next {} peerRegisters) := by decide +kernel
  have hrun : LegacyRun {} 9 1 (fun _ _ => True) ((twoPeers.next {} peerRegisters).next {} moves) peerLog :=
    .step (.step (twoPeers_run _) hok (by intro h; cases h) trivial) hok' (by intro h; cases h) trivial
  have hseven := hall _ _ hrun 7 (by decide +kernel)
  have hheld := congrArg (Option.map fun groups : FinSet UInt32 => groups.contains 91) hseven
  revert hheld
  decide +kernel

end BrewServer
