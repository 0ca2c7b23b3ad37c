import BrewServer.RouteTable

/-!
# The effective table

The entry of every ISSI is what `select` makes of the local registration and of
the offers stored for it. A local registration prevails because its clock is
above that of every offer.
-/

namespace BrewServer

open Protocol Fedroute Router Sip

section Select

variable {selfId : UInt64} {own : Option UInt64} {links links' : FinMap ClientId UInt64}
  {cands cands' : Option (FinMap ClientId Advert)}

/-- Only the offers, and the servers they come from, count. -/
theorem select_congr (hc : ∀ l : ClientId, cands'.bind (·[l]?) = cands.bind (·[l]?))
    (hl : ∀ (l : ClientId) (a : Advert), cands.bind (·[l]?) = some a → links'[l]? = links[l]?) :
    select selfId own links' cands' = select selfId own links cands := by
  have hlookup : ∀ (c : Option (FinMap ClientId Advert)) (l : ClientId), (c.getD ∅)[l]? = c.bind (·[l]?) := by
    intro c l
    cases c with
    | none => exact Std.ExtTreeMap.getElem?_empty
    | some m => rfl
  have hlist : ∀ c : Option (FinMap ClientId Advert), (c.map (·.toList)).getD [] = (c.getD ∅).toList := by
    intro c
    cases c <;> rfl
  have hsame : cands'.getD ∅ = cands.getD ∅ := FinMap.ext fun l => by rw [hlookup, hlookup, hc]
  unfold select
  rw [hlist cands', hlist cands, hsame]
  dsimp only
  split
  · rw [argmin_congr fun o ho => ?_]
    have hmem := FinMap.mem_toList.mp (List.mem_filter.mp ho).1
    rw [hlookup] at hmem
    rw [nearness, nearness, hl o.1 o.2 hmem]
  · rfl

/-- What prevails over a local registration prevails without it. -/
theorem select_none_of_remote {link : ClientId} (h : select selfId own links cands = .remote link) :
    select selfId none links cands = .remote link := by
  unfold select at h ⊢
  dsimp only at h ⊢
  split at h
  · next hkey =>
    rw [Option.filter_eq_some_iff] at hkey
    rw [hkey.1]
    exact h
  · split at h <;> cases h

theorem select_none_of_unreachable (h : select selfId own links cands = .unreachable) :
    select selfId none links cands = .unreachable := by
  cases own with
  | none => exact h
  | some r =>
    unfold select at h ⊢
    dsimp only at h ⊢
    split at h
    · next hkey =>
      rw [Option.filter_eq_some_iff] at hkey
      rw [hkey.1]
      exact h
    · rw [if_pos Option.isSome_some] at h
      cases h

/-- Only a link with an offer is chosen. -/
theorem select_remote {link : ClientId} (h : select selfId own links cands = .remote link) :
    ∃ a : Advert, cands.bind (·[link]?) = some a := by
  unfold select at h
  dsimp only at h
  split at h
  · split at h
    · next o ho =>
      cases h
      have hmem := (List.mem_filter.mp (List.argmin_mem ho)).1
      cases cands with
      | none => cases hmem
      | some m => exact ⟨o.2, FinMap.mem_toList.mp hmem⟩
    · cases h
  · split at h <;> cases h

/-- A local registration leaves nothing unreachable. -/
theorem select_own_none (h : select selfId own links cands = .unreachable) : own = none := by
  unfold select at h
  dsimp only at h
  split at h
  · next reg origin hkey =>
    rw [Option.filter_eq_some_iff] at hkey
    obtain ⟨o, ho, hk⟩ := List.mem_filterMap.mp (List.argmax_mem hkey.1)
    obtain ⟨origin', horigin, hk⟩ := Option.map_eq_some_iff.mp hk
    cases hk
    split at h
    · cases h
    · next hnone =>
      rw [List.argmin_eq_none] at hnone
      exact absurd (List.mem_filter.mpr ⟨ho, decide_eq_true horigin⟩) (hnone ▸ List.not_mem_nil)
  · split at h
    · cases h
    · next hown =>
      rw [Bool.not_eq_true, Option.isSome_eq_false_iff] at hown
      exact Option.isNone_iff_eq_none.mp hown

/-- A local registration above every offer prevails. -/
theorem select_local {r : UInt64} (h : ∀ (l : ClientId) (a : Advert), cands.bind (·[l]?) = some a → a.reg < r) :
    select selfId (some r) links cands = .local := by
  unfold select
  dsimp only
  split
  · next reg origin hkey =>
    rw [Option.filter_eq_some_iff] at hkey
    obtain ⟨o, ho, hk⟩ := List.mem_filterMap.mp (List.argmax_mem hkey.1)
    obtain ⟨origin', -, hk⟩ := Option.map_eq_some_iff.mp hk
    cases hk
    have hlt : o.2.reg < r := by
      cases hc : cands with
      | none => rw [hc] at ho; cases ho
      | some m =>
        rw [hc] at ho
        exact h o.1 o.2 (by rw [hc]; exact FinMap.mem_toList.mp ho)
    have hown := hkey.2
    simp only [Option.all_some, decide_eq_true_eq, rank, Prod.Lex.toLex_lt_toLex] at hown
    have := UInt64.lt_iff_toNat_lt.mp hlt
    omega
  · rfl

end Select

/-- The entry of `issi` is the one `select` gives. -/
def Selected (s : Inner) (issi : UInt32) : Prop := s.subscribers[issi]? = chosen s issi

theorem reroute_of_selected {s : Inner} {issi : UInt32} (h : Selected s issi) : reroute s issi = (s, false) := by
  unfold reroute
  dsimp only
  rw [← h, if_pos (same_refl _)]

section Selected

variable {s s' : Inner} {issi k : UInt32}

/-- What is chosen depends on the entry, the offers and the links of these. -/
theorem chosen_of_offers (hs : s'.subscribers[k]? = s.subscribers[k]?)
    (ho : ∀ l : ClientId, s'.offer k l = s.offer k l) (hi : s'.fed.selfId = s.fed.selfId)
    (hown : ∀ sub : Subscriber, s.subscribers[k]? = some sub →
      s'.fed.links[sub.clientId]? = s.fed.links[sub.clientId]?)
    (hl : ∀ (l : ClientId) (a : Advert), s.offer k l = some a → s'.fed.links[l]? = s.fed.links[l]?) :
    chosen s' k = chosen s k := by
  have hlocal : localEntry s' k = localEntry s k := by
    unfold localEntry
    rw [hs]
    cases he : s.subscribers[k]? with
    | none => rfl
    | some sub =>
      rw [Option.filter_some, Option.filter_some, Std.ExtTreeMap.contains_eq_isSome_getElem?,
        Std.ExtTreeMap.contains_eq_isSome_getElem?, hown sub he]
  unfold chosen
  dsimp only
  have hselect : ∀ (own : Option UInt64), select s.fed.selfId own s'.fed.links (s'.fed.ribIn[k]?) =
      select s.fed.selfId own s.fed.links (s.fed.ribIn[k]?) := fun _ => select_congr ho hl
  rw [hlocal, hi, hselect]
  split
  · rfl
  · next link _ =>
    change (s'.offer k link).map _ = (s.offer k link).map _
    rw [ho]
  · rfl

theorem Selected.of_offers (h : Selected s k) (hs : s'.subscribers[k]? = s.subscribers[k]?)
    (ho : ∀ l : ClientId, s'.offer k l = s.offer k l) (hi : s'.fed.selfId = s.fed.selfId)
    (hown : ∀ sub : Subscriber, s.subscribers[k]? = some sub →
      s'.fed.links[sub.clientId]? = s.fed.links[sub.clientId]?)
    (hl : ∀ (l : ClientId) (a : Advert), s.offer k l = some a → s'.fed.links[l]? = s.fed.links[l]?) :
    Selected s' k := by
  unfold Selected
  rw [chosen_of_offers hs ho hi hown hl, hs]
  exact h

/-- The same, where no link came or went. -/
theorem Selected.of_registers (h : Selected s k) (hr : Registers s s') (hs : s'.subscribers[k]? = s.subscribers[k]?)
    (ho : ∀ l : ClientId, s'.offer k l = s.offer k l) : Selected s' k :=
  h.of_offers hs ho hr.selfId (fun _ _ => by rw [hr.links]) fun _ _ _ => by rw [hr.links]

theorem Selected.table (h : Selected s k) (ht : SameTable s s') : Selected s' k :=
  h.of_offers (by rw [ht.subscribers]) (fun l => ht.offer k l) ht.selfId (fun _ _ => by rw [ht.links])
    fun _ _ _ => by rw [ht.links]

theorem localEntry_of_away {sub : Subscriber} (hs : s.subscribers[k]? = some sub) (hl : sub.clientId ∈ s.fed.links) :
    localEntry s k = none := by
  rw [localEntry, hs, Option.filter_some, if_neg]
  rw [Std.ExtTreeMap.contains_iff_mem.mpr hl]
  decide

theorem localEntry_of_home {sub : Subscriber} (hs : s.subscribers[k]? = some sub) (hl : sub.clientId ∉ s.fed.links) :
    localEntry s k = some sub := by
  rw [localEntry, hs, Option.filter_some, if_pos]
  rw [Bool.eq_false_iff.mpr fun hm => hl (Std.ExtTreeMap.contains_iff_mem.mp hm)]
  rfl

/-- Where links only route well-formed entries, an entry that is `same` as the
chosen one is the chosen one. -/
theorem rerouted_eq_chosen (h : WellRouted s) : rerouted s k = chosen s k := by
  unfold rerouted
  split
  · next hsame =>
    cases hc : chosen s k with
    | none => rw [hc] at hsame; exact same_none_right.mp hsame
    | some n =>
      rcases chosen_cases hc with ⟨hs, -⟩ | ⟨link, a, ho, rfl⟩
      · exact hs
      · rw [hc] at hsame
        cases hs : s.subscribers[k]? with
        | none => rw [hs] at hsame; cases hsame
        | some o =>
          rw [hs] at hsame
          obtain ⟨hclient, hgroups, hroute⟩ := same_some.mp hsame
          obtain ⟨n, hn, -⟩ := h.offer k link a ho
          have hmode : o.mode = .peer := ((h.entry k o hs).away n (by rw [hclient]; exact hn)).1
          obtain ⟨client, groups, mode, route⟩ := o
          cases hclient
          cases hgroups
          cases hmode
          cases hroute
          rfl
  · rfl

/-- The choice `select` makes for `k`. -/
def choice (s : Inner) (k : UInt32) : Choice :=
  select s.fed.selfId ((localEntry s k).map (·.route.reg)) s.fed.links (s.fed.ribIn[k]?)

theorem chosen_of_local (h : choice s k = .local) : chosen s k = localEntry s k := by
  unfold chosen
  dsimp only
  rw [show select _ _ _ _ = _ from h]

theorem chosen_of_remote {link : ClientId} (h : choice s k = .remote link) :
    chosen s k = (s.offer k link).map (subscriberOf link) := by
  unfold chosen
  dsimp only
  rw [show select _ _ _ _ = _ from h]
  rfl

theorem chosen_of_unreachable (h : choice s k = .unreachable) : chosen s k = none := by
  unfold chosen
  dsimp only
  rw [show select _ _ _ _ = _ from h]

/-- A local registration may give way, but never to nothing. -/
theorem chosen_ne_none {o : Subscriber} (h : localEntry s k = some o) : chosen s k ≠ none := by
  cases hc : choice s k with
  | «local» =>
    rw [chosen_of_local hc, h]
    exact Option.some_ne_none o
  | remote link =>
    obtain ⟨a, ha⟩ := select_remote hc
    rw [chosen_of_remote hc, Inner.offer, ha]
    exact Option.some_ne_none _
  | unreachable =>
    have hown := select_own_none hc
    rw [h] at hown
    cases hown

theorem selected_reroute (h : WellRouted s) : Selected (reroute s k).1 k := by
  have hentry : (reroute s k).1.subscribers[k]? = chosen s k := by
    rw [reroute_subscribers, if_pos rfl, rerouted_eq_chosen h]
  have hoffer : (reroute s k).1.offer k = s.offer k := by
    funext l
    rw [Inner.offer, reroute_fed]
    rfl
  unfold Selected
  rw [hentry]
  cases hsel : choice s k with
  | «local» =>
    -- the local registration stays the entry
    have hstay : localEntry (reroute s k).1 k = localEntry s k := by
      rw [localEntry, hentry, chosen_of_local hsel, reroute_fed, localEntry, Option.filter_filter]
      simp only [Bool.and_self]
    have hsel' : choice (reroute s k).1 k = .local := by rw [choice, hstay, reroute_fed, ← hsel, choice]
    rw [chosen_of_local hsel, chosen_of_local hsel', hstay]
  | remote link =>
    have haway : localEntry (reroute s k).1 k = none := by
      cases ho : s.offer k link with
      | none => rw [localEntry, hentry, chosen_of_remote hsel, ho]; rfl
      | some a =>
        obtain ⟨n, hn, -⟩ := h.offer k link a ho
        have hnew : (reroute s k).1.subscribers[k]? = some (subscriberOf link a) := by
          rw [hentry, chosen_of_remote hsel, ho]
          rfl
        refine localEntry_of_away hnew ?_
        rw [reroute_fed]
        exact FinMap.mem_of_getElem? hn
    have hsel' : choice (reroute s k).1 k = .remote link := by
      rw [choice, haway, reroute_fed]
      exact select_none_of_remote hsel
    rw [chosen_of_remote hsel, chosen_of_remote hsel', hoffer]
  | unreachable =>
    have hgone : localEntry (reroute s k).1 k = none := by
      rw [localEntry, hentry, chosen_of_unreachable hsel]
      rfl
    have hsel' : choice (reroute s k).1 k = .unreachable := by
      rw [choice, hgone, reroute_fed]
      exact select_none_of_unreachable hsel
    rw [chosen_of_unreachable hsel, chosen_of_unreachable hsel']

/-- Selecting one ISSI anew leaves the others as they are. -/
theorem Selected.reroute_ne (h : Selected s k) (hne : issi ≠ k) : Selected (reroute s issi).1 k :=
  h.of_registers registers_reroute (by rw [reroute_subscribers, if_neg hne])
    fun l => by rw [Inner.offer, reroute_fed]; rfl

theorem selected_setEffective {n : Subscriber} (hhome : n.clientId ∉ s.fed.links)
    (hsel : select s.fed.selfId (some n.route.reg) s.fed.links s.fed.ribIn[k]? = .local) :
    Selected (setEffective s k (some n)) k := by
  have hentry : (setEffective s k (some n)).subscribers[k]? = some n := by rw [setEffective_subscribers, if_pos rfl]
  have hlocal : localEntry (setEffective s k (some n)) k = some n := localEntry_of_home hentry hhome
  have hchoice : choice (setEffective s k (some n)) k = .local := by
    rw [choice, hlocal]
    exact hsel
  rw [Selected, chosen_of_local hchoice, hlocal, hentry]

/-- A local entry is the choice between its registration and the offers. -/
theorem choice_of_home {o : Subscriber} (h : WellRouted s) (hsel : Selected s k) (hs : s.subscribers[k]? = some o)
    (hhome : o.clientId ∉ s.fed.links) : choice s k = .local := by
  rw [Selected, hs] at hsel
  cases hc : choice s k with
  | «local» => rfl
  | remote link =>
    rw [chosen_of_remote hc, eq_comm, Option.map_eq_some_iff] at hsel
    obtain ⟨a, ho, rfl⟩ := hsel
    obtain ⟨n, hn, -⟩ := h.offer k link a ho
    exact absurd (FinMap.mem_of_getElem? hn) hhome
  | unreachable =>
    rw [chosen_of_unreachable hc] at hsel
    cases hsel

end Selected

/-- No offer is above the registration clock. -/
def Clocked (s : Inner) : Prop :=
  ∀ (issi : UInt32) (link : ClientId) (a : Advert), s.offer issi link = some a → a.reg ≤ s.fed.clock

/-- The clock only advances, and stays above the offers. -/
structure Advances (s s' : Inner) : Prop where
  clock : s.fed.clock ≤ s'.fed.clock
  clocked : Clocked s → Clocked s'

theorem le_u64Max (a : UInt64) : a ≤ u64Max := by
  rw [UInt64.le_iff_toNat_le]
  have h := a.toNat_lt
  have hmax : u64Max.toNat = 2 ^ 64 - 1 := rfl
  omega

namespace Advances

variable {s s' s'' : Inner}

theorem refl (s : Inner) : Advances s s := ⟨UInt64.le_refl _, id⟩

theorem trans (h : Advances s s') (h' : Advances s' s'') : Advances s s'' :=
  ⟨UInt64.le_trans h.clock h'.clock, fun hc => h'.clocked (h.clocked hc)⟩

/-- Offers only went. -/
theorem of_offers (hclock : s.fed.clock ≤ s'.fed.clock)
    (ho : ∀ (issi : UInt32) (link : ClientId) (a : Advert), s'.offer issi link = some a → s.offer issi link = some a) :
    Advances s s' :=
  ⟨hclock, fun hc issi link a ha => UInt64.le_trans (hc issi link a (ho issi link a ha)) hclock⟩

theorem of_fed (hf : s'.fed = s.fed) : Advances s s' := by
  refine .of_offers (by rw [hf]; exact UInt64.le_refl _) fun issi link a ha => ?_
  rw [Inner.offer, hf] at ha
  exact ha

theorem table (h : SameTable s s') : Advances s s' := by
  refine .of_offers (by rw [h.clock]; exact UInt64.le_refl _) fun issi link a ha => ?_
  rw [h.offer] at ha
  exact ha

/-- With the clock below its largest value at the end, it always was. -/
theorem ne_max (h : Advances s s') (hmax : s'.fed.clock ≠ u64Max) : s.fed.clock ≠ u64Max := by
  intro he
  have hle := h.clock
  rw [he] at hle
  exact hmax (UInt64.le_antisymm (le_u64Max _) hle)

end Advances

section Clock

variable {s s' : Inner} {nowMs : UInt64} {source : ClientId} {issi : UInt32} {a : Advert} {msg : SubscriberMessage}

theorem le_tick (f : FedState) (nowMs : UInt64) : f.clock ≤ (f.tick nowMs).1.clock := by
  rw [UInt64.le_iff_toNat_le]
  change f.clock.toNat ≤ (maxU64 (satAdd f.clock 1) nowMs).toNat
  have h := f.clock.toNat_lt
  have h1 : (1 : UInt64).toNat = 1 := rfl
  rw [toNat_maxU64, toNat_satAdd]
  omega

/-- A registration is above all that was observed. -/
theorem lt_tick {f : FedState} (h : (f.tick nowMs).1.clock ≠ u64Max) : f.clock < (f.tick nowMs).2 := by
  have hne : (maxU64 (satAdd f.clock 1) nowMs).toNat ≠ 2 ^ 64 - 1 := fun he => h (UInt64.toNat_inj.mp he)
  rw [UInt64.lt_iff_toNat_lt]
  change f.clock.toNat < (maxU64 (satAdd f.clock 1) nowMs).toNat
  have hclock := f.clock.toNat_lt
  have hnow := nowMs.toNat_lt
  have h1 : (1 : UInt64).toNat = 1 := rfl
  rw [toNat_maxU64, toNat_satAdd] at hne ⊢
  omega

theorem advances_entryChange {new : Option Subscriber} (h : EntryChange s nowMs source msg s' new) :
    Advances s s' := by
  rcases h.cases_state with rfl | ⟨rfl, -⟩
  · exact .refl s'
  · exact .of_offers (le_tick s.fed nowMs) fun _ _ _ ha => ha

theorem advances_takeOffer : Advances s (takeOffer s nowMs source issi a) := by
  unfold takeOffer
  split
  · refine .of_offers (by rw [withdrawOffer_clock]; exact UInt64.le_refl _) fun k link b hb => ?_
    rw [offer_withdrawOffer] at hb
    split at hb
    · cases hb
    · exact hb
  · have hmax : (storeOffer s issi source a).fed.clock = maxU64 s.fed.clock a.reg := rfl
    have hle : s.fed.clock ≤ maxU64 s.fed.clock a.reg := by
      rw [UInt64.le_iff_toNat_le, toNat_maxU64]
      omega
    refine ⟨hle, fun hc k link b hb => ?_⟩
    rw [offer_storeOffer] at hb
    rw [hmax]
    split at hb
    · cases hb
      rw [UInt64.le_iff_toNat_le, toNat_maxU64]
      omega
    · exact UInt64.le_trans (hc k link b hb) hle

theorem advances_withdrawOffer : Advances s (withdrawOffer s issi source).1 := by
  refine .of_offers (by rw [withdrawOffer_clock]; exact UInt64.le_refl _) fun k link b hb => ?_
  rw [offer_withdrawOffer] at hb
  split at hb
  · cases hb
  · exact hb

theorem advances_reroute : Advances s (reroute s issi).1 := .of_fed reroute_fed

end Clock

/-- Every entry is the chosen one, as long as the clock has room above the
offers. -/
structure Settled (s : Inner) : Prop where
  clocked : Clocked s
  selected : s.fed.clock ≠ u64Max → ∀ issi : UInt32, Selected s issi

namespace Settled

variable {s s' : Inner}

theorem advance (h : Settled s) (ha : Advances s s')
    (hs : s'.fed.clock ≠ u64Max → (∀ issi : UInt32, Selected s issi) → ∀ issi : UInt32, Selected s' issi) :
    Settled s' :=
  ⟨ha.clocked h.clocked, fun hmax => hs hmax (h.selected (ha.ne_max hmax))⟩

theorem table (h : Settled s) (ht : SameTable s s') : Settled s' :=
  h.advance (.table ht) fun _ hs k => (hs k).table ht

/-- Offers of one ISSI change, and it is selected anew. -/
theorem reroute {issi : UInt32} (h : Settled s) (hw : WellRouted s') (ha : Advances s s') (hr : Registers s s')
    (hs : s'.subscribers = s.subscribers)
    (ho : ∀ (k : UInt32) (l : ClientId), issi ≠ k → s'.offer k l = s.offer k l) :
    Settled (Fedroute.reroute s' issi).1 := by
  refine h.advance (ha.trans advances_reroute) fun _ hsel k => ?_
  by_cases hk : issi = k
  · subst hk
    exact selected_reroute hw
  · exact ((hsel k).of_registers hr (by rw [hs]) fun l => ho k l hk).reroute_ne hk

theorem entry {nowMs : UInt64} {source : ClientId} {msg : SubscriberMessage} {new : Option Subscriber}
    (h : Settled s) (hw : WellRouted s) (hlink : source ∉ s.fed.links)
    (hentry : EntryChange s nowMs source msg s' new) : Settled (applyEntry s' msg.issi new) := by
  have ha : Advances s s' := advances_entryChange hentry
  refine h.advance (ha.trans (.of_fed applyEntry_fed)) fun hmax hsel k => ?_
  have hoffer : ∀ (k : UInt32) (l : ClientId), s'.offer k l = s.offer k l := by
    intro k l
    rw [Inner.offer, hentry.ribIn]
    rfl
  have hnew : ∀ (l : ClientId) (b : Advert), s.offer msg.issi l = some b →
      (s.fed.tick nowMs).1.clock ≠ u64Max → b.reg < (s.fed.tick nowMs).2 := by
    intro l b hb hmax'
    exact UInt64.lt_of_le_of_lt (h.clocked _ l b hb) (lt_tick hmax')
  have hstay : ∀ k : UInt32, Selected s' k := fun k =>
    (hsel k).of_registers hentry.registers (by rw [hentry.subscribers]) (hoffer k)
  have hlink' : source ∉ s'.fed.links := hentry.registers.links ▸ hlink
  by_cases hk : msg.issi = k
  · subst hk
    rw [applyEntry_fed] at hmax
    cases hentry with
    | register mode asked =>
      exact selected_setEffective hlink' (select_local fun l a ho => hnew l a ho hmax)
    | appear mode asked absent =>
      exact selected_setEffective hlink' (select_local fun l a ho => hnew l a ho hmax)
    | affiliate o asked held own =>
      refine selected_setEffective (own ▸ hlink) ?_
      have hc : choice s msg.issi = .local := choice_of_home hw (hsel _) held (own ▸ hlink)
      rw [choice, localEntry_of_home held (own ▸ hlink)] at hc
      exact hc
    | deaffiliate o asked held own =>
      refine selected_setEffective (own ▸ hlink) ?_
      have hc : choice s msg.issi = .local := choice_of_home hw (hsel _) held (own ▸ hlink)
      rw [choice, localEntry_of_home held (own ▸ hlink)] at hc
      exact hc
    | deregister o asked held own =>
      exact selected_reroute (hw.setEffective fun n hn => absurd hn (Option.not_mem_none n))
  · have happly : (applyEntry s' msg.issi new).subscribers[k]? = s'.subscribers[k]? := applyEntry_subscribers_ne hk
    refine (hstay k).of_registers registers_applyEntry happly fun l => ?_
    rw [Inner.offer, applyEntry_fed]
    rfl

theorem handleSubscriber {source : ClientId} (h : Settled s) (hw : WellRouted s) (nowMs : UInt64)
    (msg : SubscriberMessage) : Settled (Router.handleSubscriber s nowMs source msg).1 := by
  rcases handleSubscriber_cases s nowMs source msg with heq | ⟨ticked, new, groups, hlink, hentry, heq⟩
  · rw [heq]
    exact h
  · rw [heq]
    exact (h.entry hw hlink hentry).table (lateEntry_same (applyEntry ticked msg.issi new) source groups).1.toSameTable

theorem receiveRoute {nowMs n : UInt64} {source : ClientId} {issi : UInt32} {a : Advert} (h : Settled s)
    (hw : WellRouted s) (hlink : s.fed.links[source]? = some n) (hpath : PathFrom n a.path) :
    Settled (Fedroute.receiveRoute s nowMs source issi a).1 := by
  rw [receiveRoute_eq.1]
  refine h.reroute (hw.takeOffer hlink hpath) advances_takeOffer registers_takeOffer takeOffer_subscribers
    fun k l hk => ?_
  unfold Fedroute.takeOffer
  split
  · rw [offer_withdrawOffer, if_neg fun hkl => hk hkl.1]
  · rw [offer_storeOffer, if_neg fun hkl => hk hkl.1]

theorem receiveWithdraw {source : ClientId} {issi : UInt32} (h : Settled s) (hw : WellRouted s) :
    Settled (Fedroute.receiveWithdraw s source issi).1 := by
  rw [receiveWithdraw_eq]
  split
  · rw [(settleRoute_eq (by rw [withdrawOffer_subscribers])).1]
    refine h.reroute hw.withdrawOffer advances_withdrawOffer registers_withdrawOffer withdrawOffer_subscribers
      fun k l hk => ?_
    rw [offer_withdrawOffer, if_neg fun hkl => hk hkl.1]
  · next hno =>
    have hnone : s.offer issi source = none := by
      rw [← Option.not_isSome_iff_eq_none]
      exact hno
    refine h.advance advances_withdrawOffer fun _ hsel k => ?_
    exact (hsel k).of_registers registers_withdrawOffer (by rw [withdrawOffer_subscribers])
      fun l => offer_withdrawOffer_of_none hnone

/-- What a closing connection was neither the owner of nor offered keeps its
choice; all else is selected anew. -/
theorem dropRegistrations (h : Settled s) (hw : WellRouted s) (id : ClientId) :
    Settled (BrewServer.dropRegistrations s id).1 := by
  have hfed : (BrewServer.dropRegistrations s id).1.fed = (unaffiliated s id).fed := registers_dropRegistrations_fed
  have hoffer : ∀ (k : UInt32) (l : ClientId),
      (BrewServer.dropRegistrations s id).1.offer k l = if id = l then none else s.offer k l := by
    intro k l
    rw [Inner.offer, hfed, ← hw.offer_unaffiliated]
    rfl
  have hclock : (BrewServer.dropRegistrations s id).1.fed.clock = s.fed.clock :=
    (congrArg FedState.clock hfed).trans (clock_unaffiliated s id)
  have hlink : ∀ l : ClientId, id ≠ l → (BrewServer.dropRegistrations s id).1.fed.links[l]? = s.fed.links[l]? := by
    intro l hl
    rw [registers_dropRegistrations.links]
    exact FinMap.getElem?_erase.trans (if_neg hl)
  refine h.advance (.of_offers (by rw [hclock]; exact UInt64.le_refl _) fun k l a ha => ?_) fun _ hsel k => ?_
  · rw [hoffer] at ha
    split at ha
    · cases ha
    · exact ha
  · by_cases hk : k ∈ affectedIssis s id
    · have hre : Selected (Fedroute.reroute (unaffiliated s id) k).1 k := selected_reroute (hw.unaffiliated id)
      refine hre.of_offers ?_ (fun l => ?_) ?_ (fun sub _ => ?_) fun l a _ => ?_
      · rw [dropRegistrations_subscribers, if_pos hk, reroute_subscribers, if_pos rfl]
      all_goals first | rw [hfed, reroute_fed] | rw [Inner.offer, hfed, Inner.offer, reroute_fed]
    · have hnone : s.offer k id = none := by
        cases ho : s.offer k id with
        | none => rfl
        | some a =>
          obtain ⟨n, hn, -⟩ := hw.offer k id a ho
          exact absurd (mem_affectedIssis.mpr (.inr ⟨FinMap.mem_of_getElem? hn, by rw [ho]; rfl⟩)) hk
      refine (hsel k).of_offers ?_ (fun l => ?_) ?_ (fun sub hs => hlink _ fun hid => ?_) fun l a ha => hlink _ fun hid => ?_
      · rw [dropRegistrations_subscribers, if_neg hk]
      · rw [hoffer]
        split
        · next hid => rw [← hid, hnone]
        · rfl
      · exact registers_dropRegistrations.selfId
      · exact hk (mem_affectedIssis.mpr (.inl ⟨sub, hs, hid.symm⟩))
      · rw [← hid, hnone] at ha
        cases ha

theorem openSession {id : ClientId} {client : Client} {neighbour : Option UInt64} {console : Bool} (h : Settled s)
    (hw : WellRouted s) (hnew : id ∉ s.clients) : Settled (BrewServer.openSession s id client neighbour console).1 := by
  have hlink : ∀ l : ClientId, id ≠ l →
      (BrewServer.openSession s id client neighbour console).1.fed.links[l]? = s.fed.links[l]? := by
    intro l hl
    rw [openSession_links, if_neg hl]
  have hclock : (BrewServer.openSession s id client neighbour console).1.fed.clock = s.fed.clock := by
    rw [openSession_fed]
    cases neighbour <;> rfl
  refine h.advance (.of_offers (by rw [hclock]; exact UInt64.le_refl _) fun k l a ha => ?_) fun _ hsel k => ?_
  · rw [openSession_offer] at ha
    exact ha
  · refine (hsel k).of_offers (by rw [openSession_subscribers]) (fun l => openSession_offer) openSession_selfId
      (fun sub hs => hlink _ fun hid => ?_) fun l a ha => hlink _ fun hid => ?_
    · have hsession := (hw.entry k sub hs).session
      rw [← hid, session_of_not_mem hnew] at hsession
      cases hsession
    · obtain ⟨n, hn, -⟩ := hw.offer k l a ha
      have hsession := (hw.link l n hn).1
      rw [← hid, session_of_not_mem hnew] at hsession
      cases hsession

theorem packetStep {env : Env} {source : ClientId} {raw : Bytes} {sends : Sends} (h : Settled s) (hw : WellRouted s)
    (hstep : PacketStep Joining s env source raw s' sends) : Settled s' := by
  have hbefore : ∀ {t : Inner}, Passive s t [] → Settled t ∧ WellRouted t ∧ t.fed.links = s.fed.links :=
    fun hp => ⟨h.table hp.routes.toSameTable, hw.aside hp.aside, hp.routes.links⟩
  cases hstep with
  | aside hj => exact h.table hj.table
  | subscriber before parsed =>
    obtain ⟨ht, htw, -⟩ := hbefore before
    exact ht.handleSubscriber htw env.nowMs _
  | route before link parsed fed =>
    obtain ⟨ht, htw, htl⟩ := hbefore before
    rw [← htl] at link
    exact ht.receiveRoute htw link (pathFrom_of_parse parsed)
  | withdraw before link parsed fed =>
    obtain ⟨ht, htw, -⟩ := hbefore before
    exact ht.receiveWithdraw htw

theorem eventStep {a : AppState} {ev : Event} {sends : Sends} (h : Settled a.inner) (hw : WellRouted a.inner)
    (hok : ev.Allowed a) (hstep : EventStep Joining a.inner ev s' sends) : Settled s' := by
  cases hstep with
  | aside hj => exact h.table hj.table
  | connect id client neighbour console => exact h.openSession hw hok.1
  | disconnect id => exact (h.dropRegistrations hw id).table (passive_cleanupClient a.inner id).routes.toSameTable
  | packet hp => exact h.packetStep hw hp

end Settled

theorem settled_start (selfId : UInt64) : Settled (AppState.start selfId).inner := by
  refine ⟨fun issi link a ho => ?_, fun _ issi => ?_⟩
  · obtain ⟨offers, hoffers, -⟩ := Option.bind_eq_some_iff.mp ho
    change (∅ : FinMap UInt32 (FinMap ClientId Advert))[issi]? = some offers at hoffers
    rw [Std.ExtTreeMap.getElem?_empty] at hoffers
    cases hoffers
  · have hnone : (AppState.start selfId).inner.subscribers[issi]? = none := Std.ExtTreeMap.getElem?_empty
    unfold Selected
    cases hc : chosen (AppState.start selfId).inner issi with
    | none => exact hnone
    | some n =>
      rcases chosen_cases hc with ⟨hs, -⟩ | ⟨link, a, ho, -⟩
      · rw [hnone] at hs
        cases hs
      · obtain ⟨offers, hoffers, -⟩ := Option.bind_eq_some_iff.mp ho
        change (∅ : FinMap UInt32 (FinMap ClientId Advert))[issi]? = some offers at hoffers
        rw [Std.ExtTreeMap.getElem?_empty] at hoffers
        cases hoffers

theorem settled_of_reach {cfg : Config} {selfId : UInt64} {a : AppState}
    (h : Reach (AppState.start selfId) (fun a ev => ev.Allowed a) (AppState.next cfg) a) : Settled a.inner := by
  refine h.invariant_of (P := Sound selfId) (Q := fun a => Settled a.inner) (fun _ h => sound_of_reach h)
    (settled_start selfId) fun a ev hs hq hok => ?_
  obtain ⟨mid, sends, more, hran⟩ := ran cfg hs.bridged hok
  exact (hq.eventStep hs.routed hok hran.event).table hran.aside.table

/-- As long as the registration clock has not run out, the entry of every ISSI is
what `select` gives, and selecting it anew changes nothing. -/
theorem effective_of_reach {cfg : Config} {selfId : UInt64} {a : AppState}
    (h : Reach (AppState.start selfId) (fun a ev => ev.Allowed a) (AppState.next cfg) a)
    (hclock : a.inner.fed.clock ≠ u64Max) (issi : UInt32) :
    a.inner.subscribers[issi]? = chosen a.inner issi ∧ reroute a.inner issi = (a.inner, false) := by
  have hsel : Selected a.inner issi := (settled_of_reach h).selected hclock issi
  exact ⟨hsel, reroute_of_selected hsel⟩

/-- A server that learnt a route and then registers the ISSI itself. -/
theorem effective_registered :
    let a := (((AppState.start 9).next {} (.connect 1 (.accepted .peer) (some 5) false)).next {}
      (.packet (.plain 5) 1 (buildRoute 7 1000 [5] [91]))).next {} (.connect 2 (.accepted .basestation) none false)
    let b := a.next {} (.packet (.plain 6) 2 (buildSubscriberMessage subRegister 7 []))
    b.inner.subscribers[(7 : UInt32)]? = chosen b.inner 7 ∧ reroute b.inner 7 = (b.inner, false) :=
  @effective_of_reach {} 9 _
    (.step (.step (.step (.step .init (by decide +kernel)) (by decide +kernel)) (by decide +kernel))
      (by decide +kernel)) (by decide +kernel) 7

end BrewServer
