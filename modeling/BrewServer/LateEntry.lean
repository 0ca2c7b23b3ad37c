import BrewServer.EffectiveTable
import BrewServer.GroupIndex
import BrewServer.Headers

/-!
# Late entry

Every member of a group takes part in the group's running calls: a call is set up
with all members, and a connection that comes to a group later is brought into
the calls it does not take part in, each with one header.
-/

namespace BrewServer

open Protocol Fedroute Router Sip

/-- Every member of a group, the peer links apart, takes part in its calls. -/
def Covered (s : Inner) : Prop :=
  ∀ (id : Uuid) (r : Roster), s.roster id = some r → r.kind = .group →
    ∀ c ∈ s.members r.destination, s.isPeer c = false → r.Has c

/-- Nobody but the peer links and `who` came to a group. -/
def NoNewcomers (who : Option ClientId) (s s' : Inner) : Prop :=
  ∀ (g : UInt32) (c : ClientId), c ∈ s'.members g → s'.isPeer c = false →
    s.isPeer c = false ∧ (c ∈ s.members g ∨ some c = who)

section Members

variable {s s' : Inner} {issi k : UInt32}

theorem mem_members (h : GroupIndexed s) {g : UInt32} {c : ClientId} :
    c ∈ s.members g ↔ ∃ (issi : UInt32) (sub : Subscriber), s.subscribers[issi]? = some sub ∧ sub.clientId = c ∧
      g ∈ sub.groups := h.indexes g c

theorem isPeer_of_session {c : ClientId} (h : s.session c = some .peer) : s.isPeer c = true := by
  obtain ⟨client, hc, hmode⟩ := session_peer h
  rw [Inner.isPeer, hc, Option.any_some, hmode]
  rfl

theorem isPeer_congr {c : ClientId} (h : (s'.clients[c]?).map Client.kind = (s.clients[c]?).map Client.kind) :
    s'.isPeer c = s.isPeer c := by
  unfold Inner.isPeer
  cases hc : s.clients[c]? with
  | none =>
    rw [hc, Option.map_none, Option.map_eq_none_iff] at h
    rw [h]
  | some client =>
    rw [hc, Option.map_some, Option.map_eq_some_iff] at h
    obtain ⟨client', hc', hkind⟩ := h
    have hmode : client'.mode = client.mode := congrArg Prod.fst hkind
    rw [hc', Option.any_some, Option.any_some, hmode]

theorem Passive.isPeer {sends : Sends} (h : Passive s s' sends) (c : ClientId) : s'.isPeer c = s.isPeer c :=
  isPeer_congr (h.routes.kinds c)

/-- Members are connected. -/
theorem mem_clients_of_member (hw : WellRouted s) (hi : GroupIndexed s) {g : UInt32} {c : ClientId}
    (h : c ∈ s.members g) : c ∈ s.clients := by
  obtain ⟨issi, sub, hsub, rfl, -⟩ := (mem_members hi).mp h
  by_contra hno
  have hsession := (hw.entry issi sub hsub).session
  rw [session_of_not_mem hno] at hsession
  cases hsession

theorem link_isPeer (hw : WellRouted s) {link : ClientId} (h : link ∈ s.fed.links) : s.isPeer link = true := by
  obtain ⟨n, hn⟩ := FinMap.mem_iff.mp h
  exact isPeer_of_session (hw.link link n hn).1

/-- An ISSI that is selected anew keeps its entry or goes to a peer link. -/
theorem entry_of_reroute (hw : WellRouted s) {sub : Subscriber} (h : (reroute s issi).1.subscribers[k]? = some sub) :
    s.subscribers[k]? = some sub ∨ s.isPeer sub.clientId = true := by
  rw [reroute_subscribers] at h
  split at h
  · next hk =>
    subst hk
    rw [rerouted_eq_chosen hw] at h
    rcases chosen_cases h with ⟨hsub, -⟩ | ⟨link, a, ho, rfl⟩
    · exact .inl hsub
    · obtain ⟨n, hn, -⟩ := hw.offer issi link a ho
      exact .inr (isPeer_of_session (hw.link link n hn).1)
  · exact .inl h

theorem entry_of_foldl_reselect {previous : List (UInt32 × Option Subscriber)} {r : Inner × Sends}
    (hw : WellRouted r.1) {sub : Subscriber} (h : (previous.foldl reselect r).1.subscribers[k]? = some sub) :
    r.1.subscribers[k]? = some sub ∨ r.1.isPeer sub.clientId = true := by
  induction previous generalizing r with
  | nil => exact .inl h
  | cons e previous ih =>
    have hpeer : (reselect r e).1.isPeer sub.clientId = r.1.isPeer sub.clientId :=
      (@registers_reroute r.1 e.1).isPeer sub.clientId
    rcases ih (r := reselect r e) (hw.reroute e.1) h with h' | h'
    · exact entry_of_reroute hw h'
    · exact .inr (hpeer ▸ h')

namespace NoNewcomers

variable {who : Option ClientId}

theorem of_same (hg : s'.groupClients = s.groupClients) (hp : ∀ c ∈ s.clients, s'.isPeer c = s.isPeer c)
    (hw : WellRouted s) (hi : GroupIndexed s) : NoNewcomers who s s' := by
  intro g c hc hpeer
  have hmem : c ∈ s.members g := by
    rw [Inner.members, hg] at hc
    exact hc
  exact ⟨(hp c (mem_clients_of_member hw hi hmem)).symm.trans hpeer, .inl hmem⟩

theorem passive {sends : Sends} (h : Passive s s' sends) (hw : WellRouted s) (hi : GroupIndexed s) :
    NoNewcomers who s s' :=
  .of_same h.routes.groupClients (fun c _ => h.isPeer c) hw hi

/-- Every entry was there before, or is the newcomer's or a peer link's. -/
theorem of_entries (hi : GroupIndexed s) (hi' : GroupIndexed s')
    (hp : ∀ c ∈ s'.clients, s'.isPeer c = s.isPeer c) (hw : WellRouted s')
    (he : ∀ (k : UInt32) (sub : Subscriber), s'.subscribers[k]? = some sub →
      s.subscribers[k]? = some sub ∨ some sub.clientId = who ∨ s.isPeer sub.clientId = true) :
    NoNewcomers who s s' := by
  intro g c hc hpeer
  have hbefore := (hp c (mem_clients_of_member hw hi' hc)).symm.trans hpeer
  obtain ⟨k, sub, hsub, rfl, hg⟩ := (mem_members hi').mp hc
  refine ⟨hbefore, ?_⟩
  rcases he k sub hsub with hold | hwho | hlink
  · exact .inl ((mem_members hi).mpr ⟨k, sub, hold, rfl, hg⟩)
  · exact .inr hwho
  · rw [hlink] at hbefore
    cases hbefore

theorem trans {s'' : Inner} (h : NoNewcomers who s s') (h' : NoNewcomers none s' s'') : NoNewcomers who s s'' := by
  intro g c hc hpeer
  obtain ⟨hpeer', hmem⟩ := h' g c hc hpeer
  rcases hmem with hmem | hno
  · exact h g c hmem hpeer'
  · cases hno

end NoNewcomers

end Members

section Newcomers

variable {s : Inner} {source : ClientId} {id : ClientId}

theorem noNewcomers_reroute {s t : Inner} {issi : UInt32} (hw : WellRouted t) (hi : GroupIndexed s) (hit : GroupIndexed t)
    (hr : Registers s t) (hs : t.subscribers = s.subscribers) : NoNewcomers none s (reroute t issi).1 := by
  have hreg : Registers s (reroute t issi).1 := hr.trans registers_reroute
  refine .of_entries hi (hit.reroute issi) (fun c _ => hreg.isPeer c) (hw.reroute issi) fun k sub hsub => ?_
  rcases entry_of_reroute hw hsub with hold | hpeer
  · exact .inl (hs ▸ hold)
  · exact .inr (.inr ((hr.isPeer sub.clientId).symm.trans hpeer))

/-- A closing connection brings nobody into a group. -/
theorem noNewcomers_cleanupClient (hw : WellRouted s) (hi : GroupIndexed s) :
    NoNewcomers none s (cleanupClient s id).inner := by
  have hclients : ∀ t : Inner, Registers (detach s id) t → t.clients = s.clients.erase id := fun t h => h.clients
  have hpeer : ∀ (t : Inner), t.clients = s.clients.erase id → ∀ c : ClientId, id ≠ c → t.isPeer c = s.isPeer c := by
    intro t ht c hc
    refine isPeer_congr ?_
    rw [ht, FinMap.getElem?_erase, if_neg hc]
  refine .of_entries hi (hi.cleanupClient id) (fun c hc => ?_) (hw.cleanupClient id) fun k sub hsub => ?_
  · rw [clients_cleanupClient] at hc
    exact hpeer _ (clients_cleanupClient s id) c (FinMap.mem_erase.mp hc).1
  · rw [(passive_cleanupClient s id).routes.subscribers, dropRegistrations_eq] at hsub
    rcases entry_of_foldl_reselect (r := (unaffiliated s id, [])) (hw.unaffiliated id) hsub with hold | hlink
    · rw [unaffiliated_subscribers, Option.filter_eq_some_iff] at hold
      exact .inl hold.1
    · refine .inr (.inr ?_)
      have herased : (unaffiliated s id).clients = s.clients.erase id := hclients _ registers_unaffiliated
      by_cases hc : id = sub.clientId
      · change (unaffiliated s id).isPeer sub.clientId = true at hlink
        rw [Inner.isPeer, herased, FinMap.getElem?_erase, if_pos hc] at hlink
        cases hlink
      · exact (hpeer _ herased _ hc).symm.trans hlink

/-- The entry a SUB message leaves is its sender's, unless the ISSI went. -/
theorem entry_of_applyEntry {ticked : Inner} {new : Option Subscriber} {issi k : UInt32} {sub : Subscriber}
    (hw : WellRouted ticked) (h : (applyEntry ticked issi new).subscribers[k]? = some sub) :
    ticked.subscribers[k]? = some sub ∨ (issi = k ∧ new = some sub) ∨ ticked.isPeer sub.clientId = true := by
  cases new with
  | none =>
    rw [applyEntry_none] at h
    have hcleared : WellRouted (setEffective ticked issi none) := hw.setEffective fun _ hn => nomatch hn
    rcases entry_of_reroute hcleared h with hold | hpeer
    · rw [setEffective_subscribers] at hold
      split at hold
      · cases hold
      · exact .inl hold
    · exact .inr (.inr ((registers_setEffective.isPeer sub.clientId).symm.trans hpeer))
  | some n =>
    rw [applyEntry_some, setEffective_subscribers] at h
    split at h
    · next hk => exact .inr (.inl ⟨hk, h⟩)
    · exact .inl h

theorem noNewcomers_handleSubscriber {nowMs : UInt64} {msg : SubscriberMessage} (hw : WellRouted s)
    (hi : GroupIndexed s) (hsession : (s.session source).isSome = true) :
    NoNewcomers (some source) s (handleSubscriber s nowMs source msg).1 := by
  have hw' := hw.handleSubscriber nowMs msg hsession
  have hi' := hi.handleSubscriber nowMs source msg
  rcases handleSubscriber_joined s nowMs source msg with heq | ⟨ticked, new, hlink, hentry, heq⟩
  · rw [heq]
    exact .of_same rfl (fun _ _ => rfl) hw hi
  · rw [heq] at hw' hi' ⊢
    have hsame := (lateEntry_same (applyEntry ticked msg.issi new) source
      (joinedGroups (applyEntry ticked msg.issi new) source msg)).1
    have hreg : Registers s (applyEntry ticked msg.issi new) := hentry.registers.trans registers_applyEntry
    refine .of_entries hi hi' (fun c _ => ?_) hw' fun k sub hsub => ?_
    · exact (isPeer_congr (hsame.kinds c)).trans (hreg.isPeer c)
    · rw [hsame.subscribers] at hsub
      rcases entry_of_applyEntry (hw.ticked hentry) hsub with hold | ⟨-, hnew⟩ | hpeer
      · exact .inl (hentry.subscribers ▸ hold)
      · subst hnew
        exact .inr (.inl (congrArg some hentry.owner))
      · exact .inr (.inr ((hentry.registers.isPeer sub.clientId).symm.trans hpeer))

/-- Whoever comes to a group by a SUB message joins it there and then. -/
theorem joined_of_newcomer {nowMs : UInt64} {msg : SubscriberMessage} {ticked : Inner} {new : Option Subscriber} {g : UInt32}
    (hw : WellRouted s) (hi : GroupIndexed s) (hpeer : s.isPeer source = false)
    (hentry : EntryChange s nowMs source msg ticked new)
    (hmem : source ∈ (applyEntry ticked msg.issi new).members g) :
    source ∈ s.members g ∨ g ∈ joinedGroups (applyEntry ticked msg.issi new) source msg := by
  have hticked : GroupIndexed ticked := hi.congr hentry.subscribers hentry.groupClients
  obtain ⟨k, sub, hsub, hown, hg⟩ := (mem_members (hticked.applyEntry msg.issi new)).mp hmem
  have hbefore : s.subscribers[k]? = some sub → source ∈ s.members g := fun hs =>
    (mem_members hi).mpr ⟨k, sub, hs, hown, hg⟩
  rcases entry_of_applyEntry (hw.ticked hentry) hsub with hold | ⟨hk, hnew⟩ | hlink
  · exact .inl (hbefore (hentry.subscribers ▸ hold))
  · subst hk hnew
    have hjoined : msg.msgType = subRegister ∨ msg.msgType = subReregister ∨ msg.msgType = subAffiliate →
        g ∈ joinedGroups (applyEntry ticked msg.issi (some sub)) source msg := by
      intro ht
      rw [joinedGroups, if_pos ht, hsub, Option.filter_some, if_pos (decide_eq_true hown)]
      exact hg
    cases hentry with
    | register mode asked => exact .inr (hjoined (asked.imp_right .inl))
    | appear mode asked absent => exact .inr (hjoined (.inr (.inr asked)))
    | affiliate o asked held own => exact .inr (hjoined (.inr (.inr asked)))
    | deaffiliate o asked held own =>
      refine .inl ((mem_members hi).mpr ⟨msg.issi, o, held, own, ?_⟩)
      exact (FinSet.mem_foldl_erase.mp hg).1
  · rw [hown, hentry.registers.isPeer, hpeer] at hlink
    cases hlink

/-- What is joined by a SUB message, the connection is a member of. -/
theorem member_of_joined {msg : SubscriberMessage} {g : UInt32} (hi : GroupIndexed s)
    (h : g ∈ joinedGroups s source msg) : source ∈ s.members g := by
  unfold joinedGroups at h
  split at h
  · cases hsub : (s.subscribers[msg.issi]?).filter (·.clientId = source) with
    | none =>
      rw [hsub] at h
      exact absurd h Std.ExtTreeSet.not_mem_empty
    | some sub =>
      obtain ⟨hsome, hown⟩ := Option.filter_eq_some_iff.mp hsub
      rw [hsub] at h
      exact (mem_members hi).mpr ⟨msg.issi, sub, hsome, of_decide_eq_true hown, h⟩
  · exact absurd h Std.ExtTreeSet.not_mem_empty

end Newcomers

/-- Group calls keep the connections that take part, other than peer links and
those that close. -/
def Retains (s s' : Inner) : Prop :=
  ∀ (id : Uuid) (r' : Roster), s'.roster id = some r' → r'.kind = .group →
    ∃ r : Roster, s.roster id = some r ∧ r.kind = .group ∧ r.destination = r'.destination ∧
      ∀ c : ClientId, r.Has c → r'.Has c ∨ s.isPeer c = true ∨ c ∉ s'.clients

namespace Retains

variable {s s' : Inner}

theorem of_same (h : ∀ id : Uuid, s'.roster id = s.roster id) : Retains s s' :=
  fun id r' hr hk => ⟨r', h id ▸ hr, hk, rfl, fun _ hc => .inl hc⟩

theorem of_erase {id : Uuid} (h : ∀ k : Uuid, s'.roster k = if id = k then none else s.roster k) : Retains s s' := by
  intro k r' hr hk
  rw [h] at hr
  split at hr
  · cases hr
  · exact ⟨r', hr, hk, rfl, fun _ hc => .inl hc⟩

/-- The calls only take connections on. -/
theorem of_grow {f : Uuid → Roster → Roster} (h : ∀ k : Uuid, s'.roster k = (s.roster k).map (f k))
    (hf : ∀ k r, (f k r).kind = r.kind ∧ (f k r).destination = r.destination ∧ ∀ c, r.Has c → (f k r).Has c) :
    Retains s s' := by
  intro k r' hr hk
  rw [h] at hr
  obtain ⟨r, hlive, rfl⟩ := Option.map_eq_some_iff.mp hr
  obtain ⟨hkind, hdest, hhas⟩ := hf k r
  exact ⟨r, hlive, hkind.symm.trans hk, hdest.symm, fun c hc => .inl (hhas c hc)⟩

theorem setUp {env : Env} {source : ClientId} {id : Uuid} {call : ActiveCall} (h : SetUp env s s' source id call) :
    Retains s s' := by
  intro k r' hr hk
  rw [roster_setUp h] at hr
  split at hr
  · cases hr
    rw [ActiveCall.roster, h.kind] at hk
    cases hk
  · exact ⟨r', hr, hk, rfl, fun _ hc => .inl hc⟩

theorem prune {source : ClientId} {id : Uuid} {src : UInt32} (hpeer : s.isPeer source = true) :
    Retains s (receivePrune s source id src) := by
  intro k r' hr hk
  rcases @roster_receivePrune s source id src k with heq | ⟨-, heq⟩
  · exact ⟨r', heq ▸ hr, hk, rfl, fun _ hc => .inl hc⟩
  · rw [heq] at hr
    obtain ⟨r, hlive, rfl⟩ := Option.map_eq_some_iff.mp hr
    refine ⟨r, hlive, hk, rfl, fun c hc => ?_⟩
    rcases hc with hc | hc
    · exact .inl (.inl hc)
    · by_cases hs : source = c
      · exact .inr (.inl (hs ▸ hpeer))
      · exact .inl (.inr (FinSet.mem_erase.mpr ⟨hs, hc⟩))

theorem cleanup {id : ClientId} : Retains s (cleanupClient s id).inner := by
  intro k r' hr hk
  rw [roster_cleanupClient] at hr
  obtain ⟨r, hlive, hdepart⟩ := Option.bind_eq_some_iff.mp hr
  unfold Roster.depart at hdepart
  split at hdepart
  · split at hdepart
    · next hlisten =>
      cases hdepart
      refine ⟨r, hlive, hk, rfl, fun c hc => ?_⟩
      rcases hc with hc | hc
      · exact .inl (.inl hc)
      · by_cases hid : id = c
        · refine .inr (.inr fun hm => ?_)
          rw [clients_cleanupClient] at hm
          exact (FinMap.mem_erase.mp hm).1 hid
        · exact .inl (.inr (FinSet.mem_erase.mpr ⟨hid, hc⟩))
    · cases hdepart
  · cases hdepart
    exact ⟨r', hlive, hk, rfl, fun _ hc => .inl hc⟩

theorem alarm {issi : UInt32} : Retains s (emergencyRaised s issi).1 := by
  intro k r' hr hk
  rcases @roster_emergencyRaised s issi k with ⟨hnone, -⟩ | ⟨r, brought, hr', heq⟩
  · rw [hnone] at hr
    cases hr
  · rw [heq] at hr
    cases hr
    exact ⟨r, hr', hk, rfl, fun c hc => .inl (hc.imp_right fun h => Std.ExtTreeSet.mem_union_iff.mpr (.inl h))⟩

end Retains

theorem Covered.retains {s s' : Inner} (h : Covered s) (hr : Retains s s') (hn : NoNewcomers none s s')
    (hm : ∀ (g : UInt32) (c : ClientId), c ∈ s'.members g → c ∈ s'.clients) : Covered s' := by
  intro id r' hr' hk c hc hpeer
  obtain ⟨r, hlive, hkind, hdest, hkeep⟩ := hr id r' hr' hk
  obtain ⟨hbefore, hmem⟩ := hn r'.destination c hc hpeer
  rw [← hdest] at hmem
  rcases hmem with hmem | hno
  · rcases hkeep c (h id r hlive hkind c hmem hbefore) with hhas | hlink | hgone
    · exact hhas
    · rw [hbefore] at hlink
      cases hlink
    · exact absurd (hm r'.destination c hc) hgone
  · cases hno

namespace Retains

/-- What came before left the calls alone. -/
theorem after {s t s' : Inner} {sends : Sends} (h : Retains t s') (hp : Passive s t sends) (hoff : OffCall s t sends) :
    Retains s s' := by
  intro id r' hr hk
  obtain ⟨r, hlive, hkind, hdest, hkeep⟩ := h id r' hr hk
  refine ⟨r, (hoff.rosters id).symm.trans hlive, hkind, hdest, fun c hc => ?_⟩
  rw [← hp.isPeer c]
  exact hkeep c hc

end Retains

section Steps

variable {cfg : Config} {env : Env} {s s' : Inner} {source : ClientId} {raw : Bytes}

/-- Whether a transmission goes to `c`, if it is connected and not the sender. -/
def Reached (cfg : Config) (s : Inner) (source : ClientId) (id : Uuid) (gt : GroupTransmission) (emergency : Bool)
    (c : ClientId) : Prop :=
  c ∈ s.members gt.destination ∨ cfg.routeWithoutAffiliations = true ∨
    (cfg.fallbackBroadcastWhenNoAffiliations = true ∧ (s.members gt.destination).isEmpty = true) ∨
    (s.isPeer c = true ∧ (s.calls[id]?).any (fun existing =>
      existing.owner = source ∧ existing.sourceIssi = gt.source ∧ c ∈ existing.peers) = true) ∨
    (emergency = true ∧ (c ∈ s.consoles ∨ s.isPeer c = true))

instance (cfg : Config) (s : Inner) (source : ClientId) (id : Uuid) (gt : GroupTransmission) (emergency : Bool)
    (c : ClientId) : Decidable (Reached cfg s source id gt emergency c) := by unfold Reached; infer_instance

/-- A transmission is sent to whoever it reaches. -/
theorem mem_groupTargets {id : Uuid} {gt : GroupTransmission} {emergency : Bool} {c : ClientId}
    (h : Reached cfg s source id gt emergency c) (hclient : c ∈ s.clients) (hne : source ≠ c) :
    c ∈ groupTargets cfg s source id gt emergency := by
  have heveryone : c ∈ FinMap.keySet s.clients := FinMap.mem_keySet.mpr hclient
  have hpeers : s.isPeer c = true → c ∈ peerLinks s := by
    intro hpeer
    obtain ⟨client, hget, hmode⟩ := (Option.any_eq_true _ _).mp hpeer
    refine FinSet.mem_ofList.mpr (List.mem_map.mpr ⟨(c, client), List.mem_filter.mpr ⟨?_, ?_⟩, rfl⟩)
    · exact FinMap.mem_toList.mpr hget
    · exact decide_eq_true (beq_iff_eq.mp hmode)
  have hpushed : ∀ kept : FinSet ClientId, c ∈ kept ∨ (emergency = true ∧ (c ∈ s.consoles ∨ s.isPeer c = true)) →
      c ∈ (if emergency = true then kept ∪ s.consoles ∪ peerLinks s else kept) := by
    intro kept hc
    split
    · rw [Std.ExtTreeSet.mem_union_iff, Std.ExtTreeSet.mem_union_iff]
      rcases hc with hc | ⟨-, hc | hc⟩
      · exact .inl (.inl hc)
      · exact .inl (.inr hc)
      · exact .inr (hpeers hc)
    · next hno =>
      rcases hc with hc | ⟨hemergency, -⟩
      · exact hc
      · exact absurd hemergency hno
  have hreached : c ∈ s.members gt.destination ∨ cfg.routeWithoutAffiliations = true ∨
      (cfg.fallbackBroadcastWhenNoAffiliations = true ∧ (s.members gt.destination).isEmpty = true) →
      ∀ affiliated : FinSet ClientId, affiliated = (if cfg.routeWithoutAffiliations = true then FinMap.keySet s.clients
        else s.members gt.destination) →
      c ∈ (if (affiliated.isEmpty && !cfg.routeWithoutAffiliations &&
        cfg.fallbackBroadcastWhenNoAffiliations) = true then FinMap.keySet s.clients else affiliated) := by
    rintro hc affiliated rfl
    by_cases hall : cfg.routeWithoutAffiliations = true
    · rw [if_pos hall]
      split <;> exact heveryone
    · rw [if_neg hall]
      split
      · exact heveryone
      · next hno =>
        rcases hc with hc | hc | ⟨hfallback, hempty⟩
        · exact hc
        · exact absurd hc hall
        · refine absurd ?_ hno
          rw [hempty, hfallback, Bool.not_eq_true _ |>.mp hall]
          rfl
  unfold groupTargets
  refine FinSet.mem_erase.mpr ⟨hne, hpushed _ ?_⟩
  cases hcall : s.calls[id]? with
  | none =>
    rcases h with h | h | h | ⟨-, h⟩ | h
    · exact .inl (hreached (.inl h) _ rfl)
    · exact .inl (hreached (.inr (.inl h)) _ rfl)
    · exact .inl (hreached (.inr (.inr h)) _ rfl)
    · rw [hcall] at h
      cases h
    · exact .inr h
  | some existing =>
    have hkept : ∀ reached : FinSet ClientId, c ∈ reached →
        c ∈ (if existing.owner = source ∧ existing.sourceIssi = gt.source then
          reached ∪ existing.peers.filter fun p => s.isPeer p else reached) := by
      intro reached hc
      split
      · exact Std.ExtTreeSet.mem_union_iff.mpr (.inl hc)
      · exact hc
    rcases h with h | h | h | ⟨hpeer, h⟩ | h
    · exact .inl (hkept _ (hreached (.inl h) _ rfl))
    · exact .inl (hkept _ (hreached (.inr (.inl h)) _ rfl))
    · exact .inl (hkept _ (hreached (.inr (.inr h)) _ rfl))
    · rw [hcall, Option.any_some, decide_eq_true_eq] at h
      dsimp only
      rw [if_pos ⟨h.1, h.2.1⟩, Std.ExtTreeSet.mem_union_iff]
      exact .inl (.inr (FinSet.mem_filter.mpr ⟨h.2.2, hpeer⟩))
    · exact .inr h

/-- A call that is set up covers its group. -/
theorem Covered.install {id : Uuid} {gt : GroupTransmission} (h : Covered s)
    (hm : ∀ (g : UInt32) (c : ClientId), c ∈ s.members g → c ∈ s.clients) :
    Covered (installGroupTx cfg env (freeFloor cfg s id gt) source id gt raw).1 := by
  have hmembers : ∀ g : UInt32, (freeFloor cfg s id gt).members g = s.members g := fun g => by
    unfold freeFloor
    split <;> rfl
  have hclients : (freeFloor cfg s id gt).clients = s.clients := by
    unfold freeFloor
    split <;> rfl
  intro k r hr hk c hc hpeer
  change c ∈ (freeFloor cfg s id gt).members r.destination at hc
  rw [roster_installGroupTx] at hr
  split at hr
  · cases hr
    by_cases hs : source = c
    · exact .inl hs
    · refine .inr (mem_groupTargets (.inl hc) ?_ hs)
      rw [hclients]
      exact hm gt.destination c (hmembers gt.destination ▸ hc)
  · rw [roster_freeFloor] at hr
    split at hr
    · cases hr
    · refine h k r hr hk c (hmembers r.destination ▸ hc) ?_
      rw [← hpeer]
      unfold Inner.isPeer
      exact congrArg (fun m : FinMap ClientId Client => (m[c]?).any (·.mode == .peer)) hclients.symm

theorem noNewcomers_packet (hw : WellRouted s) (hi : GroupIndexed s) {sends : Sends} (hsub : asSubscriber raw = none)
    (hstep : PacketStep Passive s env source raw s' sends) : NoNewcomers none s s' := by
  have hbefore : ∀ {t : Inner}, Passive s t [] → NoNewcomers none s t ∧ WellRouted t ∧ GroupIndexed t :=
    fun hp => ⟨.passive hp hw hi, hw.aside hp.aside, hi.sameRoutes hp.routes⟩
  cases hstep with
  | aside hp => exact .passive hp hw hi
  | subscriber before parsed =>
    rw [asSubscriber_iff.mpr ⟨_, parsed⟩] at hsub
    cases hsub
  | route before link parsed fed =>
    obtain ⟨hn, ht, hti⟩ := hbefore before
    rw [receiveRoute_eq.1]
    rw [← before.routes.links] at link
    refine hn.trans (noNewcomers_reroute (ht.takeOffer link (pathFrom_of_parse parsed)) hti ?_ registers_takeOffer
      takeOffer_subscribers)
    exact hti.congr takeOffer_subscribers takeOffer_groupClients
  | @withdraw t nbrId issi before link parsed fed =>
    obtain ⟨hn, ht, hti⟩ := hbefore before
    refine hn.trans ?_
    have hwithdrawn : GroupIndexed (withdrawOffer t issi source).1 :=
      hti.congr withdrawOffer_subscribers withdrawOffer_groupClients
    rw [receiveWithdraw_eq]
    split
    · rw [(settleRoute_eq (by rw [withdrawOffer_subscribers])).1]
      exact noNewcomers_reroute ht.withdrawOffer hti hwithdrawn registers_withdrawOffer withdrawOffer_subscribers
    · refine .of_same withdrawOffer_groupClients (fun c _ => registers_withdrawOffer.isPeer c) ht hti

/-- A packet that is no SUB message keeps every group covered. -/
theorem Covered.packet {sends : Sends} (h : Covered s) (hw : WellRouted s) (hi : GroupIndexed s)
    (hstep : PacketCalls cfg env s source raw s' sends) (hn : NoNewcomers none s s')
    (hm' : ∀ (g : UInt32) (c : ClientId), c ∈ s'.members g → c ∈ s'.clients) : Covered s' := by
  cases hstep with
  | off hoff => exact h.retains (.of_same hoff.rosters) hn hm'
  | prune before off fed asked =>
    obtain ⟨n, hn', -⟩ := asked
    have hpeer := (before.isPeer source).trans (link_isPeer hw (FinMap.mem_of_getElem? hn'))
    exact h.retains ((Retains.prune hpeer).after before off) hn hm'
  | speech before off live may said =>
    exact h.retains ((Retains.of_same (roster_touch live)).after before off) hn hm'
  | @control t _ _ cc before off arrives change =>
    cases change with
    | off hoff => exact h.retains ((Retains.of_same hoff.rosters).after before off) hn hm'
    | close live party said => exact h.retains ((Retains.of_erase roster_removeCall).after before off) hn hm'
    | setUp state request accepted opened reached routes silent =>
      exact h.retains ((Retains.setUp opened).after before off) hn hm'
    | announce state payload accepted said =>
      have ht : Covered t := h.retains (.of_same off.rosters) (.passive before hw hi) fun g c hc =>
        mem_clients_of_member (hw.aside before.aside) (hi.sameRoutes before.routes) hc
      exact ht.install fun g c hc => mem_clients_of_member (hw.aside before.aside) (hi.sameRoutes before.routes) hc

end Steps

section Joining

variable {s : Inner} {source : ClientId} {client : ClientId} {groups : FinSet UInt32}

namespace Roster

variable {r : Roster}

theorem enter_kind : (r.enter client groups).kind = r.kind := by
  unfold enter
  split <;> rfl

theorem enter_destination : (r.enter client groups).destination = r.destination := by
  unfold enter
  split <;> rfl

theorem Has.enter {c : ClientId} (h : r.Has c) : (r.enter client groups).Has c := by
  unfold Roster.enter
  split
  · exact h.imp_right fun hm => FinSet.mem_insert.mpr (.inr hm)
  · exact h

theorem enter_has (hk : r.kind = .group) (hg : r.destination ∈ groups) : (r.enter client groups).Has client := by
  unfold enter
  split
  · exact .inr (FinSet.mem_insert.mpr (.inl rfl))
  · next hno =>
    by_contra hhas
    exact hno ⟨hk, hg, hhas⟩

end Roster

theorem lateEntry_of_peer (h : s.isPeer client = true) : lateEntry s client groups = (s, []) := by
  unfold lateEntry
  rw [h, Bool.or_true, if_pos rfl]

/-- A SUB message keeps every group covered. -/
theorem Covered.subscriber {nowMs : UInt64} {msg : SubscriberMessage} (h : Covered s) (hw : WellRouted s)
    (hi : GroupIndexed s) (hsession : (s.session source).isSome = true) :
    Covered (handleSubscriber s nowMs source msg).1 := by
  have hn : NoNewcomers (some source) s (handleSubscriber s nowMs source msg).1 :=
    noNewcomers_handleSubscriber hw hi hsession
  have hclient : source ∈ s.clients := by
    by_contra hno
    rw [session_of_not_mem hno] at hsession
    cases hsession
  rcases handleSubscriber_joined s nowMs source msg with heq | ⟨ticked, new, -, hentry, heq⟩
  · rw [heq]
    exact h
  · rw [heq] at hn ⊢
    have hreg : Registers s (applyEntry ticked msg.issi new) := hentry.registers.trans registers_applyEntry
    have hrosters : ∀ k : Uuid, (applyEntry ticked msg.issi new).roster k = s.roster k :=
      Inner.roster_congr hreg.calls
    have hsame := (lateEntry_same (applyEntry ticked msg.issi new) source
      (joinedGroups (applyEntry ticked msg.issi new) source msg)).1
    intro id r hr hk c hc hpeer
    obtain ⟨hbefore, hmem⟩ := hn r.destination c hc hpeer
    cases hp : s.isPeer source with
    | true =>
      rw [lateEntry_of_peer ((hreg.isPeer source).trans hp)] at hr
      rw [hrosters] at hr
      rcases hmem with hmem | hc'
      · exact h id r hr hk c hmem hbefore
      · obtain rfl := Option.some.inj hc'
        rw [hp] at hbefore
        cases hbefore
    | false =>
      rw [roster_lateEntry ((hreg.isPeer source).trans hp) (hreg.clients ▸ hclient), hrosters] at hr
      obtain ⟨r₀, hlive, rfl⟩ := Option.map_eq_some_iff.mp hr
      rw [Roster.enter_kind] at hk
      rw [Roster.enter_destination] at hc hmem
      rcases hmem with hmem | hc'
      · exact (h id r₀ hlive hk c hmem hbefore).enter
      · obtain rfl := Option.some.inj hc'
        have hsettled : c ∈ (applyEntry ticked msg.issi new).members r₀.destination := by
          rw [Inner.members, hsame.groupClients] at hc
          exact hc
        rcases joined_of_newcomer hw hi hp hentry hsettled with hold | hjoined
        · exact (h id r₀ hlive hk c hold hp).enter
        · exact Roster.enter_has hk hjoined

end Joining

section Run

variable {cfg : Config} {a : AppState} {ev : Event}

/-- One event keeps every group covered. -/
theorem covered_next {selfId : UInt64} (hs : Sound selfId a) (hi : GroupIndexed a.inner) (hl : a.legs = ∅)
    (h : Covered a.inner) (hok : ev.Allowed a) (hsip : ev.WithoutSip) : Covered (a.next cfg ev).inner := by
  have hw := hs.routed
  have hw' : WellRouted (a.next cfg ev).inner := (hs.next hok).routed
  have hi' : GroupIndexed (a.next cfg ev).inner := hi.eventStep (ran_withoutSip cfg hl hsip).2
  have hclose : ∀ {s' : Inner}, (a.next cfg ev).inner = s' → Retains a.inner s' → NoNewcomers none a.inner s' →
      Covered (a.next cfg ev).inner := by
    intro s' heq hr hn
    rw [heq] at hw' hi' ⊢
    exact h.retains hr hn fun g c hc => mem_clients_of_member hw' hi' hc
  cases ev with
  | connect id client neighbour console =>
    have hcalls : (openSession a.inner id client neighbour console).1.calls = a.inner.calls ∧
        (openSession a.inner id client neighbour console).1.groupClients = a.inner.groupClients := by
      unfold openSession attachClient
      cases neighbour <;> cases console <;> exact ⟨rfl, rfl⟩
    refine hclose (by rw [AppState.next, run_connect hl]) (.of_same (Inner.roster_congr hcalls.1))
      (.of_same hcalls.2 (fun c hc => isPeer_congr ?_) hw hi)
    rw [clients_openSession, FinMap.getElem?_insert, if_neg]
    exact fun hid => hok.1 (hid ▸ hc)
  | packet env source raw =>
    have hsession := WellRouted.session_of_allowed hok
    have heq : (a.next cfg (.packet env source raw)).inner = (routePacket cfg env a.inner source raw).inner := by
      rw [AppState.next, run_packet hl source raw hsip]
    rw [heq] at hw' hi' ⊢
    cases hsub : asSubscriber raw with
    | some msg =>
      obtain ⟨t, hp, hoff, hroute⟩ :=
        @routePacket_subscribes cfg env a.inner source raw msg hsub
      rw [hroute]
      have ht : Covered t := h.retains (.of_same hoff.rosters) (.passive hp hw hi) fun g c hc =>
        mem_clients_of_member (hw.aside hp.aside) (hi.sameRoutes hp.routes) hc
      refine ht.subscriber (hw.aside hp.aside) (hi.sameRoutes hp.routes) ?_
      rw [hp.aside.sessions]
      exact hsession
    | none =>
      exact h.packet hw hi (packetCalls_routePacket hsip hsub)
        (noNewcomers_packet hw hi hsub (packetStep_passive hsip))
        fun g c hc => mem_clients_of_member hw' hi' hc
  | disconnect id =>
    exact hclose (by rw [AppState.next, run_disconnect hl]) .cleanup (noNewcomers_cleanupClient hw hi)
  | alarm issi =>
    exact hclose (by rw [AppState.next, run_alarm hl]) .alarm (.passive passive_emergencyRaised hw hi)
  | sweep env =>
    obtain ⟨s', sends, hswept, hrun, hp⟩ := run_sweep_of_empty cfg hl env
    refine hclose (by rw [AppState.next, hrun]) (fun id r hr hk => ?_) (.passive hp hw hi)
    exact ⟨r, roster_sweepAll hswept hr, hk, rfl, fun _ hc => .inl hc⟩
  | smsDeliver env id src dest lengthBits data =>
    have haside : Event.Aside (.smsDeliver env id src dest lengthBits data) := trivial
    obtain ⟨s', sends, hrun, hp, hoff⟩ := run_aside cfg hl haside
    exact hclose (by rw [AppState.next, hrun]) (.of_same hoff.rosters) (.passive hp hw hi)
  | advertiseBts nowMs key name lat lon online =>
    have haside : Event.Aside (.advertiseBts nowMs key name lat lon online) := trivial
    obtain ⟨s', sends, hrun, hp, hoff⟩ := run_aside cfg hl haside
    exact hclose (by rw [AppState.next, hrun]) (.of_same hoff.rosters) (.passive hp hw hi)
  | advertiseEmergency nowMs issi dest bts active =>
    have haside : Event.Aside (.advertiseEmergency nowMs issi dest bts active) := trivial
    obtain ⟨s', sends, hrun, hp, hoff⟩ := run_aside cfg hl haside
    exact hclose (by rw [AppState.next, hrun]) (.of_same hoff.rosters) (.passive hp hw hi)
  | sipPrivate env callId issi v id rtpPort => exact hsip.elim
  | sipGroup env callId g v id rtpPort => exact hsip.elim
  | sipEnd callId => exact hsip.elim

/-- Without the bridge, every group stays covered and what is kept of the
transmissions names their calls. -/
theorem covered_of_reach {selfId : UInt64}
    (h : Reach (AppState.start selfId) (fun a ev => ev.Allowed a ∧ ev.WithoutSip) (AppState.next cfg) a) :
    Sound selfId a ∧ GroupIndexed a.inner ∧ a.legs = ∅ ∧ HeadersNamed a.inner ∧ Covered a.inner := by
  have hsound : ∀ a, Reach (AppState.start selfId) (fun a ev => ev.Allowed a ∧ ev.WithoutSip) (AppState.next cfg) a →
      Sound selfId a := fun a h => sound_of_reach (h.mono fun _ _ hok => hok.1)
  refine ⟨hsound a h, ?_⟩
  refine h.invariant_of (Q := fun a => GroupIndexed a.inner ∧ a.legs = ∅ ∧ HeadersNamed a.inner ∧ Covered a.inner)
    hsound ⟨.empty selfId, rfl, fun id raw hraw => ?_, fun id r hr => ?_⟩ fun a ev hs hq hok => ?_
  · rw [AppState.start, Inner.empty, Std.ExtTreeMap.getElem?_empty] at hraw
    cases hraw
  · rw [AppState.start, Inner.empty, Inner.roster, Std.ExtTreeMap.getElem?_empty] at hr
    cases hr
  · obtain ⟨hidx, hl, hnamed, hcovered⟩ := hq
    obtain ⟨hl', hstep⟩ := ran_withoutSip cfg hl hok.2
    exact ⟨hidx.eventStep hstep, hl', (keepsTexts_next cfg hl hok.2).headers hnamed,
      covered_next hs hidx hl hcovered hok.1 hok.2⟩

/-- What a SUB message of a connection does to the calls that run: the
connection enters those of its groups it does not take part in, told of each
once, and nobody else is told of any. -/
structure Entered (s s' : Inner) (sends : Sends) (source : ClientId) : Prop where
  rosters : ∀ (id : Uuid) (r : Roster), s.roster id = some r → r.kind = .group →
    s'.roster id = some (if source ∈ s'.members r.destination ∧ ¬ r.Has source then
      { r with peers := r.peers.insert source } else r)
  headers : ∀ (id : Uuid) (r : Roster), s.roster id = some r → r.kind = .group → ∀ c : ClientId,
    (sends.announced c).count id = if c = source ∧ source ∈ s'.members r.destination ∧ ¬ r.Has source then 1 else 0

theorem entered_handleSubscriber {s : Inner} {nowMs : UInt64} {source : ClientId} {msg : SubscriberMessage}
    (hw : WellRouted s) (hi : GroupIndexed s) (hcovered : Covered s) (hnamed : HeadersNamed s)
    (hpeer : s.isPeer source = false) (hclient : source ∈ s.clients) :
    Entered s (handleSubscriber s nowMs source msg).1 (handleSubscriber s nowMs source msg).2.1 source := by
  rcases handleSubscriber_joined s nowMs source msg with heq | ⟨ticked, new, -, hentry, heq⟩
  · rw [heq]
    have hnone : ∀ (id : Uuid) (r : Roster), s.roster id = some r → r.kind = .group →
        ¬ (source ∈ s.members r.destination ∧ ¬ r.Has source) :=
      fun id r hr hk h => h.2 (hcovered id r hr hk source h.1 hpeer)
    exact ⟨fun id r hr hk => by rw [if_neg (hnone id r hr hk), hr],
      fun id r hr hk c => by rw [if_neg fun h => hnone id r hr hk h.2]; rfl⟩
  · rw [heq]
    have hreg : Registers s (applyEntry ticked msg.issi new) := hentry.registers.trans registers_applyEntry
    have hsame := lateEntry_same (applyEntry ticked msg.issi new) source
      (joinedGroups (applyEntry ticked msg.issi new) source msg)
    have hpeer' : (applyEntry ticked msg.issi new).isPeer source = false := (hreg.isPeer source).trans hpeer
    have hclient' : source ∈ (applyEntry ticked msg.issi new).clients := hreg.clients ▸ hclient
    have hindexed : GroupIndexed (applyEntry ticked msg.issi new) :=
      (hi.congr hentry.subscribers hentry.groupClients).applyEntry msg.issi new
    have hmembers : ∀ g : UInt32, (lateEntry (applyEntry ticked msg.issi new) source
        (joinedGroups (applyEntry ticked msg.issi new) source msg)).1.members g =
          (applyEntry ticked msg.issi new).members g := fun g => by
      rw [Inner.members, hsame.1.groupClients, Inner.members]
    -- a call is entered exactly if it is to a group of the connection that does not reach it
    have hjoins : ∀ (id : Uuid) (r : Roster), s.roster id = some r → r.kind = .group →
        ((r.kind = .group ∧ r.destination ∈ joinedGroups (applyEntry ticked msg.issi new) source msg ∧ ¬ r.Has source) ↔
          (source ∈ (applyEntry ticked msg.issi new).members r.destination ∧ ¬ r.Has source)) := by
      intro id r hr hk
      rw [and_iff_right hk]
      refine and_congr_left fun hhas => ⟨fun hg => ?_, fun hmem => ?_⟩
      · exact member_of_joined hindexed hg
      · rcases joined_of_newcomer hw hi hpeer hentry hmem with hold | hg
        · exact absurd (hcovered id r hr hk source hold hpeer) hhas
        · exact hg
    constructor
    · intro id r hr hk
      rw [roster_lateEntry hpeer' hclient', Inner.roster_congr hreg.calls, hr, Option.map_some, Roster.enter, hmembers]
      exact congrArg some (if_congr (hjoins id r hr hk) rfl rfl)
    · intro id r hr hk c
      rw [hmembers, Sends.announced_append, Sends.announced_of_silent silent_publish, List.nil_append]
      by_cases hc : c = source
      · subst hc
        obtain ⟨call, hlive, hroster⟩ := Inner.roster_eq_some.mp hr
        rw [count_announced_lateEntry ((KeepsTexts.of_registers hreg).headers hnamed) hpeer' hclient'
          (hreg.calls ▸ hlive)]
        refine if_congr ?_ rfl rfl
        rw [joins_iff, hroster, hjoins id r hr hk, and_iff_right rfl]
      · rw [Sends.announced_of_other (fun m hm => (hsame.2.2.2.2 m hm).1) (Ne.symm hc), if_neg fun h => hc h.1]
        rfl

/-- In every run without the bridge, the members of a group other than the peer
links take part in its calls, and a SUB message of such a connection brings it
into those of its groups it did not take part in, with one header each. -/
theorem lateEntry_of_reach {cfg : Config} {selfId : UInt64} {a : AppState}
    (h : Reach (AppState.start selfId) (fun a ev => ev.Allowed a ∧ ev.WithoutSip) (AppState.next cfg) a) :
    (∀ (id : Uuid) (call : ActiveCall), a.inner.calls[id]? = some call → call.kind = .group →
        ∀ c ∈ a.inner.members call.destination, a.inner.isPeer c = false → call.owner = c ∨ c ∈ call.peers) ∧
      ∀ (env : Env) (source : ClientId) (raw : Bytes) (msg : SubscriberMessage), asSubscriber raw = some msg →
        (Event.packet env source raw).Allowed a → a.inner.isPeer source = false →
        Entered a.inner (a.next cfg (.packet env source raw)).inner (a.sent cfg (.packet env source raw)) source := by
  obtain ⟨hs, hi, hl, hnamed, hcovered⟩ := covered_of_reach h
  refine ⟨fun id call hlive hk => hcovered id call.roster (Inner.roster_of_call hlive) hk, ?_⟩
  intro env source raw msg hsub hok hpeer
  obtain ⟨t, hp, hoff, hroute⟩ := @routePacket_subscribes cfg env a.inner source raw msg hsub
  have hrun : a.run cfg (.packet env source raw) =
      ({ inner := (handleSubscriber t env.nowMs source msg).1, legs := ∅ },
        (handleSubscriber t env.nowMs source msg).2.1) := by
    have hrouted : routeEvent cfg a.inner (.packet env source raw) = ofHandled (handleSubscriber t env.nowMs source msg) :=
      hroute
    have hr : (Event.packet env source raw).Routed := trivial
    rw [a.run_routed cfg hr, hrouted, settle_of_empty hl rfl]
    rfl
  have hw : WellRouted t := hs.routed.aside hp.aside
  have hidx : GroupIndexed t := hi.sameRoutes hp.routes
  have hnewcomers : NoNewcomers none a.inner t := .passive hp hs.routed hi
  have ht : Covered t := hcovered.retains (.of_same hoff.rosters) hnewcomers fun g c hc => mem_clients_of_member hw hidx hc
  have hclient : source ∈ t.clients := by
    have hsession := WellRouted.session_of_allowed hok
    rw [← hp.aside.sessions] at hsession
    by_contra hno
    rw [session_of_not_mem hno] at hsession
    cases hsession
  have hentered : Entered t (handleSubscriber t env.nowMs source msg).1 (handleSubscriber t env.nowMs source msg).2.1
      source := entered_handleSubscriber hw hidx ht ((KeepsTexts.of_offCall hoff).headers hnamed)
    ((hp.isPeer source).trans hpeer) hclient
  rw [AppState.next, AppState.sent, hrun]
  exact ⟨fun id r hr hk => hentered.rosters id r ((hoff.rosters id).trans hr) hk,
    fun id r hr hk => hentered.headers id r ((hoff.rosters id).trans hr) hk⟩

/-- A connection that affiliates while a call of the group runs. -/
theorem lateEntry_affiliated :
    let a := (((AppState.start 9).next {} (.connect 1 (.accepted .basestation) none false)).next {}
      (.packet (.plain 5) 1 (buildGroupTx 3 7 91 0))).next {} (.connect 2 (.accepted .basestation) none false)
    let affiliates := Event.packet (.plain 6) 2 (buildSubscriberMessage subAffiliate 8 [91])
    (a.next {} affiliates).inner.roster 3 = some ⟨.group, 1, 91, FinSet.ofList [2]⟩ ∧
      ((a.sent {} affiliates).announced 2).count 3 = 1 := by
  intro a affiliates
  have hrun : Reach (AppState.start 9) (fun a ev => ev.Allowed a ∧ ev.WithoutSip) (AppState.next {}) a :=
    .step (.step (.step .init (by decide +kernel)) (by decide +kernel)) (by decide +kernel)
  have hlive : a.inner.roster 3 = some ⟨.group, 1, 91, ∅⟩ := by decide +kernel
  have h := (lateEntry_of_reach hrun).2 (.plain 6) 2 (buildSubscriberMessage subAffiliate 8 [91])
    ⟨subAffiliate, 8, 0, 0, [91]⟩ (by decide +kernel) (by decide +kernel) (by decide +kernel)
  refine ⟨(h.rosters 3 _ hlive rfl).trans (by decide +kernel), (h.headers 3 _ hlive rfl 2).trans (by decide +kernel)⟩

end Run

end BrewServer
