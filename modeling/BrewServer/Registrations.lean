import BrewServer.Frame

/-!
# What the operations do to the registrations

The route tables are read through three lookups: the effective entry of an ISSI,
the offer a link made for it, and what `select` makes of both. Each operation is
described once by what it does to these.
-/

namespace BrewServer

open Protocol Fedroute Router

/-- The offer `link` made for `issi`. -/
def Inner.offer (s : Inner) (issi : UInt32) (link : ClientId) : Option Advert :=
  (s.fed.ribIn[issi]?).bind (·[link]?)

/-- Only the registrations and the registration clock changed. -/
structure Registers (s s' : Inner) : Prop where
  clients : s'.clients = s.clients
  calls : s'.calls = s.calls
  groupFloor : s'.groupFloor = s.groupFloor
  groupTxRaw : s'.groupTxRaw = s.groupTxRaw
  sdsRoutes : s'.sdsRoutes = s.sdsRoutes
  recentCalls : s'.recentCalls = s.recentCalls
  consoles : s'.consoles = s.consoles
  fed : { s'.fed with ribIn := s.fed.ribIn, clock := s.fed.clock } = s.fed

namespace Registers

theorem refl (s : Inner) : Registers s s := ⟨rfl, rfl, rfl, rfl, rfl, rfl, rfl, rfl⟩

theorem selfId {s s' : Inner} (h : Registers s s') : s'.fed.selfId = s.fed.selfId :=
  (congrArg FedState.selfId h.fed :)

theorem links {s s' : Inner} (h : Registers s s') : s'.fed.links = s.fed.links :=
  (congrArg FedState.links h.fed :)

theorem trans {s s' s'' : Inner} (h : Registers s s') (h' : Registers s' s'') : Registers s s'' := by
  refine ⟨h'.clients.trans h.clients, h'.calls.trans h.calls, h'.groupFloor.trans h.groupFloor,
    h'.groupTxRaw.trans h.groupTxRaw, h'.sdsRoutes.trans h.sdsRoutes, h'.recentCalls.trans h.recentCalls,
    h'.consoles.trans h.consoles, ?_⟩
  rw [← h.fed]
  conv_rhs => rw [← h'.fed]

theorem isPeer {s s' : Inner} (h : Registers s s') (c : ClientId) : s'.isPeer c = s.isPeer c := by
  unfold Inner.isPeer
  rw [h.clients]

end Registers

section Entry

variable {s : Inner} {issi k : UInt32} {new : Option Subscriber}

theorem registers_setEffective : Registers s (setEffective s issi new) :=
  ⟨rfl, rfl, rfl, rfl, rfl, rfl, rfl, rfl⟩

@[simp] theorem setEffective_fed : (setEffective s issi new).fed = s.fed := rfl

theorem setEffective_subscribers :
    (setEffective s issi new).subscribers[k]? = if issi = k then new else s.subscribers[k]? := by
  cases new with
  | none => exact FinMap.getElem?_erase
  | some n => exact FinMap.getElem?_insert

theorem registers_reroute : Registers s (reroute s issi).1 := by
  unfold reroute
  dsimp only
  split
  · exact .refl s
  · exact registers_setEffective

@[simp] theorem reroute_fed : (reroute s issi).1.fed = s.fed := by
  unfold reroute
  dsimp only
  split <;> rfl

/-- The entry `issi` has after its route is selected anew. -/
def rerouted (s : Inner) (issi : UInt32) : Option Subscriber :=
  if same (s.subscribers[issi]?) (chosen s issi) then s.subscribers[issi]? else chosen s issi

theorem reroute_subscribers :
    (reroute s issi).1.subscribers[k]? = if issi = k then rerouted s issi else s.subscribers[k]? := by
  unfold reroute rerouted
  dsimp only
  split
  · split
    · next hk => rw [hk]
    · rfl
  · exact setEffective_subscribers

theorem reroute_snd : (reroute s issi).2 = !same (s.subscribers[issi]?) (chosen s issi) := by
  unfold reroute
  dsimp only
  split
  · next h => rw [h]; rfl
  · next h => rw [Bool.not_eq_true] at h; rw [h]; rfl

end Entry

section Same

theorem same_refl (a : Option Subscriber) : same a a = true := by
  cases a <;> simp [same]

theorem same_some {a b : Subscriber} :
    same (some a) (some b) = true ↔ a.clientId = b.clientId ∧ a.groups = b.groups ∧ a.route = b.route := by
  simp [same]

theorem same_none_left {b : Option Subscriber} : same none b = true ↔ b = none := by
  cases b <;> simp [same]

theorem same_none_right {a : Option Subscriber} : same a none = true ↔ a = none := by
  cases a <;> simp [same]

end Same

section Offers

variable {s : Inner} {issi k : UInt32} {link l : ClientId}

theorem registers_withdrawOffer : Registers s (withdrawOffer s issi link).1 := by
  unfold withdrawOffer
  split
  · exact .refl s
  · exact ⟨rfl, rfl, rfl, rfl, rfl, rfl, rfl, rfl⟩

theorem registers_storeOffer {a : Advert} : Registers s (storeOffer s issi link a) :=
  ⟨rfl, rfl, rfl, rfl, rfl, rfl, rfl, rfl⟩

@[simp] theorem withdrawOffer_subscribers : (withdrawOffer s issi link).1.subscribers = s.subscribers := by
  unfold withdrawOffer
  split <;> rfl

@[simp] theorem withdrawOffer_groupClients : (withdrawOffer s issi link).1.groupClients = s.groupClients := by
  unfold withdrawOffer
  split <;> rfl

@[simp] theorem withdrawOffer_clock : (withdrawOffer s issi link).1.fed.clock = s.fed.clock := by
  unfold withdrawOffer
  split <;> rfl

@[simp] theorem storeOffer_subscribers {a : Advert} : (storeOffer s issi link a).subscribers = s.subscribers := rfl

@[simp] theorem storeOffer_groupClients {a : Advert} : (storeOffer s issi link a).groupClients = s.groupClients := rfl

theorem offer_withdrawOffer :
    (withdrawOffer s issi link).1.offer k l = if issi = k ∧ link = l then none else s.offer k l := by
  unfold withdrawOffer Inner.offer
  split
  · next h =>
    split
    · next hk => rw [← hk.1, h]; rfl
    · rfl
  · next offers h =>
    dsimp only
    by_cases hk : issi = k
    · subst hk
      have hrest : (offers.erase link)[l]? = if issi = issi ∧ link = l then none else (s.fed.ribIn[issi]?).bind (·[l]?) := by
        rw [h, Option.bind_some, FinMap.getElem?_erase]
        simp only [true_and]
      by_cases he : (offers.erase link).isEmpty = true
      · rw [if_pos he, FinMap.getElem?_erase, if_pos rfl, ← hrest, FinMap.isEmpty_iff_forall.mp he l]
        rfl
      · rw [if_neg he, FinMap.getElem?_insert, if_pos rfl, Option.bind_some, hrest]
    · have hno : ¬(issi = k ∧ link = l) := fun hkl => hk hkl.1
      rw [if_neg hno]
      split_ifs
      · rw [FinMap.getElem?_erase, if_neg hk]
      · rw [FinMap.getElem?_insert, if_neg hk]

theorem withdrawOffer_snd : (withdrawOffer s issi link).2 = (s.offer issi link).isSome := by
  unfold withdrawOffer Inner.offer
  split
  · next h => rw [h]; rfl
  · next offers h => rw [h, Option.bind_some, Std.ExtTreeMap.contains_eq_isSome_getElem?]

/-- With no offer of the link, nothing is withdrawn. -/
theorem offer_withdrawOffer_of_none (h : s.offer issi link = none) :
    (withdrawOffer s issi link).1.offer k l = s.offer k l := by
  rw [offer_withdrawOffer]
  split
  · next hk => rw [← hk.1, ← hk.2, h]
  · rfl

theorem offer_storeOffer {a : Advert} :
    (storeOffer s issi link a).offer k l = if issi = k ∧ link = l then some a else s.offer k l := by
  unfold storeOffer Inner.offer FedState.observe
  dsimp only
  rw [FinMap.getElem?_insert]
  by_cases hk : issi = k
  · subst hk
    rw [if_pos rfl, Option.bind_some, FinMap.getElem?_insert]
    simp only [true_and]
    split
    · rfl
    · cases s.fed.ribIn[issi]? with
      | none => exact Std.ExtTreeMap.getElem?_empty
      | some offers => rfl
  · rw [if_neg hk, if_neg fun hkl => hk hkl.1]

end Offers

section Subscriber

variable {s : Inner} {nowMs : UInt64} {source : ClientId} {msg : SubscriberMessage}

/-- The entry a message of `source` leaves, by what the message asks for: the
state with the clock as it then stands, and the entry. -/
inductive EntryChange (s : Inner) (nowMs : UInt64) (source : ClientId) (msg : SubscriberMessage) :
    Inner → Option Subscriber → Prop
  | register (mode : ClientMode) (asked : msg.msgType = subRegister ∨ msg.msgType = subReregister) :
      EntryChange s nowMs source msg { s with fed := (s.fed.tick nowMs).1 }
        (some ⟨source, ((s.subscribers[msg.issi]?).map (·.groups)).getD ∅, mode, ⟨(s.fed.tick nowMs).2, []⟩⟩)
  | appear (mode : ClientMode) (asked : msg.msgType = subAffiliate) (absent : s.subscribers[msg.issi]? = none) :
      EntryChange s nowMs source msg { s with fed := (s.fed.tick nowMs).1 }
        (some ⟨source, msg.groups.foldl (·.insert ·) ∅, mode, ⟨(s.fed.tick nowMs).2, []⟩⟩)
  | affiliate (o : Subscriber) (asked : msg.msgType = subAffiliate) (held : s.subscribers[msg.issi]? = some o)
      (own : o.clientId = source) :
      EntryChange s nowMs source msg s (some { o with groups := msg.groups.foldl (·.insert ·) o.groups })
  | deaffiliate (o : Subscriber) (asked : msg.msgType = subDeaffiliate) (held : s.subscribers[msg.issi]? = some o)
      (own : o.clientId = source) :
      EntryChange s nowMs source msg s (some { o with groups := msg.groups.foldl (·.erase ·) o.groups })
  | deregister (o : Subscriber) (asked : msg.msgType = subDeregister) (held : s.subscribers[msg.issi]? = some o)
      (own : o.clientId = source) : EntryChange s nowMs source msg s none

theorem entryChange {s' : Inner} {new : Option Subscriber} (h : subscriberEntry s nowMs source msg = some (s', new)) :
    EntryChange s nowMs source msg s' new := by
  unfold subscriberEntry at h
  dsimp only at h
  split at h
  · next hreg =>
    cases h
    exact .register _ hreg
  · split at h
    · next hdereg =>
      split at h
      · next o ho =>
        split at h
        · next hown =>
          cases h
          exact .deregister o hdereg ho hown
        · cases h
      · cases h
    · split at h
      · next haff =>
        split at h
        · next o ho =>
          split at h
          · cases h
          · next hown =>
            cases h
            exact .affiliate o haff ho (not_not.mp hown)
        · next ho =>
          cases h
          exact .appear _ haff ho
      · split at h
        · next hdeaff =>
          split at h
          · next o ho =>
            split at h
            · next hown =>
              cases h
              exact .deaffiliate o hdeaff ho hown
            · cases h
          · cases h
        · cases h

/-- Only the clock may have moved. -/
theorem EntryChange.cases_state {s' : Inner} {new : Option Subscriber} (h : EntryChange s nowMs source msg s' new) :
    s' = s ∨ (s' = { s with fed := (s.fed.tick nowMs).1 } ∧
      ∃ n : Subscriber, new = some n ∧ n.route = ⟨(s.fed.tick nowMs).2, []⟩) := by
  cases h with
  | register mode asked => exact .inr ⟨rfl, _, rfl, rfl⟩
  | appear mode asked absent => exact .inr ⟨rfl, _, rfl, rfl⟩
  | affiliate o asked held own => exact .inl rfl
  | deaffiliate o asked held own => exact .inl rfl
  | deregister o asked held own => exact .inl rfl

theorem EntryChange.registers {s' : Inner} {new : Option Subscriber} (h : EntryChange s nowMs source msg s' new) :
    Registers s s' := by
  rcases h.cases_state with rfl | ⟨rfl, -⟩
  · exact .refl s'
  · exact ⟨rfl, rfl, rfl, rfl, rfl, rfl, rfl, rfl⟩

theorem EntryChange.subscribers {s' : Inner} {new : Option Subscriber} (h : EntryChange s nowMs source msg s' new) :
    s'.subscribers = s.subscribers := by
  rcases h.cases_state with rfl | ⟨rfl, -⟩ <;> rfl

theorem EntryChange.ribIn {s' : Inner} {new : Option Subscriber} (h : EntryChange s nowMs source msg s' new) :
    s'.fed.ribIn = s.fed.ribIn := by
  rcases h.cases_state with rfl | ⟨rfl, -⟩ <;> rfl

theorem EntryChange.groupClients {s' : Inner} {new : Option Subscriber}
    (h : EntryChange s nowMs source msg s' new) : s'.groupClients = s.groupClients := by
  rcases h.cases_state with rfl | ⟨rfl, -⟩ <;> rfl

/-- The entry is owned by the connection the message came over. -/
theorem EntryChange.owner {s' : Inner} {n : Subscriber} (h : EntryChange s nowMs source msg s' (some n)) :
    n.clientId = source := by
  cases h with
  | register mode asked => rfl
  | appear mode asked absent => rfl
  | affiliate o asked held own => exact own
  | deaffiliate o asked held own => exact own

theorem applyEntry_some {issi : UInt32} {n : Subscriber} : applyEntry s issi (some n) = setEffective s issi (some n) := rfl

theorem applyEntry_none {issi : UInt32} : applyEntry s issi none = (reroute (setEffective s issi none) issi).1 := rfl

theorem registers_applyEntry {issi : UInt32} {new : Option Subscriber} : Registers s (applyEntry s issi new) := by
  unfold applyEntry
  split
  · exact registers_setEffective.trans registers_reroute
  · exact registers_setEffective

@[simp] theorem applyEntry_fed {issi : UInt32} {new : Option Subscriber} : (applyEntry s issi new).fed = s.fed := by
  unfold applyEntry
  split
  · rw [reroute_fed, setEffective_fed]
  · exact setEffective_fed

theorem applyEntry_subscribers_ne {issi k : UInt32} {new : Option Subscriber} (h : issi ≠ k) :
    (applyEntry s issi new).subscribers[k]? = s.subscribers[k]? := by
  unfold applyEntry
  split
  · rw [reroute_subscribers, if_neg h, setEffective_subscribers, if_neg h]
  · rw [setEffective_subscribers, if_neg h]

/-- Late entry changes calls only, and sends to `client` alone, no peer. -/
theorem lateEntry_same (s : Inner) (client : ClientId) (groups : FinSet UInt32) :
    SameRoutes s (lateEntry s client groups).1 ∧ (lateEntry s client groups).1.clients = s.clients ∧
      (lateEntry s client groups).1.fed = s.fed ∧ (lateEntry s client groups).1.sdsRoutes = s.sdsRoutes ∧
      ∀ m ∈ (lateEntry s client groups).2, m.1 = client ∧ s.isPeer client = false := by
  unfold lateEntry
  split
  · exact ⟨.refl s, rfl, rfl, rfl, fun m hm => absurd hm List.not_mem_nil⟩
  · next hpeer =>
    split
    · exact ⟨.refl s, rfl, rfl, rfl, fun m hm => absurd hm List.not_mem_nil⟩
    · refine ⟨.of_eq rfl rfl rfl rfl, rfl, rfl, rfl, fun m hm => ?_⟩
      obtain ⟨e, -, hm⟩ := List.mem_flatMap.mp hm
      rw [Bool.or_eq_true, not_or, Bool.not_eq_true, Bool.not_eq_true] at hpeer
      dsimp only at hm
      by_cases hj : joins client groups e.2 = true
      · rw [if_pos hj, List.mem_singleton] at hm
        rw [hm]
        exact ⟨rfl, hpeer.2⟩
      · rw [if_neg hj] at hm
        cases hm

/-- A SUB message is ignored, or leaves one entry that is published; its
connection then enters the running calls of the groups it joined. -/
theorem handleSubscriber_joined (s : Inner) (nowMs : UInt64) (source : ClientId) (msg : SubscriberMessage) :
    handleSubscriber s nowMs source msg = (s, [], none) ∨
      ∃ (ticked : Inner) (new : Option Subscriber), source ∉ s.fed.links ∧ EntryChange s nowMs source msg ticked new ∧
        let settled := applyEntry ticked msg.issi new
        handleSubscriber s nowMs source msg =
          ((lateEntry settled source (joinedGroups settled source msg)).1,
            (publish settled msg.issi (s.subscribers[msg.issi]?)).1 ++
              (lateEntry settled source (joinedGroups settled source msg)).2,
            (published settled msg.issi (s.subscribers[msg.issi]?)).2.2) := by
  unfold handleSubscriber
  split
  · exact .inl rfl
  · next hlink =>
    split
    · exact .inl rfl
    · next ticked new hnew => exact .inr ⟨ticked, new, hlink, entryChange hnew, rfl⟩

/-- Which groups were joined only matters to the calls. -/
theorem handleSubscriber_cases (s : Inner) (nowMs : UInt64) (source : ClientId) (msg : SubscriberMessage) :
    handleSubscriber s nowMs source msg = (s, [], none) ∨
      ∃ (ticked : Inner) (new : Option Subscriber) (groups : FinSet UInt32), source ∉ s.fed.links ∧
        EntryChange s nowMs source msg ticked new ∧
        handleSubscriber s nowMs source msg =
          ((lateEntry (applyEntry ticked msg.issi new) source groups).1,
            (publish (applyEntry ticked msg.issi new) msg.issi (s.subscribers[msg.issi]?)).1 ++
              (lateEntry (applyEntry ticked msg.issi new) source groups).2,
            (published (applyEntry ticked msg.issi new) msg.issi (s.subscribers[msg.issi]?)).2.2) := by
  rcases handleSubscriber_joined s nowMs source msg with heq | ⟨ticked, new, hlink, hentry, heq⟩
  · exact .inl heq
  · exact .inr ⟨ticked, new, _, hlink, hentry, heq⟩

/-- A SUB message changes the registrations, then calls. -/
theorem registers_handleSubscriber (s : Inner) (nowMs : UInt64) (source : ClientId) (msg : SubscriberMessage) :
    ∃ t : Inner, Registers s t ∧ Passive t (handleSubscriber s nowMs source msg).1 [] := by
  rcases handleSubscriber_cases s nowMs source msg with heq | ⟨ticked, new, groups, -, hentry, heq⟩
  · rw [heq]
    exact ⟨s, .refl s, .refl s⟩
  · rw [heq]
    obtain ⟨hsame, -, -, hsds, -⟩ := lateEntry_same (applyEntry ticked msg.issi new) source groups
    exact ⟨_, hentry.registers.trans registers_applyEntry, .of_routes hsame hsds⟩

end Subscriber

section Messages

variable {s : Inner} {nowMs : UInt64} {source : ClientId} {issi : UInt32} {a : Advert}

theorem registers_takeOffer : Registers s (takeOffer s nowMs source issi a) := by
  unfold takeOffer
  split
  · exact registers_withdrawOffer
  · exact registers_storeOffer

@[simp] theorem takeOffer_subscribers : (takeOffer s nowMs source issi a).subscribers = s.subscribers := by
  unfold takeOffer
  split
  · exact withdrawOffer_subscribers
  · rfl

@[simp] theorem takeOffer_groupClients : (takeOffer s nowMs source issi a).groupClients = s.groupClients := by
  unfold takeOffer
  split
  · exact withdrawOffer_groupClients
  · rfl

/-- An entry that is not selected anew is not published either. -/
theorem publish_of_same {s : Inner} {issi : UInt32} {old : Option Subscriber}
    (h : same old (s.subscribers[issi]?) = true) : (publish s issi old).1 = [] := by
  unfold publish
  dsimp only
  rw [if_pos h]

/-- A route that is selected anew and published. -/
theorem settleRoute_eq {old : Option Subscriber} (hold : old = s.subscribers[issi]?) :
    (settleRoute s issi old).1 = (reroute s issi).1 ∧
      (settleRoute s issi old).2.1 = (publish (reroute s issi).1 issi old).1 := by
  unfold settleRoute
  dsimp only
  split
  · exact ⟨rfl, rfl⟩
  · next hc =>
    refine ⟨rfl, (publish_of_same ?_).symm⟩
    rw [reroute_snd, Bool.not_eq_true, Bool.not_eq_false'] at hc
    rw [reroute_subscribers, if_pos rfl, rerouted, if_pos hc, hold]
    exact same_refl _

theorem registers_settleRoute {old : Option Subscriber} : Registers s (settleRoute s issi old).1 := by
  unfold settleRoute
  dsimp only
  split
  · exact registers_reroute
  · exact registers_reroute

theorem receiveWithdraw_eq :
    (receiveWithdraw s source issi).1 = (if (s.offer issi source).isSome then
        (settleRoute (withdrawOffer s issi source).1 issi (s.subscribers[issi]?)).1
      else (withdrawOffer s issi source).1) := by
  unfold receiveWithdraw
  dsimp only
  rw [withdrawOffer_snd]
  split <;> rfl

theorem registers_receiveWithdraw : Registers s (receiveWithdraw s source issi).1 := by
  rw [receiveWithdraw_eq]
  split
  · exact registers_withdrawOffer.trans registers_settleRoute
  · exact registers_withdrawOffer

theorem receiveRoute_eq :
    (receiveRoute s nowMs source issi a).1 = (reroute (takeOffer s nowMs source issi a) issi).1 ∧
      (receiveRoute s nowMs source issi a).2.1 =
        (publish (reroute (takeOffer s nowMs source issi a) issi).1 issi (s.subscribers[issi]?)).1 :=
  settleRoute_eq (by rw [takeOffer_subscribers])

end Messages

section Cleanup

variable {s : Inner} {id : ClientId}

theorem registers_forget {e : UInt32 × Option Subscriber} : Registers s (forget id s e) := by
  unfold forget
  dsimp only
  have h : Registers s (withdrawOffer s e.1 id).1 := registers_withdrawOffer
  split
  · exact ⟨h.clients, h.calls, h.groupFloor, h.groupTxRaw, h.sdsRoutes, h.recentCalls, h.consoles, h.fed⟩
  · exact h

theorem offer_forget {e : UInt32 × Option Subscriber} {k : UInt32} {l : ClientId} :
    (forget id s e).offer k l = if e.1 = k ∧ id = l then none else s.offer k l := by
  rw [← offer_withdrawOffer]
  unfold forget
  dsimp only
  split <;> rfl

theorem forget_subscribers {e : UInt32 × Option Subscriber} {k : UInt32} :
    (forget id s e).subscribers[k]? =
      if e.1 = k ∧ e.2.any (·.clientId = id) = true then none else s.subscribers[k]? := by
  unfold forget
  dsimp only
  split
  · next h =>
    dsimp only
    rw [FinMap.getElem?_erase, withdrawOffer_subscribers]
    simp only [h, and_true]
  · next h =>
    rw [withdrawOffer_subscribers, if_neg fun hk => h hk.2]

theorem registers_reselect {r : Inner × Sends} {e : UInt32 × Option Subscriber} :
    Registers r.1 (reselect r e).1 := registers_reroute

/-- The connection's entries and offers among `previous` are gone. -/
def forgotten (s : Inner) (id : ClientId) (previous : List (UInt32 × Option Subscriber)) : Inner :=
  previous.foldl (forget id) s

theorem registers_forgotten {previous : List (UInt32 × Option Subscriber)} :
    Registers s (forgotten s id previous) := by
  unfold forgotten
  induction previous generalizing s with
  | nil => exact .refl s
  | cons e previous ih => exact registers_forget.trans ih

theorem offer_forgotten {previous : List (UInt32 × Option Subscriber)} {k : UInt32} {l : ClientId} :
    (forgotten s id previous).offer k l =
      if id = l ∧ (previous.any fun e => decide (e.1 = k)) = true then none else s.offer k l := by
  unfold forgotten
  induction previous generalizing s with
  | nil => simp
  | cons e previous ih =>
    rw [List.foldl_cons, ih, offer_forget, List.any_cons]
    by_cases hl : id = l
    · simp only [hl, true_and, and_true, Bool.or_eq_true, decide_eq_true_eq]
      split_ifs <;> simp_all
    · simp only [hl, false_and, and_false, if_false]

theorem forgotten_subscribers {previous : List (UInt32 × Option Subscriber)} {k : UInt32} :
    (forgotten s id previous).subscribers[k]? =
      if previous.any fun e => decide (e.1 = k) && e.2.any (·.clientId = id) then none else s.subscribers[k]? := by
  unfold forgotten
  induction previous generalizing s with
  | nil => simp
  | cons e previous ih =>
    rw [List.foldl_cons, ih, forget_subscribers, List.any_cons]
    by_cases htail : (previous.any fun e => decide (e.1 = k) && e.2.any (·.clientId = id)) = true
    · rw [if_pos htail, htail, Bool.or_true, if_pos rfl]
    · rw [if_neg htail, Bool.not_eq_true] at *
      rw [htail, Bool.or_false]
      refine if_congr ?_ rfl rfl
      rw [Bool.and_eq_true, decide_eq_true_eq]

/-- The entries and offers a closing connection is forgotten for, with what each
ISSI's entry was. -/
def previousOf (s : Inner) (id : ClientId) : List (UInt32 × Option Subscriber) :=
  (affectedIssis s id).toList.map fun issi => (issi, s.subscribers[issi]?)

/-- The tables before the affected ISSIs are selected anew. -/
def unaffiliated (s : Inner) (id : ClientId) : Inner :=
  { forgotten (detach s id) id (previousOf s id) with
    groupClients := dropMember (forgotten (detach s id) id (previousOf s id)).groupClients id }

theorem dropRegistrations_eq : dropRegistrations s id = (previousOf s id).foldl reselect (unaffiliated s id, []) := rfl

theorem registers_foldl_reselect {previous : List (UInt32 × Option Subscriber)} {r : Inner × Sends} :
    Registers r.1 (previous.foldl reselect r).1 := by
  induction previous generalizing r with
  | nil => exact .refl _
  | cons e previous ih => exact registers_reselect.trans ih

theorem registers_unaffiliated : Registers (detach s id) (unaffiliated s id) := by
  have h : Registers (detach s id) (forgotten (detach s id) id (previousOf s id)) := registers_forgotten
  exact ⟨h.clients, h.calls, h.groupFloor, h.groupTxRaw, h.sdsRoutes, h.recentCalls, h.consoles, h.fed⟩

theorem registers_dropRegistrations : Registers (detach s id) (dropRegistrations s id).1 :=
  registers_unaffiliated.trans (registers_foldl_reselect (r := (unaffiliated s id, [])))

theorem mem_affectedIssis {k : UInt32} :
    k ∈ affectedIssis s id ↔ (∃ sub : Subscriber, s.subscribers[k]? = some sub ∧ sub.clientId = id) ∨
      (id ∈ s.fed.links ∧ (s.offer k id).isSome = true) := by
  unfold affectedIssis
  dsimp only
  rw [FinSet.mem_ofList, List.mem_append]
  refine or_congr ?_ ?_
  · simp only [List.mem_map, List.mem_filter, Prod.exists, FinMap.mem_toList, decide_eq_true_eq, exists_and_right,
      exists_eq_right]
  · split
    · next hl =>
      simp only [List.mem_map, List.mem_filter, Prod.exists, FinMap.mem_toList, exists_and_right, exists_eq_right, hl,
        true_and, Inner.offer]
      cases s.fed.ribIn[k]? with
      | none => simp
      | some offers => simp
    · next hl => simp [hl]

theorem map_fst_previousOf : (previousOf s id).map (·.1) = (affectedIssis s id).toList := by
  unfold previousOf
  rw [List.map_map]
  exact List.map_id _

theorem mem_previousOf {e : UInt32 × Option Subscriber} :
    e ∈ previousOf s id ↔ e.1 ∈ affectedIssis s id ∧ e.2 = s.subscribers[e.1]? := by
  unfold previousOf
  simp only [List.mem_map, Std.ExtTreeSet.mem_toList]
  constructor
  · rintro ⟨k, hk, rfl⟩
    exact ⟨hk, rfl⟩
  · rintro ⟨hk, he⟩
    exact ⟨e.1, hk, Prod.ext rfl he.symm⟩

theorem nodup_previousOf : ((previousOf s id).map (·.1)).Nodup := by
  rw [map_fst_previousOf]
  exact FinSet.nodup_toList

/-- The connection's own entries are gone, the others stay. -/
theorem unaffiliated_subscribers {k : UInt32} :
    (unaffiliated s id).subscribers[k]? = (s.subscribers[k]?).filter (·.clientId ≠ id) := by
  change (forgotten (detach s id) id (previousOf s id)).subscribers[k]? = _
  rw [forgotten_subscribers]
  change (if _ then none else s.subscribers[k]?) = _
  cases hk : s.subscribers[k]? with
  | none => split <;> rfl
  | some sub =>
    rw [Option.filter_some]
    by_cases hown : sub.clientId = id
    · rw [if_pos, if_neg]
      · rw [decide_eq_true_eq]
        exact not_not.mpr hown
      · rw [List.any_eq_true]
        refine ⟨(k, s.subscribers[k]?), mem_previousOf.mpr ⟨?_, rfl⟩, ?_⟩
        · exact mem_affectedIssis.mpr (.inl ⟨sub, hk, hown⟩)
        · rw [hk]
          simp [hown]
    · rw [if_neg, if_pos]
      · exact decide_eq_true hown
      · rw [List.any_eq_true]
        rintro ⟨e, he, hp⟩
        rw [Bool.and_eq_true, decide_eq_true_eq] at hp
        rw [(mem_previousOf.mp he).2, hp.1, hk] at hp
        exact hown (of_decide_eq_true hp.2)

theorem unaffiliated_groupClients : (unaffiliated s id).groupClients = dropMember s.groupClients id := by
  have hforget : ∀ (t : Inner) (e : UInt32 × Option Subscriber), (forget id t e).groupClients = t.groupClients := by
    intro t e
    unfold forget
    dsimp only
    split <;> exact withdrawOffer_groupClients
  have hforgotten : ∀ (previous : List (UInt32 × Option Subscriber)) (t : Inner),
      (forgotten t id previous).groupClients = t.groupClients := by
    intro previous
    induction previous with
    | nil => exact fun _ => rfl
    | cons e previous ih => exact fun t => (ih (forget id t e)).trans (hforget t e)
  exact congrArg (dropMember · id) (hforgotten (previousOf s id) (detach s id))

theorem clock_unaffiliated (s : Inner) (id : ClientId) : (unaffiliated s id).fed.clock = s.fed.clock := by
  have hforget : ∀ (t : Inner) (e : UInt32 × Option Subscriber), (forget id t e).fed.clock = t.fed.clock := by
    intro t e
    unfold forget
    dsimp only
    split <;> exact withdrawOffer_clock
  have hforgotten : ∀ (previous : List (UInt32 × Option Subscriber)) (t : Inner),
      (forgotten t id previous).fed.clock = t.fed.clock := by
    intro previous
    induction previous with
    | nil => exact fun _ => rfl
    | cons e previous ih => exact fun t => (ih (forget id t e)).trans (hforget t e)
  exact hforgotten (previousOf s id) (detach s id)

/-- Only the connection's own offers are gone. -/
theorem offer_unaffiliated_ne {k : UInt32} {l : ClientId} (h : id ≠ l) :
    (unaffiliated s id).offer k l = s.offer k l := by
  change (forgotten (detach s id) id (previousOf s id)).offer k l = _
  rw [offer_forgotten, if_neg fun hl => h hl.1]
  rfl

theorem offer_unaffiliated_self {k : UInt32} (h : id ∈ s.fed.links) : (unaffiliated s id).offer k id = none := by
  change (forgotten (detach s id) id (previousOf s id)).offer k id = _
  rw [offer_forgotten]
  split
  · rfl
  · next hno =>
    change s.offer k id = none
    by_contra hk
    refine hno ⟨rfl, List.any_eq_true.mpr ⟨(k, s.subscribers[k]?), mem_previousOf.mpr ⟨?_, rfl⟩, decide_eq_true rfl⟩⟩
    exact mem_affectedIssis.mpr (.inr ⟨h, Option.isSome_iff_ne_none.mpr hk⟩)

section Reselection

theorem chosen_congr {s s' : Inner} {k : UInt32} (hs : s'.subscribers[k]? = s.subscribers[k]?)
    (hf : s'.fed = s.fed) : chosen s' k = chosen s k := by
  unfold chosen localEntry
  rw [hs, hf]

theorem rerouted_congr {s s' : Inner} {k : UInt32} (hs : s'.subscribers[k]? = s.subscribers[k]?)
    (hf : s'.fed = s.fed) : rerouted s' k = rerouted s k := by
  unfold rerouted
  rw [chosen_congr hs hf, hs]

theorem publish_congr {s s' : Inner} {k : UInt32} {old : Option Subscriber}
    (hs : s'.subscribers[k]? = s.subscribers[k]?) (hc : s'.clients = s.clients)
    (hl : s'.fed.links = s.fed.links) (hi : s'.fed.selfId = s.fed.selfId) : publish s' k old = publish s k old := by
  unfold publish linkUpdates
  rw [hs, hc, hl, hi]

theorem foldl_reselect_fed {previous : List (UInt32 × Option Subscriber)} {r : Inner × Sends} :
    (previous.foldl reselect r).1.fed = r.1.fed := by
  induction previous generalizing r with
  | nil => rfl
  | cons e previous ih => rw [List.foldl_cons, ih]; exact reroute_fed

theorem foldl_reselect_subscribers {previous : List (UInt32 × Option Subscriber)} {r : Inner × Sends} {k : UInt32}
    (hn : (previous.map (·.1)).Nodup) :
    (previous.foldl reselect r).1.subscribers[k]? =
      if k ∈ previous.map (·.1) then rerouted r.1 k else r.1.subscribers[k]? := by
  induction previous generalizing r with
  | nil => rfl
  | cons e previous ih =>
    rw [List.map_cons, List.nodup_cons] at hn
    have hfed : (reselect r e).1.fed = r.1.fed := reroute_fed
    have hsub : (reselect r e).1.subscribers[k]? = if e.1 = k then rerouted r.1 e.1 else r.1.subscribers[k]? :=
      reroute_subscribers
    rw [List.foldl_cons, ih hn.2]
    by_cases hk : e.1 = k
    · subst hk
      have hm : e.1 ∈ (e :: previous).map (·.1) := List.mem_map.mpr ⟨e, List.mem_cons_self, rfl⟩
      rw [if_neg hn.1, hsub, if_pos rfl, if_pos hm]
    · rw [if_neg hk] at hsub
      by_cases hm : k ∈ previous.map (·.1)
      · have hm' : k ∈ (e :: previous).map (·.1) := List.mem_cons_of_mem e.1 hm
        rw [if_pos hm, if_pos hm', rerouted_congr hsub hfed]
      · rw [if_neg hm, if_neg, hsub]
        rw [List.map_cons, List.mem_cons]
        rintro (h | h)
        · exact hk h.symm
        · exact hm h

/-- Each ISSI is published as it is in the end. -/
theorem foldl_reselect_sends {previous : List (UInt32 × Option Subscriber)} {r : Inner × Sends}
    (hn : (previous.map (·.1)).Nodup) :
    (previous.foldl reselect r).2 =
      r.2 ++ previous.flatMap fun e => (publish (previous.foldl reselect r).1 e.1 e.2).1 := by
  induction previous generalizing r with
  | nil => exact (List.append_nil _).symm
  | cons e previous ih =>
    have hn' := List.nodup_cons.mp hn
    have hreg : Registers (reroute r.1 e.1).1 (previous.foldl reselect (reselect r e)).1 :=
      registers_foldl_reselect (r := reselect r e)
    have hlast : (publish (reroute r.1 e.1).1 e.1 e.2).1 =
        (publish (previous.foldl reselect (reselect r e)).1 e.1 e.2).1 := by
      rw [publish_congr (s := (reroute r.1 e.1).1) ?_ hreg.clients hreg.links hreg.selfId]
      rw [foldl_reselect_subscribers hn'.2, if_neg hn'.1]
      rfl
    rw [List.foldl_cons, ih hn'.2, List.flatMap_cons, ← hlast, ← List.append_assoc]
    rfl

end Reselection

theorem registers_dropRegistrations_fed : (dropRegistrations s id).1.fed = (unaffiliated s id).fed := by
  rw [dropRegistrations_eq]
  exact foldl_reselect_fed

/-- An affected ISSI is selected anew, the others keep their entry. -/
theorem dropRegistrations_subscribers {k : UInt32} :
    (dropRegistrations s id).1.subscribers[k]? =
      if k ∈ affectedIssis s id then rerouted (unaffiliated s id) k else s.subscribers[k]? := by
  rw [dropRegistrations_eq, foldl_reselect_subscribers nodup_previousOf, map_fst_previousOf]
  by_cases hk : k ∈ affectedIssis s id
  · rw [if_pos (Std.ExtTreeSet.mem_toList.mpr hk), if_pos hk]
  · rw [if_neg fun h => hk (Std.ExtTreeSet.mem_toList.mp h), if_neg hk, unaffiliated_subscribers]
    cases hs : s.subscribers[k]? with
    | none => rfl
    | some sub =>
      rw [Option.filter_some, if_pos]
      exact decide_eq_true fun hown => hk (mem_affectedIssis.mpr (.inl ⟨sub, hs, hown⟩))

theorem dropRegistrations_sends :
    (dropRegistrations s id).2 =
      (previousOf s id).flatMap fun e => (publish (dropRegistrations s id).1 e.1 e.2).1 := by
  rw [dropRegistrations_eq, foldl_reselect_sends nodup_previousOf, List.nil_append]

theorem leaveCall_clients {r : Effect} {e : Uuid × ActiveCall} : (leaveCall id r e).inner.clients = r.inner.clients := by
  unfold leaveCall
  dsimp only
  split <;> rfl

theorem passive_leaveCall {r : Effect} {e : Uuid × ActiveCall} :
    ∃ more : Sends, (leaveCall id r e).sends = r.sends ++ more ∧ Passive r.inner (leaveCall id r e).inner more := by
  unfold leaveCall
  dsimp only
  split
  · exact ⟨[], (List.append_nil _).symm, .of_same (.of_eq rfl rfl rfl rfl) rfl Sends.quiet_nil⟩
  · exact ⟨_, rfl, .of_same (.of_eq rfl rfl rfl rfl) rfl (Sends.quiet_sendMany (quiet_buildCallCause ..))⟩

theorem passive_leaveCalls (s : Inner) (id : ClientId) :
    Passive s (leaveCalls s id).inner (leaveCalls s id).sends ∧ (leaveCalls s id).inner.clients = s.clients := by
  refine leaveCalls_induct (P := fun r => Passive s r.inner r.sends ∧ r.inner.clients = s.clients) ⟨.refl s, rfl⟩ ?_
  rintro r ⟨hpass, hc⟩ e - -
  obtain ⟨more, heq, hone⟩ := @passive_leaveCall id r e
  exact ⟨heq ▸ hpass.trans hone, leaveCall_clients.trans hc⟩

/-- The closing connection's routes and call memory go last. -/
def forgetRoutes (s : Inner) (id : ClientId) : Inner :=
  { s with
    sdsRoutes := s.sdsRoutes.filter fun _ route => route.sourceClient != id && !route.targets.contains id
    recentCalls := s.recentCalls.filter fun _ e => e.1 != id }

@[simp] theorem forgetRoutes_clients : (forgetRoutes s id).clients = s.clients := rfl

@[simp] theorem detach_clients : (detach s id).clients = s.clients.erase id := rfl

theorem passive_forgetRoutes : Passive s (forgetRoutes s id) [] :=
  ⟨.of_eq rfl rfl rfl rfl, fun hq => hq.filter fun _ route => route.sourceClient != id && !route.targets.contains id,
    fun _ => Sends.quiet_nil⟩

theorem cleanupClient_eq (s : Inner) (id : ClientId) :
    (cleanupClient s id).inner = forgetRoutes (leaveCalls (dropRegistrations s id).1 id).inner id ∧
      (cleanupClient s id).sends = (dropRegistrations s id).2 ++ (leaveCalls (dropRegistrations s id).1 id).sends ∧
      (cleanupClient s id).ended = (leaveCalls (dropRegistrations s id).1 id).ended ∧
      (cleanupClient s id).placed = none := by
  unfold cleanupClient forgetRoutes
  obtain ⟨dropped, updates⟩ := dropRegistrations s id
  exact ⟨rfl, rfl, rfl, rfl⟩

/-- What is left of a cleanup once the registrations are dropped. -/
theorem passive_cleanupClient (s : Inner) (id : ClientId) :
    Passive (dropRegistrations s id).1 (cleanupClient s id).inner (leaveCalls (dropRegistrations s id).1 id).sends := by
  rw [(cleanupClient_eq s id).1, ← List.append_nil (leaveCalls (dropRegistrations s id).1 id).sends]
  exact (passive_leaveCalls _ id).1.trans passive_forgetRoutes

theorem clients_cleanupClient (s : Inner) (id : ClientId) :
    (cleanupClient s id).inner.clients = s.clients.erase id := by
  rw [(cleanupClient_eq s id).1, forgetRoutes_clients, (passive_leaveCalls _ id).2, registers_dropRegistrations.clients,
    detach_clients]

end Cleanup

section Connect

variable {s : Inner} {id : ClientId} {client : Client} {neighbour : Option UInt64} {console : Bool}

theorem clients_openSession : (openSession s id client neighbour console).1.clients = s.clients.insert id client := by
  unfold openSession attachClient
  cases neighbour <;> cases console <;> rfl

/-- A connection that opens changes who is connected and over which link. -/
theorem openSession_fed :
    (openSession s id client neighbour console).1.fed =
      match neighbour with
      | some nbrId => { s.fed with links := s.fed.links.insert id nbrId }
      | none => s.fed := by
  unfold openSession attachClient
  cases neighbour <;> cases console <;> rfl

theorem openSession_subscribers : (openSession s id client neighbour console).1.subscribers = s.subscribers := by
  unfold openSession attachClient
  cases neighbour <;> cases console <;> rfl

theorem openSession_links {c : ClientId} :
    (openSession s id client neighbour console).1.fed.links[c]? =
      if id = c then neighbour.or (s.fed.links[c]?) else s.fed.links[c]? := by
  rw [openSession_fed]
  cases neighbour with
  | none =>
    dsimp only [Option.none_or]
    rw [ite_self]
  | some nbrId =>
    dsimp only
    rw [FinMap.getElem?_insert]
    split <;> rfl

theorem openSession_selfId : (openSession s id client neighbour console).1.fed.selfId = s.fed.selfId := by
  rw [openSession_fed]
  cases neighbour <;> rfl

theorem openSession_offer {k : UInt32} {l : ClientId} :
    (openSession s id client neighbour console).1.offer k l = s.offer k l := by
  unfold Inner.offer
  rw [openSession_fed]
  cases neighbour <;> rfl

end Connect

end BrewServer
