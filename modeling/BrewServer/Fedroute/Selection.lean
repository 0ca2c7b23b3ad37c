import BrewServer.Fedroute.Table

/-!
# What `select` selects

The offers of an ISSI come out of a hash map in no particular order. Whatever the order,
the choice is the one that `Selects` describes in terms of the offers alone.
-/

namespace BrewServer.Fedroute

/-- `select` over the offers in the order they come out of the map. -/
def selectFrom (selfId : UInt64) (own : Option UInt64) (links : FinMap ClientId UInt64)
    (offers : List (ClientId × Advert)) : Choice :=
  let newestRemote := (offers.filterMap fun o => offerKey o.2).argmax rank
  match newestRemote.filter fun key => own.all fun own => decide (rank (own, selfId) < rank key) with
  | some (_, origin) =>
    match (offers.filter fun o => decide (o.2.path.getLast? = some origin)).argmin (nearness links) with
    | some o => .remote o.1
    | none => .unreachable
  | none => if own.isSome then .local else .unreachable

theorem select_eq_selectFrom (selfId : UInt64) (own : Option UInt64) (links : FinMap ClientId UInt64)
    (cands : Option (FinMap ClientId Advert)) :
    select selfId own links cands = selectFrom selfId own links ((cands.map (·.toList)).getD []) := rfl

/-- `key` is the greatest clock and origin among the offers. -/
structure Newest (offer : ClientId → Option Advert) (key : UInt64 × UInt64) : Prop where
  offered : ∃ l a, offer l = some a ∧ offerKey a = some key
  greatest : ∀ l a key', offer l = some a → offerKey a = some key' → rank key' ≤ rank key

/-- The choice for the offers of an ISSI: the local registration unless an offer is newer,
else the nearest offer from the origin of the newest one. -/
inductive Selects (selfId : UInt64) (own : Option UInt64) (links : FinMap ClientId UInt64)
    (offer : ClientId → Option Advert) : Choice → Prop
  | «local» (reg : UInt64) (registered : own = some reg)
      (newest : ∀ l a key, offer l = some a → offerKey a = some key → rank key ≤ rank (reg, selfId)) :
      Selects selfId own links offer .local
  | remote (link : ClientId) (a : Advert) (key : UInt64 × UInt64) (newest : Newest offer key)
      (newer : ∀ reg, own = some reg → rank (reg, selfId) < rank key) (offered : offer link = some a)
      (origin : a.path.getLast? = some key.2)
      (nearest : ∀ l a', offer l = some a' → a'.path.getLast? = some key.2 →
        nearness links (link, a) ≤ nearness links (l, a')) :
      Selects selfId own links offer (.remote link)
  | unreachable (unregistered : own = none) (none : ∀ l, offer l = none) :
      Selects selfId own links offer .unreachable

section Selection

variable {selfId : UInt64} {own : Option UInt64} {links : FinMap ClientId UInt64} {offer : ClientId → Option Advert}
  {offers : List (ClientId × Advert)}

theorem offerKey_of_ne_nil {a : Advert} (h : a.path ≠ []) :
    ∃ origin, a.path.getLast? = some origin ∧ offerKey a = some (a.reg, origin) := by
  obtain ⟨origin, ho⟩ := Option.isSome_iff_exists.mp (List.getLast?_isSome.mpr h)
  exact ⟨origin, ho, by rw [offerKey, ho, Option.map_some]⟩

theorem getLast?_of_offerKey {a : Advert} {key : UInt64 × UInt64} (h : offerKey a = some key) :
    a.path.getLast? = some key.2 := by
  obtain ⟨origin, ho, rfl⟩ := Option.map_eq_some_iff.mp h
  exact ho

/-- The newest of the offers, in whatever order they come. -/
theorem newest_of_argmax (hoffers : ∀ l a, (l, a) ∈ offers ↔ offer l = some a) {key : UInt64 × UInt64}
    (h : (offers.filterMap fun o => offerKey o.2).argmax rank = some key) : Newest offer key := by
  refine ⟨?_, ?_⟩
  · obtain ⟨o, ho, hk⟩ := List.mem_filterMap.mp (List.argmax_mem h)
    exact ⟨o.1, o.2, (hoffers o.1 o.2).mp ho, hk⟩
  · intro l a key' ha hk
    exact List.le_of_mem_argmax (List.mem_filterMap.mpr ⟨(l, a), (hoffers l a).mpr ha, hk⟩) h

/-- Without offers there is nothing newest. -/
theorem no_offer_of_argmax (hoffers : ∀ l a, (l, a) ∈ offers ↔ offer l = some a)
    (hpaths : ∀ l a, offer l = some a → a.path ≠ [])
    (h : (offers.filterMap fun o => offerKey o.2).argmax rank = none) (l : ClientId) : offer l = none := by
  cases ha : offer l with
  | none => rfl
  | some a =>
    obtain ⟨origin, -, hk⟩ := offerKey_of_ne_nil (hpaths l a ha)
    have hmem : (a.reg, origin) ∈ offers.filterMap fun o => offerKey o.2 :=
      List.mem_filterMap.mpr ⟨(l, a), (hoffers l a).mpr ha, hk⟩
    rw [List.argmax_eq_none.mp h] at hmem
    exact absurd hmem List.not_mem_nil

theorem selects_selectFrom (hoffers : ∀ l a, (l, a) ∈ offers ↔ offer l = some a)
    (hpaths : ∀ l a, offer l = some a → a.path ≠ []) :
    Selects selfId own links offer (selectFrom selfId own links offers) := by
  unfold selectFrom
  dsimp only
  split
  · next reg origin hkey =>
    rw [Option.filter_eq_some_iff] at hkey
    obtain ⟨hkey, hown⟩ := hkey
    have hnewest := newest_of_argmax hoffers hkey
    have hnewer : ∀ reg', own = some reg' → rank (reg', selfId) < rank (reg, origin) := by
      intro reg' hreg
      rw [hreg, Option.all_some, decide_eq_true_eq] at hown
      exact hown
    split
    · next o ho =>
      have hmem := List.mem_filter.mp (List.argmin_mem ho)
      refine .remote o.1 o.2 (reg, origin) hnewest hnewer ((hoffers o.1 o.2).mp hmem.1) (of_decide_eq_true hmem.2) ?_
      intro l a' ha' hlast
      exact List.le_of_mem_argmin (List.mem_filter.mpr ⟨(hoffers l a').mpr ha', decide_eq_true hlast⟩) ho
    · next hnone =>
      -- The newest offer itself is from that origin.
      obtain ⟨l, a, ha, hk⟩ := hnewest.offered
      have hmem : (l, a) ∈ offers.filter fun o => decide (o.2.path.getLast? = some origin) :=
        List.mem_filter.mpr ⟨(hoffers l a).mpr ha, decide_eq_true (getLast?_of_offerKey hk)⟩
      rw [List.argmin_eq_none.mp hnone] at hmem
      exact absurd hmem List.not_mem_nil
  · next hkey =>
    cases hown : own with
    | some reg =>
      refine .local reg rfl fun l a key ha hk => ?_
      cases hmax : (offers.filterMap fun o => offerKey o.2).argmax rank with
      | none =>
        rw [no_offer_of_argmax hoffers hpaths hmax l] at ha
        cases ha
      | some newest =>
        have hle := (newest_of_argmax hoffers hmax).greatest l a key ha hk
        rw [hmax, hown, Option.filter_some, Option.all_some] at hkey
        split at hkey
        · cases hkey
        · next hnot =>
          rw [decide_eq_true_eq, not_lt] at hnot
          exact hle.trans hnot
    | none =>
      refine .unreachable rfl fun l => no_offer_of_argmax hoffers hpaths ?_ l
      cases hmax : (offers.filterMap fun o => offerKey o.2).argmax rank with
      | none => rfl
      | some newest =>
        rw [hmax, hown, Option.filter_some, Option.all_none] at hkey
        cases hkey

/-- Clock and origin are told apart by their rank. -/
theorem rank_injective : Function.Injective rank := by
  rintro ⟨r, o⟩ ⟨r', o'⟩ h
  rw [rank, rank, EmbeddingLike.apply_eq_iff_eq, Prod.mk.injEq] at h
  exact Prod.ext (UInt64.toNat_inj.mp h.1) (UInt64.toNat_inj.mp h.2)

theorem link_of_nearness_eq {l l' : ClientId} {a a' : Advert} (h : nearness links (l, a) = nearness links (l', a')) :
    l = l' := by
  simp only [nearness, EmbeddingLike.apply_eq_iff_eq, Prod.mk.injEq] at h
  exact BitVec.eq_of_toNat_eq h.2.2

/-- There is one choice for any offers, so that every server makes the same one. -/
theorem Selects.unique {c c' : Choice} (h : Selects selfId own links offer c) (h' : Selects selfId own links offer c') :
    c = c' := by
  cases h with
  | «local» reg hreg hle =>
    cases h' with
    | «local» => rfl
    | remote link a key hnew hnewer ha =>
      obtain ⟨l, a, ha, hk⟩ := hnew.offered
      exact absurd (hnewer reg hreg) (not_lt.mpr (hle l a key ha hk))
    | unreachable hun => rw [hun] at hreg; cases hreg
  | remote link a key hnew hnewer ha ho hnear =>
    cases h' with
    | «local» reg hreg hle =>
      obtain ⟨l, a, ha, hk⟩ := hnew.offered
      exact absurd (hnewer reg hreg) (not_lt.mpr (hle l a key ha hk))
    | remote link' a' key' hnew' hnewer' ha' ho' hnear' =>
      obtain ⟨l, b, hb, hk⟩ := hnew.offered
      obtain ⟨l', b', hb', hk'⟩ := hnew'.offered
      have hkeys : key = key' := rank_injective (le_antisymm (hnew'.greatest l b key hb hk) (hnew.greatest l' b' key' hb' hk'))
      subst hkeys
      have hsame := le_antisymm (hnear link' a' ha' ho') (hnear' link a ha ho)
      rw [link_of_nearness_eq hsame]
    | unreachable hun hnone => rw [hnone] at ha; cases ha
  | unreachable hun hnone =>
    cases h' with
    | «local» reg hreg => rw [hun] at hreg; cases hreg
    | remote link a key hnew hnewer ha => rw [hnone] at ha; cases ha
    | unreachable => rfl

theorem selectFrom_eq_iff (cands : Option (FinMap ClientId Advert))
    (hpaths : ∀ (l : ClientId) (a : Advert), cands.bind (·[l]?) = some a → a.path ≠ [])
    (hperm : offers.Perm ((cands.map (·.toList)).getD [])) (c : Choice) :
    selectFrom selfId own links offers = c ↔ Selects selfId own links (fun l => cands.bind (·[l]?)) c := by
  have hoffers : ∀ (l : ClientId) (a : Advert), (l, a) ∈ offers ↔ cands.bind (·[l]?) = some a := by
    intro l a
    rw [hperm.mem_iff]
    cases cands with
    | none => simp
    | some m => exact FinMap.mem_toList
  have hselects : Selects selfId own links (fun l => cands.bind (·[l]?)) (selectFrom selfId own links offers) :=
    selects_selectFrom hoffers hpaths
  constructor
  · rintro rfl
    exact hselects
  · exact fun h => hselects.unique h

end Selection

/-- In whatever order the offers of an ISSI come out of their map, `select` makes the
choice `Selects` describes and no other. -/
theorem select_eq_iff (selfId : UInt64) (own : Option UInt64) (links : FinMap ClientId UInt64)
    (cands : Option (FinMap ClientId Advert))
    (hpaths : ∀ (l : ClientId) (a : Advert), cands.bind (·[l]?) = some a → a.path ≠ [])
    (offers : List (ClientId × Advert)) (hperm : offers.Perm ((cands.map (·.toList)).getD [])) (c : Choice) :
    selectFrom selfId own links offers = select selfId own links cands ∧
      (select selfId own links cands = c ↔ Selects selfId own links (fun l => cands.bind (·[l]?)) c) := by
  rw [select_eq_selectFrom]
  exact ⟨(selectFrom_eq_iff cands hpaths hperm _).mpr ((selectFrom_eq_iff cands hpaths (.refl _) _).mp rfl),
    selectFrom_eq_iff cands hpaths (.refl _) c⟩

/-- Two offers from one origin: the shorter path, not the newer clock. -/
theorem selects_nearer :
    Selects 5 none ((∅ : FinMap ClientId UInt64).insert 1 10 |>.insert 2 20)
      (fun l => (some ((∅ : FinMap ClientId Advert).insert 1 { reg := 200, path := [10, 11, 40], groups := [] }
        |>.insert 2 { reg := 100, path := [20, 40], groups := [] })).bind (·[l]?)) (.remote 2) := by
  refine (select_eq_iff 5 none _ (some _) (fun l a h => ?_)
    [(2, { reg := 100, path := [20, 40], groups := [] }), (1, { reg := 200, path := [10, 11, 40], groups := [] })]
    (by decide +kernel) _).2.mp (by decide +kernel)
  rw [Option.bind_some, FinMap.getElem?_insert, FinMap.getElem?_insert] at h
  split at h
  · cases h
    exact List.cons_ne_nil _ _
  · split at h
    · cases h
      exact List.cons_ne_nil _ _
    · rw [Std.ExtTreeMap.getElem?_empty] at h
      cases h

end BrewServer.Fedroute
