import BrewServer.Lib.FinMap

/-!
# An index kept next to a table

A row names its owner and a set of attributes; the index holds, per attribute,
the owners that have it in some row. The index is maintained row by row: an
owner leaves an attribute only when no other row of its own still needs it.
-/

namespace BrewServer

open Std

section Index

variable {G C : Type} [Ord G] [Ord C] [TransOrd G] [TransOrd C] [LawfulEqOrd G] [LawfulEqOrd C]

/-- The members an index holds for one attribute. -/
def membersOf (idx : FinMap G (FinSet C)) (g : G) : FinSet C := (idx[g]?).getD ∅

/-- An index that stores no empty member set. -/
def NoEmptySet (idx : FinMap G (FinSet C)) : Prop := ∀ (g : G) (m : FinSet C), idx[g]? = some m → m.isEmpty = false

/-- Adds `c` to the members of `g`. -/
def join (idx : FinMap G (FinSet C)) (c : C) (g : G) : FinMap G (FinSet C) :=
  idx.insert g ((membersOf idx g).insert c)

/-- Takes `c` out of the members of `g`, and the set with it once it is empty. -/
def leave (idx : FinMap G (FinSet C)) (c : C) (g : G) : FinMap G (FinSet C) :=
  match idx[g]? with
  | none => idx
  | some m => if (m.erase c).isEmpty then idx.erase g else idx.insert g (m.erase c)

/-- Takes `c` out of every member set, and then every empty set. -/
def dropMember (idx : FinMap G (FinSet C)) (c : C) : FinMap G (FinSet C) :=
  (idx.map fun _ m => m.erase c).filter fun _ m => !m.isEmpty

omit [LawfulEqOrd G] [LawfulEqOrd C] in
theorem mem_membersOf {idx : FinMap G (FinSet C)} {g : G} {c : C} :
    c ∈ membersOf idx g ↔ ∃ m : FinSet C, idx[g]? = some m ∧ c ∈ m := by
  unfold membersOf
  cases h : idx[g]? with
  | none => simp
  | some m => simp

variable [DecidableEq G]

theorem mem_join {idx : FinMap G (FinSet C)} {c k : C} {g g' : G} :
    k ∈ membersOf (join idx c g) g' ↔ (g = g' ∧ c = k) ∨ k ∈ membersOf idx g' := by
  unfold membersOf join
  rw [FinMap.getElem?_insert]
  by_cases h : g = g'
  · subst h
    simp only [if_true, Option.getD_some, FinSet.mem_insert, true_and]
    rfl
  · simp [h]

/-- Who joins a set and is taken out of it again leaves the set behind. -/
theorem modify_erase_join {idx : FinMap G (FinSet C)} {c : C} {g : G} (h : c ∉ membersOf idx g) :
    (join idx c g).modify g (·.erase c) = idx.insert g (membersOf idx g) := by
  have hset : ((membersOf idx g).insert c).erase c = membersOf idx g := by
    apply FinSet.ext
    intro k
    rw [FinSet.mem_erase, FinSet.mem_insert]
    constructor
    · rintro ⟨hne, rfl | hk⟩
      · exact absurd rfl hne
      · exact hk
    · intro hk
      exact ⟨fun heq => h (heq ▸ hk), .inr hk⟩
  apply FinMap.ext
  intro k
  rw [FinMap.getElem?_modify, join, FinMap.getElem?_insert, FinMap.getElem?_insert]
  split
  · rw [Option.map_some, hset]
  · rfl

omit [TransOrd C] [LawfulEqOrd C] in
theorem insert_membersOf {idx : FinMap G (FinSet C)} {g : G} : idx.insert g (membersOf idx g) = idx ↔ g ∈ idx := by
  constructor
  · intro h
    rw [← h, FinMap.mem_insert]
    exact .inl rfl
  · intro h
    obtain ⟨m, hm⟩ := FinMap.mem_iff.mp h
    apply FinMap.ext
    intro k
    rw [FinMap.getElem?_insert]
    split
    · next hk => rw [← hk, hm, membersOf, hm, Option.getD_some]
    · rfl

theorem mem_leave {idx : FinMap G (FinSet C)} {c k : C} {g g' : G} :
    k ∈ membersOf (leave idx c g) g' ↔ k ∈ membersOf idx g' ∧ ¬ (g = g' ∧ c = k) := by
  unfold leave
  cases hm : idx[g]? with
  | none =>
    simp only [iff_self_and]
    rintro hk ⟨rfl, rfl⟩
    simp [membersOf, hm] at hk
  | some m =>
    by_cases h : g = g'
    · subst h
      have hcur : membersOf idx g = m := by simp [membersOf, hm]
      simp only [hcur, true_and]
      split
      · next he =>
        have hno := FinSet.isEmpty_iff_forall.mp he k
        rw [FinSet.mem_erase, not_and'] at hno
        simp only [membersOf, FinMap.getElem?_erase, if_true, Option.getD_none, ExtTreeSet.not_mem_empty,
          false_iff, not_and, not_not]
        intro hk
        by_contra hne
        exact hno hk hne
      · simp only [membersOf, FinMap.getElem?_insert, if_true, Option.getD_some, FinSet.mem_erase]
        exact and_comm
    · have hsame : membersOf (if (m.erase c).isEmpty then idx.erase g else idx.insert g (m.erase c)) g' =
          membersOf idx g' := by
        unfold membersOf
        split
        · rw [FinMap.getElem?_erase, if_neg h]
        · rw [FinMap.getElem?_insert, if_neg h]
      simp only [hsame, h, false_and, not_false_eq_true, and_true]

omit [DecidableEq G] in
theorem mem_dropMember {idx : FinMap G (FinSet C)} {c k : C} {g : G} :
    k ∈ membersOf (dropMember idx c) g ↔ k ∈ membersOf idx g ∧ c ≠ k := by
  simp only [mem_membersOf, dropMember, FinMap.getElem?_filter, FinMap.getElem?_map]
  constructor
  · rintro ⟨m, ⟨hm, -⟩, hk⟩
    obtain ⟨m', hm', rfl⟩ := Option.map_eq_some_iff.mp hm
    rw [FinSet.mem_erase] at hk
    exact ⟨⟨m', hm', hk.2⟩, hk.1⟩
  · rintro ⟨⟨m, hm, hk⟩, hne⟩
    have hmem : k ∈ m.erase c := FinSet.mem_erase.mpr ⟨hne, hk⟩
    refine ⟨m.erase c, ⟨by rw [hm, Option.map_some], ?_⟩, hmem⟩
    have hne : (m.erase c).isEmpty ≠ true := fun he => FinSet.isEmpty_iff_forall.mp he k hmem
    simpa using hne

theorem noEmptySet_join {idx : FinMap G (FinSet C)} {c : C} {g : G} (h : NoEmptySet idx) :
    NoEmptySet (join idx c g) := by
  intro g' m hm
  unfold join at hm
  rw [FinMap.getElem?_insert] at hm
  split at hm
  · cases hm
    have hmem : c ∈ (membersOf idx g).insert c := FinSet.mem_insert.mpr (.inl rfl)
    rw [Bool.eq_false_iff]
    exact fun he => FinSet.isEmpty_iff_forall.mp he c hmem
  · exact h g' m hm

omit [LawfulEqOrd C] in
theorem noEmptySet_leave {idx : FinMap G (FinSet C)} {c : C} {g : G} (h : NoEmptySet idx) :
    NoEmptySet (leave idx c g) := by
  intro g' m hm
  unfold leave at hm
  split at hm
  · exact h g' m hm
  · split at hm
    · rw [FinMap.getElem?_erase] at hm
      split at hm
      · cases hm
      · exact h g' m hm
    · next he =>
      rw [FinMap.getElem?_insert] at hm
      split at hm
      · cases hm
        simpa using he
      · exact h g' m hm

omit [LawfulEqOrd C] [DecidableEq G] in
theorem noEmptySet_dropMember (idx : FinMap G (FinSet C)) (c : C) : NoEmptySet (dropMember idx c) := by
  intro g m hm
  simpa using (FinMap.getElem?_filter.mp hm).2

theorem foldl_preserves {α β : Type} {P : β → Prop} {f : β → α → β} (hf : ∀ b a, P b → P (f b a)) (l : List α)
    {b : β} (h : P b) : P (l.foldl f b) := by
  induction l generalizing b with
  | nil => exact h
  | cons a l ih => exact ih (hf b a h)

section Rows

variable {K R : Type} [Ord K] [TransOrd K] [LawfulEqOrd K] (owner : R → C) (attrs : R → FinSet G)

/-- Whether some row of `c` has attribute `g`. -/
def stillUsed [DecidableEq C] (t : FinMap K R) (c : C) (g : G) : Bool :=
  t.toList.any fun e => owner e.2 = c && (attrs e.2).contains g

/-- Takes the owner of `r` out of the attributes no row of `t` needs it in. -/
def unindex [DecidableEq C] (t : FinMap K R) (idx : FinMap G (FinSet C)) (r : R) : FinMap G (FinSet C) :=
  (attrs r).toList.foldl
    (fun idx g => if stillUsed owner attrs t (owner r) g then idx else leave idx (owner r) g) idx

/-- Adds the owner of `r` to every attribute of `r`. -/
def index (idx : FinMap G (FinSet C)) (r : R) : FinMap G (FinSet C) :=
  (attrs r).toList.foldl (fun idx g => join idx (owner r) g) idx

/-- Index and table agree. -/
def Indexes (t : FinMap K R) (idx : FinMap G (FinSet C)) : Prop :=
  ∀ (g : G) (c : C), c ∈ membersOf idx g ↔ ∃ (k : K) (r : R), t[k]? = some r ∧ owner r = c ∧ g ∈ attrs r

variable {owner attrs}

omit [Ord C] [TransOrd C] [LawfulEqOrd G] [LawfulEqOrd C] [DecidableEq G] in
theorem stillUsed_iff [DecidableEq C] {t : FinMap K R} {c : C} {g : G} :
    stillUsed owner attrs t c g = true ↔ ∃ (k : K) (r : R), t[k]? = some r ∧ owner r = c ∧ g ∈ attrs r := by
  simp only [stillUsed, List.any_eq_true, Prod.exists, FinMap.mem_toList, Bool.and_eq_true, decide_eq_true_eq,
    ExtTreeSet.contains_iff_mem]

theorem mem_index {idx : FinMap G (FinSet C)} {r : R} {g : G} {c : C} :
    c ∈ membersOf (index owner attrs idx r) g ↔ c ∈ membersOf idx g ∨ (owner r = c ∧ g ∈ attrs r) := by
  have hfold : ∀ (l : List G) (idx : FinMap G (FinSet C)),
      c ∈ membersOf (l.foldl (fun idx g => join idx (owner r) g) idx) g ↔
        c ∈ membersOf idx g ∨ (owner r = c ∧ g ∈ l) := by
    intro l
    induction l with
    | nil => simp
    | cons a l ih =>
      intro idx
      rw [List.foldl_cons, ih, mem_join, List.mem_cons]
      constructor
      · rintro ((⟨rfl, hc⟩ | h) | ⟨hc, h⟩)
        · exact .inr ⟨hc, .inl rfl⟩
        · exact .inl h
        · exact .inr ⟨hc, .inr h⟩
      · rintro (h | ⟨hc, rfl | h⟩)
        · exact .inl (.inr h)
        · exact .inl (.inl ⟨rfl, hc⟩)
        · exact .inr ⟨hc, h⟩
  rw [index, hfold, ExtTreeSet.mem_toList]

omit [LawfulEqOrd K] in
theorem mem_unindex [DecidableEq C] {t : FinMap K R} {idx : FinMap G (FinSet C)} {r : R} {g : G} {c : C} :
    c ∈ membersOf (unindex owner attrs t idx r) g ↔
      c ∈ membersOf idx g ∧ ¬ (owner r = c ∧ g ∈ attrs r ∧ stillUsed owner attrs t c g = false) := by
  have hfold : ∀ (l : List G) (idx : FinMap G (FinSet C)),
      c ∈ membersOf (l.foldl (fun idx g =>
          if stillUsed owner attrs t (owner r) g then idx else leave idx (owner r) g) idx) g ↔
        c ∈ membersOf idx g ∧ ¬ (owner r = c ∧ g ∈ l ∧ stillUsed owner attrs t c g = false) := by
    intro l
    induction l with
    | nil => simp
    | cons a l ih =>
      intro idx
      rw [List.foldl_cons, ih]
      by_cases hu : stillUsed owner attrs t (owner r) a = true
      · rw [if_pos hu]
        refine and_congr_right fun _ => not_congr ?_
        constructor
        · rintro ⟨hc, h, hs⟩
          exact ⟨hc, List.mem_cons_of_mem a h, hs⟩
        · rintro ⟨hc, h, hs⟩
          refine ⟨hc, ?_, hs⟩
          rcases List.mem_cons.mp h with rfl | h
          · rw [hc, hs] at hu
            cases hu
          · exact h
      · rw [if_neg hu, mem_leave]
        rw [Bool.not_eq_true] at hu
        constructor
        · rintro ⟨⟨hm, hne⟩, hl⟩
          refine ⟨hm, ?_⟩
          rintro ⟨hc, h, hs⟩
          rcases List.mem_cons.mp h with rfl | h
          · exact hne ⟨rfl, hc⟩
          · exact hl ⟨hc, h, hs⟩
        · rintro ⟨hm, hl⟩
          refine ⟨⟨hm, ?_⟩, ?_⟩
          · rintro ⟨rfl, hc⟩
            exact hl ⟨hc, List.mem_cons_self, hc ▸ hu⟩
          · rintro ⟨hc, h, hs⟩
            exact hl ⟨hc, List.mem_cons_of_mem a h, hs⟩
  rw [unindex, hfold, ExtTreeSet.mem_toList]

theorem noEmptySet_index {idx : FinMap G (FinSet C)} {r : R} (h : NoEmptySet idx) :
    NoEmptySet (index owner attrs idx r) := by
  refine foldl_preserves (fun idx g h => ?_) _ h
  exact noEmptySet_join h

omit [LawfulEqOrd C] [LawfulEqOrd K] in
theorem noEmptySet_unindex [DecidableEq C] {t : FinMap K R} {idx : FinMap G (FinSet C)} {r : R}
    (h : NoEmptySet idx) : NoEmptySet (unindex owner attrs t idx r) := by
  refine foldl_preserves (fun idx g h => ?_) _ h
  split
  · exact h
  · exact noEmptySet_leave h

omit [LawfulEqOrd G] [LawfulEqOrd C] [DecidableEq G] [LawfulEqOrd K] in
theorem Indexes.empty : Indexes owner attrs (∅ : FinMap K R) ∅ := by
  intro g c
  simp [membersOf]

variable [DecidableEq K] [DecidableEq C]

/-- A row is replaced. -/
theorem Indexes.insert {t : FinMap K R} {idx : FinMap G (FinSet C)} (h : Indexes owner attrs t idx) (k : K)
    (r : R) :
    Indexes owner attrs (t.insert k r)
      (index owner attrs ((t[k]?).elim idx (unindex owner attrs (t.insert k r) idx)) r) := by
  intro g c
  rw [mem_index]
  have hnew : (∃ (k' : K) (r' : R), (t.insert k r)[k']? = some r' ∧ owner r' = c ∧ g ∈ attrs r') ↔
      (owner r = c ∧ g ∈ attrs r) ∨
        ∃ (k' : K) (r' : R), k ≠ k' ∧ t[k']? = some r' ∧ owner r' = c ∧ g ∈ attrs r' := by
    constructor
    · rintro ⟨k', r', hr, hc, hg⟩
      rw [FinMap.getElem?_insert] at hr
      split at hr
      · cases hr
        exact .inl ⟨hc, hg⟩
      · next hk => exact .inr ⟨k', r', hk, hr, hc, hg⟩
    · rintro (⟨hc, hg⟩ | ⟨k', r', hk, hr, hc, hg⟩)
      · exact ⟨k, r, by rw [FinMap.getElem?_insert, if_pos rfl], hc, hg⟩
      · exact ⟨k', r', by rw [FinMap.getElem?_insert, if_neg hk, hr], hc, hg⟩
  have hrest : c ∈ membersOf ((t[k]?).elim idx (unindex owner attrs (t.insert k r) idx)) g →
      ∃ (k' : K) (r' : R), (t.insert k r)[k']? = some r' ∧ owner r' = c ∧ g ∈ attrs r' := by
    cases hk : t[k]? with
    | none =>
      intro hm
      obtain ⟨k', r', hr, hc, hg⟩ := (h g c).mp hm
      have hne : k ≠ k' := by
        rintro rfl
        rw [hk] at hr
        cases hr
      exact hnew.mpr (.inr ⟨k', r', hne, hr, hc, hg⟩)
    | some old =>
      intro hm
      obtain ⟨hm, hleft⟩ := mem_unindex.mp hm
      obtain ⟨k', r', hr, hc, hg⟩ := (h g c).mp hm
      by_cases hkk : k = k'
      · -- The row that went: its owner stays only where another row keeps it.
        subst hkk
        rw [hk] at hr
        cases hr
        by_contra hno
        exact hleft ⟨hc, hg, Bool.eq_false_iff.mpr fun hu => hno (stillUsed_iff.mp hu)⟩
      · exact hnew.mpr (.inr ⟨k', r', hkk, hr, hc, hg⟩)
  have hkeep : (∃ (k' : K) (r' : R), k ≠ k' ∧ t[k']? = some r' ∧ owner r' = c ∧ g ∈ attrs r') →
      c ∈ membersOf ((t[k]?).elim idx (unindex owner attrs (t.insert k r) idx)) g := by
    rintro ⟨k', r', hkk, hr, hc, hg⟩
    have hm : c ∈ membersOf idx g := (h g c).mpr ⟨k', r', hr, hc, hg⟩
    cases hk : t[k]? with
    | none => exact hm
    | some old =>
      refine mem_unindex.mpr ⟨hm, fun hleft => ?_⟩
      have hu := stillUsed_iff.mpr (hnew.mpr (.inr ⟨k', r', hkk, hr, hc, hg⟩))
      rw [hleft.2.2] at hu
      cases hu
  constructor
  · rintro (hm | ⟨hc, hg⟩)
    · exact hrest hm
    · exact hnew.mpr (.inl ⟨hc, hg⟩)
  · intro hex
    rcases hnew.mp hex with ⟨hc, hg⟩ | hother
    · exact .inr ⟨hc, hg⟩
    · exact .inl (hkeep hother)

/-- A row is removed. -/
theorem Indexes.erase {t : FinMap K R} {idx : FinMap G (FinSet C)} (h : Indexes owner attrs t idx) (k : K) :
    Indexes owner attrs (t.erase k) ((t[k]?).elim idx (unindex owner attrs (t.erase k) idx)) := by
  intro g c
  have hnew : (∃ (k' : K) (r' : R), (t.erase k)[k']? = some r' ∧ owner r' = c ∧ g ∈ attrs r') ↔
      ∃ (k' : K) (r' : R), k ≠ k' ∧ t[k']? = some r' ∧ owner r' = c ∧ g ∈ attrs r' := by
    simp only [FinMap.getElem?_erase]
    constructor
    · rintro ⟨k', r', hr, hc, hg⟩
      split at hr
      · cases hr
      · next hk => exact ⟨k', r', hk, hr, hc, hg⟩
    · rintro ⟨k', r', hk, hr, hc, hg⟩
      exact ⟨k', r', by rw [if_neg hk, hr], hc, hg⟩
  cases hk : t[k]? with
  | none =>
    have ht : t.erase k = t := FinMap.ext fun k' => by
      rw [FinMap.getElem?_erase]
      split
      · next hkk => rw [← hkk, hk]
      · rfl
    rw [Option.elim_none, ht]
    exact h g c
  | some old =>
    rw [Option.elim_some, mem_unindex]
    constructor
    · rintro ⟨hm, hleft⟩
      by_contra hno
      obtain ⟨k', r', hr, hc, hg⟩ := (h g c).mp hm
      by_cases hkk : k = k'
      · subst hkk
        rw [hk] at hr
        cases hr
        exact hleft ⟨hc, hg, Bool.eq_false_iff.mpr fun hu => hno (stillUsed_iff.mp hu)⟩
      · exact hno (hnew.mpr ⟨k', r', hkk, hr, hc, hg⟩)
    · intro hex
      obtain ⟨k', r', -, hr, hc, hg⟩ := hnew.mp hex
      refine ⟨(h g c).mpr ⟨k', r', hr, hc, hg⟩, fun hleft => ?_⟩
      have hu := stillUsed_iff.mpr hex
      rw [hleft.2.2] at hu
      cases hu

omit [DecidableEq G] [LawfulEqOrd K] [DecidableEq K] [DecidableEq C] in
/-- Every row of one owner is removed. -/
theorem Indexes.dropMember {t t' : FinMap K R} {idx : FinMap G (FinSet C)} (h : Indexes owner attrs t idx)
    {c : C} (ht : ∀ (k : K) (r : R), t'[k]? = some r ↔ t[k]? = some r ∧ owner r ≠ c) :
    Indexes owner attrs t' (dropMember idx c) := by
  intro g k
  rw [mem_dropMember, h g k]
  constructor
  · rintro ⟨⟨i, r, hr, hk, hg⟩, hne⟩
    exact ⟨i, r, (ht i r).mpr ⟨hr, fun hc => hne (hc.symm.trans hk)⟩, hk, hg⟩
  · rintro ⟨i, r, hr, hk, hg⟩
    obtain ⟨hr, hne⟩ := (ht i r).mp hr
    exact ⟨⟨i, r, hr, hk, hg⟩, fun hc => hne (hk.trans hc.symm)⟩

end Rows

end Index

end BrewServer
