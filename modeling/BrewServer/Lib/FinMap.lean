import Mathlib.Data.List.MinMax
import Mathlib.Data.Prod.Lex

/-!
# Finite maps and sets over a lawful comparison

Both are the extensional search trees of the standard library, so two maps with
the same lookups are equal and a table can be evaluated. The lemmas restate the
lookup rules with an equation between keys in place of a comparison.
-/

namespace BrewServer

open Std

abbrev FinMap (K : Type) (V : Type) [Ord K] := ExtTreeMap K V compare

abbrev FinSet (K : Type) [Ord K] := ExtTreeSet K compare

/-- Keys that are pairs are ordered lexicographically. -/
abbrev PairMap (K L : Type) (V : Type) [Ord K] [Ord L] := ExtTreeMap (K × L) V lexOrd.compare

namespace FinSet

variable {K : Type} {cmp : K → K → Ordering} [TransCmp cmp] [LawfulEqCmp cmp]

theorem mem_insert {s : ExtTreeSet K cmp} {a k : K} : k ∈ s.insert a ↔ a = k ∨ k ∈ s := by
  rw [ExtTreeSet.mem_insert, LawfulEqCmp.compare_eq_iff_eq]

theorem mem_erase {s : ExtTreeSet K cmp} {a k : K} : k ∈ s.erase a ↔ a ≠ k ∧ k ∈ s := by
  rw [ExtTreeSet.mem_erase, ne_eq, ne_eq, LawfulEqCmp.compare_eq_iff_eq]

theorem mem_filter {s : ExtTreeSet K cmp} {p : K → Bool} {k : K} :
    k ∈ s.filter p ↔ k ∈ s ∧ p k = true := by
  simp [ExtTreeSet.mem_filter]

theorem ext {s t : ExtTreeSet K cmp} (h : ∀ k, k ∈ s ↔ k ∈ t) : s = t := ExtTreeSet.ext_mem h

theorem isEmpty_iff_forall {s : ExtTreeSet K cmp} : s.isEmpty = true ↔ ∀ k, k ∉ s := by
  rw [ExtTreeSet.isEmpty_iff]
  constructor
  · rintro rfl k
    exact ExtTreeSet.not_mem_empty
  · intro h
    exact ext fun k => ⟨fun hk => absurd hk (h k), fun hk => absurd hk ExtTreeSet.not_mem_empty⟩

theorem mem_foldl_insert {l : List K} {s : ExtTreeSet K cmp} {k : K} :
    k ∈ l.foldl (·.insert ·) s ↔ k ∈ s ∨ k ∈ l := by
  induction l generalizing s with
  | nil => simp
  | cons a l ih =>
    rw [List.foldl_cons, ih, mem_insert, List.mem_cons, or_assoc, or_left_comm, eq_comm]

theorem mem_foldl_erase {l : List K} {s : ExtTreeSet K cmp} {k : K} :
    k ∈ l.foldl (·.erase ·) s ↔ k ∈ s ∧ k ∉ l := by
  induction l generalizing s with
  | nil => simp
  | cons a l ih =>
    rw [List.foldl_cons, ih, mem_erase, List.mem_cons, not_or, ne_comm, and_right_comm, and_comm, ne_eq]

section OfList

variable {K : Type} [Ord K] [TransOrd K] [LawfulEqOrd K]

/-- The members of a list. -/
def ofList (l : List K) : FinSet K := ExtTreeSet.ofList l compare

theorem mem_ofList [BEq K] [LawfulBEq K] {l : List K} {k : K} : k ∈ ofList l ↔ k ∈ l := by
  unfold ofList
  rw [ExtTreeSet.mem_ofList, List.contains_iff_mem]

theorem nodup_toList {s : FinSet K} : s.toList.Nodup := by
  refine ExtTreeSet.distinct_toList.imp fun hne heq => ?_
  rw [heq] at hne
  exact hne ReflCmp.compare_self

end OfList

end FinSet

namespace FinMap

section Lookup

variable {K V : Type} {cmp : K → K → Ordering} [TransCmp cmp] [LawfulEqCmp cmp]

theorem getElem?_insert [DecidableEq K] {m : ExtTreeMap K V cmp} {a k : K} {v : V} :
    (m.insert a v)[k]? = if a = k then some v else m[k]? := by
  rw [ExtTreeMap.getElem?_insert]
  simp only [LawfulEqCmp.compare_eq_iff_eq]

/-- Another value than the new one was there before. -/
theorem getElem?_of_insert [DecidableEq K] {m : ExtTreeMap K V cmp} {a k : K} {v u : V}
    (h : (m.insert a v)[k]? = some u) (hne : v ≠ u) : m[k]? = some u := by
  rw [getElem?_insert] at h
  split at h
  · exact absurd (Option.some.inj h) hne
  · exact h

theorem getElem?_of_insert_eq_none [DecidableEq K] {m : ExtTreeMap K V cmp} {a k : K} {v : V}
    (h : (m.insert a v)[k]? = none) : m[k]? = none := by
  rw [getElem?_insert] at h
  split at h
  · cases h
  · exact h

theorem getElem?_erase [DecidableEq K] {m : ExtTreeMap K V cmp} {a k : K} :
    (m.erase a)[k]? = if a = k then none else m[k]? := by
  rw [ExtTreeMap.getElem?_erase]
  simp only [LawfulEqCmp.compare_eq_iff_eq]

/-- A new entry is taken back. -/
theorem erase_insert [DecidableEq K] {m : ExtTreeMap K V cmp} {a : K} {v : V} (h : m[a]? = none) :
    (m.insert a v).erase a = m := by
  apply ExtTreeMap.ext_getElem?
  intro k
  rw [getElem?_erase, getElem?_insert]
  split
  · next hk => rw [← hk, h]
  · rfl

theorem getElem?_modify [DecidableEq K] {m : ExtTreeMap K V cmp} {a k : K} {f : V → V} :
    (m.modify a f)[k]? = if a = k then m[k]?.map f else m[k]? := by
  rw [ExtTreeMap.getElem?_modify]
  simp only [LawfulEqCmp.compare_eq_iff_eq]
  split
  · next h => rw [h]
  · rfl

theorem modify_eq_insert [DecidableEq K] {m : ExtTreeMap K V cmp} {a : K} {v : V} {f : V → V} (h : m[a]? = some v) :
    m.modify a f = m.insert a (f v) := by
  apply ExtTreeMap.ext_getElem?
  intro k
  rw [getElem?_modify, getElem?_insert]
  split
  · next hk => rw [← hk, h, Option.map_some]
  · rfl

omit [LawfulEqCmp cmp] in
theorem mem_iff {m : ExtTreeMap K V cmp} {k : K} : k ∈ m ↔ ∃ v, m[k]? = some v := by
  rw [ExtTreeMap.mem_iff_isSome_getElem?, Option.isSome_iff_exists]

omit [LawfulEqCmp cmp] in
theorem mem_of_getElem? {m : ExtTreeMap K V cmp} {k : K} {v : V} (h : m[k]? = some v) : k ∈ m :=
  mem_iff.mpr ⟨v, h⟩

theorem mem_insert {m : ExtTreeMap K V cmp} {a k : K} {v : V} :
    k ∈ m.insert a v ↔ a = k ∨ k ∈ m := by
  rw [ExtTreeMap.mem_insert, LawfulEqCmp.compare_eq_iff_eq]

theorem mem_erase {m : ExtTreeMap K V cmp} {a k : K} : k ∈ m.erase a ↔ a ≠ k ∧ k ∈ m := by
  rw [ExtTreeMap.mem_erase, ne_eq, ne_eq, LawfulEqCmp.compare_eq_iff_eq]

/-- The entries are the lookups that succeed. -/
theorem mem_toList {m : ExtTreeMap K V cmp} {k : K} {v : V} :
    (k, v) ∈ m.toList ↔ m[k]? = some v := ExtTreeMap.mem_toList_iff_getElem?_eq_some

theorem getElem?_filter {m : ExtTreeMap K V cmp} {p : K → V → Bool} {k : K} {v : V} :
    (m.filter p)[k]? = some v ↔ m[k]? = some v ∧ p k v = true := by
  rw [ExtTreeMap.getElem?_filter', Option.filter_eq_some_iff]

theorem getElem?_map {W : Type} {m : ExtTreeMap K V cmp} {f : K → V → W} {k : K} :
    (m.map f)[k]? = m[k]?.map (f k) := by
  rw [ExtTreeMap.getElem?_map]

theorem ext {m n : ExtTreeMap K V cmp} (h : ∀ k : K, m[k]? = n[k]?) : m = n :=
  ExtTreeMap.ext_getElem? h

theorem isEmpty_iff_forall {m : ExtTreeMap K V cmp} : m.isEmpty = true ↔ ∀ k : K, m[k]? = none := by
  rw [ExtTreeMap.isEmpty_iff]
  constructor
  · rintro rfl k
    exact ExtTreeMap.getElem?_empty
  · intro h
    exact ext fun k => by rw [h k, ExtTreeMap.getElem?_empty]

theorem nodup_keys {m : ExtTreeMap K V cmp} : m.keys.Nodup := by
  refine ExtTreeMap.distinct_keys.imp fun hne heq => ?_
  rw [heq] at hne
  exact hne ReflCmp.compare_self

end Lookup

section Keys

variable {K V : Type} [Ord K] [TransOrd K] [LawfulEqOrd K]

/-- The keys of a map as a set. -/
def keySet (m : FinMap K V) : FinSet K := FinSet.ofList m.keys

theorem mem_keySet [BEq K] [LawfulBEq K] {m : FinMap K V} {k : K} : k ∈ keySet m ↔ k ∈ m := by
  rw [keySet, FinSet.mem_ofList, ExtTreeMap.mem_keys]

theorem nodup_toList {m : FinMap K V} : m.toList.Nodup := by
  refine ExtTreeMap.distinct_keys_toList.imp fun hne heq => ?_
  rw [heq] at hne
  exact hne ReflCmp.compare_self

/-- Erasing a key leaves the other entries in their order. -/
theorem toList_erase [DecidableEq K] {m : FinMap K V} {a : K} : (m.erase a).toList = m.toList.filter (·.1 ≠ a) := by
  have hperm : (m.erase a).toList.Perm (m.toList.filter (·.1 ≠ a)) := by
    refine (List.perm_ext_iff_of_nodup nodup_toList (nodup_toList.filter _)).mpr ?_
    rintro ⟨k, v⟩
    rw [mem_toList, getElem?_erase, List.mem_filter, mem_toList, decide_eq_true_eq]
    by_cases h : a = k
    · simp [h]
    · simp [h, Ne.symm h]
  refine List.Perm.eq_of_pairwise ?_ ExtTreeMap.ordered_keys_toList
    (ExtTreeMap.ordered_keys_toList.sublist List.filter_sublist) hperm
  intro x y _ _ hlt hgt
  rw [OrientedCmp.gt_of_lt hlt] at hgt
  cases hgt

theorem perm_toList_of_getElem? [DecidableEq K] {m : FinMap K V} {a : K} {v : V} (h : m[a]? = some v) :
    m.toList.Perm ((a, v) :: (m.erase a).toList) := by
  have hnot : (a, v) ∉ (m.erase a).toList := by
    rw [mem_toList, getElem?_erase, if_pos rfl]
    exact nofun
  refine (List.perm_ext_iff_of_nodup nodup_toList (List.nodup_cons.mpr ⟨hnot, nodup_toList⟩)).mpr ?_
  rintro ⟨k, w⟩
  rw [List.mem_cons, mem_toList, mem_toList, getElem?_erase]
  by_cases hk : a = k
  · subst hk
    simp [h, eq_comm]
  · simp [hk, Ne.symm hk]

theorem perm_toList_insert [DecidableEq K] {m : FinMap K V} {a : K} {v : V} :
    (m.insert a v).toList.Perm ((a, v) :: (m.erase a).toList) := by
  have hsame : (m.insert a v).erase a = m.erase a := by
    refine ext fun k => ?_
    rw [getElem?_erase, getElem?_erase, getElem?_insert]
    split <;> rfl
  rw [← hsame]
  exact perm_toList_of_getElem? (getElem?_insert.trans (if_pos rfl))

section Totals

variable {M : Type} [Add M] [Std.Associative (α := M) (· + ·)] [Std.Commutative (α := M) (· + ·)] [DecidableEq K]
  {z : M} {f : V → M} {m : FinMap K V} {a : K} {v : V}

/-- What the values of a map add up to. -/
def total (z : M) (f : V → M) (m : FinMap K V) : M := (m.toList.map fun e => f e.2).foldr (· + ·) z

omit [Std.Associative (α := M) (· + ·)] [Std.Commutative (α := M) (· + ·)] [DecidableEq K] in
theorem total_empty : total z f (∅ : FinMap K V) = z := by
  have hnil : (∅ : FinMap K V).toList = [] := by
    rw [List.eq_nil_iff_forall_not_mem]
    rintro ⟨k, v⟩ hmem
    rw [mem_toList, ExtTreeMap.getElem?_empty] at hmem
    cases hmem
  rw [total, hnil]
  rfl

theorem foldr_add_perm {xs ys : List M} (h : xs.Perm ys) : xs.foldr (· + ·) z = ys.foldr (· + ·) z := by
  refine h.foldr_eq' ?_ z
  intro x _ y _ w
  have hassoc : ∀ x y z : M, x + y + z = x + (y + z) := Std.Associative.assoc
  have hcomm : x + y = y + x := Std.Commutative.comm x y
  rw [← hassoc, ← hcomm, hassoc]

theorem total_of_getElem? (h : m[a]? = some v) : total z f m = f v + total z f (m.erase a) :=
  foldr_add_perm ((perm_toList_of_getElem? h).map fun e : K × V => f e.2)

theorem total_insert : total z f (m.insert a v) = f v + total z f (m.erase a) :=
  foldr_add_perm (perm_toList_insert.map fun e : K × V => f e.2)

theorem total_insert_new (h : m[a]? = none) : total z f (m.insert a v) = f v + total z f m := by
  have hsame : m.erase a = m := by
    apply ext
    intro k
    rw [getElem?_erase]
    split
    · next hk => rw [← hk, h]
    · rfl
  rw [total_insert, hsame]

/-- An entry takes the place of another. -/
theorem total_insert_old {w : V} (h : m[a]? = some w) : f w + total z f (m.insert a v) = f v + total z f m := by
  have hassoc : ∀ x y z : M, x + y + z = x + (y + z) := Std.Associative.assoc
  have hcomm : f w + f v = f v + f w := Std.Commutative.comm _ _
  rw [total_insert, total_of_getElem? h, ← hassoc, hcomm, hassoc]

end Totals

end Keys

end FinMap

section Argmin

variable {α β : Type} [LinearOrder β] {f g : α → β}

/-- A minimum depends only on how the members of the list are measured. -/
theorem argmin_congr {l : List α} (h : ∀ x ∈ l, f x = g x) : l.argmin f = l.argmin g := by
  induction l with
  | nil => rfl
  | cons x l ih =>
    have hl : l.argmin f = l.argmin g := ih fun y hy => h y (List.mem_cons_of_mem x hy)
    rw [List.argmin_cons, List.argmin_cons, hl]
    cases hm : l.argmin g with
    | none => rfl
    | some m =>
      dsimp only
      rw [h x List.mem_cons_self, h m (List.mem_cons_of_mem x (List.argmin_mem hm))]

end Argmin

end BrewServer
