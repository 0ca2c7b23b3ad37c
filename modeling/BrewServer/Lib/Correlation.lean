import BrewServer.Lib.Transition
import Mathlib.Logic.Function.Basic

/-!
# Answers matched by a key

A request waits for its answer under a key. The table remembers one waiter for each key,
the latest, and an answer completes whoever stands under its key. Answers reach their own
waiters exactly where none comes while a later request has its key.
-/

namespace BrewServer.Correlation

/-- What became of a waiter. -/
inductive Outcome
  | waiting
  /-- It was given the answer to request `n`. -/
  | completed (n : ℕ)
  | failed
  deriving DecidableEq

/-- A request, known by its number. -/
structure Request (K : Type) where
  /-- The key its answer carries. -/
  key : Option K
  /-- Whether somebody waits for the answer. -/
  waits : Bool
  expired : Bool := false
  answered : Bool := false
  /-- Whether the answer came before the time was over. -/
  inTime : Bool := false
  outcome : Outcome
  deriving DecidableEq

namespace Request

variable {K : Type}

/-- A waiter still waiting gives up. -/
def drop (r : Request K) : Request K := if r.outcome = .waiting then { r with outcome := .failed } else r

def expire (r : Request K) : Request K := { r.drop with expired := true }

def answer (r : Request K) : Request K := { r with answered := true, inTime := !r.expired }

/-- A waiter still waiting is given the answer to request `n`. -/
def complete (n : ℕ) (r : Request K) : Request K :=
  if r.outcome = .waiting then { r with outcome := .completed n } else r

end Request

/-- The requests in order, and the table of waiters. -/
structure Book (K : Type) where
  requests : List (Request K)
  pending : K → Option ℕ

/-- What happens to the requests. -/
inductive Op (K : Type)
  | issue (key : Option K) (waits : Bool)
  | expire (n : ℕ)
  | answer (n : ℕ)

namespace Book

variable {K : Type}

/-- The waiter that a new one takes the place of gives up. -/
def dropAt (rs : List (Request K)) (old : Option ℕ) : List (Request K) := old.elim rs fun m => rs.modify m .drop

def issue [DecidableEq K] (b : Book K) (key : Option K) (waits : Bool) : Book K :=
  match key, waits with
  | some k, true =>
    { requests := dropAt b.requests (b.pending k) ++ [{ key, waits := true, outcome := .waiting }]
      pending := Function.update b.pending k (some b.requests.length) }
  | _, _ => { b with requests := b.requests ++ [{ key, waits := false, outcome := .failed }] }

def expire (b : Book K) (n : ℕ) : Book K := { b with requests := b.requests.modify n .expire }

/-- A request is answered once. -/
def answer [DecidableEq K] (b : Book K) (n : ℕ) : Book K :=
  match b.requests[n]? with
  | none => b
  | some r =>
    if r.answered then b
    else
      match r.key with
      | none => { b with requests := b.requests.modify n .answer }
      | some k =>
        { requests := ((b.pending k).elim (b.requests.modify n .answer) fun m =>
            (b.requests.modify n .answer).modify m (.complete n))
          pending := Function.update b.pending k none }

def next [DecidableEq K] (b : Book K) : Op K → Book K
  | .issue key waits => b.issue key waits
  | .expire n => b.expire n
  | .answer n => b.answer n

/-- Request `m` waits, or waited, under `k`. -/
def Waits (b : Book K) (k : K) (m : ℕ) (r : Request K) : Prop :=
  b.requests[m]? = some r ∧ r.key = some k ∧ r.waits = true

/-- No waiter was given another's answer, and an answer in time reached its waiter. -/
def Fair (b : Book K) : Prop :=
  ∀ (n : ℕ) (r : Request K), b.requests[n]? = some r →
    (∀ m, r.outcome = .completed m → m = n) ∧ (r.waits = true → r.inTime = true → r.outcome = .completed n)

/-- No other request under the key of an answer still waits, and none was issued after the
answered one unless its time is over. -/
def InTurn (b : Book K) : Op K → Prop
  | .answer n => ∀ (r : Request K) (k : K), b.requests[n]? = some r → r.answered = false → r.key = some k →
      ∀ (m : ℕ) (r' : Request K), b.Waits k m r' → m ≠ n →
        r'.outcome ≠ .waiting ∧ (r.waits = true → r.expired = false → m < n)
  | _ => True

/-- How the table and the requests hang together. -/
structure Good (b : Book K) : Prop where
  pending : ∀ (k : K) (m : ℕ), b.pending k = some m →
    ∃ r : Request K, b.Waits k m r ∧ (r.outcome = .waiting ∨ r.expired = true)
  waiting : ∀ (m : ℕ) (r : Request K), b.requests[m]? = some r → r.outcome = .waiting → r.expired = false ∧
    ∃ k : K, b.Waits k m r ∧ b.pending k = some m ∧ ∀ (l : ℕ) (r' : Request K), b.Waits k l r' → l ≤ m
  overtaken : ∀ (k : K) (n : ℕ) (r : Request K), b.Waits k n r → r.expired = false → r.outcome = .failed →
    ∃ (l : ℕ) (r' : Request K), n < l ∧ b.Waits k l r'
  completed : ∀ (n : ℕ) (r : Request K) (m : ℕ), b.requests[n]? = some r → r.outcome = .completed m →
    ∃ r' : Request K, b.requests[m]? = some r' ∧ r'.answered = true
  keyed : ∀ (n : ℕ) (r : Request K), b.requests[n]? = some r → r.waits = true → ∃ k : K, r.key = some k
  inTime : ∀ (n : ℕ) (r : Request K), b.requests[n]? = some r → r.inTime = true → r.answered = true

/-! ## One operation -/

section Edits

variable {b b' : Book K} {k : K} {m n j : ℕ} {r r' : Request K} {rs : List (Request K)} {f : ℕ → Request K → Request K}

/-- The requests of `b'` are those of `b`, each changed in what became of it. -/
structure Edits (b b' : Book K) (f : ℕ → Request K → Request K) : Prop where
  requests : ∀ j, b'.requests[j]? = (b.requests[j]?).map (f j)
  key : ∀ j r, (f j r).key = r.key
  waits : ∀ j r, (f j r).waits = r.waits

theorem Edits.of (h : Edits b b' f) (hr : b.requests[m]? = some r) : b'.requests[m]? = some (f m r) := by
  rw [h.requests, hr, Option.map_some]

theorem Edits.exists (h : Edits b b' f) (hr : b'.requests[m]? = some r') :
    ∃ r : Request K, b.requests[m]? = some r ∧ r' = f m r := by
  rw [h.requests] at hr
  obtain ⟨r, hold, rfl⟩ := Option.map_eq_some_iff.mp hr
  exact ⟨r, hold, rfl⟩

theorem Edits.waits_of (h : Edits b b' f) (hw : b.Waits k m r) : b'.Waits k m (f m r) :=
  ⟨h.of hw.1, (h.key m r).trans hw.2.1, (h.waits m r).trans hw.2.2⟩

theorem Edits.exists_waits (h : Edits b b' f) (hw : b'.Waits k m r') : ∃ r : Request K, b.Waits k m r ∧ r' = f m r := by
  obtain ⟨hr, hkey, hwaits⟩ := hw
  obtain ⟨r, hold, rfl⟩ := h.exists hr
  rw [h.key] at hkey
  rw [h.waits] at hwaits
  exact ⟨r, ⟨hold, hkey, hwaits⟩, rfl⟩

theorem getElem?_dropAt {old : Option ℕ} :
    (dropAt rs old)[j]? = (rs[j]?).map fun r => if old = some j then r.drop else r := by
  cases old with
  | none => simp [dropAt]
  | some m =>
    rw [dropAt, Option.elim_some, List.getElem?_modify]
    by_cases hm : m = j
    · simp [hm]
    · simp [hm]

theorem length_dropAt {old : Option ℕ} : (dropAt rs old).length = rs.length := by
  cases old with
  | none => rfl
  | some m => exact List.length_modify ..

theorem edits_expire : Edits b (b.expire n) fun j r => if n = j then r.expire else r := by
  constructor
  · intro j
    rw [expire, List.getElem?_modify]
    by_cases hn : n = j
    · simp [hn]
    · simp [hn]
  · intro j r
    split
    · unfold Request.expire Request.drop
      split <;> rfl
    · rfl
  · intro j r
    split
    · unfold Request.expire Request.drop
      split <;> rfl
    · rfl

end Edits

section Expire

variable {b : Book K} {n m : ℕ} {r : Request K}

theorem outcome_drop : r.drop.outcome = if r.outcome = .waiting then .failed else r.outcome := by
  unfold Request.drop
  split <;> rfl

theorem aside_drop : r.drop.expired = r.expired ∧ r.drop.answered = r.answered ∧ r.drop.inTime = r.inTime ∧
    r.drop.waits = r.waits ∧ r.drop.key = r.key := by
  unfold Request.drop
  split <;> exact ⟨rfl, rfl, rfl, rfl, rfl⟩

/-- A dropped waiter waits no more, and nothing else changes. -/
theorem drop_of_not_waiting (h : r.outcome ≠ .waiting) : r.drop = r := by
  unfold Request.drop
  exact if_neg h

/-- A waiter whose time is over waits no more. -/
theorem Good.expire (h : b.Good) : (b.expire n).Good := by
  have he := @edits_expire K b n
  constructor
  · intro k m hp
    obtain ⟨r, hw, hr⟩ := h.pending k m hp
    refine ⟨_, he.waits_of hw, ?_⟩
    split
    · right
      rfl
    · exact hr
  · intro m r' hr' hwaiting
    obtain ⟨r, hr, rfl⟩ := he.exists hr'
    have hne : n ≠ m := by
      rintro rfl
      rw [if_pos rfl] at hwaiting
      change r.drop.outcome = .waiting at hwaiting
      rw [outcome_drop] at hwaiting
      split at hwaiting
      · cases hwaiting
      · next hnot => exact hnot hwaiting
    rw [if_neg hne] at hwaiting ⊢
    obtain ⟨hexpired, k, hw, hp, hlast⟩ := h.waiting m r hr hwaiting
    refine ⟨hexpired, k, ?_, hp, ?_⟩
    · have hw' := he.waits_of hw
      rwa [if_neg hne] at hw'
    · intro l r' hl
      obtain ⟨r'', hl', -⟩ := he.exists_waits hl
      exact hlast l r'' hl'
  · intro k m r' hw' hexpired hfailed
    obtain ⟨r, hw, rfl⟩ := he.exists_waits hw'
    have hne : n ≠ m := by
      rintro rfl
      rw [if_pos rfl] at hexpired
      cases hexpired
    rw [if_neg hne] at hexpired hfailed
    obtain ⟨l, r', hlt, hl⟩ := h.overtaken k m r hw hexpired hfailed
    exact ⟨l, _, hlt, he.waits_of hl⟩
  · intro m r' l hr' hcompleted
    obtain ⟨r, hr, rfl⟩ := he.exists hr'
    have hold : r.outcome = .completed l := by
      split at hcompleted
      · change r.drop.outcome = .completed l at hcompleted
        rw [outcome_drop] at hcompleted
        split at hcompleted
        · cases hcompleted
        · exact hcompleted
      · exact hcompleted
    obtain ⟨r', hr', hanswered⟩ := h.completed m r l hr hold
    refine ⟨_, he.of hr', ?_⟩
    split
    · exact aside_drop.2.1.trans hanswered
    · exact hanswered
  · intro m r' hr' hwaits
    obtain ⟨r, hr, rfl⟩ := he.exists hr'
    rw [he.waits] at hwaits
    rw [he.key]
    exact h.keyed m r hr hwaits
  · intro m r' hr' hin
    obtain ⟨r, hr, rfl⟩ := he.exists hr'
    by_cases hn : n = m
    · rw [if_pos hn] at hin ⊢
      exact aside_drop.2.1.trans (h.inTime m r hr (aside_drop.2.2.1.symm.trans hin))
    · rw [if_neg hn] at hin ⊢
      exact h.inTime m r hr hin

theorem Fair.expire (h : b.Fair) : (b.expire n).Fair := by
  have he := @edits_expire K b n
  intro m r' hr'
  obtain ⟨r, hr, rfl⟩ := he.exists hr'
  obtain ⟨hown, htold⟩ := h m r hr
  by_cases hn : n = m
  · rw [if_pos hn]
    constructor
    · intro l hcompleted
      change r.drop.outcome = .completed l at hcompleted
      rw [outcome_drop] at hcompleted
      split at hcompleted
      · cases hcompleted
      · exact hown l hcompleted
    · intro hwaits hin
      have hdone := htold (aside_drop.2.2.2.1.symm.trans hwaits) (aside_drop.2.2.1.symm.trans hin)
      show r.drop.outcome = .completed m
      rw [drop_of_not_waiting (by simp [hdone])]
      exact hdone
  · rw [if_neg hn]
    exact ⟨hown, htold⟩

end Expire

/-! ## Issuing a request -/

section Issue

variable {b : Book K} {k : K} {key : Option K} {m : ℕ} {r r' : Request K}

/-- The waiter of a request whose answer somebody waits for. -/
def fresh (k : K) : Request K := { key := some k, waits := true, outcome := .waiting }

/-- A request whose answer nobody waits for. -/
def unheard (key : Option K) : Request K := { key, waits := false, outcome := .failed }

theorem getElem?_concat {α : Type} {xs : List α} {x y : α} (h : (xs ++ [x])[m]? = some y) :
    xs[m]? = some y ∨ m = xs.length ∧ y = x := by
  rcases Nat.lt_trichotomy m xs.length with hlt | heq | hgt
  · rw [List.getElem?_append_left hlt] at h
    exact Or.inl h
  · subst heq
    rw [List.getElem?_concat_length] at h
    exact Or.inr ⟨rfl, (Option.some.inj h).symm⟩
  · rw [List.getElem?_eq_none (by simp; omega)] at h
    cases h

theorem getElem?_append_of_some {rs : List (Request K)} {new : Request K} (h : rs[m]? = some r) :
    (rs ++ [new])[m]? = some r := by
  rw [List.getElem?_append_left (List.getElem?_eq_some_iff.mp h).1, h]

/-- A request of before a new one, dropped if its place under the key was taken. -/
def displaced (b : Book K) (k : K) (m : ℕ) (r : Request K) : Request K := if b.pending k = some m then r.drop else r

theorem aside_displaced : (displaced b k m r).expired = r.expired ∧ (displaced b k m r).answered = r.answered ∧
    (displaced b k m r).inTime = r.inTime ∧ (displaced b k m r).waits = r.waits ∧ (displaced b k m r).key = r.key := by
  unfold displaced
  split
  · exact aside_drop
  · exact ⟨rfl, rfl, rfl, rfl, rfl⟩

theorem displaced_completed {l : ℕ} : (displaced b k m r).outcome = .completed l ↔ r.outcome = .completed l := by
  unfold displaced
  split
  · rw [outcome_drop]
    split
    · next h => simp [h]
    · rfl
  · rfl

theorem Waits.unique {k' : K} (h : b.Waits k m r) (h' : b.Waits k' m r') : k = k' ∧ r = r' := by
  obtain ⟨hr, hkey, -⟩ := h
  obtain ⟨hr', hkey', -⟩ := h'
  rw [hr] at hr'
  cases hr'
  rw [hkey] at hkey'
  exact ⟨Option.some.inj hkey', rfl⟩

theorem Waits.lt (h : b.Waits k m r) : m < b.requests.length := (List.getElem?_eq_some_iff.mp h.1).1

theorem Good.not_displaced {k' : K} (h : b.Good) (hw : b.Waits k' m r) (hk : k' ≠ k) : displaced b k m r = r := by
  refine if_neg fun hp => hk ?_
  obtain ⟨r', hw', -⟩ := h.pending k m hp
  exact (hw.unique hw').1

variable [DecidableEq K]

theorem issue_waits : b.issue (some k) true =
    ⟨dropAt b.requests (b.pending k) ++ [fresh k], Function.update b.pending k (some b.requests.length)⟩ := rfl

theorem issue_unheard : b.issue key false = ⟨b.requests ++ [unheard key], b.pending⟩ := by
  cases key <;> rfl

theorem requests_issue (h : b.requests[m]? = some r) :
    (b.issue (some k) true).requests[m]? = some (displaced b k m r) := by
  rw [issue_waits]
  apply getElem?_append_of_some
  rw [getElem?_dropAt, h, Option.map_some]
  rfl

theorem requests_issue_last : (b.issue (some k) true).requests[b.requests.length]? = some (fresh k) := by
  rw [issue_waits]
  show (dropAt b.requests (b.pending k) ++ [fresh k])[b.requests.length]? = some (fresh k)
  rw [← @length_dropAt K b.requests (b.pending k)]
  exact List.getElem?_concat_length

theorem exists_requests_issue (h : (b.issue (some k) true).requests[m]? = some r') :
    (∃ r, b.requests[m]? = some r ∧ r' = displaced b k m r) ∨ m = b.requests.length ∧ r' = fresh k := by
  rw [issue_waits] at h
  rcases getElem?_concat h with hold | ⟨hm, hr⟩
  · rw [getElem?_dropAt] at hold
    obtain ⟨r, hr, rfl⟩ := Option.map_eq_some_iff.mp hold
    exact Or.inl ⟨r, hr, rfl⟩
  · exact Or.inr ⟨hm.trans length_dropAt, hr⟩

theorem Waits.issue {k' : K} (h : b.Waits k' m r) : (b.issue (some k) true).Waits k' m (displaced b k m r) :=
  ⟨requests_issue h.1, aside_displaced.2.2.2.2.trans h.2.1, aside_displaced.2.2.2.1.trans h.2.2⟩

theorem Waits.of_issue {k' : K} (h : (b.issue (some k) true).Waits k' m r') :
    (∃ r, b.Waits k' m r ∧ r' = displaced b k m r) ∨ m = b.requests.length ∧ r' = fresh k ∧ k' = k := by
  obtain ⟨hr', hkey, hwaits⟩ := h
  rcases exists_requests_issue hr' with ⟨r, hr, rfl⟩ | ⟨hm, rfl⟩
  · rw [aside_displaced.2.2.2.2] at hkey
    rw [aside_displaced.2.2.2.1] at hwaits
    exact Or.inl ⟨r, ⟨hr, hkey, hwaits⟩, rfl⟩
  · exact Or.inr ⟨hm, rfl, (Option.some.inj hkey).symm⟩

/-- The new waiter stands under its key, and the one it replaces waits no more. -/
theorem Good.issue_waits (h : b.Good) : (b.issue (some k) true).Good := by
  have hpending : ∀ k', (b.issue (some k) true).pending k' = if k' = k then some b.requests.length else b.pending k' :=
    fun k' => Function.update_apply ..
  constructor
  · intro k' m hp
    rw [hpending] at hp
    split at hp
    · next hk =>
      subst hk
      cases hp
      exact ⟨fresh k', ⟨requests_issue_last, rfl, rfl⟩, Or.inl rfl⟩
    · next hk =>
      obtain ⟨r, hw, hr⟩ := h.pending k' m hp
      have hw' := hw.issue (k := k)
      rw [h.not_displaced hw hk] at hw'
      exact ⟨r, hw', hr⟩
  · intro m r' hr' hwaiting
    rcases exists_requests_issue hr' with ⟨r, hr, rfl⟩ | ⟨rfl, rfl⟩
    · have hp : b.pending k ≠ some m := by
        intro hp
        rw [displaced, if_pos hp, outcome_drop] at hwaiting
        split at hwaiting
        · cases hwaiting
        · next hnot => exact hnot hwaiting
      rw [displaced, if_neg hp] at hwaiting hr' ⊢
      obtain ⟨hexpired, k', hw, hp', hlast⟩ := h.waiting m r hr hwaiting
      have hk : k' ≠ k := by
        rintro rfl
        exact hp hp'
      refine ⟨hexpired, k', ⟨hr', hw.2.1, hw.2.2⟩, ?_, ?_⟩
      · rw [hpending, if_neg hk]
        exact hp'
      · intro l r' hl
        rcases hl.of_issue with ⟨r'', hl', -⟩ | ⟨-, -, hk'⟩
        · exact hlast l r'' hl'
        · exact absurd hk' hk
    · refine ⟨rfl, k, ⟨requests_issue_last, rfl, rfl⟩, ?_, ?_⟩
      · rw [hpending, if_pos rfl]
      · intro l r' hl
        rcases hl.of_issue with ⟨r'', hl', -⟩ | ⟨hl', -, -⟩
        · exact Nat.le_of_lt hl'.lt
        · exact Nat.le_of_eq hl'
  · intro k' n r' hw' hexpired hfailed
    rcases hw'.of_issue with ⟨r, hw, rfl⟩ | ⟨-, rfl, -⟩
    · by_cases hp : b.pending k = some n
      · obtain ⟨r'', hw'', -⟩ := h.pending k n hp
        obtain ⟨rfl, -⟩ := hw.unique hw''
        exact ⟨b.requests.length, fresh k', hw.lt, requests_issue_last, rfl, rfl⟩
      · rw [displaced, if_neg hp] at hexpired hfailed
        obtain ⟨l, r', hlt, hl⟩ := h.overtaken k' n r hw hexpired hfailed
        exact ⟨l, _, hlt, hl.issue⟩
    · cases hfailed
  · intro n r' m hr' hcompleted
    rcases exists_requests_issue hr' with ⟨r, hr, rfl⟩ | ⟨-, rfl⟩
    · obtain ⟨r', hr', hanswered⟩ := h.completed n r m hr (displaced_completed.mp hcompleted)
      exact ⟨_, requests_issue hr', aside_displaced.2.1.trans hanswered⟩
    · cases hcompleted
  · intro n r' hr' hwaits
    rcases exists_requests_issue hr' with ⟨r, hr, rfl⟩ | ⟨-, rfl⟩
    · rw [aside_displaced.2.2.2.1] at hwaits
      rw [aside_displaced.2.2.2.2]
      exact h.keyed n r hr hwaits
    · exact ⟨k, rfl⟩
  · intro n r' hr' hin
    rcases exists_requests_issue hr' with ⟨r, hr, rfl⟩ | ⟨-, rfl⟩
    · rw [aside_displaced.2.2.1] at hin
      rw [aside_displaced.2.1]
      exact h.inTime n r hr hin
    · cases hin

theorem Fair.issue_waits (h : b.Fair) : (b.issue (some k) true).Fair := by
  intro n r' hr'
  rcases exists_requests_issue hr' with ⟨r, hr, rfl⟩ | ⟨-, rfl⟩
  · obtain ⟨hown, htold⟩ := h n r hr
    constructor
    · intro m hcompleted
      exact hown m (displaced_completed.mp hcompleted)
    · intro hwaits hin
      rw [aside_displaced.2.2.2.1] at hwaits
      rw [aside_displaced.2.2.1] at hin
      exact displaced_completed.mpr (htold hwaits hin)
  · constructor
    · intro m hcompleted
      cases hcompleted
    · intro _ hin
      cases hin

/-- A request that nobody waits for changes nothing. -/
theorem Good.issue_unheard (h : b.Good) : (b.issue key false).Good := by
  rw [Book.issue_unheard]
  constructor
  · intro k m hp
    obtain ⟨r, hw, hr⟩ := h.pending k m hp
    exact ⟨r, ⟨getElem?_append_of_some hw.1, hw.2⟩, hr⟩
  · intro m r hr hwaiting
    rcases getElem?_concat hr with hr | ⟨-, rfl⟩
    · obtain ⟨hexpired, k, hw, hp, hlast⟩ := h.waiting m r hr hwaiting
      refine ⟨hexpired, k, ⟨getElem?_append_of_some hw.1, hw.2⟩, hp, ?_⟩
      intro l r' hl
      rcases getElem?_concat hl.1 with hl' | ⟨-, rfl⟩
      · exact hlast l r' ⟨hl', hl.2⟩
      · cases hl.2.2
    · cases hwaiting
  · intro k n r hw hexpired hfailed
    rcases getElem?_concat hw.1 with hr | ⟨-, rfl⟩
    · obtain ⟨l, r', hlt, hl⟩ := h.overtaken k n r ⟨hr, hw.2⟩ hexpired hfailed
      exact ⟨l, r', hlt, getElem?_append_of_some hl.1, hl.2⟩
    · cases hw.2.2
  · intro n r m hr hcompleted
    rcases getElem?_concat hr with hr | ⟨-, rfl⟩
    · obtain ⟨r', hr', hanswered⟩ := h.completed n r m hr hcompleted
      exact ⟨r', getElem?_append_of_some hr', hanswered⟩
    · cases hcompleted
  · intro n r hr hwaits
    rcases getElem?_concat hr with hr | ⟨-, rfl⟩
    · exact h.keyed n r hr hwaits
    · cases hwaits
  · intro n r hr hin
    rcases getElem?_concat hr with hr | ⟨-, rfl⟩
    · exact h.inTime n r hr hin
    · cases hin

theorem Fair.issue_unheard (h : b.Fair) : (b.issue key false).Fair := by
  rw [Book.issue_unheard]
  intro n r hr
  rcases getElem?_concat hr with hr | ⟨-, rfl⟩
  · exact h n r hr
  · constructor
    · intro m hcompleted
      cases hcompleted
    · intro hwaits
      cases hwaits

theorem issue_none {waits : Bool} : b.issue none waits = b.issue none false := by cases waits <;> rfl

theorem Good.issue {waits : Bool} (h : b.Good) : (b.issue key waits).Good := by
  cases waits with
  | false => exact h.issue_unheard
  | true =>
    cases key with
    | none =>
      rw [issue_none]
      exact h.issue_unheard
    | some k => exact h.issue_waits

theorem Fair.issue {waits : Bool} (h : b.Fair) : (b.issue key waits).Fair := by
  cases waits with
  | false => exact h.issue_unheard
  | true =>
    cases key with
    | none =>
      rw [issue_none]
      exact h.issue_unheard
    | some k => exact h.issue_waits

end Issue

/-! ## Answering one -/

section Answer

variable {b : Book K} {k : K} {m n : ℕ} {r r' : Request K}

theorem outcome_complete : (r.complete n).outcome = if r.outcome = .waiting then .completed n else r.outcome := by
  unfold Request.complete
  split <;> rfl

theorem aside_complete : (r.complete n).expired = r.expired ∧ (r.complete n).answered = r.answered ∧
    (r.complete n).inTime = r.inTime ∧ (r.complete n).waits = r.waits ∧ (r.complete n).key = r.key := by
  unfold Request.complete
  split <;> exact ⟨rfl, rfl, rfl, rfl, rfl⟩

/-- Request `j` after the answer to `n`, where `old` stands under the key. -/
def settled (old : Option ℕ) (n j : ℕ) (r : Request K) : Request K :=
  if old = some j then (if n = j then r.answer else r).complete n else if n = j then r.answer else r

theorem outcome_settled {old : Option ℕ} : (settled old n m r).outcome =
    if old = some m ∧ r.outcome = .waiting then .completed n else r.outcome := by
  have hanswer : (if n = m then r.answer else r).outcome = r.outcome := by split <;> rfl
  unfold settled
  by_cases hold : old = some m
  · rw [if_pos hold, outcome_complete, hanswer]
    simp [hold]
  · rw [if_neg hold, hanswer, if_neg fun h => hold h.1]

theorem aside_settled {old : Option ℕ} : (settled old n m r).expired = r.expired ∧
    (settled old n m r).answered = (r.answered || decide (n = m)) ∧
    (settled old n m r).inTime = (if n = m then !r.expired else r.inTime) ∧
    (settled old n m r).waits = r.waits ∧ (settled old n m r).key = r.key := by
  have hanswer : (if n = m then r.answer else r).expired = r.expired ∧
      (if n = m then r.answer else r).answered = (r.answered || decide (n = m)) ∧
      (if n = m then r.answer else r).inTime = (if n = m then !r.expired else r.inTime) ∧
      (if n = m then r.answer else r).waits = r.waits ∧ (if n = m then r.answer else r).key = r.key := by
    by_cases hn : n = m
    · simp [hn, Request.answer]
    · simp [hn]
  unfold settled
  split
  · obtain ⟨hexpired, hanswered, hin, hwaits, hkey⟩ := @aside_complete K n (if n = m then r.answer else r)
    rw [hexpired, hanswered, hin, hwaits, hkey]
    exact hanswer
  · exact hanswer

/-- An answer leaves the table and the requests hanging together. -/
theorem Good.settled {b' : Book K} {old : Option ℕ} (h : b.Good) (he : Edits b b' (settled old n))
    (hp : ∀ k m, b'.pending k = some m ↔ b.pending k = some m ∧ old ≠ some m) (hr : b.requests[n]? = some r) :
    b'.Good := by
  constructor
  · intro k m hpm
    obtain ⟨hpm, hold⟩ := (hp k m).mp hpm
    obtain ⟨r₀, hw, hr₀⟩ := h.pending k m hpm
    refine ⟨_, he.waits_of hw, ?_⟩
    rw [outcome_settled, aside_settled.1, if_neg fun hm => hold hm.1]
    exact hr₀
  · intro m r' hr' hwaiting
    obtain ⟨r₀, hr₀, rfl⟩ := he.exists hr'
    rw [outcome_settled] at hwaiting
    split at hwaiting
    · cases hwaiting
    · next hold =>
      obtain ⟨hexpired, k, hw, hpm, hlast⟩ := h.waiting m r₀ hr₀ hwaiting
      refine ⟨aside_settled.1.trans hexpired, k, he.waits_of hw, ?_, ?_⟩
      · exact (hp k m).mpr ⟨hpm, fun hm => hold ⟨hm, hwaiting⟩⟩
      · intro l r' hl
        obtain ⟨r'', hl', -⟩ := he.exists_waits hl
        exact hlast l r'' hl'
  · intro k m r' hw' hexpired hfailed
    obtain ⟨r₀, hw, rfl⟩ := he.exists_waits hw'
    rw [aside_settled.1] at hexpired
    rw [outcome_settled] at hfailed
    split at hfailed
    · cases hfailed
    · obtain ⟨l, r', hlt, hl⟩ := h.overtaken k m r₀ hw hexpired hfailed
      exact ⟨l, _, hlt, he.waits_of hl⟩
  · intro m r' l hr' hcompleted
    obtain ⟨r₀, hr₀, rfl⟩ := he.exists hr'
    rw [outcome_settled] at hcompleted
    split at hcompleted
    · cases hcompleted
      refine ⟨_, he.of hr, ?_⟩
      rw [aside_settled.2.1]
      simp
    · obtain ⟨r', hr', hanswered⟩ := h.completed m r₀ l hr₀ hcompleted
      refine ⟨_, he.of hr', ?_⟩
      rw [aside_settled.2.1, hanswered, Bool.true_or]
  · intro m r' hr' hwaits
    obtain ⟨r₀, hr₀, rfl⟩ := he.exists hr'
    rw [he.waits] at hwaits
    rw [he.key]
    exact h.keyed m r₀ hr₀ hwaits
  · intro m r' hr' hin
    obtain ⟨r₀, hr₀, rfl⟩ := he.exists hr'
    rw [aside_settled.2.2.1] at hin
    rw [aside_settled.2.1]
    by_cases hn : n = m
    · simp [hn]
    · rw [if_neg hn] at hin
      rw [h.inTime m r₀ hr₀ hin, Bool.true_or]

variable [DecidableEq K]

/-- What an answer that tells somebody something does. -/
theorem answer_eq (hr : b.requests[n]? = some r) (hanswered : r.answered = false) (hkey : r.key = some k) :
    b.answer n = ⟨(b.pending k).elim (b.requests.modify n .answer) fun m =>
      (b.requests.modify n .answer).modify m (.complete n), Function.update b.pending k none⟩ := by
  unfold answer
  rw [hr]
  simp [hanswered, hkey]

theorem edits_answer (hr : b.requests[n]? = some r) (hanswered : r.answered = false) (hkey : r.key = some k) :
    Edits b (b.answer n) (settled (b.pending k) n) := by
  constructor
  · intro j
    rw [answer_eq hr hanswered hkey]
    cases hp : b.pending k with
    | none =>
      show (b.requests.modify n .answer)[j]? = _
      rw [List.getElem?_modify]
      cases b.requests[j]? <;> simp [settled]
    | some m =>
      show ((b.requests.modify n .answer).modify m (.complete n))[j]? = _
      rw [List.getElem?_modify, List.getElem?_modify]
      by_cases hm : m = j
      · cases b.requests[j]? <;> simp [settled, hm]
      · cases b.requests[j]? <;> simp [settled, hm]
  · intro j r
    exact aside_settled.2.2.2.2
  · intro j r
    exact aside_settled.2.2.2.1

theorem pending_answer (hr : b.requests[n]? = some r) (hanswered : r.answered = false) (hkey : r.key = some k)
    (k' : K) : (b.answer n).pending k' = if k' = k then none else b.pending k' := by
  rw [answer_eq hr hanswered hkey]
  exact Function.update_apply ..

/-- An answer whose request nobody could wait for. -/
theorem answer_unkeyed (hr : b.requests[n]? = some r) (hanswered : r.answered = false) (hkey : r.key = none) :
    b.answer n = { b with requests := b.requests.modify n .answer } := by
  unfold answer
  rw [hr]
  simp [hanswered, hkey]

theorem edits_unkeyed (hr : b.requests[n]? = some r) (hanswered : r.answered = false) (hkey : r.key = none) :
    Edits b (b.answer n) (settled none n) := by
  rw [answer_unkeyed hr hanswered hkey]
  constructor
  · intro j
    show (b.requests.modify n .answer)[j]? = _
    rw [List.getElem?_modify]
    cases b.requests[j]? <;> simp [settled]
  · intro j r
    exact aside_settled.2.2.2.2
  · intro j r
    exact aside_settled.2.2.2.1

theorem answer_none (hr : b.requests[n]? = none) : b.answer n = b := by
  unfold answer
  rw [hr]

theorem answer_answered (hr : b.requests[n]? = some r) (hanswered : r.answered = true) : b.answer n = b := by
  unfold answer
  rw [hr]
  simp [hanswered]

theorem Good.answer (h : b.Good) : (b.answer n).Good := by
  cases hr : b.requests[n]? with
  | none =>
    rw [answer_none hr]
    exact h
  | some r =>
    cases hanswered : r.answered with
    | true =>
      rw [answer_answered hr hanswered]
      exact h
    | false =>
      cases hkey : r.key with
      | none =>
        refine h.settled (edits_unkeyed hr hanswered hkey) ?_ hr
        intro k m
        rw [answer_unkeyed hr hanswered hkey]
        simp
      | some k =>
        refine h.settled (edits_answer hr hanswered hkey) ?_ hr
        intro k' m
        rw [pending_answer hr hanswered hkey]
        by_cases hk : k' = k
        · subst hk
          simp
        · rw [if_neg hk]
          constructor
          · intro hp
            refine ⟨hp, fun hp' => hk ?_⟩
            obtain ⟨r₁, hw₁, -⟩ := h.pending k' m hp
            obtain ⟨r₂, hw₂, -⟩ := h.pending k m hp'
            exact (hw₁.unique hw₂).1
          · intro hp
            exact hp.1

/-- In turn, an answer reaches its own waiter or nobody. -/
theorem Fair.answer_inTurn (h : b.Fair) (hgood : b.Good) (hr : b.requests[n]? = some r)
    (hanswered : r.answered = false) (hkey : r.key = some k) (hturn : b.InTurn (.answer n)) : (b.answer n).Fair := by
  have he := edits_answer hr hanswered hkey
  have hturn := hturn r k hr hanswered hkey
  intro j r' hr'
  obtain ⟨r₀, hr₀, rfl⟩ := he.exists hr'
  obtain ⟨hown, htold⟩ := h j r₀ hr₀
  constructor
  · intro m hcompleted
    rw [outcome_settled] at hcompleted
    split at hcompleted
    · next hold =>
      cases hcompleted
      obtain ⟨r₁, hw, -⟩ := hgood.pending k j hold.1
      by_contra hne
      have hwaiting := (hturn j r₁ hw fun hj => hne hj.symm).1
      rw [hw.1] at hr₀
      cases hr₀
      exact hwaiting hold.2
    · exact hown m hcompleted
  · intro hwaits hin
    rw [aside_settled.2.2.2.1] at hwaits
    rw [aside_settled.2.2.1] at hin
    rw [outcome_settled]
    by_cases hn : n = j
    · subst hn
      rw [hr] at hr₀
      cases hr₀
      rw [if_pos rfl] at hin
      have hexpired : r.expired = false := by simpa using hin
      have hw : b.Waits k n r := ⟨hr, hkey, hwaits⟩
      have hwaiting : r.outcome = .waiting := by
        cases houtcome : r.outcome with
        | waiting => rfl
        | completed m =>
          obtain ⟨r₁, hr₁, hdone⟩ := hgood.completed n r m hr houtcome
          rw [hown m houtcome, hr] at hr₁
          cases hr₁
          rw [hanswered] at hdone
          cases hdone
        | failed =>
          obtain ⟨l, r₁, hlt, hl⟩ := hgood.overtaken k n r hw hexpired houtcome
          have hle := (hturn l r₁ hl (by omega)).2 hwaits hexpired
          omega
      obtain ⟨-, k', hw', hp, -⟩ := hgood.waiting n r hr hwaiting
      obtain ⟨rfl, -⟩ := hw.unique hw'
      rw [if_pos ⟨hp, hwaiting⟩]
    · rw [if_neg hn] at hin
      have hdone := htold hwaits hin
      rw [if_neg (by simp [hdone])]
      exact hdone

/-- Out of turn it reaches a waiter that is not its own, or not its own in time. -/
theorem Fair.inTurn (h : (b.answer n).Fair) (hgood : b.Good) : b.InTurn (.answer n) := by
  intro r k hr hanswered hkey m r' hw hne
  have he := edits_answer hr hanswered hkey
  constructor
  · intro hwaiting
    obtain ⟨-, k', hw', hp, -⟩ := hgood.waiting m r' hw.1 hwaiting
    obtain ⟨rfl, -⟩ := hw.unique hw'
    have hown := (h m _ (he.of hw.1)).1 n
    rw [outcome_settled, if_pos ⟨hp, hwaiting⟩] at hown
    exact hne (hown rfl).symm
  · intro hwaits hexpired
    by_contra hlt
    have htold := (h n _ (he.of hr)).2
    rw [aside_settled.2.2.2.1, aside_settled.2.2.1, if_pos rfl, hexpired, outcome_settled] at htold
    have hdone := htold hwaits rfl
    split at hdone
    · next hold =>
      obtain ⟨-, k', hw', -, hlast⟩ := hgood.waiting n r hr hold.2
      obtain ⟨rfl, -⟩ := Waits.unique ⟨hr, hkey, hwaits⟩ hw'
      have hle := hlast m r' hw
      omega
    · obtain ⟨r₁, hr₁, hdone⟩ := hgood.completed n r n hr hdone
      rw [hr] at hr₁
      cases hr₁
      rw [hanswered] at hdone
      cases hdone

theorem Fair.answer_iff (h : b.Fair) (hgood : b.Good) : (b.answer n).Fair ↔ b.InTurn (.answer n) := by
  constructor
  · intro hfair
    exact hfair.inTurn hgood
  · intro hturn
    cases hr : b.requests[n]? with
    | none =>
      rw [answer_none hr]
      exact h
    | some r =>
      cases hanswered : r.answered with
      | true =>
        rw [answer_answered hr hanswered]
        exact h
      | false =>
        cases hkey : r.key with
        | none =>
          have he := edits_unkeyed hr hanswered hkey
          intro j r' hr'
          obtain ⟨r₀, hr₀, rfl⟩ := he.exists hr'
          obtain ⟨hown, htold⟩ := h j r₀ hr₀
          rw [outcome_settled, aside_settled.2.2.2.1, aside_settled.2.2.1, if_neg (by simp)]
          refine ⟨hown, fun hwaits hin => ?_⟩
          by_cases hn : n = j
          · subst hn
            rw [hr] at hr₀
            cases hr₀
            obtain ⟨k, hk⟩ := hgood.keyed n r hr hwaits
            rw [hkey] at hk
            cases hk
          · rw [if_neg hn] at hin
            exact htold hwaits hin
        | some k => exact h.answer_inTurn hgood hr hanswered hkey hturn

end Answer

/-! ## Runs -/

section Runs

variable {b : Book K} {op : Op K}

/-- No request yet. -/
def empty : Book K := ⟨[], fun _ => none⟩

theorem good_empty : (empty : Book K).Good := by
  constructor
  · intro k m hp
    cases hp
  · intro m r hr
    cases hr
  · intro k n r hw
    cases hw.1
  · intro n r m hr
    cases hr
  · intro n r hr
    cases hr
  · intro n r hr
    cases hr

theorem fair_empty : (empty : Book K).Fair := by
  intro n r hr
  cases hr

variable [DecidableEq K]

theorem Good.next (h : b.Good) : (b.next op).Good := by
  cases op with
  | issue key waits => exact h.issue
  | expire n => exact h.expire
  | answer n => exact h.answer

end Runs

end Book

end BrewServer.Correlation
