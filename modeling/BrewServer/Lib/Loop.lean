import Mathlib.Data.List.TakeWhile

/-!
# Checked reads and loops

A computation that reads lists by index and loops comes to a value or to a fault: an index
past the end, or no end within its fuel. `Returns` is the rule of a value that comes back
with a property, `Answers` the one of a value that may be none.
-/

namespace BrewServer

inductive Fault
  | outOfRange
  | outOfFuel
  deriving DecidableEq

variable {α β σ : Type} {P : α → Prop} {Q : β → Prop}

/-- Reads a list at an index. -/
def readAt (xs : List α) (i : ℕ) : Except Fault α :=
  match xs[i]? with
  | some a => .ok a
  | none => .error .outOfRange

/-- Goes on from the state that `body` says, until it says none. -/
def loop (body : σ → Except Fault (Option σ)) : ℕ → σ → Except Fault σ
  | 0, _ => .error .outOfFuel
  | fuel + 1, s => do
    match ← body s with
    | some s' => loop body fuel s'
    | none => return s

/-- One turn of `skipWhile`. -/
def skipOne (p : α → Bool) (xs : List α) (k : ℕ) : Except Fault (Option ℕ) := do
  if k < xs.length then
    let a ← readAt xs k
    return if p a then some (k + 1) else none
  else return none

/-- Passes over the elements from an index on that meet `p`. -/
def skipWhile (p : α → Bool) (xs : List α) : ℕ → ℕ → Except Fault ℕ := loop (skipOne p xs)

/-- A computation that gives an answer or none. -/
abbrev Partial (α : Type) : Type := OptionT (Except Fault) α

theorem ok_bind {a : α} {f : α → Except Fault β} : (Except.ok a >>= f) = f a := rfl

theorem readAt_of_lt {xs : List α} {i : ℕ} (h : i < xs.length) : readAt xs i = .ok xs[i] := by
  rw [readAt, List.getElem?_eq_getElem h]

/-! ## Computations that return -/

/-- The computation comes to a value, and this has the property. -/
def Returns (P : α → Prop) (x : Except Fault α) : Prop := ∃ a, x = .ok a ∧ P a

namespace Returns

theorem pure {a : α} (h : P a) : Returns P (Pure.pure a : Except Fault α) := ⟨a, rfl, h⟩

theorem bind {x : Except Fault α} {f : α → Except Fault β} (hx : Returns P x) (hf : ∀ a, P a → Returns Q (f a)) :
    Returns Q (x >>= f) := by
  obtain ⟨a, rfl, ha⟩ := hx
  exact hf a ha

theorem ite {c : Prop} [Decidable c] {x y : Except Fault α} (hx : c → Returns P x) (hy : ¬ c → Returns P y) :
    Returns P (if c then x else y) := by
  split
  · next hc => exact hx hc
  · next hc => exact hy hc

theorem mono {P' : α → Prop} {x : Except Fault α} (hx : Returns P x) (h : ∀ a, P a → P' a) : Returns P' x := by
  obtain ⟨a, rfl, ha⟩ := hx
  exact ⟨a, rfl, h a ha⟩

/-- A read in range. -/
theorem readAt {xs : List α} {i : ℕ} (h : i < xs.length) : Returns (fun a => xs[i]? = some a) (readAt xs i) := by
  exact ⟨xs[i], readAt_of_lt h, List.getElem?_eq_getElem h⟩

/-- A loop with an invariant and a measure that each turn lowers. -/
theorem loop {body : σ → Except Fault (Option σ)} (inv : σ → Prop) (measure : σ → ℕ)
    (hbody : ∀ s, inv s → Returns (fun r => ∀ s', r = some s' → inv s' ∧ measure s' < measure s) (body s)) {fuel : ℕ}
    {s : σ} (hs : inv s) (hfuel : measure s < fuel) : Returns inv (loop body fuel s) := by
  induction fuel generalizing s with
  | zero => exact absurd hfuel (Nat.not_lt_zero _)
  | succ fuel ih =>
    rw [BrewServer.loop]
    apply bind (hbody s hs)
    intro r hr
    cases r with
    | none => exact pure hs
    | some s' =>
      obtain ⟨hinv, hless⟩ := hr s' rfl
      exact ih hinv (Nat.lt_of_lt_of_le hless (Nat.le_of_lt_succ hfuel))

/-- A search for the first answer. -/
theorem findSomeM? {f : α → Except Fault (Option β)} {xs : List α} (h : ∀ x ∈ xs, Returns (fun _ => True) (f x)) :
    Returns (fun _ => True) (xs.findSomeM? f) := by
  induction xs with
  | nil => exact pure trivial
  | cons x xs ih =>
    rw [List.findSomeM?]
    apply bind (h x List.mem_cons_self)
    intro r _
    cases r with
    | some b => exact pure trivial
    | none => exact ih fun y hy => h y (List.mem_cons_of_mem x hy)

end Returns

theorem skipOne_of_lt {p : α → Bool} {xs : List α} {k : ℕ} (h : k < xs.length) :
    skipOne p xs k = .ok (if p xs[k] then some (k + 1) else none) := by
  rw [skipOne, if_pos h, readAt_of_lt h]
  rfl

/-- Passing over elements ends at the first that does not meet `p`. -/
theorem skipWhile_eq (p : α → Bool) {xs : List α} {fuel i : ℕ} (hfuel : xs.length - i < fuel) :
    skipWhile p xs fuel i = .ok (i + ((xs.drop i).takeWhile p).length) := by
  induction fuel generalizing i with
  | zero => exact absurd hfuel (Nat.not_lt_zero _)
  | succ fuel ih =>
    rw [skipWhile, loop]
    by_cases hi : i < xs.length
    · rw [skipOne_of_lt hi, List.drop_eq_getElem_cons hi]
      cases hp : p xs[i] with
      | true =>
        have hrest := ih (i := i + 1) (by omega)
        have hcount : i + (xs[i] :: (xs.drop (i + 1)).takeWhile p).length =
            i + 1 + ((xs.drop (i + 1)).takeWhile p).length := by
          rw [List.length_cons]
          omega
        rw [List.takeWhile_cons_of_pos hp, hcount]
        exact hrest
      | false =>
        rw [List.takeWhile_cons_of_neg (by simp [hp])]
        rfl
    · rw [skipOne, if_neg hi, List.drop_eq_nil_of_le (Nat.le_of_not_lt hi)]
      rfl

theorem returns_skipWhile (p : α → Bool) {xs : List α} {fuel i : ℕ} (hfuel : xs.length - i < fuel) :
    Returns (fun k => i ≤ k ∧ (i ≤ xs.length → k ≤ xs.length)) (skipWhile p xs fuel i) := by
  refine ⟨_, skipWhile_eq p hfuel, Nat.le_add_right _ _, fun hi => ?_⟩
  have hlen := (List.takeWhile_sublist (l := xs.drop i) p).length_le
  rw [List.length_drop] at hlen
  omega

/-! ## Computations with an answer or none -/

/-- The computation comes to an answer with the property, or to none. -/
def Answers (P : α → Prop) (x : Partial α) : Prop := Returns (fun o => ∀ a ∈ o, P a) x.run

theorem run_bind_ok {x : Partial α} {a : α} {f : α → Partial β} (h : x.run = .ok (some a)) :
    (x >>= f).run = (f a).run := by
  rw [OptionT.run_bind, h]
  rfl

theorem run_lift_ok {x : Except Fault α} {a : α} (h : x = .ok a) : (liftM x : Partial α).run = .ok (some a) := by
  subst h
  rfl

namespace Answers

theorem failure : Answers P (failure : Partial α) := ⟨none, rfl, fun _ h => by cases h⟩

theorem pure {a : α} (h : P a) : Answers P (Pure.pure a : Partial α) := by
  refine ⟨some a, rfl, fun a' ha => ?_⟩
  cases ha
  exact h

theorem bind {x : Partial α} {f : α → Partial β} (hx : Answers P x) (hf : ∀ a, P a → Answers Q (f a)) :
    Answers Q (x >>= f) := by
  obtain ⟨o, ho, hP⟩ := hx
  unfold Answers
  rw [OptionT.run_bind, ho]
  cases o with
  | none => exact ⟨none, rfl, fun _ h => by cases h⟩
  | some a => exact hf a (hP a rfl)

theorem mono {P' : α → Prop} {x : Partial α} (hx : Answers P x) (h : ∀ a, P a → P' a) : Answers P' x :=
  Returns.mono hx fun _ ho a ha => h a (ho a ha)

/-- A computation that always has an answer. -/
theorem lift {x : Except Fault α} (hx : Returns P x) : Answers P (liftM x : Partial α) := by
  obtain ⟨a, rfl, ha⟩ := hx
  exact pure ha

/-- The second is tried where the first has no answer. -/
theorem orElse {x y : Partial α} (hx : Answers P x) (hy : Answers P y) : Answers P (x <|> y) := by
  obtain ⟨o, ho, hP⟩ := hx
  unfold Answers
  rw [OptionT.run_orElse, ho]
  cases o with
  | none => exact hy
  | some a => exact ⟨some a, rfl, hP⟩

theorem ite {c : Prop} [Decidable c] {x y : Partial α} (hx : c → Answers P x) (hy : ¬ c → Answers P y) :
    Answers P (if c then x else y) := by
  split
  · next hc => exact hx hc
  · next hc => exact hy hc

end Answers

end BrewServer
