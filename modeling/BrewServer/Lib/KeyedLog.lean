import Mathlib.Logic.Function.Basic

/-!
# Replaying a log of keyed changes

A message may change the value of one key, by a function of the value before.
Replaying is local: the value of a key depends on that key's messages only.
-/

namespace BrewServer

section Replay

variable {K V M : Type} [DecidableEq K]

/-- One message applied to a table: `effect` gives the key it changes and how. -/
def applyTo (effect : M → Option (K × (Option V → Option V))) (t : K → Option V) (m : M) : K → Option V :=
  match effect m with
  | some (k, f) => Function.update t k (f (t k))
  | none => t

/-- The table a log leaves. -/
def replay (effect : M → Option (K × (Option V → Option V))) (t : K → Option V) (ms : List M) : K → Option V :=
  ms.foldl (applyTo effect) t

variable {effect : M → Option (K × (Option V → Option V))} {t t' : K → Option V} {k : K}

@[simp] theorem replay_nil : replay effect t [] = t := rfl

@[simp] theorem replay_cons {m : M} {ms : List M} :
    replay effect t (m :: ms) = replay effect (applyTo effect t m) ms := rfl

theorem replay_append {ms ms' : List M} :
    replay effect t (ms ++ ms') = replay effect (replay effect t ms) ms' := List.foldl_append

theorem applyTo_of_none {m : M} (h : effect m = none) : applyTo effect t m = t := by
  unfold applyTo
  rw [h]

theorem applyTo_of_some {m : M} {f : Option V → Option V} (h : effect m = some (k, f)) :
    applyTo effect t m k = f (t k) := by
  unfold applyTo
  rw [h]
  exact Function.update_self ..

theorem applyTo_of_ne {m : M} (h : ∀ k' f, effect m = some (k', f) → k' ≠ k) : applyTo effect t m k = t k := by
  unfold applyTo
  cases he : effect m with
  | none => rfl
  | some e => exact Function.update_of_ne (h e.1 e.2 he).symm ..

/-- A message that sets the value of its key. -/
theorem applyTo_of_set {m : M} {k' : K} {v : Option V} (h : effect m = some (k', fun _ => v)) :
    applyTo effect t m k = if k' = k then v else t k := by
  split
  · next hk =>
    subst hk
    exact applyTo_of_some h
  · next hk =>
    refine applyTo_of_ne fun k'' f he => ?_
    rw [h, Option.some.injEq, Prod.mk.injEq] at he
    rwa [← he.1]

theorem applyTo_congr {m : M} (h : t k = t' k) : applyTo effect t m k = applyTo effect t' m k := by
  by_cases hk : ∃ f, effect m = some (k, f)
  · obtain ⟨f, hf⟩ := hk
    rw [applyTo_of_some hf, applyTo_of_some hf, h]
  · have hne : ∀ k' f, effect m = some (k', f) → k' ≠ k := fun k' f he hkk => hk ⟨f, hkk ▸ he⟩
    rw [applyTo_of_ne hne, applyTo_of_ne hne, h]

/-- The value of a key depends on its own value before. -/
theorem replay_congr {ms : List M} (h : t k = t' k) : replay effect t ms k = replay effect t' ms k := by
  induction ms generalizing t t' with
  | nil => exact h
  | cons m ms ih => exact ih (applyTo_congr h)

/-- Messages for other keys leave a key alone. -/
theorem replay_of_ne {ms : List M} (h : ∀ m ∈ ms, ∀ k' f, effect m = some (k', f) → k' ≠ k) :
    replay effect t ms k = t k := by
  induction ms generalizing t with
  | nil => rfl
  | cons m ms ih =>
    rw [replay_cons, ih fun m' hm => h m' (List.mem_cons_of_mem m hm), applyTo_of_ne (h m List.mem_cons_self)]

/-- Messages without effect may be left out. -/
theorem replay_filter {p : M → Bool} {ms : List M} (h : ∀ m ∈ ms, p m = false → effect m = none) :
    replay effect t (ms.filter p) = replay effect t ms := by
  induction ms generalizing t with
  | nil => rfl
  | cons m ms ih =>
    have hrest : ∀ m' ∈ ms, p m' = false → effect m' = none := fun m' hm => h m' (List.mem_cons_of_mem m hm)
    rw [List.filter_cons]
    split
    · rw [replay_cons, replay_cons, ih hrest]
    · next hp =>
      rw [replay_cons, applyTo_of_none (h m List.mem_cons_self (Bool.not_eq_true _ ▸ hp)), ih hrest]

/-- Logs of different keys, one after the other: each key sees its own. -/
theorem replay_flatMap {f : K → List M} {keys : List K} (hn : keys.Nodup)
    (hf : ∀ k' ∈ keys, ∀ m ∈ f k', ∀ k'' g, effect m = some (k'', g) → k'' = k') :
    replay effect t (keys.flatMap f) k = if k ∈ keys then replay effect t (f k) k else t k := by
  induction keys generalizing t with
  | nil => rfl
  | cons k' keys ih =>
    rw [List.nodup_cons] at hn
    have hrest := ih (t := replay effect t (f k')) hn.2 fun k'' hk m hm =>
      hf k'' (List.mem_cons_of_mem k' hk) m hm
    rw [List.flatMap_cons, replay_append, hrest]
    by_cases hk : k = k'
    · subst hk
      rw [if_neg hn.1, if_pos List.mem_cons_self]
    · have hother : replay effect t (f k') k = t k :=
        replay_of_ne fun m hm k'' g he heq => hk (heq ▸ hf k' List.mem_cons_self m hm k'' g he)
      by_cases hm : k ∈ keys
      · rw [if_pos hm, if_pos (List.mem_cons_of_mem k' hm), replay_congr hother]
      · have hno : k ∉ k' :: keys := fun h => (List.mem_cons.mp h).elim hk hm
        rw [if_neg hm, if_neg hno, hother]

end Replay

end BrewServer
