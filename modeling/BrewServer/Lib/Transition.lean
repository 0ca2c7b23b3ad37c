import Mathlib.Data.List.Induction

/-!
# Runs of a guarded transition system

`Reach` collects the states of the runs whose every step meets a condition on
the state it leaves. An invariant is proved on one step and holds of every run.
-/

namespace BrewServer

universe u v

variable {S : Type u} {E : Type v}

/-- States reached from `init` by steps that meet `ok`. -/
inductive Reach (init : S) (ok : S → E → Prop) (next : S → E → S) : S → Prop
  | init : Reach init ok next init
  | step {s : S} {e : E} : Reach init ok next s → ok s e → Reach init ok next (next s e)

namespace Reach

variable {init : S} {ok ok' : S → E → Prop} {next : S → E → S}

/-- An invariant of the steps, proved from the start. -/
theorem invariant {P : S → Prop} (h0 : P init) (hstep : ∀ s e, P s → ok s e → P (next s e)) {s : S}
    (h : Reach init ok next s) : P s := by
  induction h with
  | init => exact h0
  | step _ hok ih => exact hstep _ _ ih hok

/-- Later invariants may use earlier ones. -/
theorem invariant_of {P Q : S → Prop} (hP : ∀ s, Reach init ok next s → P s) (h0 : Q init)
    (hstep : ∀ s e, P s → Q s → ok s e → Q (next s e)) {s : S} (h : Reach init ok next s) : Q s := by
  induction h with
  | init => exact h0
  | step hr hok ih => exact hstep _ _ (hP _ hr) ih hok

/-- Runs under a stronger condition are runs under a weaker one. -/
theorem mono (himp : ∀ s e, ok s e → ok' s e) {s : S} (h : Reach init ok next s) : Reach init ok' next s := by
  induction h with
  | init => exact .init
  | step _ hok ih => exact .step ih (himp _ _ hok)

/-- A run goes on from where another ended. -/
theorem trans {s t : S} (h : Reach init ok next s) (h' : Reach s ok next t) : Reach init ok next t := by
  induction h' with
  | init => exact h
  | step _ hok ih => exact .step ih hok

/-- A run given by its events. -/
theorem of_list [∀ s e, Decidable (ok s e)] (es : List E) {s : S} (h : Reach init ok next s)
    (hok : (es.foldl (fun r e => r.bind fun s => if ok s e then some (next s e) else none) (some s)).isSome) :
    Reach init ok next (es.foldl next s) := by
  have hnone : ∀ es : List E,
      es.foldl (fun r e => r.bind fun s => if ok s e then some (next s e) else none) none = none := by
    intro es
    induction es with
    | nil => rfl
    | cons e es ih => exact ih
  induction es generalizing s with
  | nil => exact h
  | cons e es ih =>
    rw [List.foldl_cons, Option.bind_some] at hok
    by_cases he : ok s e
    · rw [if_pos he] at hok
      exact ih (.step h he) hok
    · rw [if_neg he, hnone] at hok
      cases hok

end Reach

section Prefixes

variable {next : S → E → S} {init : S} {P I : S → Prop} {ok : S → E → Prop} {xs : List E}

/-- An invariant that every step of a run keeps holds along the run, where each
step may assume it of the state it leaves. -/
theorem foldl_invariant (h0 : I init) (hstep : ∀ s x, I s → ok s x → I (next s x))
    (hok : ∀ pre x, pre ++ [x] <+: xs → I (pre.foldl next init) → ok (pre.foldl next init) x) :
    ∀ pre, pre <+: xs → I (pre.foldl next init) := by
  intro pre
  induction pre using List.reverseRecOn with
  | nil => exact fun _ => h0
  | append_singleton pre x ih =>
    intro hpre
    have hs := ih ((List.prefix_append pre [x]).trans hpre)
    rw [List.foldl_append, List.foldl_cons, List.foldl_nil]
    exact hstep _ x hs (hok pre x hpre hs)

/-- Where a step from the invariant keeps a property exactly if it meets a
condition, a run keeps the property throughout exactly if its steps all do. -/
theorem foldl_iff (h0 : I init) (hP : ∀ s, I s → P s) (hstep : ∀ s x, I s → ok s x → I (next s x))
    (hiff : ∀ s x, I s → (P (next s x) ↔ ok s x)) :
    (∀ pre, pre <+: xs → P (pre.foldl next init)) ↔
      ∀ pre x, pre ++ [x] <+: xs → ok (pre.foldl next init) x := by
  constructor
  · intro hkept
    have hok : ∀ pre x, pre ++ [x] <+: xs → I (pre.foldl next init) → ok (pre.foldl next init) x := by
      intro pre x hpre hs
      have hlast := hkept _ hpre
      rw [List.foldl_append, List.foldl_cons, List.foldl_nil] at hlast
      exact (hiff _ x hs).mp hlast
    intro pre x hpre
    exact hok pre x hpre (foldl_invariant h0 hstep hok pre ((List.prefix_append pre [x]).trans hpre))
  · intro hok pre hpre
    exact hP _ (foldl_invariant h0 hstep (fun pre x hpre _ => hok pre x hpre) pre hpre)

end Prefixes

end BrewServer
