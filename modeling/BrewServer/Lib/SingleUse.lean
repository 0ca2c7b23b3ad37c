import Mathlib.Data.List.Nodup

/-!
# Keys that are to be used once

A key is handed out, checked by a holder and taken back by it in a later step.
Each key is used once as long as nobody passes the check while somebody holds
the key.
-/

namespace BrewServer

universe u v

/-- Keys of type `K`, held by holders of type `I` between their check and use. -/
structure SingleUse (I : Type u) (K : Type v) where
  issued : K → Prop
  /-- The keys the check lets pass. -/
  present : K → Prop
  /-- Who has passed the check on which key and not used it. -/
  holds : I → K → Prop
  used : List K

namespace SingleUse

variable {I : Type u} {K : Type v} {l l' : SingleUse I K}

/-- No key that is gone or held comes back. -/
structure Sound (l : SingleUse I K) : Prop where
  present_issued : ∀ k, l.present k → l.issued k
  holds_issued : ∀ i k, l.holds i k → l.issued k
  used_issued : ∀ k ∈ l.used, l.issued k
  alone : ∀ i j k, l.holds i k → l.holds j k → i = j
  gone : ∀ k ∈ l.used, ¬ l.present k ∧ ∀ i, ¬ l.holds i k
  nodup : l.used.Nodup

/-- One step of the keys: nothing is gained, one key is handed out, checked or used. -/
inductive Moves (l l' : SingleUse I K) : Prop
  | lose (issued : ∀ k, l'.issued k ↔ l.issued k) (present : ∀ k, l'.present k → l.present k)
      (holds : ∀ i k, l'.holds i k → l.holds i k) (used : l'.used = l.used)
  | issue (key : K) (fresh : ¬ l.issued key) (issued : ∀ k, l'.issued k ↔ l.issued k ∨ k = key)
      (present : ∀ k, l'.present k → l.present k ∨ k = key) (holds : ∀ i k, l'.holds i k → l.holds i k)
      (used : l'.used = l.used)
  | pass (holder : I) (key : K) (there : l.present key) (free : ∀ i, ¬ l.holds i key)
      (issued : ∀ k, l'.issued k ↔ l.issued k) (present : ∀ k, l'.present k → l.present k)
      (holds : ∀ i k, l'.holds i k → l.holds i k ∨ i = holder ∧ k = key) (used : l'.used = l.used)
  | use (holder : I) (key : K) (held : l.holds holder key) (issued : ∀ k, l'.issued k ↔ l.issued k)
      (present : ∀ k, l'.present k → l.present k ∧ k ≠ key)
      (holds : ∀ i k, l'.holds i k → l.holds i k ∧ i ≠ holder) (used : l'.used = key :: l.used)

/-- Each step keeps what makes the keys good for one use. -/
theorem Sound.step (h : l.Sound) (hm : l.Moves l') : l'.Sound := by
  cases hm with
  | lose issued present holds used =>
    refine ⟨fun k hk => (issued k).mpr (h.present_issued k (present k hk)),
      fun i k hk => (issued k).mpr (h.holds_issued i k (holds i k hk)), fun k hk => ?_,
      fun i j k hi hj => h.alone i j k (holds i k hi) (holds j k hj), fun k hk => ?_, used ▸ h.nodup⟩
    · rw [used] at hk
      exact (issued k).mpr (h.used_issued k hk)
    · rw [used] at hk
      obtain ⟨hp, hh⟩ := h.gone k hk
      exact ⟨fun hp' => hp (present k hp'), fun i hi => hh i (holds i k hi)⟩
  | issue key fresh issued present holds used =>
    refine ⟨fun k hk => (issued k).mpr ((present k hk).imp (h.present_issued k) id),
      fun i k hk => (issued k).mpr (.inl (h.holds_issued i k (holds i k hk))), fun k hk => ?_,
      fun i j k hi hj => h.alone i j k (holds i k hi) (holds j k hj), fun k hk => ?_, used ▸ h.nodup⟩
    · rw [used] at hk
      exact (issued k).mpr (.inl (h.used_issued k hk))
    · rw [used] at hk
      obtain ⟨hp, hh⟩ := h.gone k hk
      refine ⟨fun hp' => ?_, fun i hi => hh i (holds i k hi)⟩
      rcases present k hp' with hp' | rfl
      · exact hp hp'
      · exact fresh (h.used_issued k hk)
  | pass holder key there free issued present holds used =>
    have hissued : l.issued key := h.present_issued key there
    refine ⟨fun k hk => (issued k).mpr (h.present_issued k (present k hk)), fun i k hk => ?_, fun k hk => ?_,
      fun i j k hi hj => ?_, fun k hk => ?_, used ▸ h.nodup⟩
    · rcases holds i k hk with hk | ⟨-, rfl⟩
      · exact (issued k).mpr (h.holds_issued i k hk)
      · exact (issued k).mpr hissued
    · rw [used] at hk
      exact (issued k).mpr (h.used_issued k hk)
    · rcases holds i k hi with hi | ⟨rfl, rfl⟩
      · rcases holds j k hj with hj | ⟨rfl, rfl⟩
        · exact h.alone i j k hi hj
        · exact absurd hi (free i)
      · rcases holds j k hj with hj | ⟨rfl, -⟩
        · exact absurd hj (free j)
        · rfl
    · rw [used] at hk
      obtain ⟨hp, hh⟩ := h.gone k hk
      refine ⟨fun hp' => hp (present k hp'), fun i hi => ?_⟩
      rcases holds i k hi with hi | ⟨-, rfl⟩
      · exact hh i hi
      · exact hp there
  | use holder key held issued present holds used =>
    refine ⟨fun k hk => (issued k).mpr (h.present_issued k (present k hk).1),
      fun i k hk => (issued k).mpr (h.holds_issued i k (holds i k hk).1), fun k hk => ?_,
      fun i j k hi hj => h.alone i j k (holds i k hi).1 (holds j k hj).1, fun k hk => ?_, ?_⟩
    · rw [used] at hk
      rcases List.mem_cons.mp hk with rfl | hk
      · exact (issued k).mpr (h.holds_issued holder k held)
      · exact (issued k).mpr (h.used_issued k hk)
    · rw [used] at hk
      rcases List.mem_cons.mp hk with rfl | hk
      · refine ⟨fun hp => (present k hp).2 rfl, fun i hi => ?_⟩
        obtain ⟨hi, hne⟩ := holds i k hi
        exact hne (h.alone i holder k hi held)
      · obtain ⟨hp, hh⟩ := h.gone k hk
        exact ⟨fun hp' => hp (present k hp').1, fun i hi => hh i (holds i k hi).1⟩
    · rw [used, List.nodup_cons]
      exact ⟨fun hk => (h.gone key hk).2 holder held, h.nodup⟩

end SingleUse

end BrewServer
