import BrewServer.Lib.LeBytes

/-!
# Parsers that stay within their input

A parser returns `none` where it would read past the end of its input, and an error where
it refuses it. `Settles` says that it does neither more than the latter, and that what it
accepts has a property.
-/

namespace BrewServer

universe u v

/-- The parser comes to an end, and what it accepts meets `P`. -/
def Settles {ε : Type u} {α : Type v} (P : α → Prop) (p : Option (Except ε α)) : Prop :=
  ∃ r, p = some r ∧ ∀ a, r = .ok a → P a

namespace Settles

variable {ε : Type u} {α β : Type v} {P : α → Prop} {Q : β → Prop}

theorem error {e : ε} : Settles P (some (.error e)) := ⟨_, rfl, fun _ h => by cases h⟩

theorem ok {a : α} (h : P a) : Settles P (some (.ok a) : Option (Except ε α)) := by
  refine ⟨_, rfl, fun a' heq => ?_⟩
  cases heq
  exact h

/-- A read that is in range. -/
theorem bind {γ : Type} {x : Option γ} {f : γ → Option (Except ε α)} (hx : ∃ c, x = some c)
    (h : ∀ c, x = some c → Settles P (f c)) : Settles P (x.bind f) := by
  obtain ⟨c, hc⟩ := hx
  rw [hc, Option.bind_some]
  exact h c hc

theorem ite {c : Prop} [Decidable c] {x y : Option (Except ε α)} (hx : c → Settles P x) (hy : ¬ c → Settles P y) :
    Settles P (if c then x else y) := by
  split
  · next hc => exact hx hc
  · next hc => exact hy hc

/-- A check that fails with an error. -/
theorem check {c : Prop} [Decidable c] {e : ε} {y : Option (Except ε α)} (hy : ¬ c → Settles P y) :
    Settles P (if c then some (.error e) else y) := ite (fun _ => error) hy

/-- A parser that goes on with what another one accepted. -/
theorem andThen {p : Option (Except ε α)} {f : Except ε α → Option (Except ε β)} (h : Settles P p)
    (herror : ∀ e, f (.error e) = some (.error e)) (hok : ∀ a, P a → Settles Q (f (.ok a))) : Settles Q (p.bind f) := by
  obtain ⟨r, rfl, hr⟩ := h
  rw [Option.bind_some]
  cases r with
  | error e =>
    rw [herror]
    exact error
  | ok a => exact hok a (hr a rfl)

end Settles

theorem getElem?_isSome {raw : Bytes} {i : ℕ} (h : i < raw.length) : ∃ b, raw[i]? = some b :=
  ⟨_, List.getElem?_eq_getElem h⟩

end BrewServer
