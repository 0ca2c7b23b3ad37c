import BrewServer.Lib.LeBytes
import Mathlib.Logic.Equiv.Defs

/-!
# Self-delimiting binary codecs

A codec reads a value off the front of a byte string and hands back the rest.
Its law says which strings it reads and that a value has one encoding, so
codecs compose: one after the other, by tag, or through a partial view.
-/

namespace BrewServer

structure Codec (α : Type) where
  encode : α → Bytes
  decode : Bytes → Option (α × Bytes)
  law : ∀ (bs : Bytes) (a : α) (rest : Bytes), decode bs = some (a, rest) ↔ bs = encode a ++ rest

namespace Codec

variable {α β : Type}

theorem decode_encode (c : Codec α) (a : α) (rest : Bytes) : c.decode (c.encode a ++ rest) = some (a, rest) :=
  (c.law _ a rest).mpr rfl

/-- Reads a value where one stands at the front. -/
def read (c : Codec α) (bs : Bytes) : Option α := (c.decode bs).map Prod.fst

theorem read_eq_some (c : Codec α) (bs : Bytes) (a : α) : c.read bs = some a ↔ c.encode a <+: bs := by
  unfold read
  constructor
  · intro h
    obtain ⟨⟨a', rest⟩, hd, rfl⟩ := Option.map_eq_some_iff.mp h
    exact ⟨rest, ((c.law _ _ _).mp hd).symm⟩
  · rintro ⟨rest, rfl⟩
    rw [c.decode_encode]
    rfl

theorem read_encode (c : Codec α) (a : α) : c.read (c.encode a) = some a :=
  (c.read_eq_some _ a).mpr (List.prefix_refl _)

/-- Exactly `k` bytes. -/
def fixed (k : ℕ) : Codec { bs : Bytes // bs.length = k } where
  encode a := a.1
  decode bs := if h : k ≤ bs.length then some (⟨bs.take k, List.length_take_of_le h⟩, bs.drop k) else none
  law bs a rest := by
    constructor
    · intro h
      split at h
      · cases h
        exact (List.take_append_drop k bs).symm
      · cases h
    · rintro rfl
      have hk : k ≤ (a.1 ++ rest).length := by
        rw [List.length_append, a.2]
        exact Nat.le_add_right _ _
      rw [dif_pos hk]
      simp only [List.take_left' a.2, List.drop_left' a.2]

@[simp] theorem encode_fixed (k : ℕ) (a : { bs : Bytes // bs.length = k }) : (fixed k).encode a = a.1 := rfl

/-- Values seen through a partial view that forgets nothing. -/
def view (c : Codec α) (f : α → Option β) (g : β → α) (hfg : ∀ a b, f a = some b ↔ a = g b) : Codec β where
  encode b := c.encode (g b)
  decode bs := (c.decode bs).bind fun r => (f r.1).map fun b => (b, r.2)
  law bs b rest := by
    constructor
    · intro h
      obtain ⟨⟨a, tail⟩, hd, hm⟩ := Option.bind_eq_some_iff.mp h
      obtain ⟨b', hb, he⟩ := Option.map_eq_some_iff.mp hm
      obtain ⟨rfl, rfl⟩ := Prod.mk.inj he
      have ha : a = g b' := (hfg a b').mp hb
      subst ha
      exact (c.law _ _ _).mp hd
    · rintro rfl
      rw [c.decode_encode, Option.bind_some, (hfg (g b) b).mpr rfl]
      rfl

def iso (c : Codec α) (e : α ≃ β) : Codec β :=
  c.view (fun a => some (e a)) e.symm fun a b => by
    rw [Option.some_inj]
    exact ⟨fun h => h ▸ (e.symm_apply_apply a).symm, fun h => h ▸ e.apply_symm_apply b⟩

/-- A value and one whose layout depends on it. -/
def dep {γ : α → Type} (c : Codec α) (d : ∀ a, Codec (γ a)) : Codec (Σ a, γ a) where
  encode p := c.encode p.1 ++ (d p.1).encode p.2
  decode bs := (c.decode bs).bind fun r => ((d r.1).decode r.2).map fun q => (⟨r.1, q.1⟩, q.2)
  law bs p rest := by
    constructor
    · intro h
      obtain ⟨⟨a, tail⟩, hd, hm⟩ := Option.bind_eq_some_iff.mp h
      obtain ⟨⟨b, tail'⟩, hb, he⟩ := Option.map_eq_some_iff.mp hm
      obtain ⟨rfl, rfl⟩ := Prod.mk.inj he
      have ht : tail = (d a).encode b ++ tail' := ((d a).law _ _ _).mp hb
      have hc : bs = c.encode a ++ tail := (c.law _ _ _).mp hd
      exact hc.trans ((congrArg (c.encode a ++ ·) ht).trans (List.append_assoc _ _ _).symm)
    · rintro rfl
      rw [List.append_assoc, c.decode_encode, Option.bind_some, (d p.1).decode_encode]
      rfl

/-- One value after another. -/
def pair (c : Codec α) (d : Codec β) : Codec (α × β) :=
  (c.dep fun _ => d).iso (Equiv.sigmaEquivProd α β)

@[simp] theorem encode_pair (c : Codec α) (d : Codec β) (a : α) (b : β) :
    (c.pair d).encode (a, b) = c.encode a ++ d.encode b := rfl

/-- An unsigned number in `k` bytes, least significant first. -/
def nat (k : ℕ) : Codec { n : ℕ // n < 256 ^ k } :=
  (fixed k).iso
    { toFun := fun bs => ⟨ofLe bs.1, by have h := ofLe_lt bs.1; rw [bs.2] at h; exact h⟩
      invFun := fun n => ⟨toLe k n.1, length_toLe k n.1⟩
      left_inv := fun bs => by
        apply Subtype.ext
        have h := toLe_ofLe bs.1
        rw [bs.2] at h
        exact h
      right_inv := fun n => by
        apply Subtype.ext
        exact (ofLe_toLe k n.1).trans (Nat.mod_eq_of_lt n.2) }

/-- Bytes behind their own count, which is kept in `k` bytes. -/
def counted (k : ℕ) : Codec { bs : Bytes // bs.length < 256 ^ k } :=
  ((nat k).dep fun n => fixed n.1).iso
    { toFun := fun p => ⟨p.2.1, p.2.2.symm ▸ p.1.2⟩
      invFun := fun bs => ⟨⟨bs.1.length, bs.2⟩, ⟨bs.1, rfl⟩⟩
      left_inv := fun p => by
        obtain ⟨⟨n, hn⟩, bs, hb⟩ := p
        dsimp only at hb
        subst hb
        rfl
      right_inv := fun _ => rfl }

theorem encode_counted (k : ℕ) (bs : { bs : Bytes // bs.length < 256 ^ k }) :
    (counted k).encode bs = toLe k bs.1.length ++ bs.1 := rfl

/-- A byte that is 0 or 1. -/
def bool : Codec Bool :=
  (fixed 1).view (fun bs => if bs.1 = [0] then some false else if bs.1 = [1] then some true else none)
    (fun b => ⟨if b then [1] else [0], by cases b <;> rfl⟩)
    fun bs b => by
      obtain ⟨bs, hb⟩ := bs
      rw [Subtype.mk.injEq]
      dsimp only
      split
      · next h => subst h; cases b <;> simp
      · split
        · next h => subst h; cases b <;> simp
        · next h0 h1 => cases b <;> simp [h0, h1]

/-- Nothing at all. -/
def unit : Codec Unit where
  encode _ := []
  decode bs := some ((), bs)
  law bs a rest := by
    rw [Option.some_inj, Prod.mk.injEq, List.nil_append]
    exact ⟨fun h => h.2, fun h => ⟨rfl, h⟩⟩

/-- What stands behind a presence byte. -/
def presence (c : Codec α) : ∀ b : Bool, Codec (cond b α Unit)
  | true => c
  | false => unit

/-- A presence byte, then the value if there is one. -/
def option (c : Codec α) : Codec (Option α) :=
  (bool.dep (presence c)).iso
    { toFun := fun p => match p with
        | ⟨true, a⟩ => some a
        | ⟨false, _⟩ => none
      invFun := fun o => match o with
        | some a => ⟨true, a⟩
        | none => ⟨false, ()⟩
      left_inv := fun p => match p with
        | ⟨true, _⟩ => rfl
        | ⟨false, _⟩ => rfl
      right_inv := fun o => match o with
        | some _ => rfl
        | none => rfl }

end Codec

end BrewServer
