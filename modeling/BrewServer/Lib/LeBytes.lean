import Mathlib.Tactic.Ring
import Mathlib.Data.List.MinMax

/-!
# Little-endian fields in a byte string

A field is written by `toLe` and read back by `ofLe`. `slice` is a bounds-checked
range: it has no value where the range leaves the string, so a parser built on
it says where it would index past the end.
-/

namespace BrewServer

abbrev Bytes := List UInt8

/-- `n` in `k` bytes, least significant first. -/
def toLe : Nat → Nat → Bytes
  | 0, _ => []
  | k + 1, n => UInt8.ofNat n :: toLe k (n / 256)

def ofLe : Bytes → Nat
  | [] => 0
  | b :: bs => b.toNat + 256 * ofLe bs

@[simp] theorem length_toLe (k n : Nat) : (toLe k n).length = k := by
  induction k generalizing n with
  | zero => rfl
  | succ k ih => simp [toLe, ih]

theorem ofLe_toLe (k n : Nat) : ofLe (toLe k n) = n % 256 ^ k := by
  induction k generalizing n with
  | zero => simp [toLe, ofLe, Nat.mod_one]
  | succ k ih =>
    have hb : (UInt8.ofNat n).toNat = n % 256 := by simp
    rw [toLe, ofLe, ih, hb, pow_succ, mul_comm (256 ^ k) 256, Nat.mod_mul]

theorem ofLe_lt (bs : Bytes) : ofLe bs < 256 ^ bs.length := by
  induction bs with
  | nil => simp [ofLe]
  | cons b bs ih =>
    have hb := b.toNat_lt
    rw [ofLe, List.length_cons, pow_succ]
    omega

theorem toLe_ofLe (bs : Bytes) : toLe bs.length (ofLe bs) = bs := by
  induction bs with
  | nil => rfl
  | cons b bs ih =>
    have hb := b.toNat_lt
    have hdiv : (b.toNat + 256 * ofLe bs) / 256 = ofLe bs := by omega
    have hlow : UInt8.ofNat (b.toNat + 256 * ofLe bs) = b := by
      apply UInt8.toNat_inj.mp
      simp
    rw [List.length_cons, ofLe, toLe, hdiv, ih, hlow]

/-- `raw[o..o + n]`. -/
def slice (raw : Bytes) (o n : Nat) : Option Bytes :=
  if o + n ≤ raw.length then some ((raw.drop o).take n) else none

theorem slice_eq_some {raw : Bytes} {o n : Nat} (h : o + n ≤ raw.length) :
    slice raw o n = some ((raw.drop o).take n) := if_pos h

/-- Reading behind a prefix. -/
theorem slice_append_right (a b : Bytes) (o n : Nat) :
    slice (a ++ b) (a.length + o) n = slice b o n := by
  unfold slice
  have hd : (a ++ b).drop (a.length + o) = b.drop o := by
    rw [List.drop_append, List.drop_of_length_le (by omega), List.nil_append, Nat.add_sub_cancel_left]
  have hl : (a.length + o + n ≤ (a ++ b).length) = (o + n ≤ b.length) := by
    rw [List.length_append]
    exact propext ⟨fun h => by omega, fun h => by omega⟩
  rw [hd]
  simp only [hl]

/-- Reading exactly the first field. -/
theorem slice_append_left (a b : Bytes) : slice (a ++ b) 0 a.length = some a := by
  rw [slice_eq_some (by simp)]
  simp

theorem slice_field (a f b : Bytes) {o n : Nat} (ho : a.length = o) (hn : f.length = n) :
    slice (a ++ (f ++ b)) o n = some f := by
  subst ho hn
  have h := slice_append_right a (f ++ b) 0 f.length
  rw [Nat.add_zero] at h
  rw [h, slice_append_left]

def u16At (raw : Bytes) (o : Nat) : Option UInt16 :=
  (slice raw o 2).map fun bs => UInt16.ofNat (ofLe bs)

def u32At (raw : Bytes) (o : Nat) : Option UInt32 :=
  (slice raw o 4).map fun bs => UInt32.ofNat (ofLe bs)

def u64At (raw : Bytes) (o : Nat) : Option UInt64 :=
  (slice raw o 8).map fun bs => UInt64.ofNat (ofLe bs)

def le16 (x : UInt16) : Bytes := toLe 2 x.toNat
def le32 (x : UInt32) : Bytes := toLe 4 x.toNat
def le64 (x : UInt64) : Bytes := toLe 8 x.toNat

@[simp] theorem length_le16 (x : UInt16) : (le16 x).length = 2 := length_toLe ..
@[simp] theorem length_le32 (x : UInt32) : (le32 x).length = 4 := length_toLe ..
@[simp] theorem length_le64 (x : UInt64) : (le64 x).length = 8 := length_toLe ..

theorem ofLe_le16 (x : UInt16) : UInt16.ofNat (ofLe (le16 x)) = x := by
  have h := x.toNat_lt
  rw [le16, ofLe_toLe, Nat.mod_eq_of_lt (by simpa using h), UInt16.ofNat_toNat]

theorem ofLe_le32 (x : UInt32) : UInt32.ofNat (ofLe (le32 x)) = x := by
  have h := x.toNat_lt
  rw [le32, ofLe_toLe, Nat.mod_eq_of_lt (by simpa using h), UInt32.ofNat_toNat]

theorem ofLe_le64 (x : UInt64) : UInt64.ofNat (ofLe (le64 x)) = x := by
  have h := x.toNat_lt
  rw [le64, ofLe_toLe, Nat.mod_eq_of_lt (by simpa using h), UInt64.ofNat_toNat]

theorem u16At_field (a b : Bytes) (x : UInt16) {o : Nat} (ho : a.length = o) :
    u16At (a ++ (le16 x ++ b)) o = some x := by
  rw [u16At, slice_field a (le16 x) b ho (length_le16 x), Option.map_some, ofLe_le16]

theorem u32At_field (a b : Bytes) (x : UInt32) {o : Nat} (ho : a.length = o) :
    u32At (a ++ (le32 x ++ b)) o = some x := by
  rw [u32At, slice_field a (le32 x) b ho (length_le32 x), Option.map_some, ofLe_le32]

theorem u64At_field (a b : Bytes) (x : UInt64) {o : Nat} (ho : a.length = o) :
    u64At (a ++ (le64 x ++ b)) o = some x := by
  rw [u64At, slice_field a (le64 x) b ho (length_le64 x), Option.map_some, ofLe_le64]

theorem u64At_isSome {raw : Bytes} {o : Nat} (h : o + 8 ≤ raw.length) : ∃ x, u64At raw o = some x := by
  rw [u64At, slice_eq_some h]
  exact ⟨_, rfl⟩

theorem u16At_isSome {raw : Bytes} {o : Nat} (h : o + 2 ≤ raw.length) : ∃ x, u16At raw o = some x := by
  rw [u16At, slice_eq_some h]
  exact ⟨_, rfl⟩

theorem u32At_isSome {raw : Bytes} {o : Nat} (h : o + 4 ≤ raw.length) : ∃ x, u32At raw o = some x := by
  rw [u32At, slice_eq_some h]
  exact ⟨_, rfl⟩

/-- The whole 4-byte words of a tail, a shorter rest left out. -/
def u32s : Bytes → List UInt32
  | a :: b :: c :: d :: rest => UInt32.ofNat (ofLe [a, b, c, d]) :: u32s rest
  | _ => []

theorem u32s_append (x : UInt32) (rest : Bytes) : u32s (le32 x ++ rest) = x :: u32s rest := by
  have h := ofLe_le32 x
  have hl := length_le32 x
  match hx : le32 x with
  | [a, b, c, d] =>
    rw [hx] at h
    simp only [List.cons_append, List.nil_append, u32s, h]
  | [] | [_] | [_, _] | [_, _, _] | _ :: _ :: _ :: _ :: _ :: _ => simp [hx] at hl

theorem u32s_flatMap (xs : List UInt32) : u32s (xs.flatMap le32) = xs := by
  induction xs with
  | nil => rfl
  | cons x xs ih => rw [List.flatMap_cons, u32s_append, ih]

theorem length_flatMap_le32 (xs : List UInt32) : (xs.flatMap le32).length = 4 * xs.length := by
  induction xs with
  | nil => rfl
  | cons x xs ih => simp only [List.flatMap_cons, List.length_append, ih, length_le32, List.length_cons]; omega

theorem length_flatMap_le64 (xs : List UInt64) : (xs.flatMap le64).length = 8 * xs.length := by
  induction xs with
  | nil => rfl
  | cons x xs ih => simp only [List.flatMap_cons, List.length_append, ih, length_le64, List.length_cons]; omega

/-- `n` consecutive 8-byte words from offset `o`. -/
def u64sAt (raw : Bytes) (o : Nat) : Nat → Option (List UInt64)
  | 0 => some []
  | n + 1 => do
    let x ← u64At raw o
    let xs ← u64sAt raw (o + 8) n
    some (x :: xs)

theorem u64sAt_field (a b : Bytes) (xs : List UInt64) {o : Nat} (ho : a.length = o) :
    u64sAt (a ++ (xs.flatMap le64 ++ b)) o xs.length = some xs := by
  induction xs generalizing a o with
  | nil => rfl
  | cons x xs ih =>
    have hx : u64At (a ++ (le64 x ++ (xs.flatMap le64 ++ b))) o = some x := u64At_field a _ x ho
    have hrest := ih (a ++ le64 x) (o := o + 8) (by simp [ho])
    rw [List.append_assoc] at hrest
    simp only [List.flatMap_cons, List.append_assoc, List.length_cons, u64sAt, hx, hrest,
      Option.bind_eq_bind, Option.bind_some]

/-- A list of words that fits is read in full. -/
theorem u64sAt_isSome {raw : Bytes} {o n : Nat} (h : o + 8 * n ≤ raw.length) :
    ∃ xs, u64sAt raw o n = some xs ∧ xs.length = n := by
  induction n generalizing o with
  | zero => exact ⟨[], rfl, rfl⟩
  | succ n ih =>
    obtain ⟨x, hx⟩ : ∃ x, u64At raw o = some x := u64At_isSome (by omega)
    obtain ⟨xs, hxs, hl⟩ := ih (o := o + 8) (by omega)
    exact ⟨x :: xs, by simp only [u64sAt, hx, hxs, Option.bind_eq_bind, Option.bind_some], by simp [hl]⟩

end BrewServer
