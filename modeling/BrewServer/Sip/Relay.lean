import Mathlib.Data.UInt

/-!
# The ports of the media relay

RTP ports are handed out round a ring, every other port of the pool. A leg gets the next
one that can be bound, and none is left out before the relay gives up.
-/

namespace BrewServer.Sip

/-- The next port of the pool, which starts again at its low end. -/
def portAfter (portMin portMax p : UInt16) : UInt16 :=
  let next := p + 2
  if portMax ≤ next ∨ next < portMin then portMin else next

/-- How many ports the pool has. -/
def ringLength (portMin portMax : UInt16) : ℕ := (portMax.toNat - portMin.toNat + 1) / 2

/-- A port of the pool, by its place. -/
def portAt (portMin : UInt16) (k : ℕ) : UInt16 := UInt16.ofNat (portMin.toNat + 2 * k)

structure RtpRelay where
  portMin : UInt16
  portMax : UInt16
  nextPort : UInt16
  low : 1024 ≤ portMin
  below : portMin < portMax
  onRing : ∃ k, k < ringLength portMin portMax ∧ nextPort = portAt portMin k

section Ring

variable {portMin portMax : UInt16} {k : ℕ}

theorem toNat_portAt (hk : k < ringLength portMin portMax) : (portAt portMin k).toNat = portMin.toNat + 2 * k := by
  have hmax := portMax.toNat_lt
  unfold ringLength at hk
  rw [portAt, UInt16.toNat_ofNat']
  omega

/-- The ports follow each other round the ring. -/
theorem portAfter_portAt (hlow : 1024 ≤ portMin) (hbelow : portMin < portMax) (hk : k < ringLength portMin portMax) :
    portAfter portMin portMax (portAt portMin k) = portAt portMin ((k + 1) % ringLength portMin portMax) := by
  have hat := toNat_portAt hk
  have hmax := portMax.toNat_lt
  have hmin : 1024 ≤ portMin.toNat := UInt16.le_iff_toNat_le.mp hlow
  have hlt : portMin.toNat < portMax.toNat := UInt16.lt_iff_toNat_lt.mp hbelow
  have hnext : (portAt portMin k + 2).toNat = (portMin.toNat + 2 * k + 2) % 2 ^ 16 := by
    rw [UInt16.toNat_add, hat]
    rfl
  by_cases hlast : k + 1 < ringLength portMin portMax
  · rw [Nat.mod_eq_of_lt hlast]
    have hafter := toNat_portAt hlast
    have hsame : portAt portMin k + 2 = portAt portMin (k + 1) := by
      apply UInt16.toNat_inj.mp
      unfold ringLength at hlast
      omega
    have hstays : ¬ (portMax ≤ portAt portMin (k + 1) ∨ portAt portMin (k + 1) < portMin) := by
      rw [UInt16.le_iff_toNat_le, UInt16.lt_iff_toNat_lt, hafter]
      unfold ringLength at hlast
      omega
    rw [portAfter, hsame]
    exact if_neg hstays
  · have hround : k + 1 = ringLength portMin portMax := by omega
    have hzero : portAt portMin 0 = portMin := UInt16.ofNat_toNat
    have hwraps : portMax ≤ portAt portMin k + 2 ∨ portAt portMin k + 2 < portMin := by
      rw [UInt16.le_iff_toNat_le, UInt16.lt_iff_toNat_lt, hnext]
      unfold ringLength at hround hk
      omega
    rw [hround, Nat.mod_self, hzero, portAfter]
    exact if_pos hwraps

end Ring

theorem le_max_right_u16 (a b : UInt16) : b ≤ max a b := by
  show b ≤ if a ≤ b then b else a
  split
  · exact UInt16.le_refl b
  · next h => exact (UInt16.le_total a b).resolve_left h

namespace RtpRelay

/-- The pool of a configuration: it starts at port 1024 or above, and has room for a port. -/
def new (portMin portMax : UInt16) (h : max portMin 1024 < 65535) : RtpRelay where
  portMin := max portMin 1024
  portMax := max portMax (max portMin 1024 + 1)
  nextPort := max portMin 1024
  low := le_max_right_u16 _ _
  below := by
    have hnext : max portMin 1024 + 1 ≤ max portMax (max portMin 1024 + 1) := le_max_right_u16 _ _
    rw [UInt16.le_iff_toNat_le, UInt16.toNat_add] at hnext
    rw [UInt16.lt_iff_toNat_lt] at h ⊢
    simp only [UInt16.reduceToNat] at h hnext
    omega
  onRing := by
    have hnext : max portMin 1024 + 1 ≤ max portMax (max portMin 1024 + 1) := le_max_right_u16 _ _
    rw [UInt16.le_iff_toNat_le, UInt16.toNat_add] at hnext
    rw [UInt16.lt_iff_toNat_lt] at h
    simp only [UInt16.reduceToNat] at h hnext
    refine ⟨0, ?_, UInt16.ofNat_toNat.symm⟩
    unfold ringLength
    omega

/-- The relay after a port has been tried. -/
def advance (r : RtpRelay) : RtpRelay :=
  { r with
    nextPort := portAfter r.portMin r.portMax r.nextPort
    onRing := by
      obtain ⟨k, hk, hport⟩ := r.onRing
      rw [hport]
      exact ⟨_, Nat.mod_lt _ (by omega), portAfter_portAt r.low r.below hk⟩ }

/-- Tries the next port, and as many more as are `left` while none can be bound. -/
def tryPorts (bind : UInt16 → Bool) (r : RtpRelay) : ℕ → RtpRelay × Option UInt16
  | 0 => (r.advance, if bind r.nextPort then some r.nextPort else none)
  | left + 1 => if bind r.nextPort then (r.advance, some r.nextPort) else r.advance.tryPorts bind left

/-- A leg on the first port that can be bound. -/
def allocLeg (bind : UInt16 → Bool) (r : RtpRelay) : RtpRelay × Option UInt16 :=
  r.tryPorts bind ((r.portMax - r.portMin).toNat / 2)

/-- The ports of the pool. -/
def ports (r : RtpRelay) : List UInt16 := (List.range (ringLength r.portMin r.portMax)).map (portAt r.portMin)

section Allocation

variable {bind : UInt16 → Bool} {r : RtpRelay} {left k : ℕ} {port : UInt16}

/-- No port is given where none that is tried can be bound. -/
theorem tryPorts_eq_none_iff (hk : k < ringLength r.portMin r.portMax) (hport : r.nextPort = portAt r.portMin k) :
    (r.tryPorts bind left).2 = none ↔
      ∀ i ≤ left, bind (portAt r.portMin ((k + i) % ringLength r.portMin r.portMax)) = false := by
  induction left generalizing r k with
  | zero =>
    simp only [Nat.le_zero, forall_eq, Nat.add_zero, Nat.mod_eq_of_lt hk, ← hport, tryPorts]
    cases bind r.nextPort <;> simp
  | succ left ih =>
    have hfirst : portAt r.portMin ((k + 0) % ringLength r.portMin r.portMax) = r.nextPort := by
      rw [Nat.add_zero, Nat.mod_eq_of_lt hk, hport]
    have hnext : r.advance.nextPort = portAt r.portMin ((k + 1) % ringLength r.portMin r.portMax) := by
      show portAfter r.portMin r.portMax r.nextPort = _
      rw [hport]
      exact portAfter_portAt r.low r.below hk
    have hrest := @ih r.advance _ (Nat.mod_lt _ (Nat.zero_lt_of_lt hk)) hnext
    have hshift : ∀ i, ((k + 1) % ringLength r.portMin r.portMax + i) % ringLength r.portMin r.portMax =
        (k + (i + 1)) % ringLength r.portMin r.portMax := by
      intro i
      rw [Nat.mod_add_mod, Nat.add_assoc, Nat.add_comm 1 i]
    cases hbind : bind r.nextPort with
    | true =>
      rw [tryPorts, if_pos hbind]
      constructor
      · intro h
        cases h
      · intro h
        have hno := h 0 (Nat.zero_le _)
        rw [hfirst, hbind] at hno
        cases hno
    | false =>
      rw [tryPorts, if_neg (by rw [hbind]; exact Bool.false_ne_true), hrest]
      constructor
      · intro h i hi
        cases i with
        | zero => rw [hfirst, hbind]
        | succ i =>
          rw [← hshift]
          exact h i (by omega)
      · intro h i hi
        have hone := h (i + 1) (by omega)
        rw [← hshift] at hone
        exact hone

/-- The relay gives up only where no port of its pool can be bound. -/
theorem allocLeg_eq_none_iff : (r.allocLeg bind).2 = none ↔ ∀ port ∈ r.ports, bind port = false := by
  obtain ⟨k, hk, hport⟩ := r.onRing
  have hbelow : r.portMin.toNat < r.portMax.toNat := UInt16.lt_iff_toNat_lt.mp r.below
  have htries : (r.portMax - r.portMin).toNat / 2 = (r.portMax.toNat - r.portMin.toNat) / 2 := by
    rw [UInt16.toNat_sub_of_le _ _ (UInt16.le_iff_toNat_le.mpr hbelow.le)]
  rw [allocLeg, htries, tryPorts_eq_none_iff hk hport]
  constructor
  · intro h port hmem
    obtain ⟨j, hj, rfl⟩ := List.mem_map.mp hmem
    have hj := List.mem_range.mp hj
    -- place `j` is reached going round from `k`
    have hplace : (k + (j + ringLength r.portMin r.portMax - k) % ringLength r.portMin r.portMax) %
        ringLength r.portMin r.portMax = j := by
      rw [Nat.add_mod_mod, show k + (j + ringLength r.portMin r.portMax - k) = j + ringLength r.portMin r.portMax by omega,
        Nat.add_mod_right, Nat.mod_eq_of_lt hj]
    have hsteps := Nat.mod_lt (j + ringLength r.portMin r.portMax - k) (show 0 < ringLength r.portMin r.portMax by omega)
    have hreached : (j + ringLength r.portMin r.portMax - k) % ringLength r.portMin r.portMax ≤
        (r.portMax.toNat - r.portMin.toNat) / 2 := by
      unfold ringLength at *
      omega
    have hone := h _ hreached
    rwa [hplace] at hone
  · intro h i _
    exact h _ (List.mem_map.mpr ⟨_, List.mem_range.mpr (Nat.mod_lt _ (by omega)), rfl⟩)

end Allocation

end RtpRelay

end BrewServer.Sip
