import BrewServer.Lib.Transition
import Mathlib.Data.List.Nodup

/-!
# The replay guard on authenticated heartbeats

The guard keeps the boot id and sequence number it accepted last. What it has
accepted over a whole run is compared with what was heard, newest first.
-/

namespace BrewServer.Ha

/-- A heartbeat whose timestamp is further than this from our clock is dropped. -/
def maxClockSkewMs : UInt64 := 30000

/-- Boot id and sequence number. -/
abbrev Stamp := UInt64 × UInt64

/-- The parts of a heartbeat the guard looks at. -/
structure Heartbeat where
  bootId : UInt64
  seq : UInt64
  tsMs : UInt64
  deriving DecidableEq

def Heartbeat.stamp (hb : Heartbeat) : Stamp := (hb.bootId, hb.seq)

def absDiff (a b : UInt64) : UInt64 := if a < b then b - a else a - b

structure ReplayGuard where
  last : Option Stamp
  deriving DecidableEq

/-- A heartbeat and the receiver's clock at that moment. -/
structure Reception where
  hb : Heartbeat
  nowMs : UInt64
  deriving DecidableEq

namespace ReplayGuard

def default : ReplayGuard := ⟨none⟩

def accept (g : ReplayGuard) (hb : Heartbeat) (nowMs : UInt64) : Bool × ReplayGuard :=
  if maxClockSkewMs < absDiff nowMs hb.tsMs then (false, g)
  else match g.last with
    | some (boot, seq) =>
      if boot = hb.bootId ∧ hb.seq ≤ seq then (false, g) else (true, ⟨some (hb.bootId, hb.seq)⟩)
    | none => (true, ⟨some (hb.bootId, hb.seq)⟩)

/-- The stamps a guard accepts in a run, oldest first. -/
def accepted (g : ReplayGuard) : List Reception → List Stamp
  | [] => []
  | r :: rs =>
    let (ok, g') := g.accept r.hb r.nowMs
    if ok then r.hb.stamp :: accepted g' rs else accepted g' rs

/-- What the guard turns away among the heartbeats of this moment. -/
def Refuses (g : ReplayGuard) (p : Stamp) : Prop := ∃ seq, g.last = some (p.1, seq) ∧ p.2 ≤ seq

end ReplayGuard

namespace Reception

/-- Sent and received within the accepted clock skew. -/
def Fresh (r : Reception) : Prop := ¬ maxClockSkewMs < absDiff r.nowMs r.hb.tsMs

instance (r : Reception) : Decidable r.Fresh := inferInstanceAs (Decidable (¬ _))

end Reception

/-- The stamps heard within the skew, newest first. -/
def heard (rs : List Reception) : List Stamp := ((rs.filter fun r => r.Fresh).map fun r => r.hb.stamp).reverse

/-- Since the last heartbeat of another boot id, one of `p`'s boot id with at
least `p`'s sequence number was heard. -/
def Stale (p : Stamp) : List Stamp → Prop
  | [] => False
  | q :: older => q.1 = p.1 ∧ (p.2 ≤ q.2 ∨ Stale p older)

instance decidableStale (p : Stamp) : (hs : List Stamp) → Decidable (Stale p hs)
  | [] => inferInstanceAs (Decidable False)
  | _ :: older =>
    have := decidableStale p older
    inferInstanceAs (Decidable (_ ∧ (_ ∨ _)))

/-- The heartbeats that were not stale when they were heard. -/
def leaders : List Stamp → List Stamp
  | [] => []
  | p :: older => if Stale p older then leaders older else p :: leaders older

/-- A stamp that was not stale when it was heard is stale whenever it is heard again. -/
def NoReturn (hs : List Stamp) : Prop :=
  ∀ (later : List Stamp) (p : Stamp) (mid older : List Stamp), hs = later ++ p :: (mid ++ p :: older) →
    ¬ Stale p older → Stale p (mid ++ [p])

/-! ## The guard and what was heard -/

section Accept

variable {g : ReplayGuard} {r : Reception} {hs : List Stamp}

theorem accept_late (h : ¬ r.Fresh) : g.accept r.hb r.nowMs = (false, g) := by
  have h' : maxClockSkewMs < absDiff r.nowMs r.hb.tsMs := not_not.mp h
  rw [ReplayGuard.accept, if_pos h']

theorem accept_refused (hf : r.Fresh) (h : g.Refuses r.hb.stamp) : g.accept r.hb r.nowMs = (false, g) := by
  obtain ⟨seq, hlast, hle⟩ := h
  rw [ReplayGuard.accept, if_neg hf, hlast]
  exact if_pos ⟨rfl, hle⟩

theorem accept_taken (hf : r.Fresh) (h : ¬ g.Refuses r.hb.stamp) :
    g.accept r.hb r.nowMs = (true, ⟨some r.hb.stamp⟩) := by
  rw [ReplayGuard.accept, if_neg hf]
  cases hlast : g.last with
  | none => rfl
  | some q =>
    have hq : ¬ (q.1 = r.hb.bootId ∧ r.hb.seq ≤ q.2) := by
      rintro ⟨hb, hle⟩
      exact h ⟨q.2, by rw [hlast]; exact congrArg some (Prod.ext hb rfl), hle⟩
    exact if_neg hq

/-- The one stamp the guard keeps stands for everything heard so far. -/
def Remembers (g : ReplayGuard) (hs : List Stamp) : Prop := ∀ p, g.Refuses p ↔ Stale p hs

theorem remembers_default : Remembers .default [] := by
  intro p
  constructor
  · rintro ⟨seq, h, -⟩
    cases h
  · exact False.elim

theorem remembers_refused {p : Stamp} (hr : Remembers g hs) (h : g.Refuses p) : Remembers g (p :: hs) := by
  intro q
  have hq := hr q
  obtain ⟨seq, hlast, hle⟩ := h
  constructor
  · intro hrefuse
    obtain ⟨seq', hlast', hle'⟩ := hrefuse
    have hboot : p.1 = q.1 := by rw [hlast] at hlast'; grind
    exact ⟨hboot, .inr (hq.mp ⟨seq', hlast', hle'⟩)⟩
  · rintro ⟨hboot, hcase⟩
    rcases hcase with hcase | hcase
    · exact ⟨seq, by rw [hlast, hboot], UInt64.le_trans hcase hle⟩
    · exact hq.mpr hcase

theorem remembers_taken {p : Stamp} (hr : Remembers g hs) (h : ¬ g.Refuses p) : Remembers ⟨some p⟩ (p :: hs) := by
  intro q
  constructor
  · rintro ⟨seq, hlast, hle⟩
    obtain rfl : p = (q.1, seq) := Option.some.inj hlast
    exact ⟨rfl, .inl hle⟩
  · rintro ⟨hboot, hcase⟩
    rcases hcase with hcase | hcase
    · exact ⟨p.2, congrArg some (Prod.ext hboot rfl), hcase⟩
    · -- the guard kept a number of this boot id, and `p` is above it
      obtain ⟨seq, hlast, hle⟩ := (hr q).mpr hcase
      have hlt : ¬ p.2 ≤ seq := fun hle' => h ⟨seq, by rw [hlast, hboot], hle'⟩
      exact ⟨p.2, congrArg some (Prod.ext hboot rfl), by grind⟩

end Accept

theorem heard_cons (r : Reception) (rs : List Reception) :
    heard (r :: rs) = heard rs ++ if r.Fresh then [r.hb.stamp] else [] := by
  by_cases h : r.Fresh <;> simp [heard, h]

/-- What a run of the guard accepts are the leaders of what it heard. -/
theorem leaders_run (rs : List Reception) : ∀ (g : ReplayGuard) (hs : List Stamp), Remembers g hs →
    leaders (heard rs ++ hs) = (g.accepted rs).reverse ++ leaders hs := by
  induction rs with
  | nil => intro g hs _; rfl
  | cons r rs ih =>
    intro g hs hr
    rw [heard_cons, List.append_assoc]
    by_cases hf : r.Fresh
    · by_cases hrefuse : g.Refuses r.hb.stamp
      · have hacc : g.accepted (r :: rs) = g.accepted rs := by
          rw [ReplayGuard.accepted, accept_refused hf hrefuse]; rfl
        have hstale : Stale r.hb.stamp hs := (hr _).mp hrefuse
        rw [if_pos hf, List.singleton_append, ih g _ (remembers_refused hr hrefuse), hacc, leaders, if_pos hstale]
      · have hacc : g.accepted (r :: rs) = r.hb.stamp :: ReplayGuard.accepted ⟨some r.hb.stamp⟩ rs := by
          rw [ReplayGuard.accepted, accept_taken hf hrefuse]; rfl
        have hstale : ¬ Stale r.hb.stamp hs := fun h => hrefuse ((hr _).mpr h)
        rw [if_pos hf, List.singleton_append, ih _ _ (remembers_taken hr hrefuse), hacc, leaders, if_neg hstale]
        simp
    · have hacc : g.accepted (r :: rs) = g.accepted rs := by
        rw [ReplayGuard.accepted, accept_late hf]; rfl
      rw [if_neg hf, List.nil_append, ih g hs hr, hacc]

/-! ## What is heard again -/

/-- Only what was heard from `p` on decides whether `p` is stale when it is heard again. -/
theorem stale_again (p : Stamp) (mid older : List Stamp) :
    Stale p (mid ++ p :: older) ↔ Stale p (mid ++ [p]) := by
  induction mid with
  | nil => simp [Stale]
  | cons q mid ih => simp [Stale, ih]

theorem mem_leaders {p : Stamp} {hs : List Stamp} :
    p ∈ leaders hs ↔ ∃ mid older, hs = mid ++ p :: older ∧ ¬ Stale p older := by
  induction hs with
  | nil => simp [leaders]
  | cons q hs ih =>
    constructor
    · intro h
      by_cases hq : Stale q hs
      · rw [leaders, if_pos hq] at h
        obtain ⟨mid, older, rfl, hst⟩ := ih.mp h
        exact ⟨q :: mid, older, rfl, hst⟩
      · rw [leaders, if_neg hq] at h
        rcases List.mem_cons.mp h with rfl | h
        · exact ⟨[], hs, rfl, hq⟩
        · obtain ⟨mid, older, rfl, hst⟩ := ih.mp h
          exact ⟨q :: mid, older, rfl, hst⟩
    · rintro ⟨mid, older, heq, hst⟩
      cases mid with
      | nil =>
        obtain ⟨rfl, rfl⟩ := List.cons.inj heq
        rw [leaders, if_neg hst]
        exact List.mem_cons_self
      | cons q' mid =>
        obtain ⟨rfl, rfl⟩ := List.cons.inj heq
        have h := ih.mpr ⟨mid, older, rfl, hst⟩
        rw [leaders]
        split
        · exact h
        · exact List.mem_cons_of_mem _ h

theorem noReturn_cons {p : Stamp} {hs : List Stamp} :
    NoReturn (p :: hs) ↔ NoReturn hs ∧ (p ∈ leaders hs → Stale p hs) := by
  constructor
  · intro h
    constructor
    · intro later q mid older heq hst
      exact h (p :: later) q mid older (by rw [heq]; rfl) hst
    · intro hp
      obtain ⟨mid, older, rfl, hst⟩ := mem_leaders.mp hp
      rw [stale_again]
      exact h [] p mid older rfl hst
  · rintro ⟨hno, hp⟩ later q mid older heq hst
    cases later with
    | nil =>
      obtain ⟨rfl, rfl⟩ := List.cons.inj heq
      rw [← stale_again p mid older]
      exact hp (mem_leaders.mpr ⟨mid, older, rfl, hst⟩)
    | cons p' later =>
      obtain ⟨rfl, rfl⟩ := List.cons.inj heq
      exact hno later q mid older rfl hst

theorem leaders_nodup (hs : List Stamp) : (leaders hs).Nodup ↔ NoReturn hs := by
  induction hs with
  | nil => simp [leaders, NoReturn]
  | cons p hs ih =>
    rw [noReturn_cons, ← ih, leaders]
    by_cases hp : Stale p hs
    · simp [hp]
    · rw [if_neg hp, List.nodup_cons]
      constructor
      · exact fun h => ⟨h.2, fun hm => absurd hm h.1⟩
      · exact fun h => ⟨fun hm => hp (h.2 hm), h.1⟩

/-- A guard accepts no stamp twice exactly when none that it accepted is heard
again after its boot id came back. -/
theorem accepted_nodup_iff (rs : List Reception) :
    (ReplayGuard.default.accepted rs).Nodup ↔ NoReturn (heard rs) := by
  have h := leaders_run rs .default [] remembers_default
  rw [List.append_nil] at h
  rw [← leaders_nodup, h, leaders, List.append_nil, List.nodup_reverse]

/-- A peer that restarts, and one recorded heartbeat of its first life. -/
theorem replay_after_restart :
    ¬ (ReplayGuard.default.accepted
      [⟨⟨1, 5, 100000⟩, 100000⟩, ⟨⟨2, 1, 101000⟩, 101000⟩, ⟨⟨1, 5, 100000⟩, 102000⟩]).Nodup := by
  decide

end BrewServer.Ha
