import Mathlib.Algebra.Group.End
import Mathlib.Tactic.Ring

/-!
# The Gregorian calendar

Dates of the calendar as it is carried on in both directions, one day after the other, and
their count from the first day of 1970.
-/

namespace BrewServer.Calendar

def Leap (y : ℤ) : Prop := y % 4 = 0 ∧ (y % 100 ≠ 0 ∨ y % 400 = 0)

instance (y : ℤ) : Decidable (Leap y) := inferInstanceAs (Decidable (y % 4 = 0 ∧ (y % 100 ≠ 0 ∨ y % 400 = 0)))

def daysIn (y : ℤ) (m : ℕ) : ℕ :=
  if m = 2 then if Leap y then 29 else 28
  else if m = 4 ∨ m = 6 ∨ m = 9 ∨ m = 11 then 30
  else 31

theorem daysIn_pos (y : ℤ) (m : ℕ) : 1 ≤ daysIn y m := by
  unfold daysIn
  split_ifs <;> decide

@[ext]
structure Date where
  year : ℤ
  month : ℕ
  day : ℕ
  month_pos : 1 ≤ month
  month_le : month ≤ 12
  day_pos : 1 ≤ day
  day_le : day ≤ daysIn year month
  deriving DecidableEq

namespace Date

def first (y : ℤ) (m : ℕ) (h : 1 ≤ m) (h' : m ≤ 12) : Date := ⟨y, m, 1, h, h', le_refl 1, daysIn_pos y m⟩

def last (y : ℤ) (m : ℕ) (h : 1 ≤ m) (h' : m ≤ 12) : Date := ⟨y, m, daysIn y m, h, h', daysIn_pos y m, le_refl _⟩

def next (d : Date) : Date :=
  if h : d.day < daysIn d.year d.month then { d with day := d.day + 1, day_pos := Nat.le_add_left 1 _, day_le := h }
  else if h : d.month < 12 then first d.year (d.month + 1) (Nat.le_add_left 1 _) h
  else first (d.year + 1) 1 (le_refl 1) (by decide)

def prev (d : Date) : Date :=
  if h : 1 < d.day then
    { d with day := d.day - 1, day_pos := Nat.le_sub_one_of_lt h, day_le := (Nat.sub_le _ _).trans d.day_le }
  else if h : 1 < d.month then last d.year (d.month - 1) (Nat.le_sub_one_of_lt h) ((Nat.sub_le _ _).trans d.month_le)
  else last (d.year - 1) 12 (by decide) (le_refl 12)

theorem prev_next (d : Date) : d.next.prev = d := by
  have hm := d.month_pos
  have hm' := d.month_le
  have hd := d.day_pos
  have hd' := d.day_le
  unfold next
  split_ifs with hday hmonth
  · unfold prev
    rw [dif_pos (show 1 < d.day + 1 from Nat.lt_add_of_pos_left hd)]
    rfl
  · have hlast : d.day = daysIn d.year d.month := le_antisymm hd' (Nat.le_of_not_lt hday)
    unfold prev first
    rw [dif_neg (lt_irrefl 1), dif_pos (show 1 < d.month + 1 from Nat.lt_add_of_pos_left hm)]
    unfold last
    ext
    · rfl
    · rfl
    · exact hlast.symm
  · have hlast : d.day = daysIn d.year d.month := le_antisymm hd' (Nat.le_of_not_lt hday)
    have hdec : d.month = 12 := le_antisymm hm' (Nat.le_of_not_lt hmonth)
    unfold prev first
    rw [dif_neg (lt_irrefl 1), dif_neg (lt_irrefl 1)]
    unfold last
    ext
    · exact Int.add_sub_cancel d.year 1
    · exact hdec.symm
    · dsimp only
      rw [Int.add_sub_cancel, hlast, hdec]

theorem next_prev (d : Date) : d.prev.next = d := by
  have hm := d.month_pos
  have hm' := d.month_le
  have hd := d.day_pos
  have hd' := d.day_le
  unfold prev
  split_ifs with hday hmonth
  · unfold next
    rw [dif_pos (show d.day - 1 < daysIn d.year d.month by omega)]
    ext
    · rfl
    · rfl
    · exact Nat.sub_add_cancel hd
  · unfold next last
    rw [dif_neg (lt_irrefl _), dif_pos (show d.month - 1 < 12 by omega)]
    unfold first
    ext
    · rfl
    · exact Nat.sub_add_cancel hm
    · dsimp only
      omega
  · unfold next last
    rw [dif_neg (lt_irrefl _), dif_neg (lt_irrefl _)]
    unfold first
    ext
    · exact Int.sub_add_cancel d.year 1
    · dsimp only
      omega
    · dsimp only
      omega

/-- The calendar goes on for ever, in both directions. -/
def succ : Equiv.Perm Date := ⟨next, prev, prev_next, next_prev⟩

def epoch : Date := first 1970 1 (le_refl 1) (by decide)

/-- The date so many days after the first of 1970, before it where the number is negative. -/
def ofDays (n : ℤ) : Date := (succ ^ n) epoch

theorem ofDays_succ (n : ℤ) : ofDays (n + 1) = (ofDays n).next := by
  unfold ofDays
  rw [add_comm, zpow_add, zpow_one]
  rfl

end Date

/-! ## Counting the days -/

/-- Years and months that begin with March, so that a leap day comes last. -/
def marchYear (y : ℤ) (m : ℕ) : ℤ := if m ≤ 2 then y - 1 else y

def marchMonth (m : ℕ) : ℤ := if m ≤ 2 then m + 9 else m - 3

/-- The days since the first of March. -/
def marchDay (m d : ℕ) : ℤ := (153 * marchMonth m + 2) / 5 + d - 1

/-- The days from the first of 1970. -/
def dayNumber (y : ℤ) (m d : ℕ) : ℤ :=
  let y' := marchYear y m
  365 * y' + y' / 4 - y' / 100 + y' / 400 + marchDay m d - 719468

/-- March follows on February. -/
theorem dayNumber_march (y : ℤ) : dayNumber y 3 1 = dayNumber y 2 (daysIn y 2) + 1 := by
  have hdays : daysIn y 2 = if Leap y then 29 else 28 := rfl
  have hthree : marchYear y 3 = y := rfl
  have htwo : marchYear y 2 = y - 1 := rfl
  have hfirst : marchDay 3 1 = 0 := rfl
  have hlast (d : ℕ) : marchDay 2 d = 336 + d := by
    change (337 : ℤ) + d - 1 = 336 + d
    ring
  unfold dayNumber
  rw [hthree, htwo, hfirst, hlast, hdays]
  dsimp only
  split_ifs with hleap
  · unfold Leap at hleap
    omega
  · unfold Leap at hleap
    omega

/-- The first of a month follows on the last of the month before. -/
theorem dayNumber_first {y : ℤ} {m : ℕ} (hm : 1 ≤ m) (hm' : m < 12) :
    dayNumber y (m + 1) 1 = dayNumber y m (daysIn y m) + 1 := by
  by_cases hfeb : m = 2
  · subst hfeb
    exact dayNumber_march y
  · have hdays : daysIn y m = if m = 4 ∨ m = 6 ∨ m = 9 ∨ m = 11 then 30 else 31 := if_neg hfeb
    have htable : ∀ m < 12, m ≠ 0 → m ≠ 2 →
        marchDay (m + 1) 1 = marchDay m (if m = 4 ∨ m = 6 ∨ m = 9 ∨ m = 11 then 30 else 31) + 1 := by decide
    have hday := htable m hm' (Nat.pos_iff_ne_zero.mp hm) hfeb
    have hyear : marchYear y (m + 1) = marchYear y m := by
      unfold marchYear
      split_ifs <;> omega
    unfold dayNumber
    rw [hdays, hday, hyear]
    ring

theorem dayNumber_newYear (y : ℤ) : dayNumber (y + 1) 1 1 = dayNumber y 12 31 + 1 := by
  have hjanuary : marchYear (y + 1) 1 = y := Int.add_sub_cancel y 1
  have hdecember : marchYear y 12 = y := rfl
  have hday : marchDay 1 1 = marchDay 12 31 + 1 := by decide
  unfold dayNumber
  rw [hjanuary, hdecember, hday]
  ring

theorem dayNumber_day (y : ℤ) (m d : ℕ) : dayNumber y m (d + 1) = dayNumber y m d + 1 := by
  unfold dayNumber marchDay
  push_cast
  ring

namespace Date

def toDays (d : Date) : ℤ := dayNumber d.year d.month d.day

theorem toDays_next (d : Date) : d.next.toDays = d.toDays + 1 := by
  have hlast (h : ¬ d.day < daysIn d.year d.month) : d.day = daysIn d.year d.month :=
    le_antisymm d.day_le (Nat.le_of_not_lt h)
  unfold next toDays
  split_ifs with hday hmonth
  · exact dayNumber_day d.year d.month d.day
  · rw [hlast hday]
    exact dayNumber_first d.month_pos hmonth
  · have hdec : d.month = 12 := le_antisymm d.month_le (Nat.le_of_not_lt hmonth)
    rw [hlast hday, hdec]
    exact dayNumber_newYear d.year

theorem toDays_ofDays (n : ℤ) : (ofDays n).toDays = n := by
  induction n using Int.induction_on with
  | zero => rfl
  | succ n ih => rw [ofDays_succ, toDays_next, ih]
  | pred n ih =>
    have h := toDays_next (ofDays (-n - 1))
    rw [← ofDays_succ, Int.sub_add_cancel, ih] at h
    omega

end Date

/-! ## Back from the count -/

/-- The days before a year of an era of four hundred. -/
def eraDay (yoe : ℤ) : ℤ := 365 * yoe + yoe / 4 - yoe / 100

/-- The last day before March is only there if a leap year ends. -/
theorem marchDay_spec (d : Date) :
    0 ≤ marchDay d.month d.day ∧ (marchDay d.month d.day ≤ 364 ∨
        marchDay d.month d.day = 365 ∧ Leap (marchYear d.year d.month + 1)) ∧
      (5 * marchDay d.month d.day + 2) / 153 = marchMonth d.month := by
  obtain ⟨y, m, day, hm, hm', hd, hd'⟩ := d
  dsimp only
  by_cases hfeb : m = 2
  · subst hfeb
    have hmonth : marchMonth 2 = 11 := rfl
    have hyear : marchYear y 2 + 1 = y := Int.sub_add_cancel y 1
    have hdays : daysIn y 2 = if Leap y then 29 else 28 := rfl
    have hday : marchDay 2 day = 336 + day := by
      change (337 : ℤ) + day - 1 = 336 + day
      ring
    rw [hdays] at hd'
    rw [hday, hmonth, hyear]
    split_ifs at hd' with hleap
    · refine ⟨by omega, ?_, by omega⟩
      rcases Nat.lt_or_eq_of_le hd' with hlt | heq
      · exact .inl (by omega)
      · exact .inr ⟨by omega, hleap⟩
    · exact ⟨by omega, .inl (by omega), by omega⟩
  · have hdays : daysIn y m = if m = 4 ∨ m = 6 ∨ m = 9 ∨ m = 11 then 30 else 31 := if_neg hfeb
    have htable : ∀ m < 13, ∀ d < 32,
        m ≠ 0 ∧ m ≠ 2 ∧ d ≠ 0 ∧ d ≤ (if m = 4 ∨ m = 6 ∨ m = 9 ∨ m = 11 then 30 else 31) →
          0 ≤ marchDay m d ∧ marchDay m d ≤ 364 ∧ (5 * marchDay m d + 2) / 153 = marchMonth m := by decide
    rw [hdays] at hd'
    have hlt : day < 32 := by
      split_ifs at hd' <;> omega
    obtain ⟨h0, h1, h2⟩ := htable m (Nat.lt_succ_of_le hm') day hlt
      ⟨Nat.pos_iff_ne_zero.mp hm, hfeb, Nat.pos_iff_ne_zero.mp hd, hd'⟩
    exact ⟨h0, .inl h1, h2⟩

/-- Its year is read off a day of an era. -/
theorem yearOfEra {yoe doy : ℤ} (h0 : 0 ≤ yoe) (h1 : yoe < 400) (hd : 0 ≤ doy)
    (hd' : doy ≤ 364 ∨ doy = 365 ∧ Leap (yoe + 1)) :
    let doe := eraDay yoe + doy
    0 ≤ doe ∧ doe ≤ 146096 ∧ (doe - doe / 1460 + doe / 36524 - doe / 146096) / 365 = yoe := by
  -- The century, the four years in it and the year in these.
  obtain ⟨c, j, s, hc, hc', hj, hj', hs, hs', rfl⟩ : ∃ c j s : ℤ,
      0 ≤ c ∧ c ≤ 3 ∧ 0 ≤ j ∧ j ≤ 24 ∧ 0 ≤ s ∧ s ≤ 3 ∧ yoe = 100 * c + 4 * j + s :=
    ⟨yoe / 100, yoe % 100 / 4, yoe % 4, by omega, by omega, by omega, by omega, by omega, by omega, by omega⟩
  have hera : eraDay (100 * c + 4 * j + s) = 36524 * c + 1461 * j + 365 * s := by
    unfold eraDay
    omega
  unfold Leap at hd'
  have hfull : doy = 365 → s = 3 ∧ (j ≤ 23 ∨ c = 3) := by omega
  have hr : 365 * s + doy ≤ 1460 := by omega
  dsimp only
  rw [hera]
  generalize hdoe : 36524 * c + 1461 * j + 365 * s + doy = doe
  have hquads : doe / 1460 = 25 * c + j + if 1460 ≤ 24 * c + j + (365 * s + doy) then 1 else 0 := by
    split_ifs <;> omega
  have hcentury : 1461 * j + 365 * s + doy ≤ 36523 ∨ c = 3 ∧ 1461 * j + 365 * s + doy = 36524 := by omega
  have hcenturies : doe / 36524 - doe / 146096 = c := by
    rcases hcentury with hk | ⟨rfl, hk⟩
    · have hdiv := ((Int.ediv_emod_unique (a := doe) (b := 36524) (q := c) (by decide)).mpr
        ⟨by omega, by omega, hk.trans_lt (by decide)⟩).1
      have hlast : doe / 146096 = 0 := Int.ediv_eq_zero_of_lt (by omega) (by omega)
      rw [hdiv, hlast, Int.sub_zero]
    · obtain rfl : doe = 146096 := by omega
      decide
  refine ⟨by omega, by omega, ?_⟩
  have hsum : doe - doe / 1460 + doe / 36524 - doe / 146096 = doe - doe / 1460 + c := by omega
  rw [hsum, hquads]
  split_ifs <;> omega

/-- The eras, the day of the era and in it the year and the day from the first of March. -/
theorem Date.toDays_eq (d : Date) :
    d.toDays + 719468 = 146097 * (marchYear d.year d.month / 400) +
      (eraDay (marchYear d.year d.month % 400) + marchDay d.month d.day) := by
  unfold toDays dayNumber eraDay
  dsimp only
  omega

/-- The era, the day of it, the year of it, and the day and month from the first of March. -/
structure Parts (d : Date) (era : ℤ) (doe yoe doy mp : ℕ) : Prop where
  days : d.toDays + 719468 = 146097 * era + doe
  doe_le : doe ≤ 146096
  yoe_eq : (doe - doe / 1460 + doe / 36524 - doe / 146096) / 365 = yoe
  doe_eq : doe = 365 * yoe + yoe / 4 - yoe / 100 + doy
  mp_eq : (5 * doy + 2) / 153 = mp
  day_eq : doy + 1 = d.day + (153 * mp + 2) / 5
  month_eq : d.month = if mp < 10 then mp + 3 else mp - 9
  year_eq : d.year = if d.month ≤ 2 then yoe + era * 400 + 1 else yoe + era * 400

theorem Date.parts (d : Date) : ∃ era doe yoe doy mp, Parts d era doe yoe doy mp := by
  have hz := d.toDays_eq
  obtain ⟨hdoy, hdoy', hmp⟩ := marchDay_spec d
  have hyoe : 0 ≤ marchYear d.year d.month % 400 := Int.emod_nonneg _ (by decide)
  have hyoe' : marchYear d.year d.month % 400 < 400 := Int.emod_lt_of_pos _ (by decide)
  have hleap : marchDay d.month d.day ≤ 364 ∨
      marchDay d.month d.day = 365 ∧ Leap (marchYear d.year d.month % 400 + 1) := by
    refine hdoy'.imp_right fun h => ⟨h.1, ?_⟩
    have hl := h.2
    unfold Leap at hl ⊢
    omega
  obtain ⟨h0, h1, hyear⟩ := yearOfEra hyoe hyoe' hdoy hleap
  have hmonth : ∀ m < 13, 1 ≤ m → 0 ≤ marchMonth m ∧
      m = if (marchMonth m).toNat < 10 then (marchMonth m).toNat + 3 else (marchMonth m).toNat - 9 := by decide
  obtain ⟨hmp0, hmonth⟩ := hmonth d.month (Nat.lt_succ_of_le d.month_le) d.month_pos
  have hday : marchDay d.month d.day = (153 * marchMonth d.month + 2) / 5 + d.day - 1 := rfl
  have hyears : d.year = if d.month ≤ 2 then marchYear d.year d.month + 1 else marchYear d.year d.month := by
    unfold marchYear
    split_ifs <;> omega
  generalize hy : marchYear d.year d.month % 400 = yoe at *
  generalize hq : marchYear d.year d.month / 400 = era at *
  have hsplit : marchYear d.year d.month = yoe + era * 400 := by omega
  rw [hsplit] at hyears
  generalize marchDay d.month d.day = doy at *
  generalize marchMonth d.month = mp at *
  unfold eraDay at h0 h1 hyear hz
  lift yoe to ℕ using hyoe
  lift doy to ℕ using hdoy
  lift mp to ℕ using hmp0
  rw [Int.toNat_natCast] at hmonth
  refine ⟨era, 365 * yoe + yoe / 4 - yoe / 100 + doy, yoe, doy, mp, ?_, by omega, ?_, rfl, by omega, by omega, hmonth,
    hyears⟩
  · omega
  · have hcast : ((365 * yoe + yoe / 4 - yoe / 100 + doy : ℕ) : ℤ) = 365 * yoe + (yoe : ℤ) / 4 - (yoe : ℤ) / 100 + doy := by
      omega
    rw [← hcast] at hyear
    omega

end BrewServer.Calendar
