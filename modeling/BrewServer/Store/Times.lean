import BrewServer.Lib.Calendar
import BrewServer.Lib.Fixed

/-!
# The times of the history

The history tool writes the time of a record as a date and a time of day, without a
library for dates.
-/

namespace BrewServer.BrewHistory

open Calendar Chars

/-- `as u32`. -/
def asU32 (v : ℤ) : ℕ := (v % 2 ^ 32).toNat

/-- The year, month and day so many days after the first of 1970. -/
def civilFromDays (z : ℤ) : ℤ × ℕ × ℕ :=
  let z := z + 719468
  let era := (if 0 ≤ z then z else z - 146096).tdiv 146097
  let doe := z - era * 146097
  let yoe := (doe - doe.tdiv 1460 + doe.tdiv 36524 - doe.tdiv 146096).tdiv 365
  let y := yoe + era * 400
  let doy := doe - (365 * yoe + yoe.tdiv 4 - yoe.tdiv 100)
  let mp := (5 * doy + 2).tdiv 153
  let d := asU32 (doy - (153 * mp + 2).tdiv 5 + 1)
  let m := asU32 (if mp < 10 then mp + 3 else mp - 9)
  (if m ≤ 2 then y + 1 else y, m, d)

/-- Division rounds towards zero, which the era makes up for. -/
theorem era_eq {z era doe : ℤ} (hz : z = 146097 * era + doe) (h0 : 0 ≤ doe) (h1 : doe ≤ 146096) :
    (if 0 ≤ z then z else z - 146096).tdiv 146097 = era := by
  split_ifs with hpos
  · rw [Int.tdiv_eq_ediv_of_nonneg hpos]
    omega
  · have hneg : z - 146096 = -(146096 - z) := (Int.neg_sub 146096 z).symm
    rw [hneg, Int.neg_tdiv, Int.tdiv_eq_ediv_of_nonneg (by omega)]
    omega

theorem asU32_natCast {n : ℕ} (h : n < 2 ^ 32) : asU32 n = n := by
  unfold asU32
  omega

/-- The algorithm computes the calendar. -/
theorem civilFromDays_eq (z : ℤ) :
    civilFromDays z = ((Date.ofDays z).year, (Date.ofDays z).month, (Date.ofDays z).day) := by
  generalize hd : Date.ofDays z = d
  obtain rfl : z = d.toDays := by rw [← hd, Date.toDays_ofDays]
  obtain ⟨era, doe, yoe, doy, mp, h⟩ := d.parts
  have hdays := h.days
  have hdoe := h.doe_le
  have hera := era_eq hdays (Int.natCast_nonneg doe) (by omega)
  have hday : d.toDays + 719468 - era * 146097 = doe := by omega
  have hle : doe / 1460 ≤ doe := Nat.div_le_self _ _
  have hyoe : ((doe : ℤ) - (doe / 1460 : ℕ) + (doe / 36524 : ℕ) - (doe / 146096 : ℕ)).tdiv 365 = yoe := by
    have hsum : (doe : ℤ) - (doe / 1460 : ℕ) + (doe / 36524 : ℕ) - (doe / 146096 : ℕ) =
        (doe - doe / 1460 + doe / 36524 - doe / 146096 : ℕ) := by omega
    rw [hsum, ← h.yoe_eq]
    exact Int.ofNat_tdiv _ 365
  have hdoy : (doe : ℤ) - (365 * yoe + (yoe / 4 : ℕ) - (yoe / 100 : ℕ)) = doy := by
    have hsplit := h.doe_eq
    omega
  have hmp : (5 * (doy : ℤ) + 2).tdiv 153 = mp := by
    rw [← h.mp_eq]
    exact Int.ofNat_tdiv (5 * doy + 2) 153
  have hstart : (153 * (mp : ℤ) + 2).tdiv 5 = ((153 * mp + 2) / 5 : ℕ) := Int.ofNat_tdiv (153 * mp + 2) 5
  have hd : (doy : ℤ) - ((153 * mp + 2) / 5 : ℕ) + 1 = d.day := by
    have hadd := h.day_eq
    omega
  have hm : (if (mp : ℤ) < 10 then (mp : ℤ) + 3 else mp - 9) = d.month := by
    have hmonth := h.month_eq
    split_ifs at hmonth ⊢ <;> omega
  have hmonth : d.month < 2 ^ 32 := d.month_le.trans_lt (by decide)
  have hlast : d.day < 2 ^ 32 := d.day_le.trans_lt (by unfold daysIn; split_ifs <;> decide)
  have hquads : (doe : ℤ).tdiv 1460 = (doe / 1460 : ℕ) := Int.ofNat_tdiv doe 1460
  have hcenturies : (doe : ℤ).tdiv 36524 = (doe / 36524 : ℕ) := Int.ofNat_tdiv doe 36524
  have heras : (doe : ℤ).tdiv 146096 = (doe / 146096 : ℕ) := Int.ofNat_tdiv doe 146096
  have hfours : (yoe : ℤ).tdiv 4 = (yoe / 4 : ℕ) := Int.ofNat_tdiv yoe 4
  have hhundreds : (yoe : ℤ).tdiv 100 = (yoe / 100 : ℕ) := Int.ofNat_tdiv yoe 100
  unfold civilFromDays
  dsimp only
  rw [hera, hday, hquads, hcenturies, heras, hyoe, hfours, hhundreds, hdoy, hmp, hstart, hd, hm,
    asU32_natCast hmonth, asU32_natCast hlast, ← h.year_eq]

/-- Year, month, day, hour, minute and second as they are written. -/
def stamp (y mo d h m s : ℕ) : Chars :=
  padded 4 y ++ '-' :: padded 2 mo ++ '-' :: padded 2 d ++ ' ' :: padded 2 h ++ ':' :: padded 2 m ++ ':' :: padded 2 s

/-- The time of a record, in milliseconds since the first of 1970. -/
def fmtTs (ms : UInt64) : Chars :=
  let secs : ℤ := ms.toNat / 1000
  let days := secs / 86400
  let tod := secs % 86400
  let (y, mo, d) := civilFromDays days
  stamp y.toNat mo d (tod / 3600).toNat (tod % 3600 / 60).toNat (tod % 60).toNat

section Stamp

variable {y mo d h m s y' mo' d' h' m' s' : ℕ}

/-- All but the year has its fixed place. -/
theorem stamp_inj (hmo : mo < 100) (hd : d < 100) (hh : h < 100) (hm : m < 100) (hs : s < 100) (hmo' : mo' < 100)
    (hd' : d' < 100) (hh' : h' < 100) (hm' : m' < 100) (hs' : s' < 100)
    (heq : stamp y mo d h m s = stamp y' mo' d' h' m' s') :
    y = y' ∧ mo = mo' ∧ d = d' ∧ h = h' ∧ m = m' ∧ s = s' := by
  have hlen {n : ℕ} (hn : n < 100) : (padded 2 n).length = 2 := length_padded (by decide) hn
  unfold stamp at heq
  simp only [List.append_assoc, List.cons_append] at heq
  obtain ⟨hy, hrest⟩ := List.append_inj' heq (by simp [*])
  obtain ⟨hmonth, hrest⟩ := List.append_inj (List.cons.inj hrest).2 (by rw [hlen hmo, hlen hmo'])
  obtain ⟨hday, hrest⟩ := List.append_inj (List.cons.inj hrest).2 (by rw [hlen hd, hlen hd'])
  obtain ⟨hhour, hrest⟩ := List.append_inj (List.cons.inj hrest).2 (by rw [hlen hh, hlen hh'])
  obtain ⟨hminute, hrest⟩ := List.append_inj (List.cons.inj hrest).2 (by rw [hlen hm, hlen hm'])
  exact ⟨padded_inj hy, padded_inj hmonth, padded_inj hday, padded_inj hhour, padded_inj hminute,
    padded_inj (List.cons.inj hrest).2⟩

end Stamp

section Times

variable {ms ms' : UInt64}

theorem year_ofDays (n : ℕ) : 1970 ≤ (Date.ofDays n).year := by
  induction n with
  | zero => decide
  | succ n ih =>
    have hle (d : Date) : d.year ≤ d.next.year := by
      unfold Date.next Date.first
      split_ifs
      · exact le_refl _
      · exact le_refl _
      · exact Int.le_add_one (le_refl _)
    rw [Nat.cast_succ, Date.ofDays_succ]
    exact ih.trans (hle _)

/-- The text is the date of the calendar and the time of day. -/
theorem fmtTs_eq (ms : UInt64) :
    fmtTs ms = stamp (Date.ofDays (ms.toNat / 86400000)).year.toNat (Date.ofDays (ms.toNat / 86400000)).month
      (Date.ofDays (ms.toNat / 86400000)).day (ms.toNat / 3600000 % 24) (ms.toNat / 60000 % 60) (ms.toNat / 1000 % 60) := by
  have hdays : (ms.toNat : ℤ) / 1000 / 86400 = ms.toNat / 86400000 := by omega
  have hhours : ((ms.toNat : ℤ) / 1000 % 86400 / 3600).toNat = ms.toNat / 3600000 % 24 := by omega
  have hminutes : ((ms.toNat : ℤ) / 1000 % 86400 % 3600 / 60).toNat = ms.toNat / 60000 % 60 := by omega
  have hseconds : ((ms.toNat : ℤ) / 1000 % 86400 % 60).toNat = ms.toNat / 1000 % 60 := by omega
  unfold fmtTs
  dsimp only
  rw [hdays, civilFromDays_eq, hhours, hminutes, hseconds]

/-- Two records show the same time if and only if they are of the same second. -/
theorem fmtTs_eq_iff : fmtTs ms = fmtTs ms' ↔ ms.toNat / 1000 = ms'.toNat / 1000 := by
  constructor
  · intro h
    rw [fmtTs_eq, fmtTs_eq] at h
    have hmonth (d : Date) : d.month < 100 := d.month_le.trans_lt (by decide)
    have hday (d : Date) : d.day < 100 := d.day_le.trans_lt (by unfold daysIn; split_ifs <;> decide)
    obtain ⟨hy, hmo, hd, hh, hm, hs⟩ := stamp_inj (hmonth _) (hday _) (by omega) (by omega) (by omega) (hmonth _)
      (hday _) (by omega) (by omega) (by omega) h
    have hyear := year_ofDays (ms.toNat / 86400000)
    have hyear' := year_ofDays (ms'.toNat / 86400000)
    have hsame : Date.ofDays (ms.toNat / 86400000) = Date.ofDays (ms'.toNat / 86400000) := by
      refine Date.ext ?_ hmo hd
      push_cast at hyear hyear'
      omega
    have hdays : ((ms.toNat / 86400000 : ℤ)) = ms'.toNat / 86400000 := by
      rw [← Date.toDays_ofDays (ms.toNat / 86400000), hsame, Date.toDays_ofDays]
    omega
  · intro h
    unfold fmtTs
    have hsecs : (ms.toNat : ℤ) / 1000 = ms'.toNat / 1000 := by omega
    rw [hsecs]

/-- The time of a record is shown as the calendar and the clock have it, to the second. -/
theorem fmtTs_shows (ms : UInt64) :
    fmtTs ms = stamp (Date.ofDays (ms.toNat / 86400000)).year.toNat (Date.ofDays (ms.toNat / 86400000)).month
        (Date.ofDays (ms.toNat / 86400000)).day (ms.toNat / 3600000 % 24) (ms.toNat / 60000 % 60)
        (ms.toNat / 1000 % 60) ∧
      ∀ ms' : UInt64, fmtTs ms' = fmtTs ms ↔ ms'.toNat / 1000 = ms.toNat / 1000 :=
  ⟨fmtTs_eq ms, fun _ => fmtTs_eq_iff⟩

example : fmtTs 951868799999 = "2000-02-29 23:59:59".toList := by decide +kernel

end Times

end BrewServer.BrewHistory
