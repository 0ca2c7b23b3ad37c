import BrewServer.Lib.Fixed
import BrewServer.Position.Text

/-!
# APRS coordinates

A coordinate is written in whole degrees and minutes to two decimals, and read back.
-/

namespace BrewServer.Position

open Chars

/-- Degrees in `n` digits, minutes and a hemisphere letter; `x` is held within `bound`. -/
def formatAprs (n : ℕ) (bound : ℚ) (plus minus : Char) (x : ℚ) : Chars :=
  let x := max (-bound) (min bound x)
  let hemi := if x < 0 then minus else plus
  let deg := ⌊|x|⌋.toNat
  let minutes := (|x| - deg) * 60
  padded n deg ++ fixedTwo 5 minutes ++ [hemi]

def formatAprsLat : ℚ → Chars := formatAprs 2 90 'N' 'S'

def formatAprsLon : ℚ → Chars := formatAprs 3 180 'E' 'W'

/-! ## Digits -/

section Digits

variable {t : Chars} {b : Bytes}

theorem ascii_eq {c : Char} (h : c.val.toNat ≤ 127) : String.utf8EncodeChar c = [ascii c] :=
  String.utf8EncodeChar_eq_singleton (utf8Size_of_le h)

theorem asBytes_eq (h : ∀ c ∈ t, c.val.toNat ≤ 127) : asBytes t = t.map ascii := by
  induction t with
  | nil => rfl
  | cons c t ih =>
    have ht := ih fun d hd => h d (List.mem_cons_of_mem c hd)
    unfold asBytes at ht ⊢
    rw [List.flatMap_cons, ht, ascii_eq (h c List.mem_cons_self)]
    rfl

theorem digit_range {c : Char} (h : c.isDigit = true) : 48 ≤ c.val.toNat ∧ c.val.toNat ≤ 57 := by
  unfold Char.isDigit at h
  simp only [Bool.and_eq_true, decide_eq_true_eq] at h
  exact h

theorem toNat_ascii {c : Char} (h : c.isDigit = true) : (ascii c).toNat = c.toNat := by
  have hc := digit_range h
  have hn : c.toNat = c.val.toNat := rfl
  unfold ascii
  rw [UInt8.toNat_ofNat']
  omega

theorem isAsciiDigit_ascii {c : Char} (h : c.isDigit = true) : isAsciiDigit (ascii c) = true := by
  have hc := digit_range h
  have hn := toNat_ascii h
  have hv : c.toNat = c.val.toNat := rfl
  unfold isAsciiDigit
  simp only [Bool.and_eq_true, decide_eq_true_eq, UInt8.le_iff_toNat_le]
  have h48 : (0x30 : UInt8).toNat = 48 := rfl
  have h57 : (0x39 : UInt8).toNat = 57 := rfl
  omega

/-- Digits stand for the same number as characters and as bytes. -/
theorem digitsValue_map (h : ∀ c ∈ t, c.isDigit = true) : digitsValue (t.map ascii) = Nat.ofDigitChars 10 t 0 := by
  have hfold : ∀ (t : Chars) (v : ℕ), (∀ c ∈ t, c.isDigit = true) →
      (t.map ascii).foldl (fun v b => 10 * v + (b.toNat - 0x30)) v = Nat.ofDigitChars 10 t v := by
    intro t
    induction t with
    | nil => exact fun v _ => rfl
    | cons c t ih =>
      intro v h
      rw [List.map_cons, List.foldl_cons, toNat_ascii (h c List.mem_cons_self),
        ih _ fun d hd => h d (List.mem_cons_of_mem c hd), Nat.ofDigitChars_cons]
      rfl
  exact hfold t 0 h

theorem isContinuation_of_digit {c : UInt8} (h : isAsciiDigit c = true) : isContinuation c = false := by
  have hall : ∀ m : Fin 10, isContinuation (UInt8.ofNat (48 + m)) = false := by decide
  unfold isAsciiDigit at h
  simp only [Bool.and_eq_true, decide_eq_true_eq, UInt8.le_iff_toNat_le] at h
  have hlo : 48 ≤ c.toNat := h.1
  have hhi : c.toNat ≤ 57 := h.2
  have hc := hall ⟨c.toNat - 48, by omega⟩
  have hsum : 48 + (c.toNat - 48) = c.toNat := by omega
  rw [hsum, UInt8.ofNat_toNat] at hc
  exact hc

/-- A text may be cut before a byte that begins a character. -/
theorem isCharBoundary_append (xs ys : Bytes) {c : UInt8} (hc : isContinuation c = false) :
    isCharBoundary (xs ++ c :: ys) xs.length = true := by
  have hget : (xs ++ c :: ys)[xs.length]? = some c := by
    rw [List.getElem?_append_right le_rfl, Nat.sub_self]
    rfl
  unfold isCharBoundary
  rw [hget, Option.any_some, hc, Bool.not_false, Bool.or_true]

theorem get_append {xs ys zs : Bytes} (hi : isCharBoundary (xs ++ (ys ++ zs)) xs.length = true)
    (hj : isCharBoundary (xs ++ (ys ++ zs)) (xs.length + ys.length) = true) :
    get (xs ++ (ys ++ zs)) xs.length (xs.length + ys.length) = some ys := by
  unfold get
  rw [if_pos ⟨Nat.le_add_right _ _, hi, hj⟩, List.drop_left, Nat.add_sub_cancel_left, List.take_left]

end Digits

/-! ## Reading -/

section Reading

variable {b whole frac ds ms fs : Bytes} {fuel : ℕ} {text : Chars}

theorem digitsAt_eq {i n : ℕ} (h : i + n ≤ b.length) : digitsAt b i n = .ok (((b.drop i).take n).all isAsciiDigit) := by
  induction n generalizing i with
  | zero => rfl
  | succ n ih =>
    have hi : i < b.length := by omega
    rw [digitsAt, readAt_of_lt hi, List.drop_eq_getElem_cons hi, List.take_succ_cons, List.all_cons]
    by_cases hd : isAsciiDigit b[i] = true
    · rw [hd, Bool.true_and]
      exact (if_pos hd).trans (ih (by omega))
    · rw [Bool.eq_false_iff.mpr hd, Bool.false_and]
      exact if_neg hd

theorem not_sign_of_digit {c : UInt8} (h : isAsciiDigit c = true) : c ≠ ascii '-' ∧ c ≠ ascii '+' := by
  constructor
  · rintro rfl
    revert h
    decide
  · rintro rfl
    revert h
    decide

theorem splitSign_of_digits (h : ∀ c ∈ whole, isAsciiDigit c = true) (hne : whole ≠ []) (rest : Bytes) :
    splitSign (whole ++ rest) = (1, whole ++ rest) := by
  cases whole with
  | nil => exact absurd rfl hne
  | cons c whole =>
    obtain ⟨hminus, hplus⟩ := not_sign_of_digit (h c List.mem_cons_self)
    rw [List.cons_append, splitSign, if_neg hminus, if_neg hplus]

theorem parseF64_digits (h : ∀ c ∈ whole, isAsciiDigit c = true) (hne : whole ≠ []) :
    parseF64 whole = some (digitsValue whole : ℚ) := by
  have hsign := splitSign_of_digits h hne []
  rw [List.append_nil] at hsign
  unfold parseF64
  rw [hsign]
  dsimp only
  rw [List.dropWhile_eq_nil_iff.mpr h, List.takeWhile_eq_self_iff.mpr h]
  dsimp only
  rw [if_neg hne, one_mul]

theorem parseF64_point (h : ∀ c ∈ whole, isAsciiDigit c = true) (hne : whole ≠ [])
    (hfrac : ∀ c ∈ frac, isAsciiDigit c = true) :
    parseF64 (whole ++ ascii '.' :: frac) = some ((digitsValue (whole ++ frac) : ℚ) / 10 ^ frac.length) := by
  have hpoint : ¬ isAsciiDigit (ascii '.') = true := by decide
  unfold parseF64
  rw [splitSign_of_digits h hne]
  dsimp only
  rw [List.dropWhile_append_of_pos h, List.takeWhile_append_of_pos h, List.dropWhile_cons_of_neg hpoint,
    List.takeWhile_cons_of_neg hpoint]
  dsimp only
  rw [List.append_nil, if_pos ⟨rfl, List.all_eq_true.mpr hfrac, by simp [hne]⟩, one_mul]

theorem run_answer {α : Type} {a : α} : (answer (some a)).run = .ok (some a) := rfl

/-- The minutes end where the digits behind their point do. -/
theorem fractionEnd_eq {front : Bytes} {h : UInt8} (hfs : ∀ c ∈ fs, isAsciiDigit c = true)
    (hh : isAsciiDigit h = false) (hfuel : (front ++ ascii '.' :: (fs ++ [h])).length < fuel) :
    fractionEnd fuel (front ++ ascii '.' :: (fs ++ [h])) front.length = .ok (front.length + 1 + fs.length) := by
  have hlt : front.length < (front ++ ascii '.' :: (fs ++ [h])).length := by
    rw [List.length_append, List.length_cons]
    omega
  have hpoint : (front ++ ascii '.' :: (fs ++ [h]))[front.length] = ascii '.' := by
    rw [List.getElem_append_right le_rfl]
    simp
  have hrest : (front ++ ascii '.' :: (fs ++ [h])).drop (front.length + 1) = fs ++ [h] := by
    rw [← List.drop_drop, List.drop_left]
    rfl
  have hskip : skipWhile isAsciiDigit (front ++ ascii '.' :: (fs ++ [h])) fuel (front.length + 1) =
      .ok (front.length + 1 + fs.length) := by
    rw [skipWhile_eq isAsciiDigit (by omega), hrest, List.takeWhile_append_of_pos hfs,
      List.takeWhile_cons_of_neg (by simp [hh]), List.append_nil]
  rw [fractionEnd, if_pos hlt, readAt_of_lt hlt, hpoint, ok_bind, if_pos rfl, hskip]

/-- A coordinate in digits is read. -/
theorem aprsAt_eq {n : ℕ} {plus minus : Char} {h : UInt8} {sign : ℚ} (hds : ∀ c ∈ ds, isAsciiDigit c = true)
    (hn : ds.length = n) (hpos : 0 < n) (hms : ∀ c ∈ ms, isAsciiDigit c = true) (htwo : ms.length = 2)
    (hfs : ∀ c ∈ fs, isAsciiDigit c = true) (hh : isAsciiDigit h = false) (hwhole : isContinuation h = false)
    (hsign : hemisphereSign plus minus h = some sign) (htext : asBytes text = ds ++ (ms ++ ascii '.' :: (fs ++ [h])))
    (hfuel : (asBytes text).length < fuel) :
    (aprsAt n plus minus fuel text 0).run =
      .ok (some (sign * (digitsValue ds + (digitsValue (ms ++ fs) : ℚ) / 10 ^ fs.length / 60), n + 4 + fs.length)) := by
  subst hn
  rw [htext] at hfuel
  have hlen : (ds ++ (ms ++ ascii '.' :: (fs ++ [h]))).length = ds.length + 4 + fs.length := by
    simp only [List.length_append, List.length_cons, List.length_nil]
    omega
  have hdigits : digitsAt (ds ++ (ms ++ ascii '.' :: (fs ++ [h]))) 0 (ds.length + 2) = .ok true := by
    have htake : (ds ++ (ms ++ ascii '.' :: (fs ++ [h]))).take (ds.length + 2) = ds ++ ms := by
      rw [← htwo, ← List.length_append, ← List.append_assoc, List.take_left]
    rw [digitsAt_eq (by omega), List.drop_zero, htake, List.all_append, List.all_eq_true.mpr hds,
      List.all_eq_true.mpr hms]
    rfl
  have hms0 : ∃ m ms', ms = m :: ms' := by
    obtain ⟨m, m', rfl⟩ := List.length_eq_two.mp htwo
    exact ⟨m, [m'], rfl⟩
  have hcut : isCharBoundary (ds ++ (ms ++ ascii '.' :: (fs ++ [h]))) ds.length = true := by
    obtain ⟨m, ms', rfl⟩ := hms0
    exact isCharBoundary_append ds _ (isContinuation_of_digit (hms m List.mem_cons_self))
  have hdeg : get (ds ++ (ms ++ ascii '.' :: (fs ++ [h]))) 0 (0 + ds.length) = some ds := by
    apply @get_append []
    · rfl
    · rw [List.nil_append, List.length_nil, Nat.zero_add]
      exact hcut
  have hend : fractionEnd fuel (ds ++ (ms ++ ascii '.' :: (fs ++ [h]))) (0 + ds.length + 2) =
      .ok (ds.length + 3 + fs.length) := by
    have hfront := @fractionEnd_eq _ _ (ds ++ ms) _ hfs hh (by rw [List.append_assoc]; omega)
    rw [List.append_assoc, List.length_append, htwo] at hfront
    rw [Nat.zero_add, hfront]
  have hminutes : get (ds ++ (ms ++ ascii '.' :: (fs ++ [h]))) (0 + ds.length) (ds.length + 3 + fs.length) =
      some (ms ++ ascii '.' :: fs) := by
    have hassoc : ms ++ ascii '.' :: (fs ++ [h]) = (ms ++ ascii '.' :: fs) ++ [h] := by simp
    have hlast : ds.length + 3 + fs.length = ds.length + (ms ++ ascii '.' :: fs).length := by
      rw [List.length_append, List.length_cons]
      omega
    rw [hassoc] at hcut ⊢
    rw [Nat.zero_add, hlast]
    apply get_append hcut
    have hfinal := isCharBoundary_append (ds ++ (ms ++ ascii '.' :: fs)) [] hwhole
    rwa [List.append_assoc, List.length_append] at hfinal
  have hhemi : readAt (ds ++ (ms ++ ascii '.' :: (fs ++ [h]))) (ds.length + 3 + fs.length) = .ok h := by
    have hassoc : ds ++ (ms ++ ascii '.' :: (fs ++ [h])) = (ds ++ (ms ++ ascii '.' :: fs)) ++ [h] := by simp
    have hlast : ds.length + 3 + fs.length = (ds ++ (ms ++ ascii '.' :: fs)).length := by
      rw [List.length_append, List.length_append, List.length_cons]
      omega
    rw [hassoc, hlast, readAt, List.getElem?_concat_length]
  have hne : ds ≠ [] := List.ne_nil_of_length_pos hpos
  have hne' : ms ≠ [] := List.ne_nil_of_length_pos (by omega)
  unfold aprsAt
  dsimp only
  rw [htext, if_neg (by omega), run_bind_ok (run_lift_ok hdigits), if_neg (by simp), hdeg, Option.bind_some,
    parseF64_digits hds hne, run_bind_ok run_answer, run_bind_ok (run_lift_ok hend), hminutes, Option.bind_some,
    parseF64_point hms hne' hfs, run_bind_ok run_answer, if_neg (by omega), run_bind_ok (run_lift_ok hhemi), hsign,
    run_bind_ok run_answer]
  have hnext : ds.length + 3 + fs.length + 1 = ds.length + 4 + fs.length := by omega
  rw [hnext]
  rfl

end Reading

/-! ## What is written is read -/

/-- `n` digits of degrees, minutes in hundredths and a hemisphere letter. -/
def token (n deg cents : ℕ) (hemi : Char) : Chars :=
  padded n deg ++ (padded 2 (cents / 100) ++ '.' :: padded 2 (cents % 100)) ++ [hemi]

/-- Whole degrees up to `bound`, minutes from 00.00 to 59.99 and the letter `hemi`. -/
def IsToken (n bound : ℕ) (hemi : Char) (t : Chars) : Prop :=
  t.length = n + 6 ∧ ∃ deg cents, deg ≤ bound ∧ cents < 6000 ∧ t = token n deg cents hemi

/-- A text is read to its end, at most half a hundredth of a minute from `x`. -/
def ReadsBack (read : Chars → ℕ → Partial (ℚ × ℕ)) (x : ℚ) (t : Chars) : Prop :=
  ∃ v, (read t 0).run = .ok (some (v, t.length)) ∧ |v - x| ≤ 0.005 / 60

/-- Two letters for the hemispheres. -/
structure Letters (plus minus : Char) : Prop where
  plus_ascii : plus.val.toNat ≤ 127 := by decide
  minus_ascii : minus.val.toNat ≤ 127 := by decide
  plus_digit : isAsciiDigit (ascii plus) = false := by decide
  minus_digit : isAsciiDigit (ascii minus) = false := by decide
  plus_whole : isContinuation (ascii plus) = false := by decide
  minus_whole : isContinuation (ascii minus) = false := by decide
  plus_sign : hemisphereSign plus minus (ascii plus) = some 1 := by decide
  minus_sign : hemisphereSign plus minus (ascii minus) = some (-1) := by decide

theorem letters_lat : Letters 'N' 'S' := {}

theorem letters_lon : Letters 'E' 'W' := {}

section Axis

variable {n bound deg cents fuel : ℕ} {plus minus hemi : Char} {x : ℚ}

theorem length_token (hn : 0 < n) (hdeg : deg < 10 ^ n) (hcents : cents < 10000) :
    (token n deg cents hemi).length = n + 6 := by
  have hwhole : cents / 100 < 10 ^ 2 := Nat.div_lt_of_lt_mul hcents
  have hpart : cents % 100 < 10 ^ 2 := Nat.mod_lt _ (by decide)
  unfold token
  simp only [List.length_append, List.length_cons, List.length_nil, length_padded hn hdeg,
    length_padded (by decide) hwhole, length_padded (by decide) hpart]

theorem token_inj {deg' cents' : ℕ} {hemi' : Char} (hn : 0 < n) (hdeg : deg < 10 ^ n) (hdeg' : deg' < 10 ^ n)
    (hcents : cents < 10000) (hcents' : cents' < 10000) (h : token n deg cents hemi = token n deg' cents' hemi') :
    cents = cents' := by
  have hwhole : cents / 100 < 10 ^ 2 := Nat.div_lt_of_lt_mul hcents
  have hwhole' : cents' / 100 < 10 ^ 2 := Nat.div_lt_of_lt_mul hcents'
  simp only [token, List.append_assoc] at h
  have hrest := (List.append_inj h (by rw [length_padded hn hdeg, length_padded hn hdeg'])).2
  obtain ⟨hwholes, hrest⟩ := List.append_inj hrest
    (by rw [length_padded (by decide) hwhole, length_padded (by decide) hwhole'])
  have hparts := (List.append_inj' (List.cons.inj hrest).2 rfl).1
  have hdiv := padded_inj hwholes
  have hmod := padded_inj hparts
  omega

theorem cast_toNat_floor_abs (x : ℚ) : ((⌊|x|⌋.toNat : ℕ) : ℚ) = ⌊|x|⌋ := by
  exact_mod_cast congrArg (fun k : ℤ => (k : ℚ)) (Int.toNat_of_nonneg (Int.floor_nonneg.mpr (abs_nonneg x)))

theorem formatAprs_eq (hx : |x| ≤ bound) :
    formatAprs n bound plus minus x =
      token n ⌊|x|⌋.toNat (hundredths (Int.fract |x| * 60)) (if x < 0 then minus else plus) := by
  obtain ⟨hlo, hhi⟩ := abs_le.mp hx
  unfold formatAprs token
  rw [min_eq_right hhi, max_eq_right hlo]
  dsimp only
  rw [cast_toNat_floor_abs, ← Int.fract]
  have hfixed := fixedTwo_eq 2 (Int.fract |x| * 60)
  rw [hfixed]

theorem map_ascii_digits {w k : ℕ} : ∀ c ∈ (padded w k).map ascii, isAsciiDigit c = true := by
  intro c hc
  obtain ⟨d, hd, rfl⟩ := List.mem_map.mp hc
  exact isAsciiDigit_ascii (isDigit_of_mem_padded hd)

theorem asBytes_token (hhemi : hemi.val.toNat ≤ 127) :
    asBytes (token n deg cents hemi) =
      (padded n deg).map ascii ++ ((padded 2 (cents / 100)).map ascii ++ ascii '.' ::
        ((padded 2 (cents % 100)).map ascii ++ [ascii hemi])) := by
  have hdigits : ∀ {w k : ℕ} {c : Char}, c ∈ padded w k → c.val.toNat ≤ 127 := by
    intro w k c hc
    have hrange := digit_range (isDigit_of_mem_padded hc)
    omega
  rw [asBytes_eq]
  · simp [token]
  · intro c hc
    simp only [token, List.mem_append, List.mem_cons, List.not_mem_nil, or_false] at hc
    rcases hc with (hc | hc | rfl | hc) | rfl
    · exact hdigits hc
    · exact hdigits hc
    · decide
    · exact hdigits hc
    · exact hhemi

/-- Two groups of two digits. -/
theorem digitsValue_cents :
    digitsValue ((padded 2 (cents / 100)).map ascii ++ (padded 2 (cents % 100)).map ascii) = cents := by
  have hpart : cents % 100 < 10 ^ 2 := Nat.mod_lt _ (by decide)
  have hdigits : ∀ c ∈ padded 2 (cents / 100) ++ padded 2 (cents % 100), c.isDigit = true := by
    intro c hc
    rcases List.mem_append.mp hc with hc | hc
    · exact isDigit_of_mem_padded hc
    · exact isDigit_of_mem_padded hc
  rw [← List.map_append, digitsValue_map hdigits, Nat.ofDigitChars_append, ofDigitChars_padded,
    Nat.ofDigitChars_eq_ofDigitChars_zero, ofDigitChars_padded, length_padded (by decide) hpart]
  omega

/-- A token is read as degrees and minutes. -/
theorem aprsAt_token {sign : ℚ} (hn : 0 < n) (hdeg : deg < 10 ^ n) (hcents : cents < 10000)
    (hascii : hemi.val.toNat ≤ 127) (hdigit : isAsciiDigit (ascii hemi) = false)
    (hwhole : isContinuation (ascii hemi) = false) (hsign : hemisphereSign plus minus (ascii hemi) = some sign)
    (hfuel : n + 6 < fuel) :
    (aprsAt n plus minus fuel (token n deg cents hemi) 0).run =
      .ok (some (sign * (deg + (cents : ℚ) / 100 / 60), n + 6)) := by
  have hpart : cents % 100 < 10 ^ 2 := Nat.mod_lt _ (by decide)
  have hminutes : cents / 100 < 10 ^ 2 := Nat.div_lt_of_lt_mul hcents
  have hbytes := @asBytes_token n deg cents _ hascii
  have hlen : (asBytes (token n deg cents hemi)).length = n + 6 := by
    rw [hbytes]
    simp only [List.length_append, List.length_cons, List.length_map, List.length_nil, length_padded hn hdeg,
      length_padded (by decide) hminutes, length_padded (by decide) hpart]
  have hvalue : digitsValue ((padded n deg).map ascii) = deg := by
    rw [digitsValue_map fun c hc => isDigit_of_mem_padded hc, ofDigitChars_padded]
  have hread := @aprsAt_eq _ _ _ fuel _ _ plus minus _ _ map_ascii_digits (by rw [List.length_map, length_padded hn hdeg]) hn
    map_ascii_digits (by rw [List.length_map, length_padded (by decide) hminutes]) map_ascii_digits hdigit hwhole hsign
    hbytes (by omega)
  rw [hread, hvalue, digitsValue_cents, List.length_map, length_padded (by decide) hpart]
  norm_num

/-- The letter of a coordinate is read as its sign. -/
theorem Letters.sign (h : Letters plus minus) (x : ℚ) :
    ∃ hemi sign, hemi = (if x < 0 then minus else plus) ∧ hemi.val.toNat ≤ 127 ∧ isAsciiDigit (ascii hemi) = false ∧
      isContinuation (ascii hemi) = false ∧ hemisphereSign plus minus (ascii hemi) = some sign ∧ x = sign * |x| ∧
      |sign| = 1 := by
  by_cases hx : x < 0
  · refine ⟨minus, -1, (if_pos hx).symm, h.minus_ascii, h.minus_digit, h.minus_whole, h.minus_sign, ?_, by norm_num⟩
    rw [abs_of_neg hx]
    ring
  · refine ⟨plus, 1, (if_neg hx).symm, h.plus_ascii, h.plus_digit, h.plus_whole, h.plus_sign, ?_, by norm_num⟩
    rw [abs_of_nonneg (not_lt.mp hx), one_mul]

/-- The degrees and rounded minutes of a coordinate are as near to it as the minutes. -/
theorem abs_degrees_sub_le {sign : ℚ} (hx : x = sign * |x|) (hsign : |sign| = 1) :
    |sign * ((⌊|x|⌋.toNat : ℕ) + (hundredths (Int.fract |x| * 60) : ℚ) / 100 / 60) - x| ≤ 0.005 / 60 := by
  have hnonneg : 0 ≤ Int.fract |x| * 60 := by
    have hfract := Int.fract_nonneg |x|
    linarith
  have herr := abs_le.mp (abs_hundredths_sub_le hnonneg)
  have hsplit : (⌊|x|⌋ : ℚ) + Int.fract |x| = |x| := Int.floor_add_fract |x|
  have hfactor : sign * ((⌊|x|⌋.toNat : ℕ) + (hundredths (Int.fract |x| * 60) : ℚ) / 100 / 60) - x =
      sign * ((⌊|x|⌋.toNat : ℕ) + (hundredths (Int.fract |x| * 60) : ℚ) / 100 / 60 - |x|) := by
    rw [mul_sub, ← hx]
  rw [hfactor, abs_mul, hsign, one_mul, cast_toNat_floor_abs, abs_le]
  constructor
  · norm_num
    linarith
  · norm_num
    linarith

/-- A coordinate is written as a token and read back exactly if its minutes are below 59.995. -/
theorem formatAprs_reads_back (hn : 0 < n) (hbound : bound < 10 ^ n) (hletters : Letters plus minus) (hx : |x| ≤ bound)
    (hfuel : n + 6 < fuel) :
    IsToken n bound (if x < 0 then minus else plus) (formatAprs n bound plus minus x) ∧
        ReadsBack (aprsAt n plus minus fuel) x (formatAprs n bound plus minus x) ↔
      Int.fract |x| * 60 < 59.995 := by
  obtain ⟨hemi, sign, hhemi, hascii, hdigit, hwhole, hsign, hxsign, hone⟩ := hletters.sign x
  have hfract := Int.fract_nonneg |x|
  have hfract' := Int.fract_lt_one |x|
  have hnonneg : 0 ≤ Int.fract |x| * 60 := by linarith
  have hfloor : ⌊|x|⌋ ≤ bound := by
    rw [← Int.floor_natCast (R := ℚ) bound]
    exact Int.floor_mono hx
  have hdeg : ⌊|x|⌋.toNat ≤ bound := by omega
  have hcents : hundredths (Int.fract |x| * 60) < 10000 := (hundredths_lt_iff hnonneg (by decide)).mpr (by
    push_cast
    linarith)
  have hiff : hundredths (Int.fract |x| * 60) < 6000 ↔ Int.fract |x| * 60 < 59.995 := by
    rw [hundredths_lt_iff hnonneg (by decide)]
    push_cast
    constructor
    · intro h
      norm_num
      linarith
    · intro h
      norm_num at h
      linarith
  rw [formatAprs_eq hx, ← hhemi, ← hiff]
  constructor
  · rintro ⟨⟨-, deg, cents, hle, hlt, heq⟩, -⟩
    rw [token_inj hn (by omega) (by omega) hcents (by omega) heq]
    exact hlt
  · intro hlt
    have hlen := @length_token _ _ _ hemi hn (lt_of_le_of_lt hdeg hbound) hcents
    refine ⟨⟨hlen, _, _, hdeg, hlt, rfl⟩, sign * ((⌊|x|⌋.toNat : ℕ) + (hundredths (Int.fract |x| * 60) : ℚ) / 100 / 60),
      ?_, abs_degrees_sub_le hxsign hone⟩
    rw [hlen]
    exact aprsAt_token hn (lt_of_le_of_lt hdeg hbound) hcents hascii hdigit hwhole hsign hfuel

end Axis

/-- A latitude and a longitude are written as tokens and read back exactly if their minutes
are below 59.995: past that the minutes are rounded to 60.00 under the same degrees. -/
theorem formatAprs_iff (lat lon : ℚ) (fuel : ℕ) (hlat : -90 ≤ lat ∧ lat ≤ 90) (hlon : -180 ≤ lon ∧ lon ≤ 180)
    (hfuel : 9 < fuel) :
    (IsToken 2 90 (if lat < 0 then 'S' else 'N') (formatAprsLat lat) ∧
        ReadsBack (aprsLatAt fuel) lat (formatAprsLat lat) ↔ Int.fract |lat| * 60 < 59.995) ∧
      (IsToken 3 180 (if lon < 0 then 'W' else 'E') (formatAprsLon lon) ∧
        ReadsBack (aprsLonAt fuel) lon (formatAprsLon lon) ↔ Int.fract |lon| * 60 < 59.995) := by
  constructor
  · exact @formatAprs_reads_back 2 90 _ _ _ _ (by decide) (by decide) letters_lat (abs_le.mpr hlat) (by omega)
  · exact @formatAprs_reads_back 3 180 _ _ _ _ (by decide) (by decide) letters_lon (abs_le.mpr hlon) (by omega)

theorem formatAprs_athens :
    (IsToken 2 90 'N' (formatAprsLat 37.9917) ∧ ReadsBack (aprsLatAt 10) 37.9917 (formatAprsLat 37.9917)) ∧
      IsToken 3 180 'W' (formatAprsLon (-23.764)) ∧ ReadsBack (aprsLonAt 10) (-23.764) (formatAprsLon (-23.764)) := by
  have h := formatAprs_iff 37.9917 (-23.764) 10 (by decide +kernel) (by decide +kernel) (by decide)
  have hlat : Int.fract |(37.9917 : ℚ)| * 60 < 59.995 := by decide +kernel
  have hlon : Int.fract |(-23.764 : ℚ)| * 60 < 59.995 := by decide +kernel
  have hnorth : (if (37.9917 : ℚ) < 0 then 'S' else 'N') = 'N' := by decide +kernel
  have hwest : (if (-23.764 : ℚ) < 0 then 'W' else 'E') = 'W' := by decide +kernel
  have hlat' := h.1.mpr hlat
  have hlon' := h.2.mpr hlon
  rw [hnorth] at hlat'
  rw [hwest] at hlon'
  exact ⟨hlat', hlon'⟩

/-- 47 degrees and 59.997 minutes are written `4760.00N`. -/
theorem not_isToken_carry : ¬ IsToken 2 90 'N' (formatAprsLat 47.99995) := by
  have htext : formatAprsLat 47.99995 = token 2 47 6000 'N' := by decide +kernel
  rintro ⟨-, deg, cents, hdeg, hcents, heq⟩
  rw [htext] at heq
  have hsame := token_inj (by decide) (by decide) (by omega) (by decide) (by omega) heq
  omega

end BrewServer.Position
