import Mathlib.Data.List.DropRight
import Mathlib.Data.List.Infix

/-!
# Reading text

The operations of a hand-written parser on a string given by its characters: cutting at
the first occurrence of a pattern, lines, trimming, words and decimal numbers.
-/

namespace BrewServer

/-- A string, by its characters. -/
abbrev Chars := List Char

namespace Chars

section Cut

variable {α : Type} [DecidableEq α] {p c : α} {ps xs rest : List α}

/-- What stands before and after the first occurrence of a pattern that is not empty. -/
def cut (pat : List α) : List α → Option (List α × List α)
  | [] => none
  | c :: cs =>
    if pat.isPrefixOf (c :: cs) then some ([], (c :: cs).drop pat.length)
    else (cut pat cs).map fun r => (c :: r.1, r.2)

theorem cut_here : cut (p :: ps) (p :: ps ++ rest) = some ([], rest) := by
  rw [List.cons_append, cut]
  rw [if_pos (List.isPrefixOf_iff_prefix.mpr (by simp)), ← List.cons_append, List.drop_left]

theorem cut_cons (h : c ≠ p) : cut (p :: ps) (c :: xs) = (cut (p :: ps) xs).map fun r => (c :: r.1, r.2) := by
  rw [cut]
  refine if_neg fun hpre => h ?_
  exact (List.cons_prefix_cons.mp (List.isPrefixOf_iff_prefix.mp hpre)).1.symm

/-- The pattern does not start in a piece without its first character. -/
theorem cut_append (h : p ∉ xs) : cut (p :: ps) (xs ++ rest) = (cut (p :: ps) rest).map fun r => (xs ++ r.1, r.2) := by
  induction xs with
  | nil => simp
  | cons c xs ih =>
    rw [List.mem_cons, not_or] at h
    rw [List.cons_append, cut_cons (Ne.symm h.1), ih h.2, Option.map_map]
    rfl

/-- A text is cut in two where its first part has no character the pattern starts with. -/
theorem cut_of_not_mem (h : p ∉ xs) : cut (p :: ps) (xs ++ (p :: ps) ++ rest) = some (xs, rest) := by
  rw [List.append_assoc, cut_append h, cut_here, Option.map_some, List.append_nil]

/-- What stands behind the pattern is part of the text. -/
theorem mem_of_cut {pat a b t : List α} (h : cut pat t = some (a, b)) (hc : c ∈ b) : c ∈ t := by
  induction t generalizing a b with
  | nil => cases h
  | cons x xs ih =>
    rw [cut] at h
    split at h
    · cases h
      exact List.mem_of_mem_drop hc
    · obtain ⟨⟨a', b'⟩, hcut, heq⟩ := Option.map_eq_some_iff.mp h
      cases heq
      exact List.mem_cons_of_mem x (ih hcut hc)

theorem cut_none (h : p ∉ xs) : cut (p :: ps) xs = none := by
  induction xs with
  | nil => rfl
  | cons c xs ih =>
    rw [List.mem_cons, not_or] at h
    rw [cut_cons (Ne.symm h.1), ih h.2, Option.map_none]

end Cut

section Lines

variable {α : Type} [DecidableEq α] {a b : α} {xs rest : List α} {lines : List (List α)}

/-- The pieces between the occurrences of a pair of characters. -/
def splitPair (a b : α) : List α → List (List α)
  | [] => [[]]
  | [c] => [[c]]
  | c :: d :: rest => if c = a ∧ d = b then [] :: splitPair a b rest else (splitPair a b (d :: rest)).modifyHead (c :: ·)

theorem splitPair_cons {c : α} (h : c ≠ a) : splitPair a b (c :: xs) = (splitPair a b xs).modifyHead (c :: ·) := by
  cases xs with
  | nil => rfl
  | cons d xs =>
    rw [splitPair]
    exact if_neg fun hc => h hc.1

theorem splitPair_append (h : a ∉ xs) : splitPair a b (xs ++ rest) = (splitPair a b rest).modifyHead (xs ++ ·) := by
  induction xs with
  | nil => cases h' : splitPair a b rest <;> simp [h']
  | cons c xs ih =>
    rw [List.mem_cons, not_or] at h
    rw [List.cons_append, splitPair_cons (Ne.symm h.1), ih h.2, List.modifyHead_modifyHead]
    rfl

theorem splitPair_pair : splitPair a b (a :: b :: rest) = [] :: splitPair a b rest := by
  rw [splitPair]
  exact if_pos ⟨rfl, rfl⟩

/-- Lines that are put together come apart again. -/
theorem splitPair_intercalate (hne : lines ≠ []) (h : ∀ line ∈ lines, a ∉ line) :
    splitPair a b ([a, b].intercalate lines) = lines := by
  induction lines with
  | nil => exact absurd rfl hne
  | cons line lines ih =>
    have hline := h line List.mem_cons_self
    cases lines with
    | nil =>
      have heq : [a, b].intercalate [line] = line ++ [] := by simp
      rw [heq, splitPair_append hline]
      simp [splitPair]
    | cons next lines =>
      have hrest := ih (by simp) fun l hl => h l (List.mem_cons_of_mem line hl)
      rw [List.intercalate_cons_cons, List.append_assoc, splitPair_append hline]
      show (splitPair a b (a :: b :: [a, b].intercalate (next :: lines))).modifyHead (line ++ ·) = _
      rw [splitPair_pair, hrest]
      simp

/-- Of lines that are not empty, each with its line end, the empty line is the first one. -/
theorem cut_lines (hab : a ≠ b) (hne : lines ≠ []) (h : ∀ line ∈ lines, line ≠ [] ∧ a ∉ line) :
    cut [a, b, a, b] (lines.flatMap (· ++ [a, b]) ++ [a, b] ++ rest) = some ([a, b].intercalate lines, rest) := by
  induction lines with
  | nil => exact absurd rfl hne
  | cons line lines ih =>
    have hline := (h line List.mem_cons_self).2
    cases lines with
    | nil =>
      have htext : [line].flatMap (· ++ [a, b]) ++ [a, b] ++ rest = line ++ [a, b, a, b] ++ rest := by simp
      rw [htext, cut_of_not_mem hline]
      simp
    | cons next lines =>
      have hnext := h next (List.mem_cons_of_mem line List.mem_cons_self)
      obtain ⟨c, next', rfl⟩ := List.exists_cons_of_ne_nil hnext.1
      have hc : a ≠ c := fun hc => hnext.2 (by simp [hc])
      have hrest := ih (by simp) fun l hl => h l (List.mem_cons_of_mem line hl)
      have htext : (line :: (c :: next') :: lines).flatMap (· ++ [a, b]) ++ [a, b] ++ rest =
          line ++ a :: b :: (((c :: next') :: lines).flatMap (· ++ [a, b]) ++ [a, b] ++ rest) := by simp
      have hskip : cut [a, b, a, b] (a :: b :: (((c :: next') :: lines).flatMap (· ++ [a, b]) ++ [a, b] ++ rest)) =
          (cut [a, b, a, b] (((c :: next') :: lines).flatMap (· ++ [a, b]) ++ [a, b] ++ rest)).map
            fun r => (a :: b :: r.1, r.2) := by
        rw [cut, if_neg (by simp [hc]), cut_cons (Ne.symm hab), Option.map_map]
        rfl
      rw [htext, cut_append hline, hskip, hrest, List.intercalate_cons_cons]
      simp

end Lines

section Trim

variable {α : Type} {p : α → Bool} {xs ys : List α}

def trimEnd (p : α → Bool) (xs : List α) : List α := xs.rdropWhile p

/-- Without the characters at both ends that are to go. -/
def trim (p : α → Bool) (xs : List α) : List α := trimEnd p (xs.dropWhile p)

theorem trim_cons {c : α} (h : p c = true) : trim p (c :: xs) = trim p xs := by
  unfold trim
  rw [List.dropWhile_cons_of_pos h]

theorem trimEnd_of_trim (h : trim p xs = xs) : trimEnd p xs = xs := by
  have hdrop : xs.dropWhile p = xs := by
    apply (List.dropWhile_suffix p).sublist.eq_of_length_le
    have hle := (List.rdropWhile_prefix p (xs.dropWhile p)).length_le
    rw [show (xs.dropWhile p).rdropWhile p = xs from h] at hle
    exact hle
  unfold trim at h
  rwa [hdrop] at h

theorem trimEnd_append (hne : ys ≠ []) (h : trimEnd p ys = ys) : trimEnd p (xs ++ ys) = xs ++ ys := by
  unfold trimEnd at h ⊢
  rw [List.rdropWhile_eq_self_iff] at h ⊢
  intro hl
  rw [List.getLast_append_of_ne_nil _ hne]
  exact h hne

theorem trimEnd_concat {c : α} (h : p c = true) : trimEnd p (xs ++ [c]) = trimEnd p xs := by
  unfold trimEnd
  rw [List.rdropWhile_concat, if_pos h]

theorem trimEnd_of_forall (h : ∀ c ∈ xs, p c = false) : trimEnd p xs = xs := by
  unfold trimEnd
  rw [List.rdropWhile_eq_self_iff]
  intro hl
  simp [h _ (List.getLast_mem hl)]

theorem trim_of_forall (h : ∀ c ∈ xs, p c = false) : trim p xs = xs := by
  have hdrop : xs.dropWhile p = xs := by
    cases xs with
    | nil => rfl
    | cons c xs => exact List.dropWhile_cons_of_neg (by simp [h c List.mem_cons_self])
  unfold trim
  rw [hdrop, trimEnd_of_forall h]

theorem trim_concat {c : α} (h : p c = true) : trim p (xs ++ [c]) = trim p xs := by
  unfold trim
  rw [List.dropWhile_append]
  split
  · next hall =>
    have hnil : xs.dropWhile p = [] := by simpa using hall
    rw [hnil, List.dropWhile_cons_of_pos h]
    rfl
  · exact trimEnd_concat h

/-- What neither begins nor ends with a character to go stays. -/
theorem trim_of_ends {c b : α} (hc : p c = false) (hb : p b = false) : trim p (c :: (xs ++ [b])) = c :: (xs ++ [b]) := by
  unfold trim trimEnd
  rw [List.dropWhile_cons_of_neg (by simp [hc]), ← List.cons_append, List.rdropWhile_concat, if_neg (by simp [hb])]

theorem mem_of_mem_trim {c : α} (h : c ∈ trim p xs) : c ∈ xs :=
  (List.dropWhile_suffix p).subset ((List.rdropWhile_prefix p _).subset h)

/-- The front of what begins with a character that stays begins with it too. -/
theorem dropWhile_of_prefix (h : xs <+: ys) (hy : ys.dropWhile p = ys) : xs.dropWhile p = xs := by
  cases xs with
  | nil => rfl
  | cons c xs =>
    obtain ⟨t, rfl⟩ := h
    have hc := List.dropWhile_eq_self_iff.mp hy (by simp)
    exact List.dropWhile_cons_of_neg hc

theorem trim_trim (xs : List α) : trim p (trim p xs) = trim p xs := by
  have hdrop : (trim p xs).dropWhile p = trim p xs :=
    dropWhile_of_prefix (List.rdropWhile_prefix p _) (List.dropWhile_idempotent p _)
  unfold trim at hdrop ⊢
  rw [hdrop]
  exact List.rdropWhile_idempotent p _

end Trim

section Pieces

variable {α : Type} [DecidableEq α] {sep : α} {xs part : List α}

/-- A piece has no separator in it. -/
theorem not_mem_of_mem_splitOn (h : part ∈ xs.splitOn sep) : sep ∉ part := by
  induction xs generalizing part with
  | nil =>
    rw [List.splitOn_nil, List.mem_singleton] at h
    subst h
    exact List.not_mem_nil
  | cons x xs ih =>
    rw [List.splitOn_cons_eq_if_modifyHead] at h
    split at h
    · rcases List.mem_cons.mp h with rfl | h
      · exact List.not_mem_nil
      · exact ih h
    · next hx =>
      cases hrest : xs.splitOn sep with
      | nil => exact absurd hrest (List.splitOn_ne_nil sep xs)
      | cons first more =>
        rw [hrest] at ih h
        rcases List.mem_cons.mp h with rfl | h
        · intro hmem
          rcases List.mem_cons.mp hmem with rfl | hmem
          · simp at hx
          · exact ih List.mem_cons_self hmem
        · exact ih (List.mem_cons_of_mem first h)

end Pieces

section Words

variable {α : Type} {p : α → Bool} {sep : α} {xs rest : List α}

/-- The pieces between the characters to split at, without the empty ones. -/
def words (p : α → Bool) (xs : List α) : List (List α) := (xs.splitOnP p).filter (· ≠ [])

theorem words_append (h : ∀ c ∈ xs, p c = false) (hne : xs ≠ []) (hsep : p sep = true) :
    words p (xs ++ sep :: rest) = xs :: words p rest := by
  unfold words
  rw [List.splitOnP_append_cons_of_forall_mem h sep hsep, List.filter_cons_of_pos (by simpa using hne)]

theorem words_single (h : ∀ c ∈ xs, p c = false) (hne : xs ≠ []) : words p xs = [xs] := by
  unfold words
  rw [List.splitOnP_eq_singleton h, List.filter_cons_of_pos (by simpa using hne), List.filter_nil]

end Words

section Numbers

variable {n bound : ℕ}

def decimal (n : ℕ) : Chars := Nat.toDigits 10 n

/-- An unsigned number below a bound; a plus sign may stand before it. -/
def parseUnsigned (bound : ℕ) (t : Chars) : Option ℕ :=
  let digits := if t.head? = some '+' then t.tail else t
  if digits ≠ [] ∧ digits.all Char.isDigit = true ∧ Nat.ofDigitChars 10 digits 0 < bound then
    some (Nat.ofDigitChars 10 digits 0)
  else none

theorem isDigit_of_mem_decimal {c : Char} (h : c ∈ decimal n) : c.isDigit = true :=
  Nat.isDigit_of_mem_toDigits (by omega) (by omega) h

theorem decimal_ne_nil : decimal n ≠ [] := Nat.toDigits_ne_nil

theorem parseUnsigned_decimal : parseUnsigned bound (decimal n) = if n < bound then some n else none := by
  have hdigits : (if (decimal n).head? = some '+' then (decimal n).tail else decimal n) = decimal n := by
    refine if_neg fun hplus => ?_
    have hdigit := isDigit_of_mem_decimal (List.mem_of_mem_head? hplus)
    revert hdigit
    decide
  have hall : (decimal n).all Char.isDigit = true := List.all_eq_true.mpr fun c hc => isDigit_of_mem_decimal hc
  have hvalue : Nat.ofDigitChars 10 (decimal n) 0 = n := Nat.ofDigitChars_ten_toDigits
  unfold parseUnsigned
  rw [hdigits]
  dsimp only
  rw [hall, hvalue]
  simp [decimal_ne_nil]

end Numbers

section Characters

/-- The Unicode property White_Space. -/
def isWhitespace (c : Char) : Bool :=
  let n := c.val.toNat
  (9 ≤ n && n ≤ 13) || n = 0x20 || n = 0x85 || n = 0xa0 || n = 0x1680 || (0x2000 ≤ n && n ≤ 0x200a) ||
    n = 0x2028 || n = 0x2029 || n = 0x202f || n = 0x205f || n = 0x3000

def asciiLower (t : Chars) : Chars := t.map Char.toLower

theorem lower_range {v : UInt32} (h : 'A'.val ≤ v ∧ v ≤ 'Z'.val) :
    (v + ('a'.val - 'A'.val)).toNat = v.toNat + 32 ∧ 65 ≤ v.toNat ∧ v.toNat ≤ 90 := by
  obtain ⟨h1, h2⟩ := h
  rw [UInt32.le_iff_toNat_le] at h1 h2
  have h1 : 65 ≤ v.toNat := h1
  have h2 : v.toNat ≤ 90 := h2
  refine ⟨?_, h1, h2⟩
  rw [UInt32.toNat_add]
  show (v.toNat + 32) % 2 ^ 32 = _
  omega

theorem upper_range {v : UInt32} (h : 'a'.val ≤ v ∧ v ≤ 'z'.val) :
    (v + ('A'.val - 'a'.val)).toNat + 32 = v.toNat ∧ 97 ≤ v.toNat ∧ v.toNat ≤ 122 := by
  obtain ⟨h1, h2⟩ := h
  rw [UInt32.le_iff_toNat_le] at h1 h2
  have h1 : 97 ≤ v.toNat := h1
  have h2 : v.toNat ≤ 122 := h2
  refine ⟨?_, h1, h2⟩
  rw [UInt32.toNat_add]
  show (v.toNat + 4294967264) % 2 ^ 32 + 32 = _
  omega

theorem toLower_toUpper (c : Char) : c.toUpper.toLower = c.toLower := by
  obtain ⟨v, hv⟩ := c
  unfold Char.toUpper Char.toLower
  split
  · next h =>
    obtain ⟨hval, h1, h2⟩ := @upper_range v h
    dsimp only at hval ⊢
    have hup : v + ('A'.val - 'a'.val) ≥ 'A'.val ∧ v + ('A'.val - 'a'.val) ≤ 'Z'.val := by
      rw [ge_iff_le, UInt32.le_iff_toNat_le, UInt32.le_iff_toNat_le]
      show 65 ≤ _ ∧ _ ≤ 90
      omega
    have hlow : ¬ (v ≥ 'A'.val ∧ v ≤ 'Z'.val) := by
      rw [ge_iff_le, UInt32.le_iff_toNat_le, UInt32.le_iff_toNat_le]
      show ¬ (65 ≤ v.toNat ∧ v.toNat ≤ 90)
      omega
    rw [dif_pos hup, dif_neg hlow]
    apply Char.ext
    apply UInt32.toNat_inj.mp
    rw [(lower_range hup).1]
    exact hval
  · rfl

theorem toLower_toLower (c : Char) : c.toLower.toLower = c.toLower := by
  obtain ⟨v, hv⟩ := c
  by_cases h : v ≥ 'A'.val ∧ v ≤ 'Z'.val
  · obtain ⟨hval, h1, h2⟩ := lower_range h
    unfold Char.toLower
    dsimp only
    rw [dif_pos h]
    refine dif_neg ?_
    rw [ge_iff_le, UInt32.le_iff_toNat_le, UInt32.le_iff_toNat_le]
    show ¬ (65 ≤ (v + ('a'.val - 'A'.val)).toNat ∧ (v + ('a'.val - 'A'.val)).toNat ≤ 90)
    omega
  · have hsame : Char.toLower ⟨v, hv⟩ = ⟨v, hv⟩ := dif_neg h
    rw [hsame, hsame]

theorem asciiLower_asciiLower (t : Chars) : asciiLower (asciiLower t) = asciiLower t := by
  unfold asciiLower
  rw [List.map_map]
  exact List.map_congr_left fun c _ => toLower_toLower c

end Characters

end Chars

end BrewServer
