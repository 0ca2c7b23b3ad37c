import Mathlib.Algebra.Order.Ring.Rat
import Mathlib.Data.List.Flatten
import BrewServer.Lib.Loop
import BrewServer.Lib.Text
import BrewServer.Lib.Utf8
import BrewServer.Position.Lip

/-!
# Positions in text

A text is searched for an APRS position, for decimal degrees and for a Maidenhead locator.
Numbers are exact rationals. Reads by index are checked and loops take fuel.
-/

namespace BrewServer.Position

open Chars

/-! ## Texts as bytes -/

def asBytes (t : Chars) : Bytes := t.flatMap String.utf8EncodeChar

def ascii (c : Char) : UInt8 := UInt8.ofNat c.toNat

def isAsciiDigit (b : UInt8) : Bool := 0x30 ≤ b && b ≤ 0x39

def isAsciiWhitespace (b : UInt8) : Bool := b == 0x20 || b == 0x09 || b == 0x0a || b == 0x0c || b == 0x0d

/-- The text between two bytes, if it begins and ends with whole characters. -/
def get (b : Bytes) (i j : ℕ) : Option Bytes :=
  if i ≤ j ∧ isCharBoundary b i = true ∧ isCharBoundary b j = true then some ((b.drop i).take (j - i)) else none

def digitsValue (t : Bytes) : ℕ := t.foldl (fun v b => 10 * v + (b.toNat - 0x30)) 0

/-- The sign before a number, and the rest. -/
def splitSign (t : Bytes) : ℚ × Bytes :=
  match t with
  | [] => (1, [])
  | b :: rest => if b = ascii '-' then (-1, rest) else if b = ascii '+' then (1, rest) else (1, b :: rest)

/-- A decimal number; no text handed to it has an exponent or is the name of a number. -/
def parseF64 (t : Bytes) : Option ℚ :=
  let (sign, rest) := splitSign t
  let whole := rest.takeWhile isAsciiDigit
  match rest.dropWhile isAsciiDigit with
  | [] => if whole = [] then none else some (sign * digitsValue whole)
  | point :: frac =>
    if point = ascii '.' ∧ frac.all isAsciiDigit = true ∧ whole ++ frac ≠ [] then
      some (sign * (digitsValue (whole ++ frac) / 10 ^ frac.length))
    else none

/-- The source's answer as it stands. -/
def answer {α : Type} (o : Option α) : Partial α := OptionT.mk (pure o)

/-! ## APRS -/

/-- Whether `n` digits stand from byte `i` on. -/
def digitsAt (b : Bytes) : ℕ → ℕ → Except Fault Bool
  | _, 0 => pure true
  | i, n + 1 => do if isAsciiDigit (← readAt b i) then digitsAt b (i + 1) n else return false

/-- The sign of a hemisphere letter. -/
def hemisphereSign (plus minus : Char) (b : UInt8) : Option ℚ :=
  if b = ascii plus ∨ b = ascii plus.toLower then some 1
  else if b = ascii minus ∨ b = ascii minus.toLower then some (-1)
  else none

/-- The end of the minutes whose whole part ends at byte `k`. -/
def fractionEnd (fuel : ℕ) (b : Bytes) (k : ℕ) : Except Fault ℕ := do
  if k < b.length then
    if (← readAt b k) = ascii '.' then skipWhile isAsciiDigit b fuel (k + 1) else return k
  else return k

/-- Degrees in `n` digits, minutes and a hemisphere letter at byte `i`, with the byte after
them. -/
def aprsAt (n : ℕ) (plus minus : Char) (fuel : ℕ) (text : Chars) (i : ℕ) : Partial (ℚ × ℕ) := do
  let b := asBytes text
  if i + (n + 2) > b.length then failure
  else
    let digits ← (digitsAt b i (n + 2) : Except Fault Bool)
    if digits = false then failure
    else
      let deg ← answer ((get b i (i + n)).bind parseF64)
      let k ← (fractionEnd fuel b (i + n + 2) : Except Fault ℕ)
      let minutes ← answer ((get b (i + n) k).bind parseF64)
      if k ≥ b.length then failure
      else
        let hemi ← (readAt b k : Except Fault UInt8)
        let sign ← answer (hemisphereSign plus minus hemi)
        return (sign * (deg + minutes / 60), k + 1)

def aprsLatAt : ℕ → Chars → ℕ → Partial (ℚ × ℕ) := aprsAt 2 'N' 'S'

def aprsLonAt : ℕ → Chars → ℕ → Partial (ℚ × ℕ) := aprsAt 3 'E' 'W'

/-- The position of a latitude and the longitude at byte `j`, if there is one. -/
def withLonAt (fuel : ℕ) (text : Chars) (lat : ℚ) (j : ℕ) : Except Fault (Option (Option LatLon)) := do
  match ← (aprsLonAt fuel text j).run with
  | some (lon, _) => return some (LatLon.new lat lon)
  | none => return none

/-- A latitude makes a position with a longitude after at most one character, or after white
space; without one the search goes on. -/
def aprsFrom (fuel : ℕ) (text : Chars) (i : ℕ) : Except Fault (Option (Option LatLon)) := do
  match ← (aprsLatAt fuel text i).run with
  | none => return none
  | some (lat, latEnd) =>
    match ← [0, 1].findSomeM? fun skip => withLonAt fuel text lat (latEnd + skip) with
    | some found => return some found
    | none => withLonAt fuel text lat (← skipWhile isAsciiWhitespace (asBytes text) fuel latEnd)

def parseAprs (fuel : ℕ) (text : Chars) : Partial LatLon :=
  OptionT.mk do return (← (List.range (asBytes text).length).findSomeM? (aprsFrom fuel text)).join

/-! ## Decimal degrees -/

/-- The state of a number's scan. -/
structure Number where
  i : ℕ
  localDot : Bool
  sawDot : Bool

/-- The state of the scan for numbers. -/
structure Scan where
  i : ℕ
  sawDot : Bool
  nums : List (ℚ × Option Char)

def numberOne (b : Bytes) (s : Number) : Except Fault (Option Number) := do
  if s.i < b.length then
    let d ← readAt b s.i
    if isAsciiDigit d then return some { s with i := s.i + 1 }
    else if d = ascii '.' ∧ s.localDot = false then return some { i := s.i + 1, localDot := true, sawDot := true }
    else return none
  else return none

def hemisphereLetter (c : UInt8) : Option Char :=
  ['N', 'S', 'E', 'W'].find? fun h => c == ascii h || c == ascii h.toLower

/-- The hemisphere letter after a number that ends at byte `i`, and where the scan goes on. -/
def letterAfter (fuel : ℕ) (b : Bytes) (i : ℕ) : Except Fault (Option Char × ℕ) := do
  let j ← skipWhile isAsciiWhitespace b fuel i
  if j < b.length then
    match hemisphereLetter (← readAt b j) with
    | some h => return (some h, j + 1)
    | none => return (none, i)
  else return (none, i)

def decimalOne (fuel : ℕ) (b : Bytes) (s : Scan) : Except Fault (Option Scan) := do
  if s.i < b.length then
    let c ← readAt b s.i
    if c = ascii '-' ∨ c = ascii '+' ∨ isAsciiDigit c = true then
      let n ← loop (numberOne b) fuel { i := s.i + 1, localDot := false, sawDot := s.sawDot }
      match parseF64 ((get b s.i n.i).getD []) with
      | some v =>
        let (hemi, i) ← letterAfter fuel b n.i
        return some { i, sawDot := n.sawDot, nums := s.nums ++ [(v, hemi)] }
      | none => return some { s with i := n.i, sawDot := n.sawDot }
    else return some { s with i := s.i + 1 }
  else return none

/-- A number with the sign of its hemisphere. -/
def applyHemisphere : ℚ × Option Char → ℚ
  | (v, some h) => if h = 'S' ∨ h = 'W' then -|v| else |v|
  | (v, none) => v

def parseDecimal (fuel : ℕ) (text : Chars) : Partial LatLon := do
  let s ← (loop (decimalOne fuel (asBytes text)) fuel { i := 0, sawDot := false, nums := [] } : Except Fault Scan)
  if s.sawDot = false ∨ s.nums.length < 2 then failure
  else
    let lat ← (readAt s.nums 0 : Except Fault (ℚ × Option Char))
    let lon ← (readAt s.nums 1 : Except Fault (ℚ × Option Char))
    answer (LatLon.new (applyHemisphere lat) (applyHemisphere lon))

/-! ## Maidenhead locators -/

def fieldLetter (c : Char) : Option ℕ :=
  let u := c.toUpper
  if 'A' ≤ u ∧ u ≤ 'R' then some (u.toNat - 'A'.toNat) else none

def subsquareLetter (c : Char) : Option ℕ :=
  let l := c.toLower
  if 'a' ≤ l ∧ l ≤ 'x' then some (l.toNat - 'a'.toNat) else none

def toDigit (c : Char) : Option ℕ := if c.isDigit then some (c.toNat - '0'.toNat) else none

/-- What stands at character `k`, as a number. -/
def symbolAt (f : Char → Option ℕ) (s : Chars) (k : ℕ) : Partial ℕ := do
  let c ← (readAt s k : Except Fault Char)
  answer (f c)

/-- A corner of a cell and the cell's sizes. -/
structure Cell where
  lon : ℚ
  lat : ℚ
  lonSize : ℚ
  latSize : ℚ

/-- The subsquare of a cell, in a locator of `n` bytes. -/
def subsquare (s : Chars) (n : ℕ) (cell : Cell) : Partial Cell := do
  if n ≥ 6 then
    let ss0 ← symbolAt subsquareLetter s 4
    let ss1 ← symbolAt subsquareLetter s 5
    return { lon := cell.lon + ss0 * (2 / 24), lat := cell.lat + ss1 * (1 / 24), lonSize := 2 / 24, latSize := 1 / 24 }
  else return cell

/-- The extended square of a cell. -/
def extendedSquare (s : Chars) (n : ℕ) (cell : Cell) : Partial Cell := do
  if n = 8 then
    let e0 ← symbolAt toDigit s 6
    let e1 ← symbolAt toDigit s 7
    return { lon := cell.lon + e0 * (cell.lonSize / 10), lat := cell.lat + e1 * (cell.latSize / 10),
             lonSize := cell.lonSize / 10, latSize := cell.latSize / 10 }
  else return cell

def maidenheadToken (tok : Chars) : Partial LatLon := do
  let s := trim isWhitespace tok
  let n := (asBytes s).length
  if n ≠ 4 ∧ n ≠ 6 ∧ n ≠ 8 then failure
  else
    let f0 ← symbolAt fieldLetter s 0
    let f1 ← symbolAt fieldLetter s 1
    let s0 ← symbolAt toDigit s 2
    let s1 ← symbolAt toDigit s 3
    let cell ← subsquare s n
      { lon := -180 + f0 * 20 + s0 * 2, lat := -90 + f1 * 10 + s1 * 1, lonSize := 2, latSize := 1 }
    let cell ← extendedSquare s n cell
    -- The centre of the cell.
    answer (LatLon.new (cell.lat + cell.latSize / 2) (cell.lon + cell.lonSize / 2))

def isSeparator (c : Char) : Bool := isWhitespace c || c == ',' || c == ';'

def parseMaidenhead (text : Chars) : Partial LatLon :=
  OptionT.mk ((text.splitOnP isSeparator).findSomeM? fun tok => (maidenheadToken tok).run)

/-! ## The search -/

def parsePosition (fuel : ℕ) (text : Chars) : Partial LatLon :=
  let t := trim isWhitespace text
  if t = [] then failure else parseAprs fuel t <|> parseDecimal fuel t <|> parseMaidenhead t

/-! ## Every text is answered -/

section Safety

variable {fuel : ℕ} {text s : Chars} {b : Bytes}

theorem answers_answer {α : Type} {P : α → Prop} {o : Option α} (h : ∀ a ∈ o, P a) : Answers P (answer o) := ⟨o, rfl, h⟩

theorem returns_digitsAt {i n : ℕ} (h : i + n ≤ b.length) : Returns (fun _ => True) (digitsAt b i n) := by
  induction n generalizing i with
  | zero => exact .pure trivial
  | succ n ih =>
    rw [digitsAt]
    apply Returns.bind (Returns.readAt (by omega))
    intro c _
    apply Returns.ite
    · intro _
      exact ih (by omega)
    · intro _
      exact .pure trivial

theorem returns_fractionEnd {k : ℕ} (hfuel : b.length < fuel) : Returns (fun _ => True) (fractionEnd fuel b k) := by
  unfold fractionEnd
  apply Returns.ite
  · intro hk
    apply Returns.bind (Returns.readAt hk)
    intro c _
    apply Returns.ite
    · intro _
      exact (returns_skipWhile isAsciiDigit (by omega)).mono fun _ _ => trivial
    · intro _
      exact .pure trivial
  · intro _
    exact .pure trivial

/-- A coordinate is looked for within the text. -/
theorem answers_aprsAt {n : ℕ} {plus minus : Char} {i : ℕ} (hfuel : (asBytes text).length < fuel) :
    Answers (fun _ => True) (aprsAt n plus minus fuel text i) := by
  unfold aprsAt
  apply Answers.ite
  · intro _
    exact .failure
  · intro hlen
    apply Answers.bind (.lift (returns_digitsAt (by omega)))
    intro digits _
    apply Answers.ite
    · intro _
      exact .failure
    · intro _
      apply Answers.bind (answers_answer fun _ _ => trivial)
      intro deg _
      apply Answers.bind (.lift (returns_fractionEnd hfuel))
      intro k _
      apply Answers.bind (answers_answer fun _ _ => trivial)
      intro minutes _
      apply Answers.ite
      · intro _
        exact .failure
      · intro hk
        apply Answers.bind (.lift (Returns.readAt (by omega)))
        intro hemi _
        apply Answers.bind (answers_answer fun _ _ => trivial)
        intro sign _
        exact .pure trivial

theorem returns_withLonAt {lat : ℚ} {j : ℕ} (hfuel : (asBytes text).length < fuel) :
    Returns (fun _ => True) (withLonAt fuel text lat j) := by
  unfold withLonAt
  apply Returns.bind (answers_aprsAt hfuel)
  intro found _
  cases found with
  | none => exact .pure trivial
  | some lon => exact .pure trivial

theorem returns_aprsFrom {i : ℕ} (hfuel : (asBytes text).length < fuel) :
    Returns (fun _ => True) (aprsFrom fuel text i) := by
  unfold aprsFrom
  apply Returns.bind (answers_aprsAt hfuel)
  intro found _
  cases found with
  | none => exact .pure trivial
  | some lat =>
    apply Returns.bind (Returns.findSomeM? fun skip _ => returns_withLonAt hfuel)
    intro r _
    cases r with
    | some p => exact .pure trivial
    | none =>
      apply Returns.bind (returns_skipWhile isAsciiWhitespace (by omega))
      intro j _
      exact returns_withLonAt hfuel

theorem answers_parseAprs (hfuel : (asBytes text).length < fuel) : Answers (fun _ => True) (parseAprs fuel text) := by
  apply Returns.bind (Returns.findSomeM? fun i _ => returns_aprsFrom hfuel)
  intro r _
  exact .pure fun _ _ => trivial

/-- A number's scan goes on past its first byte. -/
theorem returns_number {s : Number} (hfuel : b.length < fuel) :
    Returns (fun n => s.i ≤ n.i) (loop (numberOne b) fuel s) := by
  apply Returns.loop (fun n : Number => s.i ≤ n.i) (fun n => b.length - n.i)
  · intro n hn
    unfold numberOne
    apply Returns.ite
    · intro hlt
      apply Returns.bind (Returns.readAt hlt)
      intro d _
      apply Returns.ite
      · intro _
        apply Returns.pure
        rintro n' ⟨⟩
        dsimp only
        omega
      · intro _
        apply Returns.ite
        · intro _
          apply Returns.pure
          rintro n' ⟨⟩
          dsimp only
          omega
        · intro _
          apply Returns.pure
          rintro n' ⟨⟩
    · intro _
      apply Returns.pure
      rintro n' ⟨⟩
  · exact le_rfl
  · omega

theorem returns_letterAfter {i : ℕ} (hfuel : b.length < fuel) :
    Returns (fun r => i ≤ r.2) (letterAfter fuel b i) := by
  unfold letterAfter
  apply Returns.bind (returns_skipWhile isAsciiWhitespace (by omega))
  rintro j ⟨hj, -⟩
  apply Returns.ite
  · intro hlt
    apply Returns.bind (Returns.readAt hlt)
    intro c _
    cases hemisphereLetter c with
    | none => exact .pure le_rfl
    | some h => exact .pure (by dsimp only; omega)
  · intro _
    exact .pure le_rfl

/-- Each turn of the scan takes at least one byte. -/
theorem returns_decimalOne {s : Scan} (hfuel : b.length < fuel) :
    Returns (fun r => ∀ s', r = some s' → s.i < b.length ∧ s.i < s'.i) (decimalOne fuel b s) := by
  unfold decimalOne
  apply Returns.ite
  · intro hlt
    apply Returns.bind (Returns.readAt hlt)
    intro c _
    apply Returns.ite
    · intro _
      apply Returns.bind (returns_number hfuel)
      intro n hn
      dsimp only at hn
      cases parseF64 ((get b s.i n.i).getD []) with
      | none =>
        apply Returns.pure
        rintro s' ⟨⟩
        dsimp only
        omega
      | some v =>
        apply Returns.bind (returns_letterAfter hfuel)
        rintro ⟨hemi, i⟩ hi
        apply Returns.pure
        rintro s' ⟨⟩
        dsimp only at hi ⊢
        omega
    · intro _
      apply Returns.pure
      rintro s' ⟨⟩
      dsimp only
      omega
  · intro _
    apply Returns.pure
    rintro s' ⟨⟩

theorem answers_parseDecimal (hfuel : (asBytes text).length < fuel) :
    Answers (fun _ => True) (parseDecimal fuel text) := by
  have hscan : Returns (fun _ => True)
      (loop (decimalOne fuel (asBytes text)) fuel { i := 0, sawDot := false, nums := [] }) := by
    apply Returns.loop (fun _ => True) (fun s : Scan => (asBytes text).length - s.i)
    · intro s _
      apply (returns_decimalOne hfuel).mono
      intro r hr s' hs'
      have hless := hr s' hs'
      exact ⟨trivial, by omega⟩
    · trivial
    · exact hfuel
  unfold parseDecimal
  apply Answers.bind (.lift hscan)
  intro s _
  apply Answers.ite
  · intro _
    exact .failure
  · intro hnums
    apply Answers.bind (.lift (Returns.readAt (by omega)))
    intro lat _
    apply Answers.bind (.lift (Returns.readAt (by omega)))
    intro lon _
    exact answers_answer fun _ _ => trivial

/-- The first `k` characters take one byte each. -/
def Narrow (s : Chars) (k : ℕ) : Prop := ∀ c ∈ s.take k, c.utf8Size = 1

theorem length_asBytes (h : ∀ c ∈ s, c.utf8Size = 1) : (asBytes s).length = s.length := by
  induction s with
  | nil => rfl
  | cons c s ih =>
    have hc := h c List.mem_cons_self
    have hs := ih fun d hd => h d (List.mem_cons_of_mem c hd)
    unfold asBytes at hs ⊢
    rw [List.flatMap_cons, List.length_append, hs, String.length_utf8EncodeChar, hc, List.length_cons]
    omega

/-- Behind characters of one byte a byte count bounds a character count. -/
theorem Narrow.lt_length {k : ℕ} (h : Narrow s k) (hk : k < (asBytes s).length) : k < s.length := by
  by_contra hle
  have hall : s.take k = s := List.take_of_length_le (by omega)
  unfold Narrow at h
  rw [hall] at h
  rw [length_asBytes h] at hk
  exact hle hk

theorem Narrow.succ {k : ℕ} {c : Char} (h : Narrow s k) (hget : s[k]? = some c) (hc : c.utf8Size = 1) :
    Narrow s (k + 1) := by
  unfold Narrow
  rw [List.take_add_one, hget]
  intro d hd
  rcases List.mem_append.mp hd with hd | hd
  · exact h d hd
  · rw [Option.mem_toList] at hd
    cases hd
    exact hc

theorem narrow_zero : Narrow s 0 := by
  intro c hc
  rw [List.take_zero] at hc
  cases hc

/-- A symbol is a character of one byte, so what is read before it does not hide the end. -/
theorem answers_symbolAt {f : Char → Option ℕ} {k : ℕ} (hf : ∀ c a, f c = some a → c.utf8Size = 1) (h : Narrow s k)
    (hk : k < (asBytes s).length) : Answers (fun _ => Narrow s (k + 1)) (symbolAt f s k) := by
  unfold symbolAt
  apply Answers.bind (.lift (Returns.readAt (h.lt_length hk)))
  intro c hc
  apply answers_answer
  intro a ha
  exact h.succ hc (hf c a ha)

theorem utf8Size_of_le {c : Char} (h : c.val.toNat ≤ 127) : c.utf8Size = 1 := by
  unfold Char.utf8Size
  exact if_pos (UInt32.le_iff_toNat_le.mpr h)

theorem utf8Size_fieldLetter (c : Char) (a : ℕ) (h : fieldLetter c = some a) : c.utf8Size = 1 := by
  unfold fieldLetter at h
  dsimp only at h
  split at h
  · next hrange =>
    apply utf8Size_of_le
    have htop : c.toUpper.val.toNat ≤ 82 := hrange.2
    unfold Char.toUpper at htop
    split at htop
    · next hlower =>
      have hz : c.val.toNat ≤ 122 := hlower.2
      omega
    · omega
  · cases h

theorem utf8Size_subsquareLetter (c : Char) (a : ℕ) (h : subsquareLetter c = some a) : c.utf8Size = 1 := by
  unfold subsquareLetter at h
  dsimp only at h
  split at h
  · next hrange =>
    apply utf8Size_of_le
    have htop : c.toLower.val.toNat ≤ 120 := hrange.2
    unfold Char.toLower at htop
    split at htop
    · next hupper =>
      have hz : c.val.toNat ≤ 90 := hupper.2
      omega
    · omega
  · cases h

theorem utf8Size_toDigit (c : Char) (a : ℕ) (h : toDigit c = some a) : c.utf8Size = 1 := by
  unfold toDigit at h
  split at h
  · next hdigit =>
    apply utf8Size_of_le
    unfold Char.isDigit at hdigit
    simp only [Bool.and_eq_true, decide_eq_true_eq] at hdigit
    have htop : c.val.toNat ≤ 57 := hdigit.2
    omega
  · cases h

theorem answers_subsquare {cell : Cell} (h : Narrow s 4) :
    Answers (fun _ => 6 ≤ (asBytes s).length → Narrow s 6) (subsquare s (asBytes s).length cell) := by
  unfold subsquare
  apply Answers.ite
  · intro hn
    apply Answers.bind (answers_symbolAt utf8Size_subsquareLetter h (by omega))
    intro ss0 h5
    apply Answers.bind (answers_symbolAt utf8Size_subsquareLetter h5 (by omega))
    intro ss1 h6
    exact .pure fun _ => h6
  · intro hn
    exact .pure fun hsix => absurd hsix hn

theorem answers_extendedSquare {cell : Cell} (h : 6 ≤ (asBytes s).length → Narrow s 6) :
    Answers (fun _ => True) (extendedSquare s (asBytes s).length cell) := by
  unfold extendedSquare
  apply Answers.ite
  · intro hn
    apply Answers.bind (answers_symbolAt utf8Size_toDigit (h (by omega)) (by omega))
    intro e0 h7
    apply Answers.bind (answers_symbolAt utf8Size_toDigit h7 (by omega))
    intro e1 _
    exact .pure trivial
  · intro _
    exact .pure trivial

theorem answers_maidenheadToken (tok : Chars) : Answers (fun _ => True) (maidenheadToken tok) := by
  unfold maidenheadToken
  apply Answers.ite
  · intro _
    exact .failure
  · intro hn
    apply Answers.bind (answers_symbolAt utf8Size_fieldLetter narrow_zero (by omega))
    intro f0 h1
    apply Answers.bind (answers_symbolAt utf8Size_fieldLetter h1 (by omega))
    intro f1 h2
    apply Answers.bind (answers_symbolAt utf8Size_toDigit h2 (by omega))
    intro s0 h3
    apply Answers.bind (answers_symbolAt utf8Size_toDigit h3 (by omega))
    intro s1 h4
    apply Answers.bind (answers_subsquare h4)
    intro cell h6
    apply Answers.bind (answers_extendedSquare h6)
    intro cell _
    exact answers_answer fun _ _ => trivial

theorem answers_parseMaidenhead (text : Chars) : Answers (fun _ => True) (parseMaidenhead text) := by
  have hfind : Returns (fun _ => True) ((text.splitOnP isSeparator).findSomeM? fun tok => (maidenheadToken tok).run) := by
    apply Returns.findSomeM?
    intro tok _
    exact Returns.mono (answers_maidenheadToken tok) fun _ _ => trivial
  exact hfind.mono fun _ _ _ _ => trivial

theorem length_asBytes_trim_le : (asBytes (trim isWhitespace text)).length ≤ (asBytes text).length := by
  have hsub : (trim isWhitespace text).Sublist text :=
    (List.rdropWhile_prefix isWhitespace _).sublist.trans (List.dropWhile_suffix isWhitespace).sublist
  exact (hsub.flatMap String.utf8EncodeChar).length_le

theorem answers_parsePosition (hfuel : (asBytes text).length < fuel) :
    Answers (fun _ => True) (parsePosition fuel text) := by
  have htrim : (asBytes (trim isWhitespace text)).length < fuel := lt_of_le_of_lt length_asBytes_trim_le hfuel
  unfold parsePosition
  apply Answers.ite
  · intro _
    exact .failure
  · intro _
    apply Answers.orElse
    · exact answers_parseAprs htrim
    · apply Answers.orElse
      · exact answers_parseDecimal htrim
      · exact answers_parseMaidenhead _

/-- Every text is answered: no read is out of range, and no loop goes round more often than
the text has bytes. -/
theorem returns_parsePosition (text : Chars) (fuel : ℕ) (hfuel : (asBytes text).length < fuel) :
    (∃ r, (parsePosition fuel text).run = .ok r) ∧ (∃ r, (parseAprs fuel text).run = .ok r) ∧
      (∃ r, (parseDecimal fuel text).run = .ok r) ∧ ∃ r, (maidenheadToken text).run = .ok r := by
  have hreturns : ∀ {x : Partial LatLon}, Answers (fun _ => True) x → ∃ r, x.run = .ok r := by
    rintro x ⟨r, hr, -⟩
    exact ⟨r, hr⟩
  exact ⟨hreturns (answers_parsePosition hfuel), hreturns (answers_parseAprs hfuel),
    hreturns (answers_parseDecimal hfuel), hreturns (answers_maidenheadToken text)⟩

/-- Words and numbers in more than one script, and a token of six bytes that has five characters. -/
theorem returns_parsePosition_mixed :
    ((∃ r, (parsePosition 40 "Θέση: 37.99N é 23.76E".toList).run = .ok r) ∧
      (∃ r, (parseAprs 40 "Θέση: 37.99N é 23.76E".toList).run = .ok r) ∧
      (∃ r, (parseDecimal 40 "Θέση: 37.99N é 23.76E".toList).run = .ok r) ∧
      ∃ r, (maidenheadToken "Θέση: 37.99N é 23.76E".toList).run = .ok r) ∧
    (asBytes "KM18é".toList).length = 6 ∧ "KM18é".toList.length = 5 ∧
      ∃ r, (maidenheadToken "KM18é".toList).run = .ok r := by
  refine ⟨returns_parsePosition _ 40 (by decide), by decide, by decide, ?_⟩
  obtain ⟨-, -, -, htoken⟩ := returns_parsePosition "KM18é".toList 40 (by decide)
  exact htoken

end Safety

end BrewServer.Position
