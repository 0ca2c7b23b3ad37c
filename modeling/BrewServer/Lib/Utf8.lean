import BrewServer.Lib.LeBytes

/-!
# UTF-8 text in a byte string

Strict and lossy decoding share one scanner. An ill-formed sequence takes its
maximal subpart: the bytes that could still have begun a scalar value.
-/

namespace BrewServer

def isContinuation (b : UInt8) : Bool := b &&& 0xc0 == 0x80

/-- Which second bytes may follow a lead byte of a longer sequence. -/
def secondInRange (lead b : UInt8) : Bool :=
  match lead with
  | 0xe0 => 0xa0 ≤ b && b ≤ 0xbf
  | 0xed => 0x80 ≤ b && b ≤ 0x9f
  | 0xf0 => 0x90 ≤ b && b ≤ 0xbf
  | 0xf4 => 0x80 ≤ b && b ≤ 0x8f
  | _ => isContinuation b

/-- One scalar value after lead byte `lead`, `none` if ill-formed, with the
number of bytes of `rest` it takes. -/
def utf8Step (lead : UInt8) (rest : Bytes) : Option Char × Nat :=
  let low (b : UInt8) : Nat := (b &&& 0x3f).toNat
  if lead < 0x80 then
    (some (Char.ofNat lead.toNat), 0)
  else if 0xc2 ≤ lead && lead ≤ 0xdf then
    match rest with
    | b :: _ =>
      if isContinuation b then (some (Char.ofNat ((lead &&& 0x1f).toNat * 64 + low b)), 1) else (none, 0)
    | [] => (none, 0)
  else if 0xe0 ≤ lead && lead ≤ 0xef then
    match rest with
    | b :: more =>
      if secondInRange lead b then
        match more with
        | c :: _ =>
          if isContinuation c then
            (some (Char.ofNat (((lead &&& 0x0f).toNat * 64 + low b) * 64 + low c)), 2)
          else (none, 1)
        | [] => (none, 1)
      else (none, 0)
    | [] => (none, 0)
  else if 0xf0 ≤ lead && lead ≤ 0xf4 then
    match rest with
    | b :: more =>
      if secondInRange lead b then
        match more with
        | c :: more =>
          if isContinuation c then
            match more with
            | d :: _ =>
              if isContinuation d then
                (some (Char.ofNat ((((lead &&& 0x07).toNat * 64 + low b) * 64 + low c) * 64 + low d)), 3)
              else (none, 2)
            | [] => (none, 2)
          else (none, 1)
        | [] => (none, 1)
      else (none, 0)
    | [] => (none, 0)
  else (none, 0)

/-- The scanner over a whole string; every step takes at least one byte. -/
def utf8Scan : Nat → Bytes → List (Option Char)
  | 0, _ => []
  | _, [] => []
  | fuel + 1, b :: rest =>
    let (c, width) := utf8Step b rest
    c :: utf8Scan fuel (rest.drop width)

/-- Strict decoding. -/
def fromUtf8 (bs : Bytes) : Option String :=
  ((utf8Scan bs.length bs).mapM id).map String.ofList

/-- Decoding with U+FFFD for every ill-formed sequence. -/
def fromUtf8Lossy (bs : Bytes) : String :=
  String.ofList ((utf8Scan bs.length bs).map (·.getD (Char.ofNat 0xfffd)))

def utf8Bytes (s : String) : Bytes := s.toList.flatMap String.utf8EncodeChar

example : (utf8Scan 5 [0x61, 0xe2, 0x82, 0x62, 0xff]) = [some 'a', none, some 'b', none] := by decide

/-- Whether a string may be cut at byte `i`. -/
def isCharBoundary (bs : Bytes) (i : Nat) : Bool :=
  i == 0 || i == bs.length || (bs[i]?).any (!isContinuation ·)

/-- The last boundary at or before `i`. -/
def boundaryBefore (bs : Bytes) : Nat → Nat
  | 0 => 0
  | i + 1 => if isCharBoundary bs (i + 1) then i + 1 else boundaryBefore bs i

/-! ## One character -/

/-- The six payload bits of a continuation byte. -/
theorem continuation_byte : ∀ m : Fin 64, isContinuation (UInt8.ofNat (m + 0x80)) = true ∧
    (UInt8.ofNat (m + 0x80) &&& 0x3f).toNat = m := by decide

theorem lead_of_two : ∀ m : Fin 32, 2 ≤ m.val → ¬ UInt8.ofNat (m + 0xc0) < 0x80 ∧
    (0xc2 ≤ UInt8.ofNat (m + 0xc0) && UInt8.ofNat (m + 0xc0) ≤ 0xdf) = true ∧
    (UInt8.ofNat (m + 0xc0) &&& 0x1f).toNat = m := by decide

theorem lead_of_three : ∀ m : Fin 16, ¬ UInt8.ofNat (m + 0xe0) < 0x80 ∧
    (0xc2 ≤ UInt8.ofNat (m + 0xe0) && UInt8.ofNat (m + 0xe0) ≤ 0xdf) = false ∧
    (0xe0 ≤ UInt8.ofNat (m + 0xe0) && UInt8.ofNat (m + 0xe0) ≤ 0xef) = true ∧
    (UInt8.ofNat (m + 0xe0) &&& 0x0f).toNat = m ∧
    ∀ b : Fin 64, (m.val = 0 → 32 ≤ b.val) → (m.val = 13 → b.val < 32) →
      secondInRange (UInt8.ofNat (m + 0xe0)) (UInt8.ofNat (b + 0x80)) = true := by decide +kernel

theorem lead_of_four : ∀ m : Fin 5, ¬ UInt8.ofNat (m + 0xf0) < 0x80 ∧
    (0xc2 ≤ UInt8.ofNat (m + 0xf0) && UInt8.ofNat (m + 0xf0) ≤ 0xdf) = false ∧
    (0xe0 ≤ UInt8.ofNat (m + 0xf0) && UInt8.ofNat (m + 0xf0) ≤ 0xef) = false ∧
    (0xf0 ≤ UInt8.ofNat (m + 0xf0) && UInt8.ofNat (m + 0xf0) ≤ 0xf4) = true ∧
    (UInt8.ofNat (m + 0xf0) &&& 0x07).toNat = m ∧
    ∀ b : Fin 64, (m.val = 0 → 16 ≤ b.val) → (m.val = 4 → b.val < 16) →
      secondInRange (UInt8.ofNat (m + 0xf0)) (UInt8.ofNat (b + 0x80)) = true := by decide +kernel

theorem lead_of_one : ∀ m : Fin 128, UInt8.ofNat m < 0x80 ∧ (UInt8.ofNat m).toNat = m := by decide

theorem scalar_cases (c : Char) : c.val.toNat < 0xd800 ∨ 0xdfff < c.val.toNat ∧ c.val.toNat < 0x110000 := c.valid

/-- The bytes of a character are read as that character. -/
theorem utf8Step_encode (c : Char) (rest : Bytes) :
    ∃ lead more, String.utf8EncodeChar c = lead :: more ∧ utf8Step lead (more ++ rest) = (some c, more.length) := by
  have hv := scalar_cases c
  have hc : Char.ofNat c.val.toNat = c := Char.ofNat_toNat c
  unfold String.utf8EncodeChar
  dsimp only

  split
  · next h1 =>
    obtain ⟨hlt, hm⟩ := lead_of_one ⟨c.val.toNat, by omega⟩
    refine ⟨_, _, rfl, ?_⟩
    dsimp only at hlt hm
    unfold utf8Step
    rw [if_pos hlt, hm, hc]
    rfl
  · next h1 =>
    split
    · next h2 =>
      obtain ⟨hhigh, hrange, hm⟩ := lead_of_two ⟨c.val.toNat / 64 % 0x20, by omega⟩ (by dsimp only; omega)
      obtain ⟨hb, hlow⟩ := continuation_byte ⟨c.val.toNat % 0x40, by omega⟩
      dsimp only at hhigh hrange hm hb hlow
      refine ⟨_, _, rfl, ?_⟩
      simp only [utf8Step, hhigh, hrange, hm, hb, hlow, if_true, if_false, List.cons_append, List.nil_append]
      have hsum : c.val.toNat / 64 % 0x20 * 64 + c.val.toNat % 0x40 = c.val.toNat := by omega
      rw [hsum, hc]
      rfl
    · next h2 =>
      split
      · next h3 =>
        obtain ⟨hhigh, htwo, hrange, hm, hsecond⟩ := lead_of_three ⟨c.val.toNat / 4096 % 0x10, by omega⟩
        obtain ⟨hb, hlowb⟩ := continuation_byte ⟨c.val.toNat / 64 % 0x40, by omega⟩
        obtain ⟨hd, hlowd⟩ := continuation_byte ⟨c.val.toNat % 0x40, by omega⟩
        have hok := hsecond ⟨c.val.toNat / 64 % 0x40, by omega⟩ (by dsimp only; omega) (by dsimp only; omega)
        dsimp only at hhigh htwo hrange hm hb hlowb hd hlowd hok
        refine ⟨_, _, rfl, ?_⟩
        simp only [utf8Step, hhigh, htwo, hrange, hm, hok, hlowb, hd, hlowd, if_true, if_false, List.cons_append,
          List.nil_append, Bool.false_eq_true]
        have hsum : (c.val.toNat / 4096 % 0x10 * 64 + c.val.toNat / 64 % 0x40) * 64 + c.val.toNat % 0x40 = c.val.toNat := by omega
        rw [hsum, hc]
        rfl
      · next h3 =>
        obtain ⟨hhigh, htwo, hthree, hrange, hm, hsecond⟩ := lead_of_four ⟨c.val.toNat / 262144 % 0x08, by omega⟩
        obtain ⟨hb, hlowb⟩ := continuation_byte ⟨c.val.toNat / 4096 % 0x40, by omega⟩
        obtain ⟨hd, hlowd⟩ := continuation_byte ⟨c.val.toNat / 64 % 0x40, by omega⟩
        obtain ⟨he, hlowe⟩ := continuation_byte ⟨c.val.toNat % 0x40, by omega⟩
        have hok := hsecond ⟨c.val.toNat / 4096 % 0x40, by omega⟩ (by dsimp only; omega) (by dsimp only; omega)
        dsimp only at hhigh htwo hthree hrange hm hb hlowb hd hlowd he hlowe hok
        refine ⟨_, _, rfl, ?_⟩
        simp only [utf8Step, hhigh, htwo, hthree, hrange, hm, hok, hlowb, hd, hlowd, he, hlowe, if_true, if_false,
          List.cons_append, List.nil_append, Bool.false_eq_true]
        have hsum : ((c.val.toNat / 262144 % 0x08 * 64 + c.val.toNat / 4096 % 0x40) * 64 + c.val.toNat / 64 % 0x40) * 64 +
            c.val.toNat % 0x40 = c.val.toNat := by omega
        rw [hsum, hc]
        rfl

/-! ## Reading back -/

theorem utf8Scan_encode (cs : List Char) : ∀ fuel, (cs.flatMap String.utf8EncodeChar).length ≤ fuel →
    utf8Scan fuel (cs.flatMap String.utf8EncodeChar) = cs.map some := by
  induction cs with
  | nil =>
    intro fuel _
    cases fuel <;> rfl
  | cons c cs ih =>
    intro fuel hfuel
    obtain ⟨lead, more, henc, hstep⟩ := utf8Step_encode c (cs.flatMap String.utf8EncodeChar)
    rw [List.flatMap_cons, henc] at hfuel ⊢
    simp only [List.cons_append, List.length_cons, List.length_append] at hfuel
    cases fuel with
    | zero => omega
    | succ fuel =>
      rw [List.cons_append, utf8Scan, hstep]
      dsimp only
      rw [List.drop_left, ih fuel (by omega)]
      rfl

theorem fromUtf8_utf8Bytes (s : String) : fromUtf8 (utf8Bytes s) = some s := by
  have hall : ∀ cs : List Char, (cs.map some).mapM id = some cs := by
    intro cs
    induction cs with
    | nil => rfl
    | cons c cs ih => simp [List.mapM_cons, ih]
  rw [fromUtf8, utf8Bytes, utf8Scan_encode s.toList _ le_rfl, hall, Option.map_some, String.ofList_toList]

theorem fromUtf8Lossy_utf8Bytes (s : String) : fromUtf8Lossy (utf8Bytes s) = s := by
  have hall : ((s.toList.map some).map (·.getD (Char.ofNat 0xfffd))) = s.toList := by simp [Function.comp_def]
  rw [fromUtf8Lossy, utf8Bytes, utf8Scan_encode s.toList _ le_rfl, hall, String.ofList_toList]

/-! ## Cutting between characters -/

theorem isContinuation_tail (c : Char) : ∀ b ∈ (String.utf8EncodeChar c).tail, isContinuation b = true := by
  have hbyte (v : Nat) : isContinuation (UInt8.ofNat (v % 0x40 + 0x80)) = true :=
    (continuation_byte ⟨v % 0x40, by omega⟩).1
  unfold String.utf8EncodeChar
  dsimp only
  intro b hb
  split at hb
  · cases hb
  · split at hb
    · rw [List.tail_cons, List.mem_singleton] at hb
      exact hb ▸ hbyte _
    · split at hb
      · rw [List.tail_cons, List.mem_cons, List.mem_singleton] at hb
        rcases hb with rfl | rfl <;> exact hbyte _
      · rw [List.tail_cons, List.mem_cons, List.mem_cons, List.mem_singleton] at hb
        rcases hb with rfl | rfl | rfl <;> exact hbyte _

theorem exists_prefix (cs : List Char) : ∀ i, i ≤ (cs.flatMap String.utf8EncodeChar).length →
    isCharBoundary (cs.flatMap String.utf8EncodeChar) i = true →
    ∃ pre : List Char, (cs.flatMap String.utf8EncodeChar).take i = pre.flatMap String.utf8EncodeChar := by
  induction cs with
  | nil => exact fun i _ _ => ⟨[], by simp⟩
  | cons c cs ih =>
    intro i hi hb
    obtain ⟨lead, more, henc, -⟩ := utf8Step_encode c []
    rw [List.flatMap_cons] at hi hb ⊢
    by_cases hshort : i < (String.utf8EncodeChar c).length
    · cases i with
      | zero => exact ⟨[], rfl⟩
      | succ i =>
        -- a byte inside a character is a continuation
        have hmore : i < more.length := by rw [henc, List.length_cons] at hshort; omega
        have hget : (String.utf8EncodeChar c ++ cs.flatMap String.utf8EncodeChar)[i + 1]? = some more[i] := by
          rw [henc, List.cons_append, List.getElem?_cons_succ, List.getElem?_append_left hmore,
            List.getElem?_eq_getElem hmore]
        have hcont : isContinuation more[i] = true := by
          refine isContinuation_tail c _ ?_
          rw [henc, List.tail_cons]
          exact List.getElem_mem hmore
        have hlen : i + 1 ≠ (String.utf8EncodeChar c ++ cs.flatMap String.utf8EncodeChar).length := by
          rw [List.length_append]
          omega
        rw [isCharBoundary, hget, Option.any_some, hcont, beq_eq_false_iff_ne.mpr hlen] at hb
        cases hb
    · have hle : (String.utf8EncodeChar c).length ≤ i := Nat.le_of_not_lt hshort
      obtain ⟨j, rfl⟩ := Nat.exists_eq_add_of_le hle
      have hj : isCharBoundary (cs.flatMap String.utf8EncodeChar) j = true := by
        rw [isCharBoundary, List.length_append, List.getElem?_append_right hle, Nat.add_sub_cancel_left] at hb
        rw [isCharBoundary]
        simp only [Bool.or_eq_true, beq_iff_eq] at hb ⊢
        rcases hb with (hb | hb) | hb
        · exact .inl (.inl (by omega))
        · exact .inl (.inr (by omega))
        · exact .inr hb
      obtain ⟨pre, hpre⟩ := ih j (by rw [List.length_append] at hi; omega) hj
      refine ⟨c :: pre, ?_⟩
      rw [List.take_length_add_append, hpre, List.flatMap_cons]

theorem boundaryBefore_spec (bs : Bytes) (i : Nat) :
    boundaryBefore bs i ≤ i ∧ isCharBoundary bs (boundaryBefore bs i) = true := by
  induction i with
  | zero => exact ⟨le_rfl, rfl⟩
  | succ i ih =>
    rw [boundaryBefore]
    split
    · next h => exact ⟨le_rfl, h⟩
    · exact ⟨ih.1.trans (Nat.le_succ i), ih.2⟩

/-- No later place before `i` is a boundary. -/
theorem le_boundaryBefore {bs : Bytes} {i j : Nat} (hj : j ≤ i) (hb : isCharBoundary bs j = true) :
    j ≤ boundaryBefore bs i := by
  induction i with
  | zero => exact hj
  | succ i ih =>
    rw [boundaryBefore]
    split
    · exact hj
    · next h =>
      rcases Nat.lt_or_ge i j with hlt | hle
      · obtain rfl : j = i + 1 := by omega
        exact absurd hb h
      · exact ih hle

/-- A text cut at the last boundary is a text. -/
theorem exists_text (s : String) {n : Nat} (hn : n ≤ (utf8Bytes s).length) :
    ∃ t : String, (utf8Bytes s).take (boundaryBefore (utf8Bytes s) n) = utf8Bytes t := by
  obtain ⟨hle, hb⟩ := boundaryBefore_spec (utf8Bytes s) n
  obtain ⟨pre, hpre⟩ := exists_prefix s.toList _ (hle.trans hn) hb
  exact ⟨String.ofList pre, by rw [utf8Bytes, utf8Bytes, String.toList_ofList]; exact hpre⟩

theorem boundaryBefore_length (bs : Bytes) : boundaryBefore bs bs.length = bs.length := by
  cases h : bs.length with
  | zero => rfl
  | succ n =>
    rw [boundaryBefore, if_pos]
    rw [isCharBoundary, h, beq_self_eq_true, Bool.or_true, Bool.true_or]

end BrewServer
