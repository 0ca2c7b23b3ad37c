import BrewServer.Sms.Queue
import BrewServer.Lib.Utf8
import Mathlib.Algebra.BigOperators.Group.List.Basic

/-!
# The queue as JSON

What the serving loop sends is the whole queue, and its size is a sum over the
known ISSIs and the messages.
-/

namespace BrewServer.Sms

/-! ## Compact JSON -/

namespace Json

def literal (s : String) : Bytes := s.toList.map fun c => UInt8.ofNat c.toNat

def number (n : ℕ) : Bytes := (Nat.toDigits 10 n).map fun c => UInt8.ofNat c.toNat

def quoted (text : Bytes) : Bytes := 34 :: text ++ [34]

/-- Items with a comma between each two. -/
def items : List Bytes → Bytes
  | [] => []
  | [x] => x
  | x :: y :: xs => x ++ 44 :: items (y :: xs)

def array (xs : List Bytes) : Bytes := 91 :: items xs ++ [93]

def object (fields : List (String × Bytes)) : Bytes :=
  123 :: items (fields.map fun f => quoted (literal f.1) ++ 58 :: f.2) ++ [125]

def nullable {α : Type} (value : α → Bytes) : Option α → Bytes
  | none => literal "null"
  | some a => value a

/-- How many characters a number takes. -/
def digits (n : ℕ) : ℕ := (Nat.toDigits 10 n).length

@[simp] theorem length_literal (s : String) : (literal s).length = s.toList.length := List.length_map _

@[simp] theorem length_number (n : ℕ) : (number n).length = digits n := List.length_map _

@[simp] theorem length_quoted (text : Bytes) : (quoted text).length = text.length + 2 := by simp [quoted]

theorem length_items (xs : List Bytes) : (items xs).length = (xs.map List.length).sum + (xs.length - 1) := by
  induction xs with
  | nil => rfl
  | cons x xs ih =>
    cases xs with
    | nil => simp [items]
    | cons y ys =>
      rw [items, List.length_append, List.length_cons, ih]
      simp only [List.map_cons, List.sum_cons, List.length_cons]
      omega

theorem length_array (xs : List Bytes) : (array xs).length = 2 + ((xs.map List.length).sum + (xs.length - 1)) := by
  rw [array, List.length_append, List.length_cons, length_items, List.length_singleton]
  omega

theorem length_object (fields : List (String × Bytes)) :
    (object fields).length =
      2 + ((fields.map fun f => f.1.toList.length + 3 + f.2.length).sum + (fields.length - 1)) := by
  rw [object, List.length_append, List.length_cons, length_items, List.length_singleton, List.map_map, List.length_map]
  have hfield : (List.length ∘ fun f : String × Bytes => quoted (literal f.1) ++ 58 :: f.2) =
      fun f => f.1.toList.length + 3 + f.2.length := by
    funext f
    simp only [Function.comp_apply, List.length_append, length_quoted, length_literal, List.length_cons]
    omega
  rw [hfield]
  omega

end Json

/-! ## A message's text -/

/-- Best-effort text of a payload, a byte for each of its characters. -/
def textPreview (data : Bytes) : Option Bytes := do
  let pid ← data.head?
  let body ←
    if pid = 0x02 ∨ pid = 0x09 then
      if 2 ≤ data.length then some (data.drop 2) else none
    else if pid = 0x82 ∨ pid = 0x89 then
      -- Only a plain SDS-TL transfer: no report, no store/forward control.
      if 3 ≤ data.length ∧ (data[1]? : Option UInt8).any (fun flags : UInt8 => flags >>> 4 = 0 ∧ flags &&& 1 = 0) then
        (data[3]? : Option UInt8).bind fun coding =>
          let start := if coding &&& 0x80 = 0 then 4 else 7
          if start ≤ data.length then some (data.drop start) else none
      else none
    else none
  -- Without control characters, trimmed of blanks and no-break spaces.
  let blank (b : UInt8) : Bool := b = 0x20 || b = 0xa0
  let shown := body.filter fun b => (0x20 ≤ b && b < 0x7f) || 0xa0 ≤ b
  let text := ((shown.dropWhile blank).reverse.dropWhile blank).reverse
  if text = [] then none else some text

/-- A character of the text in a JSON string. -/
def escaped (b : UInt8) : Bytes :=
  if b = 34 ∨ b = 92 then [92, b]
  else if b < 0x80 then [b] else [(0xc0 : UInt8) ||| (b >>> (6 : UInt8)), (0x80 : UInt8) ||| (b &&& 0x3f)]

def hexDigit (n : UInt8) : UInt8 := if n < 10 then 48 + n else 87 + n

def hexEncode (bs : Bytes) : Bytes := bs.flatMap fun b : UInt8 => [hexDigit (b >>> 4), hexDigit (b &&& 0xf)]

/-- A UUID with its four hyphens. -/
def uuidText (u : Uuid) : Bytes :=
  let hex := hexEncode (Uuid.asBytes u)
  hex.take 8 ++ 45 :: (hex.drop 8).take 4 ++ 45 :: (hex.drop 12).take 4 ++ 45 :: (hex.drop 16).take 4 ++
    45 :: hex.drop 20

open Json

def StoredSms.json (m : StoredSms) : Bytes :=
  object
    [("id", quoted (uuidText m.id)), ("source_issi", number m.sourceIssi.toNat),
      ("destination", number m.destination.toNat), ("length_bits", number m.lengthBits.toNat),
      ("data_hex", quoted (hexEncode m.data)),
      ("text", nullable (fun text => quoted (text.flatMap escaped)) (textPreview m.data)),
      ("stored_at_ms", number m.storedAtMs.toNat), ("expires_at_ms", number m.expiresAtMs.toNat),
      ("attempts", number m.attempts.toNat), ("last_attempt_ms", nullable (fun t => number t.toNat) m.lastAttemptMs),
      ("in_flight", nullable (fun u => quoted (uuidText u)) m.inFlight)]

/-- The whole queue and known-ISSI set, for replication. -/
def SmsFile.export (d : SmsFile) : Bytes :=
  object
    [("version", number 1), ("known_issis", array (d.knownIssis.toList.map fun issi => number issi.toNat)),
      ("messages", array (d.messages.map StoredSms.json))]

/-! ## Sizes -/

/-- What the characters of a text take. -/
def textSize (text : Bytes) : ℕ := (text.map fun b => if b = 34 ∨ b = 92 ∨ 0x80 ≤ b then 2 else 1).sum

def StoredSms.size (m : StoredSms) : ℕ :=
  189 + digits m.sourceIssi.toNat + digits m.destination.toNat + digits m.lengthBits.toNat + 2 * m.data.length +
    (match textPreview m.data with
      | none => 4
      | some text => textSize text + 2) +
    digits m.storedAtMs.toNat + digits m.expiresAtMs.toNat + digits m.attempts.toNat +
    (match m.lastAttemptMs with
      | none => 4
      | some t => digits t.toNat) +
    match m.inFlight with
      | none => 4
      | some _ => 38

/-- The size of an exported queue. -/
def SmsFile.exportSize (d : SmsFile) : ℕ :=
  44 + (d.knownIssis.toList.map fun issi => digits issi.toNat).sum + (d.knownIssis.toList.length - 1) +
    (d.messages.map StoredSms.size).sum + (d.messages.length - 1)

theorem length_hexEncode (bs : Bytes) : (hexEncode bs).length = 2 * bs.length := by
  induction bs with
  | nil => rfl
  | cons b bs ih =>
    rw [hexEncode, List.flatMap_cons, List.length_append, ← hexEncode, ih]
    simp only [List.length_cons, List.length_nil]
    omega

@[simp] theorem length_uuidText (u : Uuid) : (uuidText u).length = 36 := by
  have hhex : (hexEncode (Uuid.asBytes u)).length = 32 := by rw [length_hexEncode, Uuid.length_asBytes]
  simp only [uuidText, List.length_append, List.length_cons, List.length_take, List.length_drop, hhex]
  omega

theorem length_escaped (text : Bytes) : (text.flatMap escaped).length = textSize text := by
  induction text with
  | nil => rfl
  | cons b text ih =>
    have hb : (escaped b).length = if b = 34 ∨ b = 92 ∨ 0x80 ≤ b then 2 else 1 := by
      unfold escaped
      split
      · next h => rw [if_pos (by tauto)]; rfl
      · next h =>
        split
        · next hlt =>
          rw [if_neg]
          · rfl
          · rintro (h1 | h1 | h1)
            · exact h (.inl h1)
            · exact h (.inr h1)
            · exact absurd hlt (UInt8.not_lt.mpr h1)
        · next hlt => rw [if_pos (.inr (.inr (UInt8.not_lt.mp hlt)))]; rfl
    rw [List.flatMap_cons, List.length_append, ih, hb]
    rfl

theorem length_json (m : StoredSms) : m.json.length = m.size := by
  have htext : (nullable (fun text => quoted (text.flatMap escaped)) (textPreview m.data)).length =
      match textPreview m.data with
      | none => 4
      | some text => textSize text + 2 := by
    cases textPreview m.data with
    | none => rfl
    | some text => rw [nullable, length_quoted, length_escaped]
  have hlast : (nullable (fun t : UInt64 => number t.toNat) m.lastAttemptMs).length =
      match m.lastAttemptMs with
      | none => 4
      | some t => digits t.toNat := by
    cases m.lastAttemptMs with
    | none => rfl
    | some t => exact length_number _
  have hflight : (nullable (fun u => quoted (uuidText u)) m.inFlight).length =
      match m.inFlight with
      | none => 4
      | some _ => 38 := by
    cases m.inFlight with
    | none => rfl
    | some u => rw [nullable, length_quoted, length_uuidText]
  rw [StoredSms.json, length_object, StoredSms.size]
  simp only [List.map_cons, List.map_nil, List.sum_cons, List.sum_nil, List.length_cons, List.length_nil, htext, hlast,
    hflight, length_quoted, length_uuidText, length_number, length_hexEncode]
  have hnames : ("id".toList.length = 2 ∧ "source_issi".toList.length = 11 ∧ "destination".toList.length = 11 ∧
      "length_bits".toList.length = 11 ∧ "data_hex".toList.length = 8 ∧ "text".toList.length = 4 ∧
      "stored_at_ms".toList.length = 12 ∧ "expires_at_ms".toList.length = 13 ∧ "attempts".toList.length = 8 ∧
      "last_attempt_ms".toList.length = 15 ∧ "in_flight".toList.length = 9) := by decide +kernel
  omega

theorem length_export (d : SmsFile) : d.export.length = d.exportSize := by
  have hmessages : (d.messages.map StoredSms.json).map List.length = d.messages.map StoredSms.size := by
    rw [List.map_map]
    exact List.map_congr_left fun m _ => length_json m
  have hissis : (d.knownIssis.toList.map fun issi => number issi.toNat).map List.length =
      d.knownIssis.toList.map fun issi => digits issi.toNat := by
    rw [List.map_map]
    exact List.map_congr_left fun issi _ => length_number _
  rw [SmsFile.export, length_object, SmsFile.exportSize]
  simp only [List.map_cons, List.map_nil, List.sum_cons, List.sum_nil, List.length_cons, List.length_nil,
    length_array, hmessages, hissis, length_number, List.length_map]
  have hnames : "version".toList.length = 7 ∧ "known_issis".toList.length = 11 ∧ "messages".toList.length = 8 ∧
      digits 1 = 1 := by decide +kernel
  omega

/-- A message takes at least its payload in hex. -/
theorem two_mul_length_le_size (m : StoredSms) : 2 * m.data.length ≤ m.size := by
  unfold StoredSms.size
  omega

end BrewServer.Sms
