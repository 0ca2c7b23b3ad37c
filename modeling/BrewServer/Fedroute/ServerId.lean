import BrewServer.Lib.Text
import Mathlib.Tactic.Ring

/-!
# Server ids as text

The headers of a federation link carry a server's id in sixteen hexadecimal digits.
-/

namespace BrewServer.Fedroute

open Chars

/-- A number in `w` hexadecimal digits. -/
def hex : ℕ → ℕ → Chars
  | 0, _ => []
  | w + 1, n => hex w (n / 16) ++ [Nat.digitChar (n % 16)]

def isHexDigit (c : Char) : Bool := c.isDigit || ('a' ≤ c && c ≤ 'f') || ('A' ≤ c && c ≤ 'F')

def hexValue (c : Char) : ℕ :=
  if c.isDigit then c.toNat - 48 else if 'a' ≤ c ∧ c ≤ 'f' then c.toNat - 87 else c.toNat - 55

def readHex (t : Chars) : ℕ := t.foldl (fun v c => 16 * v + hexValue c) 0

/-- `X-Brew-Server-Id`: sixteen lowercase hexadecimal digits. -/
def formatServerId (id : UInt64) : Chars := hex 16 id.toNat

def parseServerId (value : Chars) : Option UInt64 :=
  let value := trim isWhitespace value
  if value.length = 16 ∧ value.all isHexDigit = true then some (UInt64.ofNat (readHex value)) else none

theorem digitChar_hex {n : ℕ} (h : n < 16) :
    isHexDigit (Nat.digitChar n) = true ∧ isWhitespace (Nat.digitChar n) = false ∧ hexValue (Nat.digitChar n) = n := by
  have hall : ∀ m : Fin 16, isHexDigit (Nat.digitChar m) = true ∧ isWhitespace (Nat.digitChar m) = false ∧
      hexValue (Nat.digitChar m) = m := by decide
  exact hall ⟨n, h⟩

@[simp] theorem length_hex (w n : ℕ) : (hex w n).length = w := by
  induction w generalizing n with
  | zero => rfl
  | succ w ih => rw [hex, List.length_append, ih, List.length_singleton]

theorem mem_hex {w n : ℕ} {c : Char} (h : c ∈ hex w n) : ∃ m < 16, c = Nat.digitChar m := by
  induction w generalizing n with
  | zero => exact absurd h List.not_mem_nil
  | succ w ih =>
    rcases List.mem_append.mp h with h | h
    · exact ih h
    · exact ⟨n % 16, Nat.mod_lt _ (by decide), List.mem_singleton.mp h⟩

theorem readHex_hex {w n : ℕ} (h : n < 16 ^ w) : readHex (hex w n) = n := by
  induction w generalizing n with
  | zero =>
    have hn : n = 0 := by simpa using h
    rw [hn]
    rfl
  | succ w ih =>
    have hdiv : n / 16 < 16 ^ w := by
      rw [Nat.div_lt_iff_lt_mul (by decide)]
      rwa [Nat.pow_succ] at h
    have hfront : (hex w (n / 16)).foldl (fun v c => 16 * v + hexValue c) 0 = n / 16 := ih hdiv
    rw [readHex, hex, List.foldl_append, hfront, List.foldl_cons, List.foldl_nil,
      (digitChar_hex (Nat.mod_lt n (by decide))).2.2, Nat.div_add_mod]

/-- A server reads back the id that the other one wrote. -/
theorem parseServerId_format (id : UInt64) : parseServerId (formatServerId id) = some id := by
  have htrim : trim isWhitespace (formatServerId id) = formatServerId id := by
    refine trim_of_forall fun c hc => ?_
    obtain ⟨m, hm, rfl⟩ := mem_hex hc
    exact (digitChar_hex hm).2.1
  have hall : (formatServerId id).all isHexDigit = true := by
    rw [List.all_eq_true]
    intro c hc
    obtain ⟨m, hm, rfl⟩ := mem_hex hc
    exact (digitChar_hex hm).1
  unfold parseServerId
  rw [htrim]
  dsimp only
  rw [if_pos ⟨length_hex 16 _, hall⟩, formatServerId, readHex_hex (id.toNat_lt.trans_eq (by decide)), UInt64.ofNat_toNat]

end BrewServer.Fedroute
