import BrewServer.Sip.Message
import Mathlib.Data.Bool.AllAny

/-!
# A SIP message read back

A message whose headers were pushed and set has as many places for a name as values, so
every value is written once and in its order. The reader takes the lines apart where
the writer put them together.
-/

namespace BrewServer.Sip

open Chars

/-! ## Messages as they are built -/

inductive HeaderOp
  | push (name value : Chars)
  | set (name value : Chars)

def HeaderOp.apply (m : SipMessage) : HeaderOp → SipMessage
  | push name value => m.pushHeader name value
  | set name value => m.setHeader name value

/-- A message with these headers, in the order of their building. -/
def built (start : StartLine) (ops : List HeaderOp) (body : Bytes) : SipMessage :=
  { ops.foldl HeaderOp.apply { start } with body }

/-- A name has as many places as values, and is in lower case. -/
structure Counted (m : SipMessage) : Prop where
  count : ∀ key : Chars, m.order.count key = ((m.map[key]?).getD []).length
  lower : ∀ key ∈ m.order, asciiLower key = key

section Building

variable {m : SipMessage} {name value key : Chars} {start : StartLine} {ops : List HeaderOp} {body : Bytes}

theorem counted_empty : Counted { start } := by
  constructor
  · intro key
    simp
  · intro key hkey
    cases hkey

theorem Counted.pushHeader (h : Counted m) : Counted (m.pushHeader name value) := by
  constructor
  · intro key
    show (m.order ++ [asciiLower name]).count key = ((m.map.insert (asciiLower name) _)[key]?.getD []).length
    rw [List.count_append, h.count, FinMap.getElem?_insert]
    by_cases hkey : asciiLower name = key
    · subst hkey
      simp
    · simp [hkey]
  · intro key hkey
    rcases List.mem_append.mp hkey with hkey | hkey
    · exact h.lower key hkey
    · rw [List.mem_singleton.mp hkey]
      exact asciiLower_asciiLower name

/-- A name that is set loses its other places. -/
theorem Counted.setHeader (h : Counted m) : Counted (m.setHeader name value) := by
  have horder : ∀ key : Chars, (if m.map[asciiLower name]?.isSome then m.order.filter (· ≠ asciiLower name)
      else m.order).count key = if key = asciiLower name then 0 else m.order.count key := by
    intro key
    split
    · by_cases hkey : key = asciiLower name
      · subst hkey
        simp [List.count_eq_zero]
      · rw [if_neg hkey, List.count_filter (by simpa using hkey)]
    · next hnone =>
      by_cases hkey : key = asciiLower name
      · subst hkey
        rw [if_pos rfl, h.count]
        simp [Option.not_isSome_iff_eq_none.mp hnone]
      · rw [if_neg hkey]
  constructor
  · intro key
    show (_ ++ [asciiLower name]).count key = ((m.map.insert (asciiLower name) [value])[key]?.getD []).length
    rw [List.count_append, horder, FinMap.getElem?_insert]
    by_cases hkey : asciiLower name = key
    · subst hkey
      simp
    · rw [if_neg (Ne.symm hkey), if_neg hkey, h.count]
      simp [hkey]
  · intro key hkey
    rcases List.mem_append.mp hkey with hkey | hkey
    · split at hkey
      · exact h.lower key (List.mem_filter.mp hkey).1
      · exact h.lower key hkey
    · rw [List.mem_singleton.mp hkey]
      exact asciiLower_asciiLower name

theorem counted_built : Counted (built start ops body) := by
  have hall : ∀ m : SipMessage, Counted m → Counted (ops.foldl HeaderOp.apply m) := by
    induction ops with
    | nil => exact fun m hm => hm
    | cons op ops ih =>
      intro m hm
      refine ih _ ?_
      cases op with
      | push name value => exact hm.pushHeader
      | set name value => exact hm.setHeader
  have h : Counted (ops.foldl HeaderOp.apply { start }) := hall _ counted_empty
  exact ⟨h.count, h.lower⟩

end Building

/-! ## Every value is written once, in its order -/

section Emit

variable {map : FinMap Chars (List Chars)} {order : List Chars} {key : Chars}

theorem emit_values (cursor : FinMap Chars ℕ) : ((emit map cursor order).filter (·.1 = key)).map (·.2) =
    (((map[key]?).getD []).drop ((cursor[key]?).getD 0)).take (order.count key) := by
  induction order generalizing cursor with
  | nil => simp [emit]
  | cons k rest ih =>
    rw [emit, List.filter_append, List.map_append, ih, FinMap.getElem?_insert]
    by_cases hk : k = key
    · subst hk
      rw [if_pos rfl, Option.getD_some, List.count_cons_self]
      cases hvalues : map[k]? with
      | none => simp
      | some values =>
        rw [Option.bind_some, Option.getD_some]
        cases hv : values[(cursor[k]?).getD 0]? with
        | none =>
          have hle := List.getElem?_eq_none_iff.mp hv
          rw [List.drop_eq_nil_of_le hle, List.drop_eq_nil_of_le (by omega)]
          simp
        | some v =>
          obtain ⟨hlt, rfl⟩ := List.getElem?_eq_some_iff.mp hv
          rw [List.drop_eq_getElem_cons hlt, List.take_succ_cons]
          simp
    · rw [if_neg hk, List.count_cons_of_ne hk]
      cases (map[k]?).bind (·[(cursor[k]?).getD 0]?) with
      | none => simp
      | some v => simp [hk]

theorem mem_emit {value : Chars} (cursor : FinMap Chars ℕ) (h : (key, value) ∈ emit map cursor order) :
    key ∈ order ∧ ∃ values, map[key]? = some values ∧ value ∈ values := by
  induction order generalizing cursor with
  | nil => cases h
  | cons k rest ih =>
    rw [emit] at h
    rcases List.mem_append.mp h with hwritten | hrest
    · cases hv : (map[k]?).bind (·[(cursor[k]?).getD 0]?) with
      | none => simp [hv] at hwritten
      | some v =>
        rw [hv, Option.elim_some, List.mem_singleton] at hwritten
        cases hwritten
        obtain ⟨values, hvalues, hvalue⟩ := Option.bind_eq_some_iff.mp hv
        exact ⟨List.mem_cons_self, values, hvalues, List.mem_of_getElem? hvalue⟩
    · obtain ⟨hmem, hvalue⟩ := ih _ hrest
      exact ⟨List.mem_cons_of_mem k hmem, hvalue⟩

/-- What is written of a name are its values. -/
theorem Counted.emit_values {m : SipMessage} (h : Counted m) :
    ((emit m.map ∅ m.order).filter (·.1 = key)).map (·.2) = (m.map[key]?).getD [] := by
  rw [Sip.emit_values, h.count]
  simp

end Emit

/-! ## Names -/

/-- The compact names, which are read as others. -/
def compactNames : List Chars :=
  ["v", "f", "t", "i", "m", "c", "l", "s", "k"].map (·.toList)

/-- A name that is written and read as it is. -/
structure Token (key : Chars) : Prop where
  nonempty : key ≠ []
  chars : ∀ c ∈ key, c ≠ ':' ∧ isWhitespace c = false
  long : key ∉ compactNames

instance (key : Chars) : Decidable (Token key) :=
  decidable_of_iff (key ≠ [] ∧ (key.all fun c => c ≠ ':' ∧ isWhitespace c = false) = true ∧ key ∉ compactNames)
    ⟨fun h => ⟨h.1, List.all_iff_forall_prop.mp h.2.1, h.2.2⟩,
      fun h => ⟨h.nonempty, List.all_iff_forall_prop.mpr h.chars, h.long⟩⟩

section Names

variable {key : Chars} {c : Char}

theorem asciiLower_capitalize (t : Chars) : asciiLower (capitalize t) = asciiLower t := by
  cases t with
  | nil => rfl
  | cons c t => exact congrArg (· :: _) (toLower_toUpper c)

theorem asciiLower_intercalate {sep : Char} (ts : List Chars) (hsep : sep.toLower = sep) :
    asciiLower ([sep].intercalate ts) = [sep].intercalate (ts.map asciiLower) := by
  unfold asciiLower
  induction ts with
  | nil => rfl
  | cons t ts ih =>
    cases ts with
    | nil => simp
    | cons t' ts =>
      rw [List.intercalate_cons_cons, List.map_append, List.map_append, ih]
      simp [List.intercalate_cons_cons, hsep]

/-- The display of a name is the name in other letters. -/
theorem asciiLower_canonicalHeaderName : asciiLower (canonicalHeaderName key) = asciiLower key := by
  have htitle : asciiLower (['-'].intercalate ((key.splitOn '-').map capitalize)) = asciiLower key := by
    rw [asciiLower_intercalate _ (by decide), List.map_map]
    have hpieces : (key.splitOn '-').map (asciiLower ∘ capitalize) = (key.splitOn '-').map asciiLower :=
      List.map_congr_left fun t _ => asciiLower_capitalize t
    rw [hpieces, ← asciiLower_intercalate _ (by decide), List.intercalate_splitOn]
  unfold canonicalHeaderName
  split_ifs with h1 h2 h3 h4 h5 h6 h7 h8
  · rw [h1]; decide
  · rw [h2]; decide
  · rw [h3]; decide
  · rw [h4]; decide
  · rw [h5]; decide
  · rw [h6]; decide
  · rw [h7]; decide
  · rw [h8]; decide
  · exact htitle

theorem expandName_of_long (h : key ∉ compactNames) : expandName key = key := by
  have hne : ∀ name ∈ compactNames, key ≠ name := fun name hname hkey => h (hkey ▸ hname)
  unfold expandName
  rw [if_neg (hne _ (by decide)), if_neg (hne _ (by decide)), if_neg (hne _ (by decide)), if_neg (hne _ (by decide)),
    if_neg (hne _ (by decide)), if_neg (hne _ (by decide)), if_neg (hne _ (by decide)), if_neg (hne _ (by decide)),
    if_neg (hne _ (by decide))]

theorem toLower_of_whitespace (h : isWhitespace c = true) : c.toLower = c := by
  unfold Char.toLower
  refine dif_neg fun hc => ?_
  obtain ⟨-, hlow, hhigh⟩ := lower_range hc
  unfold isWhitespace at h
  simp only [Bool.or_eq_true, Bool.and_eq_true, decide_eq_true_eq] at h
  omega

/-- Capital letters are no separators either. -/
theorem Token.canonical (h : Token key) (hlower : asciiLower key = key) :
    canonicalHeaderName key ≠ [] ∧ ∀ c ∈ canonicalHeaderName key, c ≠ ':' ∧ isWhitespace c = false := by
  have hsame : asciiLower (canonicalHeaderName key) = key := asciiLower_canonicalHeaderName.trans hlower
  constructor
  · intro hnil
    rw [hnil] at hsame
    exact h.nonempty hsame.symm
  · intro c hc
    have hmem : c.toLower ∈ key := by
      rw [← hsame]
      exact List.mem_map_of_mem hc
    obtain ⟨hcolon, hblank⟩ := h.chars _ hmem
    constructor
    · rintro rfl
      exact hcolon (by decide)
    · by_contra hwhite
      rw [Bool.not_eq_false] at hwhite
      rw [toLower_of_whitespace hwhite, hwhite] at hblank
      cases hblank

end Names

/-! ## Values -/

/-- Whether a quotation is open after these characters. -/
def quoted (pre : Chars) : Bool := pre.count '"' % 2 = 1

/-- The angle brackets left open outside quotations. -/
def openAngles (inQuotes : Bool) : Chars → Int
  | [] => 0
  | c :: rest =>
    if c = '"' then openAngles (!inQuotes) rest
    else (if inQuotes then 0 else if c = '<' then 1 else if c = '>' then -1 else 0) + openAngles inQuotes rest

/-- Every comma stands in a quotation or between angle brackets. -/
def Enclosed (v : Chars) : Prop :=
  ∀ i < v.length, v[i]? = some ',' → quoted (v.take i) = true ∨ openAngles false (v.take i) ≠ 0

instance (v : Chars) : Decidable (Enclosed v) := Nat.decidableBallLT _ _

/-- A value that is written and read as it is. -/
structure Plain (key v : Chars) : Prop where
  trimmed : trim isWhitespace v = v
  line : '\r' ∉ v ∧ '\n' ∉ v
  single : isList key = true → v ≠ [] ∧ Enclosed v

instance (key v : Chars) : Decidable (Plain key v) :=
  decidable_of_iff (trim isWhitespace v = v ∧ ('\r' ∉ v ∧ '\n' ∉ v) ∧ (isList key = true → v ≠ [] ∧ Enclosed v))
    ⟨fun h => ⟨h.1, h.2.1, h.2.2⟩, fun h => ⟨h.trimmed, h.line, h.single⟩⟩

section Values

variable {v pre : Chars} {c : Char} {q : Bool}

theorem odd_succ (n : ℕ) : decide ((n + 1) % 2 = 1) = !decide (n % 2 = 1) := by
  by_cases hodd : n % 2 = 1
  · rw [decide_eq_true hodd, decide_eq_false (by omega)]
    rfl
  · rw [decide_eq_false hodd, decide_eq_true (by omega)]
    rfl

theorem quoted_cons : quoted (c :: pre) = if c = '"' then !quoted pre else quoted pre := by
  unfold quoted
  by_cases hc : c = '"'
  · rw [if_pos hc, hc, List.count_cons_self, odd_succ]
  · rw [if_neg hc, List.count_cons_of_ne hc]

theorem quoted_concat : quoted (pre ++ [c]) = if c = '"' then !quoted pre else quoted pre := by
  rw [← quoted_cons]
  unfold quoted
  rw [List.Perm.count_eq (List.perm_append_singleton c pre)]

theorem openAngles_concat : openAngles q (pre ++ [c]) = openAngles q pre +
    if c = '"' ∨ (q != quoted pre) = true then 0 else if c = '<' then 1 else if c = '>' then -1 else 0 := by
  induction pre generalizing q with
  | nil =>
    by_cases hc : c = '"'
    · simp [openAngles, hc]
    · cases q <;> simp [openAngles, hc, quoted]
  | cons d pre ih =>
    rw [List.cons_append, openAngles, openAngles, quoted_cons]
    by_cases hd : d = '"'
    · rw [if_pos hd, if_pos hd, if_pos hd, ih]
      cases q <;> cases quoted pre <;> rfl
    · rw [if_neg hd, if_neg hd, if_neg hd, ih, Int.add_assoc]

/-- While its commas are enclosed, a value is read as one piece. -/
theorem foldl_step (h : Enclosed v) (hpre : pre <+: v) :
    pre.foldl CommaState.step {} = { out := [], depth := openAngles false pre, inQuotes := quoted pre, cur := pre } := by
  induction pre using List.reverseRecOn with
  | nil => rfl
  | append_singleton pre c ih =>
    have hbefore : pre <+: v := (List.prefix_append pre [c]).trans hpre
    have hcomma : c = ',' → quoted pre = true ∨ openAngles false pre ≠ 0 := by
      rintro rfl
      obtain ⟨rest, rfl⟩ := hpre
      have henclosed := h pre.length (by simp) (by simp)
      simpa using henclosed
    rw [List.foldl_append, ih hbefore, List.foldl_cons, List.foldl_nil, quoted_concat, openAngles_concat]
    unfold CommaState.step
    by_cases hquote : c = '"'
    · simp [hquote]
    · cases hq : quoted pre with
      | true => simp [hquote]
      | false =>
        by_cases hless : c = '<'
        · simp [hless]
        · by_cases hmore : c = '>'
          · simp [hmore, Int.sub_eq_add_neg]
          · have hcut : ¬ (c = ',' ∧ openAngles false pre = 0) := by
              rintro ⟨hc, hzero⟩
              have hopen := hcomma hc
              simp [hq, hzero] at hopen
            simp [hquote, hless, hmore, hcut]

theorem splitCommas_enclosed (h : Enclosed v) (htrim : trim isWhitespace v = v) (hne : v ≠ []) :
    splitCommasOutsideQuotes v = [v] := by
  unfold splitCommasOutsideQuotes
  rw [foldl_step h List.prefix_rfl]
  dsimp only
  rw [htrim, if_neg hne]
  rfl

end Values

/-! ## Header lines -/

/-- A header that comes back as it is. -/
structure Field (field : Chars × Chars) : Prop where
  lower : asciiLower field.1 = field.1
  token : Token field.1
  value : Plain field.1 field.2

section Fields

variable {field : Chars × Chars} {fields : List (Chars × Chars)} {st : Folding} {msg : SipMessage} {name : Chars}

theorem Field.line (h : Field field) :
    Folding.line st (writeHeader field) = (st.flush, some (canonicalHeaderName field.1, field.2)) := by
  obtain ⟨hne, hchars⟩ := h.token.canonical h.lower
  obtain ⟨c, rest, hcons⟩ := List.exists_cons_of_ne_nil hne
  have hblank : isWhitespace c = false := (hchars c (by rw [hcons]; exact List.mem_cons_self)).2
  have hcolon : ':' ∉ canonicalHeaderName field.1 := fun hc => (hchars ':' hc).1 rfl
  have htext : writeHeader field = canonicalHeaderName field.1 ++ [':'] ++ ' ' :: field.2 := by
    unfold writeHeader
    simp
  have hhead : (writeHeader field).head? = some c := by
    rw [htext, hcons]
    rfl
  have hstart : ¬ (some c = some ' ' ∨ some c = some '\t') := by
    rintro (hc | hc)
    · cases hc
      revert hblank
      decide
    · cases hc
      revert hblank
      decide
  unfold Folding.line
  rw [if_neg (by intro hnil; rw [hnil] at hhead; cases hhead), hhead, if_neg hstart, htext, cut_of_not_mem hcolon]
  dsimp only [Option.map_some]
  rw [trim_of_forall fun c hc => (hchars c hc).2, trim_cons (by decide), h.value.trimmed]

theorem Field.pushFolded (h : Field field) :
    pushFolded msg (canonicalHeaderName field.1) field.2 = msg.pushHeader field.1 field.2 := by
  unfold Sip.pushFolded
  rw [asciiLower_canonicalHeaderName, h.lower, expandName_of_long h.token.long]
  dsimp only
  split
  · next hlist =>
    obtain ⟨hne, henclosed⟩ := h.value.single hlist
    rw [splitCommas_enclosed henclosed h.value.trimmed hne, List.foldl_cons, List.foldl_nil, h.value.trimmed]
  · rfl

/-- The header lines are read as the headers, one after the other. -/
theorem flush_lines (h : ∀ field ∈ fields, Field field) :
    Folding.flush ((fields.map writeHeader).foldl Folding.line st) =
      fields.foldl (fun msg field => msg.pushHeader field.1 field.2) st.flush := by
  induction fields generalizing st with
  | nil => rfl
  | cons field fields ih =>
    have hfield := h field List.mem_cons_self
    rw [List.map_cons, List.foldl_cons, ih fun f hf => h f (List.mem_cons_of_mem field hf), hfield.line, List.foldl_cons]
    congr 1
    exact hfield.pushFolded

theorem headers_pushHeader {key value : Chars} (hkey : asciiLower key = key) : (msg.pushHeader key value).headers name =
    msg.headers name ++ if key = asciiLower name then [value] else [] := by
  unfold SipMessage.headers SipMessage.pushHeader
  dsimp only
  rw [hkey, FinMap.getElem?_insert]
  by_cases hname : key = asciiLower name
  · rw [if_pos hname, if_pos hname, hname]
    rfl
  · rw [if_neg hname, if_neg hname, List.append_nil]

theorem headers_foldl (h : ∀ field ∈ fields, Field field) :
    (fields.foldl (fun msg field => msg.pushHeader field.1 field.2) msg).headers name =
      msg.headers name ++ (fields.filter (·.1 = asciiLower name)).map (·.2) := by
  induction fields generalizing msg with
  | nil => simp
  | cons field fields ih =>
    rw [List.foldl_cons, ih fun f hf => h f (List.mem_cons_of_mem field hf),
      headers_pushHeader (h field List.mem_cons_self).lower, List.append_assoc]
    by_cases hname : field.1 = asciiLower name
    · simp [hname]
    · simp [hname]

theorem start_foldl : (fields.foldl (fun msg field => msg.pushHeader field.1 field.2) msg).start = msg.start ∧
    (fields.foldl (fun msg field => msg.pushHeader field.1 field.2) msg).body = msg.body := by
  induction fields generalizing msg with
  | nil => exact ⟨rfl, rfl⟩
  | cons field fields ih => exact ih

/-- A header line is not empty and has no line end. -/
theorem Field.writeHeader (h : Field field) :
    writeHeader field ≠ [] ∧ '\r' ∉ writeHeader field ∧ '\n' ∉ writeHeader field := by
  obtain ⟨hne, hchars⟩ := h.token.canonical h.lower
  have hno : ∀ c, isWhitespace c = true → c ∉ canonicalHeaderName field.1 := by
    intro c hc hmem
    rw [(hchars c hmem).2] at hc
    cases hc
  unfold Sip.writeHeader
  refine ⟨by simp [hne], ?_, ?_⟩
  · intro hmem
    rcases List.mem_append.mp hmem with hmem | hmem
    · rcases List.mem_append.mp hmem with hmem | hmem
      · exact hno _ (by decide) hmem
      · revert hmem
        decide
    · exact h.value.line.1 hmem
  · intro hmem
    rcases List.mem_append.mp hmem with hmem | hmem
    · rcases List.mem_append.mp hmem with hmem | hmem
      · exact hno _ (by decide) hmem
      · revert hmem
        decide
    · exact h.value.line.2 hmem

theorem not_whitespace_of_isDigit {c : Char} (h : c.isDigit = true) : isWhitespace c = false := by
  unfold Char.isDigit at h
  simp only [ge_iff_le, Bool.and_eq_true, decide_eq_true_eq, UInt32.le_iff_toNat_le] at h
  obtain ⟨hlow, hhigh⟩ := h
  have hlow : 48 ≤ c.val.toNat := hlow
  have hhigh : c.val.toNat ≤ 57 := hhigh
  unfold isWhitespace
  simp only [Bool.or_eq_false_iff, Bool.and_eq_false_iff, decide_eq_false_iff_not]
  omega

/-- The length of a body is a header as any other. -/
theorem field_contentLength (n : ℕ) : Field (contentLength, decimal n) := by
  have hlower : asciiLower contentLength = contentLength := by decide
  have hne : contentLength ≠ [] := by decide
  have hchars : ∀ c ∈ contentLength, c ≠ ':' ∧ isWhitespace c = false := List.all_iff_forall_prop.mp (by decide)
  have hlong : contentLength ∉ compactNames := by decide
  have hlist : isList contentLength = false := by decide
  refine ⟨hlower, ⟨hne, hchars, hlong⟩, ?_, ?_, ?_⟩
  · exact trim_of_forall fun c hc => not_whitespace_of_isDigit (isDigit_of_mem_decimal hc)
  · constructor
    · intro hc
      have hdigit := isDigit_of_mem_decimal hc
      revert hdigit
      decide
    · intro hc
      have hdigit := isDigit_of_mem_decimal hc
      revert hdigit
      decide
  · intro h
    rw [hlist] at h
    cases h

end Fields

/-! ## The start line -/

def Method.Standard (method : Method) : Prop := ∀ s, method ≠ .other s

/-- A start line that is written and read as it is. -/
def StartLine.WellFormed : StartLine → Prop
  | request method uri => method.Standard ∧ uri ≠ [] ∧ ∀ c ∈ uri, isWhitespace c = false
  | status _ reason => trim isWhitespace reason = reason ∧ '\r' ∉ reason ∧ '\n' ∉ reason

section Start

variable {start : StartLine} {method : Method} {uri reason : Chars} {code : UInt16}

theorem write_request : (StartLine.request method uri).write =
    method.asStr ++ " ".toList ++ uri ++ " SIP/2.0".toList := rfl

theorem write_status : (StartLine.status code reason).write =
    "SIP/2.0 ".toList ++ decimal code.toNat ++ " ".toList ++ reason := rfl

theorem Method.Standard.parse (h : method.Standard) : Method.parse method.asStr = method := by
  cases method with
  | other s => exact absurd rfl (h s)
  | _ => decide

theorem Method.Standard.asStr (h : method.Standard) : method.asStr ≠ [] ∧
    (∀ c ∈ method.asStr, isWhitespace c = false) ∧ ∀ rest, "SIP/2.0 ".toList.isPrefixOf (method.asStr ++ ' ' :: rest) = false := by
  cases method with
  | other s => exact absurd rfl (h s)
  | _ => exact ⟨by decide, List.all_iff_forall_prop.mp (by decide), fun rest => rfl⟩

theorem parse_request (hmethod : method.Standard) (hne : uri ≠ []) (huri : ∀ c ∈ uri, isWhitespace c = false) :
    parseStartLine (trimEnd isWhitespace (StartLine.request method uri).write) = some (.request method uri) := by
  obtain ⟨hmne, hmblank, hmpre⟩ := hmethod.asStr
  have hversion : ∀ c ∈ "SIP/2.0".toList, isWhitespace c = false := List.all_iff_forall_prop.mp (by decide)
  have hsip : trimEnd isWhitespace "SIP/2.0".toList = "SIP/2.0".toList := trimEnd_of_forall hversion
  have hblank : " SIP/2.0".toList = ' ' :: "SIP/2.0".toList := by decide
  have htext : (StartLine.request method uri).write = method.asStr ++ ' ' :: (uri ++ ' ' :: "SIP/2.0".toList) := by
    rw [write_request, hblank, List.append_assoc, List.append_assoc]
    rfl
  have htrim : trimEnd isWhitespace (StartLine.request method uri).write = (StartLine.request method uri).write := by
    have hsplit : (StartLine.request method uri).write = (method.asStr ++ ' ' :: (uri ++ [' '])) ++ "SIP/2.0".toList := by
      rw [htext]
      simp only [List.append_assoc, List.cons_append, List.nil_append]
    rw [hsplit, trimEnd_append (by decide) hsip]
  rw [htrim, htext]
  unfold parseStartLine
  rw [if_neg (by rw [hmpre]; exact Bool.false_ne_true), words_append hmblank hmne (by decide), words_append huri hne (by decide),
    words_single hversion (by decide)]
  show (if _ then some (StartLine.request (Method.parse method.asStr) uri) else none) = _
  rw [hmethod.parse]
  exact if_pos (by decide)

theorem parse_status (h : trim isWhitespace reason = reason) :
    parseStartLine (trimEnd isWhitespace (StartLine.status code reason).write) = some (.status code reason) := by
  have hdigits : ' ' ∉ decimal code.toNat := by
    intro hc
    have hdigit := isDigit_of_mem_decimal hc
    revert hdigit
    decide
  have hcode : parseUnsigned UInt16.size (decimal code.toNat) = some code.toNat := by
    rw [parseUnsigned_decimal, if_pos (UInt16.toNat_lt_size code)]
  -- An empty reason loses its blank with the line end, and is read as empty.
  have hread : ∀ rest : Chars, (cut [' '] rest).getD (rest, []) = (decimal code.toNat, reason) →
      parseStartLine ("SIP/2.0 ".toList ++ rest) = some (.status code reason) := by
    intro rest hrest
    unfold parseStartLine
    rw [if_pos (List.isPrefixOf_iff_prefix.mpr (List.prefix_append ..))]
    show (parseUnsigned UInt16.size ((cut [' '] rest).getD (rest, [])).1).map
      (fun n => StartLine.status (UInt16.ofNat n) ((cut [' '] rest).getD (rest, [])).2) = _
    rw [hrest, hcode, Option.map_some, UInt16.ofNat_toNat]
  by_cases hne : reason = []
  · subst hne
    have htext : (StartLine.status code []).write = ("SIP/2.0 ".toList ++ decimal code.toNat) ++ [' '] :=
      List.append_nil _
    have hblank : trimEnd isWhitespace (decimal code.toNat) = decimal code.toNat :=
      trimEnd_of_forall fun c hc => not_whitespace_of_isDigit (isDigit_of_mem_decimal hc)
    rw [htext, trimEnd_concat (by decide), trimEnd_append decimal_ne_nil hblank]
    apply hread
    rw [cut_none hdigits]
    rfl
  · have htext : (StartLine.status code reason).write = ("SIP/2.0 ".toList ++ (decimal code.toNat ++ [' '])) ++ reason :=
      congrArg (· ++ reason) (List.append_assoc ..)
    rw [htext, trimEnd_append hne (trimEnd_of_trim h), List.append_assoc]
    apply hread
    rw [cut_of_not_mem hdigits]
    rfl

theorem StartLine.WellFormed.parse (h : start.WellFormed) :
    parseStartLine (trimEnd isWhitespace start.write) = some start := by
  cases start with
  | request method uri => exact parse_request h.1 h.2.1 h.2.2
  | status code reason => exact parse_status h.1

/-- A line end in a start line is one of its reason. -/
theorem StartLine.WellFormed.not_mem_write {c : Char} (h : start.WellFormed) (hc : isWhitespace c = true)
    (hblank : c ≠ ' ') (hreason : ∀ code reason, start = .status code reason → c ∉ reason) : c ∉ start.write := by
  have hone : c ∉ " ".toList := by simpa using hblank
  have hversion : c ∉ "SIP/2.0".toList := by
    intro hmem
    have hnone : ∀ c ∈ "SIP/2.0".toList, isWhitespace c = false := List.all_iff_forall_prop.mp (by decide)
    rw [hnone c hmem] at hc
    cases hc
  cases start with
  | request method uri =>
    have hlast : c ∉ " SIP/2.0".toList := fun hmem => by
      rcases List.mem_append.mp (show c ∈ " ".toList ++ "SIP/2.0".toList from hmem) with hmem | hmem
      · exact hone hmem
      · exact hversion hmem
    have hmethod : c ∉ method.asStr := by
      intro hmem
      rw [h.1.asStr.2.1 c hmem] at hc
      cases hc
    have huri : c ∉ uri := by
      intro hmem
      rw [h.2.2 c hmem] at hc
      cases hc
    rw [write_request, List.mem_append, List.mem_append, List.mem_append]
    rintro (((hmem | hmem) | hmem) | hmem)
    · exact hmethod hmem
    · exact hone hmem
    · exact huri hmem
    · exact hlast hmem
  | status code reason =>
    have hfirst : c ∉ "SIP/2.0 ".toList := fun hmem => by
      rcases List.mem_append.mp (show c ∈ "SIP/2.0".toList ++ " ".toList from hmem) with hmem | hmem
      · exact hversion hmem
      · exact hone hmem
    have hdigits : c ∉ decimal code.toNat := by
      intro hmem
      rw [not_whitespace_of_isDigit (isDigit_of_mem_decimal hmem)] at hc
      cases hc
    rw [write_status, List.mem_append, List.mem_append, List.mem_append]
    rintro (((hmem | hmem) | hmem) | hmem)
    · exact hfirst hmem
    · exact hdigits hmem
    · exact hone hmem
    · exact hreason code reason rfl hmem

/-- A start line is not empty and has no line end. -/
theorem StartLine.WellFormed.write (h : start.WellFormed) :
    start.write ≠ [] ∧ '\r' ∉ start.write ∧ '\n' ∉ start.write := by
  refine ⟨?_, ?_, ?_⟩
  · intro hnil
    have hparse := h.parse
    rw [hnil] at hparse
    cases hparse
  · refine h.not_mem_write (by decide) (by decide) ?_
    rintro code reason rfl
    exact h.2.1
  · refine h.not_mem_write (by decide) (by decide) ?_
    rintro code reason rfl
    exact h.2.2

end Start

/-! ## The whole message -/

/-- A header of a message that is to come back. -/
structure Kept (key v : Chars) : Prop where
  token : Token key
  other : key ≠ contentLength
  plain : Plain key v

instance (key v : Chars) : Decidable (Kept key v) :=
  decidable_of_iff (Token key ∧ key ≠ contentLength ∧ Plain key v)
    ⟨fun h => ⟨h.1, h.2.1, h.2.2⟩, fun h => ⟨h.token, h.other, h.plain⟩⟩

section Whole

variable {m : SipMessage} {start : StartLine} {ops : List HeaderOp} {text rest : Chars} {lines : List Chars}
  {fields : List (Chars × Chars)}

theorem fromUtf8Lossy_textBytes : (fromUtf8Lossy (textBytes text)).toList = text := by
  have hbytes : textBytes text = utf8Bytes (String.ofList text) := by
    unfold textBytes utf8Bytes
    rw [String.toList_ofList]
  rw [hbytes, fromUtf8Lossy_utf8Bytes, String.toList_ofList]

/-- The lines of a message: its start, the headers and the length of its body. -/
def messageLines (m : SipMessage) : List Chars :=
  m.start.write :: (emit m.map ∅ m.order ++ [(contentLength, decimal m.body.length)]).map writeHeader

theorem toBytes_eq (hbody : m.body = textBytes text) (hother : ∀ field ∈ emit m.map ∅ m.order, field.1 ≠ contentLength) :
    m.toBytes = textBytes ((messageLines m).flatMap (· ++ crlf) ++ crlf ++ text) := by
  have hnone : (emit m.map ∅ m.order).any (·.1 = contentLength) = false := by
    rw [List.any_eq_false]
    intro field hfield
    simpa using hother field hfield
  have hname : canonicalHeaderName contentLength = "Content-Length".toList := by decide
  have hlabel : "Content-Length: ".toList = "Content-Length".toList ++ ": ".toList := by decide
  have hlength : writeHeader (contentLength, decimal m.body.length) = "Content-Length: ".toList ++ decimal m.body.length := by
    unfold writeHeader
    rw [hname, hlabel]
  have happend : ∀ t u : Chars, textBytes (t ++ u) = textBytes t ++ textBytes u := fun t u => List.flatMap_append
  unfold SipMessage.toBytes messageLines
  dsimp only
  rw [hnone, happend _ text, ← hbody, if_neg Bool.false_ne_true, List.flatMap_cons, List.map_append, List.flatMap_append,
    List.map_singleton, List.flatMap_singleton, List.flatMap_map, hlength]
  simp only [List.append_assoc]

/-- The head of a message is cut into its lines again. -/
theorem splitHeadBody_lines (hne : lines ≠ []) (h : ∀ line ∈ lines, line ≠ [] ∧ '\r' ∉ line ∧ '\n' ∉ line) :
    splitHeadBody (lines.flatMap (· ++ crlf) ++ crlf ++ rest) = (crlf.intercalate lines, rest) ∧
    (splitPair '\r' '\n' (crlf.intercalate lines)).flatMap (List.splitOn '\n') = lines := by
  constructor
  · unfold splitHeadBody
    rw [show crlf ++ crlf = ['\r', '\n', '\r', '\n'] from rfl]
    unfold crlf
    rw [cut_lines (by decide) hne fun line hline => ⟨(h line hline).1, (h line hline).2.1⟩]
    rfl
  · unfold crlf
    rw [splitPair_intercalate hne fun line hline => (h line hline).2.1]
    have hline : ∀ line ∈ lines, List.splitOn '\n' line = [line] := by
      intro line hline
      have heq := @List.splitOn_intercalate _ [line] _ _ '\n' (by simpa using (h line hline).2.2) (by simp)
      simpa using heq
    rw [List.flatMap_congr hline]
    simp

/-- A body that has the length it is said to have is left as it is. -/
def truncated (msg : SipMessage) : SipMessage :=
  match (msg.header contentLength).bind fun s => parseUnsigned UInt64.size (trim isWhitespace s) with
  | some cl => if cl < msg.body.length then { msg with body := msg.body.take cl } else msg
  | none => msg

theorem truncated_of_length {msg : SipMessage} (h : msg.header contentLength = some (decimal msg.body.length)) :
    truncated msg = msg := by
  have htrim : trim isWhitespace (decimal msg.body.length) = decimal msg.body.length :=
    trim_of_forall fun c hc => not_whitespace_of_isDigit (isDigit_of_mem_decimal hc)
  unfold truncated
  rw [h, Option.bind_some, htrim, parseUnsigned_decimal]
  by_cases hsize : msg.body.length < UInt64.size
  · rw [if_pos hsize]
    exact if_neg (Nat.lt_irrefl _)
  · rw [if_neg hsize]

/-- Reading the lines of a message one after the other. -/
theorem parse_lines {first : Chars} (h : ∀ line ∈ first :: lines, line ≠ [] ∧ '\r' ∉ line ∧ '\n' ∉ line) :
    parse (textBytes ((first :: lines).flatMap (· ++ crlf) ++ crlf ++ text)) =
      (parseStartLine (trimEnd isWhitespace first)).map fun start =>
        truncated (Folding.flush (lines.foldl Folding.line ({ start, body := textBytes text }, none))) := by
  obtain ⟨hsplit, hcut⟩ := @splitHeadBody_lines text (first :: lines) (List.cons_ne_nil _ _) h
  unfold parse
  rw [fromUtf8Lossy_textBytes]
  dsimp only
  rw [hsplit]
  dsimp only
  rw [hcut]
  rfl

theorem start_built : (built start ops (textBytes text)).start = start := by
  have hall : ∀ m : SipMessage, (ops.foldl HeaderOp.apply m).start = m.start := by
    induction ops with
    | nil => exact fun m => rfl
    | cons op ops ih =>
      intro m
      refine (ih _).trans ?_
      cases op <;> rfl
  exact hall _

/-- A message that is read back has every header with its values in their order, the length of
its body, and its body. -/
theorem parse_toBytes (hstart : start.WellFormed)
    (hheaders : ∀ (key : Chars) (values : List Chars) (v : Chars),
      (built start ops (textBytes text)).map[key]? = some values → v ∈ values → Kept key v) :
    ∃ m', parse (built start ops (textBytes text)).toBytes = some m' ∧ m'.start = start ∧
      (∀ name, asciiLower name ≠ contentLength → m'.headers name = (built start ops (textBytes text)).headers name) ∧
      m'.headers contentLength = [decimal (textBytes text).length] ∧ m'.body = textBytes text := by
  obtain ⟨m, hm⟩ : ∃ m, m = built start ops (textBytes text) := ⟨_, rfl⟩
  have hcounted : Counted m := by
    rw [hm]
    exact counted_built
  have hmstart : m.start = start := by
    rw [hm]
    exact start_built
  have hbody : m.body = textBytes text := by
    rw [hm]
    rfl
  rw [← hm] at hheaders ⊢
  have hkept : ∀ field ∈ emit m.map ∅ m.order, Field field ∧ field.1 ≠ contentLength := by
    rintro ⟨key, v⟩ hfield
    obtain ⟨hkey, values, hvalues, hv⟩ := mem_emit ∅ hfield
    obtain ⟨htoken, hother, hplain⟩ := hheaders key values v hvalues hv
    exact ⟨⟨hcounted.lower key hkey, htoken, hplain⟩, hother⟩
  have hfields : ∀ field ∈ emit m.map ∅ m.order ++ [(contentLength, decimal m.body.length)], Field field := by
    intro field hfield
    rcases List.mem_append.mp hfield with hfield | hfield
    · exact (hkept field hfield).1
    · rw [List.mem_singleton.mp hfield]
      exact field_contentLength _
  have hlines : ∀ line ∈ messageLines m, line ≠ [] ∧ '\r' ∉ line ∧ '\n' ∉ line := by
    intro line hline
    rcases List.mem_cons.mp hline with rfl | hline
    · rw [hmstart]
      exact hstart.write
    · obtain ⟨field, hfield, rfl⟩ := List.mem_map.mp hline
      exact (hfields field hfield).writeHeader
  have hparse := @parse_lines text _ _ hlines
  have hflush := @flush_lines _ ({ start, body := textBytes text }, none) hfields
  rw [toBytes_eq hbody fun field hfield => (hkept field hfield).2]
  generalize hfinal : (emit m.map ∅ m.order ++ [(contentLength, decimal m.body.length)]).foldl
    (fun msg field => msg.pushHeader field.1 field.2) (Folding.flush ({ start, body := textBytes text }, none)) = final
    at hflush
  have hread : ∀ name, final.headers name =
      ((emit m.map ∅ m.order ++ [(contentLength, decimal m.body.length)]).filter (·.1 = asciiLower name)).map (·.2) := by
    intro name
    rw [← hfinal, headers_foldl hfields]
    rfl
  have hsame : final.start = start ∧ final.body = textBytes text := by
    rw [← hfinal]
    exact start_foldl
  have hlength : final.headers contentLength = [decimal (textBytes text).length] := by
    have hlower : asciiLower contentLength = contentLength := by decide
    have hnone : (emit m.map ∅ m.order).filter (·.1 = contentLength) = [] := by
      rw [List.filter_eq_nil_iff]
      intro field hfield
      simpa using (hkept field hfield).2
    rw [hread, hlower, List.filter_append, hnone, hbody]
    simp
  have hothers : ∀ name, asciiLower name ≠ contentLength → final.headers name = m.headers name := by
    intro name hname
    have hnone : [(contentLength, decimal m.body.length)].filter (·.1 = asciiLower name) = [] := by
      simp [Ne.symm hname]
    rw [hread, List.filter_append, hnone, List.append_nil, hcounted.emit_values]
    rfl
  have hheader : final.header contentLength = some (decimal final.body.length) := by
    unfold SipMessage.header
    rw [hlength, hsame.2]
    rfl
  refine ⟨final, ?_, hsame.1, hothers, hlength, hsame.2⟩
  unfold messageLines
  rw [hparse, hmstart, hstart.parse, Option.map_some, hflush, truncated_of_length hheader]

end Whole

/-- A call with two hops, one with a quoted comma, and a header that is set twice. -/
def sampleOps : List HeaderOp :=
  [.push "Via".toList "SIP/2.0/UDP a;x=\"1,2\"".toList, .set "Call-ID".toList "1".toList,
    .push "VIA".toList "SIP/2.0/UDP b".toList, .set "call-id".toList "2".toList, .push "X-Note".toList []]

def sample : SipMessage :=
  built (.request .invite "sip:bob@host".toList) sampleOps (textBytes "v=0\r\n\r\nh\u00e9".toList)

theorem kept_sample (key : Chars) (values : List Chars) (v : Chars) (h : sample.map[key]? = some values) (hv : v ∈ values) :
    Kept key v := by
  have hall : ∀ e ∈ sample.map.toList, ∀ v ∈ e.2, Kept e.1 v := by decide +kernel
  exact hall (key, values) (FinMap.mem_toList.mpr h) v hv

theorem parse_toBytes_sample : ∃ m', parse sample.toBytes = some m' ∧
    m'.start = .request .invite "sip:bob@host".toList ∧
    m'.headers "via".toList = ["SIP/2.0/UDP a;x=\"1,2\"".toList, "SIP/2.0/UDP b".toList] ∧
    m'.headers "CALL-ID".toList = ["2".toList] ∧ m'.headers "x-note".toList = [[]] ∧
    m'.headers contentLength = ["10".toList] ∧ m'.body = textBytes "v=0\r\n\r\nh\u00e9".toList := by
  have hstart : (StartLine.request .invite "sip:bob@host".toList).WellFormed :=
    ⟨fun s hs => (by cases hs), by decide, List.all_iff_forall_prop.mp (by decide)⟩
  obtain ⟨m', hparse, hsame, hheaders, hlength, hbody⟩ :=
    @parse_toBytes (.request .invite "sip:bob@host".toList) sampleOps "v=0\r\n\r\nh\u00e9".toList hstart kept_sample
  refine ⟨m', hparse, hsame, ?_, ?_, ?_, ?_, hbody⟩
  · rw [hheaders _ (by decide)]
    decide +kernel
  · rw [hheaders _ (by decide)]
    decide +kernel
  · rw [hheaders _ (by decide)]
    decide +kernel
  · rw [hlength]
    decide +kernel

end BrewServer.Sip
