import Mathlib.Data.Bool.AllAny
import BrewServer.Auth.Login
import BrewServer.Lib.Text

/-!
# The answer to a challenge

One server writes a challenge, the other one takes it apart, writes an answer, and the
first takes that apart again. The client splits at commas outside quotes, the server at
every comma.
-/

namespace BrewServer.Auth

open Chars

/-! ## Texts -/

/-- Each byte by its two digits. -/
def hexText (bs : Bytes) : Chars := bs.flatMap fun b => [Nat.digitChar (b.toNat / 16), Nat.digitChar (b.toNat % 16)]

/-- The sum of a text as it is written; what MD5 computes is left open. -/
def md5Hex (md5 : String → Vector UInt8 16) (input : String) : String := String.ofList (hexText (md5 input).toList)

/-- A UUID as it is written for a nonce. -/
def simple (u : Uuid) : String := String.ofList (hexText u.asBytes)

def isQuote (c : Char) : Bool := c == '"'

/-- What a header's text may hold. -/
def isVisible (c : Char) : Bool := (32 ≤ c.val.toNat && c.val.toNat ≤ 126) || c.val.toNat = 9

def stripDigest (t : Chars) : Chars := if "Digest ".toList.isPrefixOf t then t.drop 7 else t

/-- Adds one parameter, if it has an equals sign. -/
def insertParam (out : FinMap String String) (part : Chars) : FinMap String String :=
  match cut ['='] part with
  | some (k, v) =>
    out.insert (String.ofList (asciiLower (trim isWhitespace k))) (String.ofList (trim isQuote (trim isWhitespace v)))
  | none => out

/-! ## The server -/

def digestChallenge (md5 : String → Vector UInt8 16) (realm nonce : String) : Chars :=
  "Digest realm=\"".toList ++ realm.toList ++ "\", nonce=\"".toList ++ nonce.toList ++
    "\", qop=\"auth\", opaque=\"".toList ++ (md5Hex md5 (realm ++ ":brew")).toList ++ "\"".toList

def parseDigest (headerValue : Chars) : FinMap String String :=
  ((stripDigest (trim isWhitespace headerValue)).splitOn ',').foldl
    (fun out part => insertParam out (trim isWhitespace part)) ∅

/-- The parameters of an `Authorization` header that `verify_digest` goes on with. -/
def authorizationParams (value : Chars) : Option (FinMap String String) :=
  if value.all isVisible && "Digest ".toList.isPrefixOf value then some (parseDigest value) else none

/-! ## The client -/

/-- The pieces between the commas that stand outside quotes, from the text that is left and
the piece so far. -/
def splitUnquoted : Bool → Chars → Chars → List Chars
  | _, cur, [] => if trim isWhitespace cur = [] then [] else [cur]
  | inQuotes, cur, c :: cs =>
    if isQuote c then splitUnquoted (!inQuotes) (cur ++ [c]) cs
    else if c = ',' ∧ inQuotes = false then cur :: splitUnquoted inQuotes [] cs
    else splitUnquoted inQuotes (cur ++ [c]) cs

def parseParams (header : Chars) : FinMap String String :=
  (splitUnquoted false [] (stripDigest (trim isWhitespace header))).foldl insertParam ∅

/-- Whether a quality of protection offers plain authentication. -/
def offersAuth (qop : String) : Bool := decide ("auth".toList <:+: qop.toList)

def computeResponse (md5 : String → Vector UInt8 16) (username password realm method uri nonce : String)
    (qop nc cnonce : Option String) : String :=
  let ha1 := md5Hex md5 (join [username, realm, password])
  let ha2 := md5Hex md5 (join [method, uri])
  match qop, nc, cnonce with
  | some q, some nc, some cnonce =>
    if offersAuth q then md5Hex md5 (join [ha1, nonce, nc, cnonce, "auth", ha2])
    else md5Hex md5 (join [ha1, nonce, ha2])
  | _, _, _ => md5Hex md5 (join [ha1, nonce, ha2])

def buildAuthorization (md5 : String → Vector UInt8 16) (challenge : FinMap String String)
    (username password method uri cnonce : String) (nc : UInt32) : Chars :=
  let realm := (challenge["realm"]?).getD ""
  let nonce := (challenge["nonce"]?).getD ""
  let echo := challenge["opaque"]?
  let qop := challenge["qop"]?
  let ncStr := String.ofList (hexText (toLe 4 nc.toNat).reverse)
  let response := computeResponse md5 username password realm method uri nonce qop (some ncStr) (some cnonce)
  let out := "Digest username=\"".toList ++ username.toList ++ "\", realm=\"".toList ++ realm.toList ++
    "\", nonce=\"".toList ++ nonce.toList ++ "\", uri=\"".toList ++ uri.toList ++ "\", response=\"".toList ++
    response.toList ++ "\", algorithm=MD5".toList
  let out := out ++ (qop.elim [] fun q =>
    if offersAuth q then
      ", qop=auth, nc=".toList ++ ncStr.toList ++ ", cnonce=\"".toList ++ cnonce.toList ++ "\"".toList
    else [])
  out ++ (echo.elim [] fun o => ", opaque=\"".toList ++ o.toList ++ "\"".toList)

/-! ## Parameters -/

/-- A value in quotes. -/
def quoted (v : Chars) : Chars := '"' :: (v ++ ['"'])

/-- A parameter's text. -/
def param (name v : Chars) : Chars := name ++ '=' :: quoted v

/-- A parameter's name: letters in lower case. -/
def IsName (name : Chars) : Prop := name ≠ [] ∧ ∀ c ∈ name, c.isLower = true

instance (name : Chars) : Decidable (IsName name) :=
  @instDecidableAnd _ _ inferInstance
    (@List.decidableBAll _ _ (fun c : Char => inferInstanceAs (Decidable (c.isLower = true))) name)

section Params

variable {out : FinMap String String} {name v : Chars}

theorem not_isWhitespace_of_isLower {c : Char} (h : c.isLower = true) : isWhitespace c = false := by
  unfold Char.isLower at h
  simp only [Bool.and_eq_true, decide_eq_true_eq, ge_iff_le, UInt32.le_iff_toNat_le] at h
  obtain ⟨h1, h2⟩ := h
  have h1 : 97 ≤ c.val.toNat := h1
  have h2 : c.val.toNat ≤ 122 := h2
  unfold isWhitespace
  simp only [Bool.or_eq_false_iff, Bool.and_eq_false_iff, decide_eq_false_iff_not]
  omega

theorem toLower_of_isLower {c : Char} (h : c.isLower = true) : c.toLower = c := by
  unfold Char.isLower at h
  simp only [Bool.and_eq_true, decide_eq_true_eq, ge_iff_le, UInt32.le_iff_toNat_le] at h
  have h1 : 97 ≤ c.val.toNat := h.1
  unfold Char.toLower
  apply dif_neg
  rw [UInt32.le_iff_toNat_le, ge_iff_le, UInt32.le_iff_toNat_le]
  show ¬ (65 ≤ c.val.toNat ∧ c.val.toNat ≤ 90)
  omega

theorem IsName.trim (h : IsName name) : trim isWhitespace name = name :=
  trim_of_forall fun c hc => not_isWhitespace_of_isLower (h.2 c hc)

theorem IsName.asciiLower (h : IsName name) : asciiLower name = name := by
  unfold Chars.asciiLower
  conv_rhs => rw [← List.map_id name]
  exact List.map_congr_left fun c hc => toLower_of_isLower (h.2 c hc)

theorem IsName.not_mem (h : IsName name) {c : Char} (hc : c.isLower = false) : c ∉ name := by
  intro hmem
  rw [h.2 c hmem] at hc
  cases hc

/-- Quotes around a value are taken off. -/
theorem trim_quoted (v : Chars) : trim isQuote (quoted v) = trim isQuote v := by
  have hq : isQuote '"' = true := rfl
  rw [quoted, trim_cons hq, trim_concat hq]

theorem trim_whitespace_quoted (v : Chars) : trim isWhitespace (quoted v) = quoted v :=
  trim_of_ends (by decide) (by decide)

theorem insertParam_eq (h : '=' ∉ name) :
    insertParam out (name ++ '=' :: v) =
      out.insert (String.ofList (asciiLower (trim isWhitespace name)))
        (String.ofList (trim isQuote (trim isWhitespace v))) := by
  have hcut : cut ['='] (name ++ '=' :: v) = some (name, v) := by
    have h' : cut ['='] (name ++ ['='] ++ v) = some (name, v) := cut_of_not_mem h
    rwa [List.append_assoc, List.singleton_append] at h'
  rw [insertParam, hcut]

/-- A parameter without quotes. -/
theorem insertParam_bare (h : IsName name) :
    insertParam out (name ++ '=' :: v) =
      out.insert (String.ofList name) (String.ofList (trim isQuote (trim isWhitespace v))) := by
  rw [insertParam_eq (h.not_mem (by decide)), h.trim, h.asciiLower]

/-- A parameter is read back, but for quotes at the ends of its value. -/
theorem insertParam_param (h : IsName name) :
    insertParam out (param name v) = out.insert (String.ofList name) (String.ofList (trim isQuote v)) := by
  rw [param, insertParam_eq (h.not_mem (by decide)), trim_whitespace_quoted, trim_quoted, h.trim, h.asciiLower]

/-- The client leaves the blank behind a comma to the name. -/
theorem insertParam_blank_param (h : IsName name) :
    insertParam out (' ' :: param name v) = out.insert (String.ofList name) (String.ofList (trim isQuote v)) := by
  have hcons : ' ' :: param name v = (' ' :: name) ++ '=' :: quoted v := rfl
  have hnot : '=' ∉ ' ' :: name := by
    intro hmem
    rcases List.mem_cons.mp hmem with heq | hmem
    · revert heq
      decide
    · exact h.not_mem (by decide) hmem
  rw [hcons, insertParam_eq hnot, trim_whitespace_quoted, trim_quoted, trim_cons (by decide), h.trim, h.asciiLower]

/-- The server takes the blank off first. -/
theorem trim_param (h : IsName name) : trim isWhitespace (param name v) = param name v := by
  obtain ⟨c, cs, rfl⟩ := List.exists_cons_of_ne_nil h.1
  have hshape : param (c :: cs) v = c :: ((cs ++ '=' :: '"' :: v) ++ ['"']) := by simp [param, quoted]
  rw [hshape]
  exact trim_of_ends (not_isWhitespace_of_isLower (h.2 c List.mem_cons_self)) (by decide)

theorem trim_blank_param (h : IsName name) : trim isWhitespace (' ' :: param name v) = param name v := by
  rw [trim_cons (by decide), trim_param h]

theorem trim_param_ne_nil (h : IsName name) : trim isWhitespace (param name v) ≠ [] := by
  rw [trim_param h, param]
  simp

theorem trim_blank_param_ne_nil (h : IsName name) : trim isWhitespace (' ' :: param name v) ≠ [] := by
  rw [trim_blank_param h, param]
  simp

/-- A server that splits at every comma reads no value with a comma in it, and none with a
quote at its ends. -/
def Plain (m : FinMap String String) : Prop :=
  ∀ (k v : String), m[k]? = some v → ',' ∉ v.toList ∧ trim isQuote v.toList = v.toList

theorem Plain.insertParam (h : Plain out) {part : Chars} (hp : ',' ∉ part) : Plain (insertParam out part) := by
  unfold Auth.insertParam
  cases hcut : cut ['='] part with
  | none => exact h
  | some r =>
    obtain ⟨k, v⟩ := r
    intro k' v' hv'
    dsimp only at hv'
    rw [FinMap.getElem?_insert] at hv'
    split at hv'
    · cases hv'
      rw [String.toList_ofList]
      constructor
      · intro hcomma
        exact hp (mem_of_cut hcut (mem_of_mem_trim (mem_of_mem_trim hcomma)))
      · exact trim_trim _
    · exact h k' v' hv'

/-- Whatever the header, the server's parameters are plain. -/
theorem plain_parseDigest (headerValue : Chars) : Plain (parseDigest headerValue) := by
  have hfold : ∀ (parts : List Chars) (out : FinMap String String), Plain out → (∀ part ∈ parts, ',' ∉ part) →
      Plain (parts.foldl (fun out part => insertParam out (trim isWhitespace part)) out) := by
    intro parts
    induction parts with
    | nil => exact fun out h _ => h
    | cons part parts ih =>
      intro out h hparts
      rw [List.foldl_cons]
      apply ih
      · exact h.insertParam fun hc => hparts part List.mem_cons_self (mem_of_mem_trim hc)
      · exact fun p hp => hparts p (List.mem_cons_of_mem part hp)
  apply hfold
  · intro k v h
    simp at h
  · intro part hpart hcomma
    exact not_mem_of_mem_splitOn hpart hcomma

end Params

/-! ## The client's splitter -/

/-- A piece that the splitter passes over: its commas stand in quotes, and its quotes are
closed. -/
def Whole (part : Chars) : Prop :=
  ∀ cur rest, splitUnquoted false cur (part ++ rest) = splitUnquoted false (cur ++ part) rest

section Split

variable {inQuotes : Bool} {cur part rest name v : Chars} {parts : List Chars}

theorem splitUnquoted_comma : splitUnquoted false cur (',' :: rest) = cur :: splitUnquoted false [] rest := rfl

theorem splitUnquoted_quote :
    splitUnquoted inQuotes cur ('"' :: rest) = splitUnquoted (!inQuotes) (cur ++ ['"']) rest := rfl

theorem splitUnquoted_append (hquote : ∀ c ∈ part, isQuote c = false) (hcomma : inQuotes = false → ',' ∉ part) :
    splitUnquoted inQuotes cur (part ++ rest) = splitUnquoted inQuotes (cur ++ part) rest := by
  induction part generalizing cur with
  | nil => rw [List.nil_append, List.append_nil]
  | cons c cs ih =>
    have hplain : ¬ (c = ',' ∧ inQuotes = false) := by
      rintro ⟨rfl, hout⟩
      exact hcomma hout List.mem_cons_self
    rw [List.cons_append, splitUnquoted, if_neg (by simp [hquote c List.mem_cons_self]), if_neg hplain,
      ih (fun d hd => hquote d (List.mem_cons_of_mem c hd)) fun hout hmem => hcomma hout (List.mem_cons_of_mem c hmem)]
    rw [List.append_assoc]
    rfl

theorem whole_of_forall (hquote : ∀ c ∈ part, isQuote c = false) (hcomma : ',' ∉ part) : Whole part :=
  fun _ _ => splitUnquoted_append hquote fun _ => hcomma

theorem Whole.append {part' : Chars} (h : Whole part) (h' : Whole part') : Whole (part ++ part') := by
  intro cur rest
  rw [List.append_assoc, h, h', List.append_assoc]

theorem whole_quoted (hquote : ∀ c ∈ v, isQuote c = false) : Whole (quoted v) := by
  intro cur rest
  have hshape : quoted v ++ rest = '"' :: (v ++ ('"' :: rest)) := by simp [quoted]
  rw [hshape, splitUnquoted_quote, Bool.not_false, splitUnquoted_append hquote (by simp), splitUnquoted_quote,
    Bool.not_true]
  simp [quoted]

theorem whole_param (h : IsName name) (hquote : ∀ c ∈ v, isQuote c = false) : Whole (param name v) := by
  have hshape : param name v = (name ++ ['=']) ++ quoted v := by simp [param]
  rw [hshape]
  apply Whole.append
  · apply whole_of_forall
    · intro c hc
      rcases List.mem_append.mp hc with hc | hc
      · have hlower := h.2 c hc
        cases hq : isQuote c with
        | false => rfl
        | true =>
          rw [eq_of_beq hq] at hlower
          revert hlower
          decide
      · rw [List.mem_singleton.mp hc]
        rfl
    · intro hc
      rcases List.mem_append.mp hc with hc | hc
      · exact h.not_mem (by decide) hc
      · revert hc
        decide
  · exact whole_quoted hquote

theorem whole_blank (h : Whole part) : Whole (' ' :: part) :=
  have hspace : Whole [' '] := whole_of_forall (List.all_iff_forall_prop.mp (by decide)) (by decide)
  hspace.append h

/-- Pieces that are whole come apart at the commas between them. -/
theorem splitUnquoted_intercalate (hparts : ∀ part ∈ parts, Whole part) (hne : parts ≠ [])
    (hlast : ∀ part ∈ parts, trim isWhitespace part ≠ []) :
    splitUnquoted false [] ([','].intercalate parts) = parts := by
  induction parts with
  | nil => exact absurd rfl hne
  | cons part parts ih =>
    have hpart := hparts part List.mem_cons_self
    cases parts with
    | nil =>
      have hend := hpart [] []
      rw [List.append_nil, List.nil_append] at hend
      rw [List.intercalate_singleton, hend, splitUnquoted, if_neg (hlast part List.mem_cons_self)]
    | cons next parts =>
      have hrest := ih (fun p hp => hparts p (List.mem_cons_of_mem part hp)) (by simp)
        fun p hp => hlast p (List.mem_cons_of_mem part hp)
      rw [List.intercalate_cons_cons, List.append_assoc, hpart, List.singleton_append, splitUnquoted_comma, hrest,
        List.nil_append]

end Split

/-! ## Challenge and answer -/

/-- What the sums and numbers of a header are written with. -/
def IsHex (t : Chars) : Prop := ∀ c ∈ t, c ∈ "0123456789abcdef".toList

theorem isHex_hexText (bs : Bytes) : IsHex (hexText bs) := by
  have hdigit : ∀ n : Fin 16, Nat.digitChar n ∈ "0123456789abcdef".toList := by decide
  intro c hc
  obtain ⟨b, -, hc⟩ := List.mem_flatMap.mp hc
  have hb := b.toNat_lt
  simp only [List.mem_cons, List.not_mem_nil, or_false] at hc
  rcases hc with rfl | rfl
  · exact hdigit ⟨b.toNat / 16, by omega⟩
  · exact hdigit ⟨b.toNat % 16, by omega⟩

theorem isHex_md5Hex (md5 : String → Vector UInt8 16) (input : String) : IsHex (md5Hex md5 input).toList := by
  rw [md5Hex, String.toList_ofList]
  exact isHex_hexText _

theorem isHex_simple (u : Uuid) : IsHex (simple u).toList := by
  rw [simple, String.toList_ofList]
  exact isHex_hexText _

section Texts

variable {t : Chars}

theorem IsHex.forall {p : Char → Prop} (h : IsHex t) (hall : ∀ c ∈ "0123456789abcdef".toList, p c) : ∀ c ∈ t, p c :=
  fun c hc => hall c (h c hc)

theorem IsHex.not_isQuote (h : IsHex t) : ∀ c ∈ t, isQuote c = false := h.forall (List.all_iff_forall_prop.mp (by decide))

theorem IsHex.isVisible (h : IsHex t) : ∀ c ∈ t, isVisible c = true := h.forall (List.all_iff_forall_prop.mp (by decide))

theorem IsHex.not_mem_comma (h : IsHex t) : ',' ∉ t := by
  intro hc
  have hmem := h ',' hc
  revert hmem
  decide

theorem isVisible_of_isDigit {c : Char} (h : c.isDigit = true) : isVisible c = true := by
  unfold Char.isDigit at h
  simp only [Bool.and_eq_true, decide_eq_true_eq, ge_iff_le, UInt32.le_iff_toNat_le] at h
  have h1 : 48 ≤ c.val.toNat := h.1
  have h2 : c.val.toNat ≤ 57 := h.2
  unfold Auth.isVisible
  simp only [Bool.or_eq_true, Bool.and_eq_true, decide_eq_true_eq]
  omega

theorem isDigit_of_mem_username {username : String} (h : isValidBrewUsername username = true) :
    ∀ c ∈ username.toList, c.isDigit = true := by
  unfold isValidBrewUsername at h
  simp only [Bool.and_eq_true] at h
  exact List.all_eq_true.mp h.2

theorem not_isQuote_of_isDigit {c : Char} (h : c.isDigit = true) : isQuote c = false := by
  cases hq : isQuote c with
  | false => rfl
  | true =>
    rw [eq_of_beq hq] at h
    revert h
    decide

end Texts

section Header

variable {parts : List Chars} {last : Chars}

/-- A header's parameters, each with a blank after the comma before it. -/
def digestHeader (parts : List Chars) : Chars := "Digest ".toList ++ [','].intercalate parts

theorem stripDigest_digestHeader (parts : List Chars) : stripDigest (digestHeader parts) = [','].intercalate parts := by
  have hpre : "Digest ".toList.isPrefixOf (digestHeader parts) = true :=
    List.isPrefixOf_iff_prefix.mpr (List.prefix_append _ _)
  have hlen : "Digest ".toList.length = 7 := by decide
  unfold stripDigest
  exact (if_pos hpre).trans (List.drop_left' hlen)

theorem intercalate_append_last (front : List Chars) (x b : Chars) :
    [','].intercalate (front ++ [x ++ b]) = [','].intercalate (front ++ [x]) ++ b := by
  induction front with
  | nil => rw [List.nil_append, List.nil_append, List.intercalate_singleton, List.intercalate_singleton]
  | cons part front ih =>
    obtain ⟨next, more, hnext⟩ := List.exists_cons_of_ne_nil (l := front ++ [x]) (by simp)
    obtain ⟨next', more', hnext'⟩ := List.exists_cons_of_ne_nil (l := front ++ [x ++ b]) (by simp)
    rw [List.cons_append, List.cons_append, hnext, hnext', List.intercalate_cons_cons, List.intercalate_cons_cons,
      ← hnext, ← hnext', ih]
    simp only [List.append_assoc]

theorem digest_toList : "Digest ".toList = 'D' :: "igest ".toList := by decide

theorem trim_append_of_ends {c b : Char} {xs ys : Chars} (hc : isWhitespace c = false) (hb : isWhitespace b = false) :
    trim isWhitespace ((c :: xs) ++ (ys ++ [b])) = (c :: xs) ++ (ys ++ [b]) := by
  have h : trim isWhitespace ((c :: (xs ++ ys)) ++ [b]) = (c :: (xs ++ ys)) ++ [b] := trim_of_ends hc hb
  rwa [← List.cons_append, List.append_assoc] at h

/-- A header whose last value is in quotes has nothing to trim. -/
theorem trim_digestHeader (front : List Chars) (name v : Chars) :
    trim isWhitespace (digestHeader (front ++ [' ' :: param name v])) = digestHeader (front ++ [' ' :: param name v]) := by
  have hlast : ' ' :: param name v = (' ' :: (name ++ '=' :: '"' :: v)) ++ ['"'] := by simp [param, quoted]
  unfold digestHeader
  rw [hlast, intercalate_append_last, digest_toList]
  exact trim_append_of_ends (by decide) (by decide)

end Header

section Challenge

variable {md5 : String → Vector UInt8 16} {realm nonce : String}

/-- The parameters of a challenge but the last. -/
def challengeFront (realm nonce : Chars) : List Chars :=
  [param "realm".toList realm, ' ' :: param "nonce".toList nonce, ' ' :: param "qop".toList "auth".toList]

theorem digestChallenge_eq :
    digestChallenge md5 realm nonce =
      digestHeader (challengeFront realm.toList nonce.toList ++
        [' ' :: param "opaque".toList (md5Hex md5 (realm ++ ":brew")).toList]) := by
  have hrealm : "Digest realm=\"".toList = "Digest ".toList ++ ("realm".toList ++ ['=', '"']) := by decide
  have hnonce : "\", nonce=\"".toList = ['"', ',', ' '] ++ ("nonce".toList ++ ['=', '"']) := by decide
  have hecho : "\", qop=\"auth\", opaque=\"".toList =
      ['"', ',', ' '] ++ ("qop".toList ++ (['=', '"'] ++ ("auth".toList ++ (['"', ',', ' '] ++
        ("opaque".toList ++ ['=', '"']))))) := by decide
  have hend : "\"".toList = ['"'] := by decide
  unfold digestChallenge digestHeader challengeFront param quoted
  rw [hrealm, hnonce, hecho, hend]
  generalize "Digest ".toList = digest, "realm".toList = r, "nonce".toList = n, "qop".toList = q,
    "auth".toList = auth, "opaque".toList = o
  simp

/-- The client reads what the challenge was written from. -/
theorem parseParams_digestChallenge (hrealm : ∀ c ∈ realm.toList, isQuote c = false) (hnonce : IsHex nonce.toList) :
    parseParams (digestChallenge md5 realm nonce) =
      ((((∅ : FinMap String String).insert "realm" realm).insert "nonce" nonce).insert "qop" "auth").insert "opaque"
        (md5Hex md5 (realm ++ ":brew")) := by
  have hecho := isHex_md5Hex md5 (realm ++ ":brew")
  have hauth : ∀ c ∈ "auth".toList, isQuote c = false := List.all_iff_forall_prop.mp (by decide)
  rw [parseParams, digestChallenge_eq, trim_digestHeader, stripDigest_digestHeader, splitUnquoted_intercalate]
  · simp only [challengeFront, List.cons_append, List.nil_append, List.foldl_cons, List.foldl_nil]
    rw [insertParam_param (by decide), insertParam_blank_param (by decide), insertParam_blank_param (by decide),
      insertParam_blank_param (by decide), trim_of_forall hrealm, trim_of_forall hnonce.not_isQuote,
      trim_of_forall hauth, trim_of_forall hecho.not_isQuote]
    simp only [String.ofList_toList]
  · intro part hpart
    simp only [challengeFront, List.cons_append, List.nil_append, List.mem_cons, List.not_mem_nil, or_false] at hpart
    rcases hpart with rfl | rfl | rfl | rfl
    · exact whole_param (by decide) hrealm
    · exact whole_blank (whole_param (by decide) hnonce.not_isQuote)
    · exact whole_blank (whole_param (by decide) hauth)
    · exact whole_blank (whole_param (by decide) hecho.not_isQuote)
  · simp [challengeFront]
  · intro part hpart
    simp only [challengeFront, List.cons_append, List.nil_append, List.mem_cons, List.not_mem_nil, or_false] at hpart
    rcases hpart with rfl | rfl | rfl | rfl
    · exact trim_param_ne_nil (by decide)
    · exact trim_blank_param_ne_nil (by decide)
    · exact trim_blank_param_ne_nil (by decide)
    · exact trim_blank_param_ne_nil (by decide)

end Challenge

section Answer

variable {md5 : String → Vector UInt8 16} {cfg : AuthConfig} {username password realm nonce path cnonce response echo : String}

/-- The parameters of an answer but the last. -/
def answerFront (username realm nonce path response cnonce : Chars) : List Chars :=
  [param "username".toList username, ' ' :: param "realm".toList realm, ' ' :: param "nonce".toList nonce,
    ' ' :: param "uri".toList path, ' ' :: param "response".toList response, " algorithm=MD5".toList,
    " qop=auth".toList, " nc=00000001".toList, ' ' :: param "cnonce".toList cnonce]

/-- The header of an answer. -/
def answerHeader (username realm nonce path response cnonce echo : String) : Chars :=
  digestHeader (answerFront username.toList realm.toList nonce.toList path.toList response.toList cnonce.toList ++
    [' ' :: param "opaque".toList echo.toList])

/-- What the client computes. -/
def answerResponse (md5 : String → Vector UInt8 16) (username password realm nonce path cnonce : String) : String :=
  md5Hex md5 (join [md5Hex md5 (join [username, realm, password]), nonce, "00000001", cnonce, "auth",
    md5Hex md5 (join ["GET", path])])

theorem buildAuthorization_eq (challenge : FinMap String String) (hrealm : challenge["realm"]? = some realm)
    (hnonce : challenge["nonce"]? = some nonce) (hqop : challenge["qop"]? = some "auth")
    (hecho : challenge["opaque"]? = some echo) :
    buildAuthorization md5 challenge username password "GET" path cnonce 1 =
      answerHeader username realm nonce path (answerResponse md5 username password realm nonce path cnonce) cnonce
        echo := by
  have hnc : String.ofList (hexText (toLe 4 (1 : UInt32).toNat).reverse) = "00000001" := by decide
  have hauth : offersAuth "auth" = true := by decide
  have hresponse : computeResponse md5 username password realm "GET" path nonce (some "auth") (some "00000001")
      (some cnonce) = answerResponse md5 username password realm nonce path cnonce := by
    unfold computeResponse
    exact if_pos hauth
  have h1 : "Digest username=\"".toList = "Digest ".toList ++ ("username".toList ++ ['=', '"']) := by decide
  have h2 : "\", realm=\"".toList = ['"', ',', ' '] ++ ("realm".toList ++ ['=', '"']) := by decide
  have h3 : "\", nonce=\"".toList = ['"', ',', ' '] ++ ("nonce".toList ++ ['=', '"']) := by decide
  have h4 : "\", uri=\"".toList = ['"', ',', ' '] ++ ("uri".toList ++ ['=', '"']) := by decide
  have h5 : "\", response=\"".toList = ['"', ',', ' '] ++ ("response".toList ++ ['=', '"']) := by decide
  have h6 : "\", algorithm=MD5".toList = ['"', ','] ++ " algorithm=MD5".toList := by decide
  have h7 : ", qop=auth, nc=".toList ++ "00000001".toList =
      [','] ++ (" qop=auth".toList ++ ([','] ++ " nc=00000001".toList)) := by decide
  have h8 : ", cnonce=\"".toList = [',', ' '] ++ ("cnonce".toList ++ ['=', '"']) := by decide
  have h9 : ", opaque=\"".toList = [',', ' '] ++ ("opaque".toList ++ ['=', '"']) := by decide
  have hend : "\"".toList = ['"'] := by decide
  unfold buildAuthorization
  rw [hrealm, hnonce, hqop, hecho, hnc]
  simp only [Option.getD_some, Option.elim_some]
  rw [hresponse, if_pos hauth, h1, h2, h3, h4, h5, h6, h7, h8, h9, hend]
  unfold answerHeader digestHeader answerFront param quoted
  generalize "Digest ".toList = digest, "username".toList = a, "realm".toList = b, "nonce".toList = c,
    "uri".toList = d, "response".toList = e, " algorithm=MD5".toList = f, " qop=auth".toList = g,
    " nc=00000001".toList = h, "cnonce".toList = i, "opaque".toList = j
  simp

/-- A text that the server reads back from between quotes. -/
def PlainText (s : String) : Prop := ',' ∉ s.toList ∧ trim isQuote s.toList = s.toList

instance (s : String) : Decidable (PlainText s) := inferInstanceAs (Decidable (_ ∧ _))

theorem not_mem_comma_param {name v : Chars} (h : IsName name) (hv : ',' ∉ v) : ',' ∉ param name v := by
  intro hc
  rcases List.mem_append.mp hc with hc | hc
  · exact h.not_mem (by decide) hc
  · rcases List.mem_cons.mp hc with hc | hc
    · revert hc
      decide
    · rcases List.mem_cons.mp hc with hc | hc
      · revert hc
        decide
      · rcases List.mem_append.mp hc with hc | hc
        · exact hv hc
        · revert hc
          decide

theorem not_mem_comma_blank {part : Chars} (h : ',' ∉ part) : ',' ∉ ' ' :: part := by
  intro hc
  rcases List.mem_cons.mp hc with hc | hc
  · revert hc
    decide
  · exact h hc

/-- The server reads what the answer was written from. -/
theorem parseDigest_answer (husername : PlainText username) (hrealm : PlainText realm) (hnonce : PlainText nonce)
    (hpath : PlainText path) (hresponse : PlainText response) (hcnonce : PlainText cnonce) (hecho : PlainText echo) :
    parseDigest (answerHeader username realm nonce path response cnonce echo) =
      [("username", username), ("realm", realm), ("nonce", nonce), ("uri", path), ("response", response),
        ("algorithm", "MD5"), ("qop", "auth"), ("nc", "00000001"), ("cnonce", cnonce), ("opaque", echo)].foldl
          (fun out e => out.insert e.1 e.2) (∅ : FinMap String String) := by
  have halgorithm : trim isWhitespace " algorithm=MD5".toList = "algorithm".toList ++ '=' :: "MD5".toList := by decide
  have hqop : trim isWhitespace " qop=auth".toList = "qop".toList ++ '=' :: "auth".toList := by decide
  have hnc : trim isWhitespace " nc=00000001".toList = "nc".toList ++ '=' :: "00000001".toList := by decide
  have hmd5 : trim isQuote (trim isWhitespace "MD5".toList) = "MD5".toList := by decide
  have hauth : trim isQuote (trim isWhitespace "auth".toList) = "auth".toList := by decide
  have hone : trim isQuote (trim isWhitespace "00000001".toList) = "00000001".toList := by decide
  rw [parseDigest, answerHeader, trim_digestHeader, stripDigest_digestHeader, List.splitOn_intercalate]
  · simp only [answerFront, List.cons_append, List.nil_append, List.foldl_cons, List.foldl_nil]
    rw [trim_param (by decide), insertParam_param (by decide), trim_blank_param (by decide),
      insertParam_param (by decide), trim_blank_param (by decide), insertParam_param (by decide),
      trim_blank_param (by decide), insertParam_param (by decide), trim_blank_param (by decide),
      insertParam_param (by decide), halgorithm, insertParam_bare (by decide), hmd5, hqop,
      insertParam_bare (by decide), hauth, hnc, insertParam_bare (by decide), hone, trim_blank_param (by decide),
      insertParam_param (by decide), trim_blank_param (by decide), insertParam_param (by decide), husername.2, hrealm.2,
      hnonce.2, hpath.2, hresponse.2, hcnonce.2, hecho.2]
    simp only [String.ofList_toList]
  · intro part hpart
    simp only [answerFront, List.cons_append, List.nil_append, List.mem_cons, List.not_mem_nil, or_false] at hpart
    rcases hpart with rfl | rfl | rfl | rfl | rfl | rfl | rfl | rfl | rfl | rfl
    · exact not_mem_comma_param (by decide) husername.1
    · exact not_mem_comma_blank (not_mem_comma_param (by decide) hrealm.1)
    · exact not_mem_comma_blank (not_mem_comma_param (by decide) hnonce.1)
    · exact not_mem_comma_blank (not_mem_comma_param (by decide) hpath.1)
    · exact not_mem_comma_blank (not_mem_comma_param (by decide) hresponse.1)
    · decide
    · decide
    · decide
    · exact not_mem_comma_blank (not_mem_comma_param (by decide) hcnonce.1)
    · exact not_mem_comma_blank (not_mem_comma_param (by decide) hecho.1)
  · simp [answerFront]

/-! ### What a header may hold -/

theorem isVisible_of_isLower {c : Char} (h : c.isLower = true) : isVisible c = true := by
  unfold Char.isLower at h
  simp only [Bool.and_eq_true, decide_eq_true_eq, ge_iff_le, UInt32.le_iff_toNat_le] at h
  have h1 : 97 ≤ c.val.toNat := h.1
  have h2 : c.val.toNat ≤ 122 := h.2
  unfold isVisible
  simp only [Bool.or_eq_true, Bool.and_eq_true, decide_eq_true_eq]
  omega

theorem isVisible_param {name v : Chars} (h : IsName name) (hv : ∀ c ∈ v, isVisible c = true) :
    ∀ c ∈ param name v, isVisible c = true := by
  intro c hc
  simp only [param, quoted, List.mem_append, List.mem_cons, List.not_mem_nil, or_false] at hc
  rcases hc with hc | rfl | rfl | hc | rfl
  · exact isVisible_of_isLower (h.2 c hc)
  · decide
  · decide
  · exact hv c hc
  · decide

theorem isVisible_blank {part : Chars} (h : ∀ c ∈ part, isVisible c = true) : ∀ c ∈ ' ' :: part, isVisible c = true := by
  intro c hc
  rcases List.mem_cons.mp hc with rfl | hc
  · decide
  · exact h c hc

/-- A header is visible as far as its parameters are. -/
theorem all_isVisible_digestHeader {parts : List Chars} :
    (digestHeader parts).all isVisible = true ↔ ∀ part ∈ parts, ∀ c ∈ part, isVisible c = true := by
  have hword : "Digest ".toList.all isVisible = true := by decide
  have hjoin : ([','].intercalate parts).all isVisible = true ↔ ∀ part ∈ parts, ∀ c ∈ part, isVisible c = true := by
    induction parts with
    | nil => simp
    | cons part parts ih =>
      cases parts with
      | nil => simp
      | cons next parts =>
        have hcomma : isVisible ',' = true := by decide
        rw [List.intercalate_cons_cons, List.all_append, List.all_append, Bool.and_eq_true, Bool.and_eq_true, ih,
          List.forall_mem_cons (a := part)]
        simp [hcomma]
  unfold digestHeader
  generalize "Digest ".toList = word at hword
  rw [List.all_append, hword, Bool.true_and]
  exact hjoin

/-- An answer is taken up exactly if its path can stand in a header. -/
theorem authorizationParams_answer (husername : ∀ c ∈ username.toList, isVisible c = true)
    (hrealm : ∀ c ∈ realm.toList, isVisible c = true) (hnonce : ∀ c ∈ nonce.toList, isVisible c = true)
    (hresponse : ∀ c ∈ response.toList, isVisible c = true) (hcnonce : ∀ c ∈ cnonce.toList, isVisible c = true)
    (hecho : ∀ c ∈ echo.toList, isVisible c = true) :
    authorizationParams (answerHeader username realm nonce path response cnonce echo) =
      if path.toList.all isVisible = true then
        some (parseDigest (answerHeader username realm nonce path response cnonce echo))
      else none := by
  have hpre : "Digest ".toList.isPrefixOf (answerHeader username realm nonce path response cnonce echo) = true :=
    List.isPrefixOf_iff_prefix.mpr (List.prefix_append _ _)
  have halgorithm : ∀ c ∈ " algorithm=MD5".toList, isVisible c = true := List.all_iff_forall_prop.mp (by decide)
  have hqop : ∀ c ∈ " qop=auth".toList, isVisible c = true := List.all_iff_forall_prop.mp (by decide)
  have hnc : ∀ c ∈ " nc=00000001".toList, isVisible c = true := List.all_iff_forall_prop.mp (by decide)
  have hvisible : (answerHeader username realm nonce path response cnonce echo).all isVisible = true ↔
      ∀ c ∈ path.toList, isVisible c = true := by
    unfold answerHeader
    rw [all_isVisible_digestHeader]
    constructor
    · intro h c hc
      apply h (' ' :: param "uri".toList path.toList)
      · simp [answerFront]
      · simp [param, quoted, hc]
    · intro hpath part hpart
      simp only [answerFront, List.cons_append, List.nil_append, List.mem_cons, List.not_mem_nil, or_false] at hpart
      rcases hpart with rfl | rfl | rfl | rfl | rfl | rfl | rfl | rfl | rfl | rfl
      · exact isVisible_param (by decide) husername
      · exact isVisible_blank (isVisible_param (by decide) hrealm)
      · exact isVisible_blank (isVisible_param (by decide) hnonce)
      · exact isVisible_blank (isVisible_param (by decide) hpath)
      · exact isVisible_blank (isVisible_param (by decide) hresponse)
      · exact halgorithm
      · exact hqop
      · exact hnc
      · exact isVisible_blank (isVisible_param (by decide) hcnonce)
      · exact isVisible_blank (isVisible_param (by decide) hecho)
  unfold authorizationParams
  rw [hpre, Bool.and_true]
  by_cases h : path.toList.all isVisible = true
  · exact (if_pos (hvisible.mpr (List.all_eq_true.mp h))).trans (if_pos h).symm
  · exact (if_neg fun hall => h (List.all_eq_true.mpr (hvisible.mp hall))).trans (if_neg h).symm

/-! ### The server's verdict -/

theorem IsHex.plainText {s : String} (h : IsHex s.toList) : PlainText s :=
  ⟨h.not_mem_comma, trim_of_forall h.not_isQuote⟩

theorem plainText_username (h : isValidBrewUsername username = true) : PlainText username := by
  constructor
  · intro hc
    have hdigit := isDigit_of_mem_username h ',' hc
    revert hdigit
    decide
  · exact trim_of_forall fun c hc => not_isQuote_of_isDigit (isDigit_of_mem_username h c hc)

/-- A realm or path that does not stand a way through the header is never matched. -/
theorem matchesDigest_eq_false {md5Hex : String → String} {p : FinMap String String} {c : Credentials} (hp : Plain p)
    (h : ¬ (PlainText cfg.realm ∧ PlainText path)) : matchesDigest md5Hex cfg "GET" path p c = false := by
  have hfield : ∀ (name s : String), ((p[name]?).getD "" == s) = true → PlainText s := by
    intro name s heq
    have hs := eq_of_beq heq
    cases hget : p[name]? with
    | none =>
      rw [hget] at hs
      subst hs
      decide
    | some v =>
      rw [hget] at hs
      subst hs
      exact hp name _ hget
  unfold matchesDigest
  cases hr : ((p["realm"]?).getD "" == cfg.realm) with
  | false => simp [hr]
  | true =>
    cases hu : ((p["uri"]?).getD "" == path) with
    | false => simp [hu]
    | true => exact absurd ⟨hfield _ _ hr, hfield _ _ hu⟩ h

theorem matchesDigest_of_verified {md5Hex : String → String} {w : World} {req : Discovery} {c : Credentials}
    (h : w.verified md5Hex cfg req = some c) :
    ∃ p, req.digest = some p ∧ matchesDigest md5Hex cfg "GET" req.path p c = true := by
  unfold World.verified at h
  obtain ⟨p, hdigest, h⟩ := Option.bind_eq_some_iff.mp h
  obtain ⟨c', hcredentials, h⟩ := Option.bind_eq_some_iff.mp h
  by_cases hok : c'.nonce ∈ w.digestNonces ∧ matchesDigest md5Hex cfg "GET" req.path p c' = true
  · rw [if_pos hok] at h
    cases h
    exact ⟨p, hdigest, hok.2⟩
  · rw [if_neg hok] at h
    cases h

/-- Whatever the header, it is not matched. -/
theorem verified_eq_none {md5Hex : String → String} {w : World} {req : Discovery} {value : Chars}
    (h : ¬ (PlainText cfg.realm ∧ PlainText req.path)) :
    w.verified md5Hex cfg { req with digest := authorizationParams value } = none := by
  cases hv : w.verified md5Hex cfg { req with digest := authorizationParams value } with
  | none => rfl
  | some c =>
    obtain ⟨p, hdigest, hmatches⟩ := matchesDigest_of_verified hv
    have hp : p = parseDigest value := by
      change authorizationParams value = some p at hdigest
      unfold authorizationParams at hdigest
      split at hdigest
      · exact (Option.some.inj hdigest).symm
      · cases hdigest
    rw [hp, matchesDigest_eq_false (plain_parseDigest value) h] at hmatches
    cases hmatches

/-- What the verification finds in the server's reading of an answer. -/
theorem verified_of_parsed (md5 : String → Vector UInt8 16) (w : World) {req : Discovery}
    {p : FinMap String String} (hdigest : req.digest = some p)
    (hp : p = [("username", username), ("realm", cfg.realm), ("nonce", nonce), ("uri", req.path),
      ("response", answerResponse md5 username password cfg.realm nonce req.path cnonce), ("algorithm", "MD5"),
      ("qop", "auth"), ("nc", "00000001"), ("cnonce", cnonce), ("opaque", echo)].foldl
        (fun out e => out.insert e.1 e.2) (∅ : FinMap String String))
    (husername : isValidBrewUsername username = true) (hpassword : cfg.users[username]? = some password)
    (hnonce : nonce ∈ w.digestNonces) :
    w.verified (md5Hex md5) cfg req = some ⟨username, password, nonce⟩ := by
  have hget := fun k : String => congrArg (fun m : FinMap String String => m[k]?) hp
  simp only [List.foldl_cons, List.foldl_nil, FinMap.getElem?_insert] at hget
  have hu : p["username"]? = some username := by simp [hget]
  have hr : p["realm"]? = some cfg.realm := by simp [hget]
  have hn : p["nonce"]? = some nonce := by simp [hget]
  have hi : p["uri"]? = some req.path := by simp [hget]
  have ha : p["response"]? = some (answerResponse md5 username password cfg.realm nonce req.path cnonce) := by
    simp [hget]
  have hq : p["qop"]? = some "auth" := by simp [hget]
  have hc : p["nc"]? = some "00000001" := by simp [hget]
  have hcn : p["cnonce"]? = some cnonce := by simp [hget]
  have hauth : "auth".toList <:+: "auth".toList := List.infix_rfl
  have hcredentials : credentials cfg p = some ⟨username, password, nonce⟩ := by
    simp [credentials, hu, husername, hpassword, hn]
  have hexpected : expectedResponse (md5Hex md5) "GET" req.path p cfg.realm ⟨username, password, nonce⟩ =
      answerResponse md5 username password cfg.realm nonce req.path cnonce := by
    unfold expectedResponse
    simp only [hq, hc, hcn, Option.getD_some]
    exact if_pos hauth
  have hmatches : matchesDigest (md5Hex md5) cfg "GET" req.path p ⟨username, password, nonce⟩ = true := by
    simp [matchesDigest, hr, hi, ha, hexpected, eqIgnoreAsciiCase]
  unfold World.verified
  rw [hdigest]
  simp [hcredentials, hnonce, hmatches]

/-- The answer to a challenge is accepted exactly if realm and path stand the way through the
server's own parser. -/
theorem verified_answer_iff (md5 : String → Vector UInt8 16) (cfg : AuthConfig) (w : World) (req : Discovery)
    (username password : String) (nonce cnonce : Uuid)
    (hrealm : ∀ c ∈ cfg.realm.toList, isVisible c = true ∧ isQuote c = false)
    (husername : isValidBrewUsername username = true) (hpassword : cfg.users[username]? = some password)
    (hnonce : simple nonce ∈ w.digestNonces) :
    w.verified (md5Hex md5) cfg
        { req with
          digest := authorizationParams
            (buildAuthorization md5 (parseParams (digestChallenge md5 cfg.realm (simple nonce))) username password "GET"
              req.path (simple cnonce) 1) } = some ⟨username, password, simple nonce⟩ ↔
      ',' ∉ cfg.realm.toList ∧ (∀ c ∈ req.path.toList, isVisible c = true) ∧ PlainText req.path := by
  have hquotes : ∀ c ∈ cfg.realm.toList, isQuote c = false := fun c hc => (hrealm c hc).2
  have hhexn := isHex_simple nonce
  have hhexc := isHex_simple cnonce
  have hecho := isHex_md5Hex md5 (cfg.realm ++ ":brew")
  have hresponse : IsHex (answerResponse md5 username password cfg.realm (simple nonce) req.path (simple cnonce)).toList :=
    isHex_md5Hex md5 _
  have husernameVisible : ∀ c ∈ username.toList, isVisible c = true := fun c hc =>
    isVisible_of_isDigit (isDigit_of_mem_username husername c hc)
  have hbuild : buildAuthorization md5 (parseParams (digestChallenge md5 cfg.realm (simple nonce))) username password
      "GET" req.path (simple cnonce) 1 =
        answerHeader username cfg.realm (simple nonce) req.path
          (answerResponse md5 username password cfg.realm (simple nonce) req.path (simple cnonce)) (simple cnonce)
          (md5Hex md5 (cfg.realm ++ ":brew")) := by
    rw [parseParams_digestChallenge hquotes hhexn]
    apply buildAuthorization_eq
    · simp only [FinMap.getElem?_insert]
      simp
    · simp only [FinMap.getElem?_insert]
      simp
    · simp only [FinMap.getElem?_insert]
      simp
    · simp only [FinMap.getElem?_insert]
      simp
  have hheader := @authorizationParams_answer _ _ _ req.path _ _ _ husernameVisible (fun c hc => (hrealm c hc).1)
    hhexn.isVisible hresponse.isVisible hhexc.isVisible hecho.isVisible
  constructor
  · intro h
    by_cases hplain : PlainText cfg.realm ∧ PlainText req.path
    · rw [hbuild, hheader] at h
      by_cases hpath : req.path.toList.all isVisible = true
      · exact ⟨hplain.1.1, List.all_eq_true.mp hpath, hplain.2⟩
      · rw [if_neg hpath] at h
        cases h
    · rw [verified_eq_none hplain] at h
      cases h
  · rintro ⟨hcomma, hpath, hplain⟩
    have hparse := parseDigest_answer (plainText_username husername) ⟨hcomma, trim_of_forall hquotes⟩ hhexn.plainText
      hplain hresponse.plainText hhexc.plainText hecho.plainText
    rw [hbuild, hheader, if_pos (List.all_eq_true.mpr hpath)]
    exact verified_of_parsed md5 w rfl hparse husername hpassword hnonce

/-- The MD5 sums of two exchanges. -/
def exchangeSums : List (String × Vector UInt8 16) :=
  [("brew:brew",
      #v[0x10, 0x16, 0x05, 0x34, 0x61, 0x80, 0x13, 0x6c, 0x43, 0x0a, 0xb1, 0x07, 0x35, 0xa9, 0x5f, 0x75]),
    ("1234567:brew:secret",
      #v[0x7d, 0x45, 0x3c, 0x5d, 0x2b, 0x7e, 0x75, 0x81, 0x04, 0x7b, 0x55, 0x6c, 0x8d, 0x0c, 0xb9, 0xd8]),
    ("GET:/brew",
      #v[0xbe, 0xb6, 0x30, 0x9f, 0x4b, 0x7d, 0x5a, 0xb2, 0xa3, 0x3e, 0xcf, 0x5e, 0x89, 0xc4, 0xad, 0x3f]),
    ("7d453c5d2b7e7581047b556c8d0cb9d8:00112233445566778899aabbccddeeff:00000001:" ++
      "0123456789abcdef0123456789abcdef:auth:beb6309f4b7d5ab2a33ecf5e89c4ad3f",
      #v[0x03, 0x8e, 0x63, 0x13, 0x5d, 0xa4, 0xc7, 0x91, 0xac, 0xaa, 0x87, 0x62, 0x97, 0x3c, 0xc2, 0xf8]),
    ("TETRA, Athens:brew",
      #v[0xaf, 0x1f, 0x0c, 0x22, 0xd1, 0x89, 0x20, 0xed, 0xbb, 0x09, 0x34, 0xd8, 0xcd, 0x97, 0x16, 0x76]),
    ("1234567:TETRA, Athens:secret",
      #v[0xde, 0xc4, 0x49, 0x19, 0x72, 0x78, 0x85, 0xaa, 0x31, 0x73, 0x52, 0x9d, 0xb5, 0xa1, 0x89, 0xb3]),
    ("dec44919727885aa3173529db5a189b3:00112233445566778899aabbccddeeff:00000001:" ++
      "0123456789abcdef0123456789abcdef:auth:beb6309f4b7d5ab2a33ecf5e89c4ad3f",
      #v[0x0b, 0x49, 0xdd, 0x93, 0xee, 0xc2, 0xac, 0xc7, 0xb8, 0x7c, 0x71, 0x36, 0x34, 0x38, 0xaf, 0xf1])]

def exchangeSum (s : String) : Vector UInt8 16 := (exchangeSums.lookup s).getD (Vector.replicate 16 0)

def exchangeNonce : Uuid := 0x00112233445566778899aabbccddeeff

def exchangeCnonce : Uuid := 0x0123456789abcdef0123456789abcdef

def exchangeConfig (realm : String) : AuthConfig where
  enabled := true
  realm := realm
  users := (∅ : FinMap String String).insert "1234567" "secret"
  sessionTtlSeconds := 30

def exchangeWorld : World where
  digestNonces := (∅ : FinMap String Nat).insert (simple exchangeNonce) 0

def exchangeRequest : Discovery where
  versionOk := true
  seedVersion := none
  mode := .peer
  path := "/brew"
  digest := none

theorem verified_answer_brew :
    exchangeWorld.verified (md5Hex exchangeSum) (exchangeConfig "brew")
        { exchangeRequest with
          digest := authorizationParams
            (buildAuthorization exchangeSum (parseParams (digestChallenge exchangeSum "brew" (simple exchangeNonce)))
              "1234567" "secret" "GET" "/brew" (simple exchangeCnonce) 1) } =
      some ⟨"1234567", "secret", simple exchangeNonce⟩ :=
  (verified_answer_iff exchangeSum (exchangeConfig "brew") exchangeWorld exchangeRequest "1234567" "secret" exchangeNonce
    exchangeCnonce (List.all_iff_forall_prop.mp (by decide)) (by decide)
    (by simp [exchangeConfig]) (by simp [exchangeWorld])).mpr
      ⟨by decide, List.all_iff_forall_prop.mp (by decide), by decide⟩

/-- The client's answer quotes the realm with its comma, the server cuts it there. -/
theorem not_verified_answer_comma :
    exchangeWorld.verified (md5Hex exchangeSum) (exchangeConfig "TETRA, Athens")
        { exchangeRequest with
          digest := authorizationParams
            (buildAuthorization exchangeSum
              (parseParams (digestChallenge exchangeSum "TETRA, Athens" (simple exchangeNonce))) "1234567" "secret"
              "GET" "/brew" (simple exchangeCnonce) 1) } ≠
      some ⟨"1234567", "secret", simple exchangeNonce⟩ := by
  have hplain : ¬ (PlainText (exchangeConfig "TETRA, Athens").realm ∧ PlainText exchangeRequest.path) := by decide
  rw [verified_eq_none hplain]
  intro h
  cases h

end Answer

end BrewServer.Auth
