import BrewServer.Lib.FinMap
import BrewServer.Lib.Text
import BrewServer.Lib.Utf8

/-!
# SIP messages

The headers of a message are a table from lower-case names to values and the order of
their insertion. It is written with a Content-Length of its own; what is read is folded,
compact names are expanded and the lists of some headers taken apart.
-/

namespace BrewServer.Sip

open Chars

inductive Method
  | register | invite | ack | bye | cancel | options | info
  | other (s : Chars)
  deriving DecidableEq

namespace Method

def asStr : Method → Chars
  | register => "REGISTER".toList
  | invite => "INVITE".toList
  | ack => "ACK".toList
  | bye => "BYE".toList
  | cancel => "CANCEL".toList
  | options => "OPTIONS".toList
  | info => "INFO".toList
  | other s => s

def parse (s : Chars) : Method :=
  let upper := s.map Char.toUpper
  if upper = "REGISTER".toList then register
  else if upper = "INVITE".toList then invite
  else if upper = "ACK".toList then ack
  else if upper = "BYE".toList then bye
  else if upper = "CANCEL".toList then cancel
  else if upper = "OPTIONS".toList then options
  else if upper = "INFO".toList then info
  else other s

end Method

inductive StartLine
  | request (method : Method) (uri : Chars)
  | status (code : UInt16) (reason : Chars)
  deriving DecidableEq

/-- Header names are kept in lower case. -/
structure SipMessage where
  start : StartLine
  map : FinMap Chars (List Chars) := ∅
  /-- The names in the order of insertion, one for each value. -/
  order : List Chars := []
  body : Bytes := []

namespace SipMessage

def newRequest (method : Method) (uri : Chars) : SipMessage := { start := .request method uri }

def newResponse (code : UInt16) (reason : Chars) : SipMessage := { start := .status code reason }

def pushHeader (m : SipMessage) (name value : Chars) : SipMessage :=
  let key := asciiLower name
  { m with order := m.order ++ [key], map := m.map.insert key ((m.map[key]?).getD [] ++ [value]) }

def setHeader (m : SipMessage) (name value : Chars) : SipMessage :=
  let key := asciiLower name
  { m with
    order := (if m.map[key]?.isSome then m.order.filter (· ≠ key) else m.order) ++ [key]
    map := m.map.insert key [value] }

def headers (m : SipMessage) (name : Chars) : List Chars := (m.map[asciiLower name]?).getD []

def header (m : SipMessage) (name : Chars) : Option Chars := (m.headers name).head?

end SipMessage

/-! ## Writing -/

def capitalize : Chars → Chars
  | [] => []
  | c :: rest => c.toUpper :: rest

def canonicalHeaderName (lower : Chars) : Chars :=
  if lower = "call-id".toList then "Call-ID".toList
  else if lower = "cseq".toList then "CSeq".toList
  else if lower = "www-authenticate".toList then "WWW-Authenticate".toList
  else if lower = "content-length".toList then "Content-Length".toList
  else if lower = "content-type".toList then "Content-Type".toList
  else if lower = "max-forwards".toList then "Max-Forwards".toList
  else if lower = "user-agent".toList then "User-Agent".toList
  else if lower = "record-route".toList then "Record-Route".toList
  else ['-'].intercalate ((lower.splitOn '-').map capitalize)

def crlf : Chars := ['\r', '\n']

def StartLine.write : StartLine → Chars
  | request method uri => method.asStr ++ " ".toList ++ uri ++ " SIP/2.0".toList
  | status code reason => "SIP/2.0 ".toList ++ decimal code.toNat ++ " ".toList ++ reason

/-- The header lines: every name in the order of insertion with the next of its values. -/
def emit (map : FinMap Chars (List Chars)) (cursor : FinMap Chars ℕ) : List Chars → List (Chars × Chars)
  | [] => []
  | key :: rest =>
    let idx := (cursor[key]?).getD 0
    let written := ((map[key]?).bind (·[idx]?)).elim [] fun v => [(key, v)]
    written ++ emit map (cursor.insert key (idx + 1)) rest

def writeHeader (field : Chars × Chars) : Chars := canonicalHeaderName field.1 ++ ": ".toList ++ field.2

def contentLength : Chars := "content-length".toList

def textBytes (t : Chars) : Bytes := t.flatMap String.utf8EncodeChar

def SipMessage.toBytes (m : SipMessage) : Bytes :=
  let fields := emit m.map ∅ m.order
  let length := if fields.any (·.1 = contentLength) then [] else "Content-Length: ".toList ++ decimal m.body.length ++ crlf
  textBytes (m.start.write ++ crlf ++ fields.flatMap (fun field => writeHeader field ++ crlf) ++ length ++ crlf) ++ m.body

/-! ## Reading -/

def splitHeadBody (text : Chars) : Chars × Chars :=
  ((cut (crlf ++ crlf) text).or (cut ['\n', '\n'] text)).getD (text, [])

def parseStartLine (line : Chars) : Option StartLine :=
  if "SIP/2.0 ".toList.isPrefixOf line then
    let rest := line.drop 8
    let (code, reason) := (cut [' '] rest).getD (rest, [])
    (parseUnsigned UInt16.size code).map fun n => .status (UInt16.ofNat n) reason
  else
    match words isWhitespace line with
    | method :: uri :: more =>
      if "SIP/".toList.isPrefixOf (more.headD []) then some (.request (Method.parse method) uri) else none
    | _ => none

/-- Where the reading of a list of values has come to. -/
structure CommaState where
  out : List Chars := []
  depth : Int := 0
  inQuotes : Bool := false
  cur : Chars := []

def CommaState.step (s : CommaState) (c : Char) : CommaState :=
  if c = '"' then { s with inQuotes := !s.inQuotes, cur := s.cur ++ [c] }
  else if c = '<' ∧ s.inQuotes = false then { s with depth := s.depth + 1, cur := s.cur ++ [c] }
  else if c = '>' ∧ s.inQuotes = false then { s with depth := s.depth - 1, cur := s.cur ++ [c] }
  else if c = ',' ∧ s.inQuotes = false ∧ s.depth = 0 then { s with out := s.out ++ [s.cur], cur := [] }
  else { s with cur := s.cur ++ [c] }

def splitCommasOutsideQuotes (s : Chars) : List Chars :=
  let final := s.foldl CommaState.step {}
  if trim isWhitespace final.cur = [] then final.out else final.out ++ [final.cur]

/-- The long name of a compact one. -/
def expandName (lower : Chars) : Chars :=
  if lower = "v".toList then "via".toList
  else if lower = "f".toList then "from".toList
  else if lower = "t".toList then "to".toList
  else if lower = "i".toList then "call-id".toList
  else if lower = "m".toList then "contact".toList
  else if lower = "c".toList then "content-type".toList
  else if lower = "l".toList then "content-length".toList
  else if lower = "s".toList then "subject".toList
  else if lower = "k".toList then "supported".toList
  else lower

/-- The headers whose values are lists. -/
def isList (name : Chars) : Bool := name = "via".toList || name = "route".toList || name = "record-route".toList

def pushFolded (msg : SipMessage) (name value : Chars) : SipMessage :=
  let expanded := expandName (asciiLower name)
  if isList expanded then
    (splitCommasOutsideQuotes value).foldl (fun msg part => msg.pushHeader expanded (trim isWhitespace part)) msg
  else msg.pushHeader expanded value

/-- The message so far, and the header that the next line may continue. -/
abbrev Folding := SipMessage × Option (Chars × Chars)

def Folding.flush (st : Folding) : SipMessage := st.2.elim st.1 fun field => pushFolded st.1 field.1 field.2

def Folding.line (st : Folding) (line : Chars) : Folding :=
  if line = [] then st
  else if line.head? = some ' ' ∨ line.head? = some '\t' then
    (st.1, st.2.map fun field => (field.1, field.2 ++ ' ' :: trim isWhitespace line))
  else (st.flush, (cut [':'] line).map fun r => (trim isWhitespace r.1, trim isWhitespace r.2))

def parse (data : Bytes) : Option SipMessage :=
  let text := (fromUtf8Lossy data).toList
  let (head, body) := splitHeadBody text
  match (splitPair '\r' '\n' head).flatMap (List.splitOn '\n') with
  | [] => none
  | first :: lines =>
    (parseStartLine (trimEnd isWhitespace first)).map fun start =>
      let msg := Folding.flush (lines.foldl Folding.line ({ start, body := textBytes body }, none))
      match (msg.header contentLength).bind fun s => parseUnsigned UInt64.size (trim isWhitespace s) with
      | some cl => if cl < msg.body.length then { msg with body := msg.body.take cl } else msg
      | none => msg

end BrewServer.Sip
