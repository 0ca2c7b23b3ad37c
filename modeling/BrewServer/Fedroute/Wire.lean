import BrewServer.Lib.Reader
import BrewServer.State

/-!
# Messages between loop-safe servers

The builders and the parser of the federation class, and the round trips of the
messages that carry routes. A route is accepted only from the server its path
starts at, and only if it crosses no server twice.
-/

namespace BrewServer.Fedroute

open Protocol

/-- Most servers a route may cross, origin included. -/
def maxPath : Nat := 16
/-- An advert registered further than this ahead of the clock is refused. -/
def maxFutureMs : UInt64 := 86400000
/-- Longest text carried in an advert, in bytes. -/
def maxBtsText : Nat := 64
def btsStaleMs : UInt64 := 120000
def helloVersion : UInt8 := 3
def emStaleMs : UInt64 := 30000

structure BtsAdvert where
  key : String
  name : String
  lat : F64
  lon : F64
  online : Bool
  seq : UInt64
  path : List UInt64
  deriving DecidableEq

structure MsAdvert where
  issi : UInt32
  lat : F64
  lon : F64
  atMs : UInt64
  station : String
  path : List UInt64
  deriving DecidableEq

structure EmAdvert where
  issi : UInt32
  dest : Option UInt32
  bts : String
  active : Bool
  seq : UInt64
  path : List UInt64
  deriving DecidableEq

inductive FedMessage
  | withdraw (issi : UInt32)
  | route (issi : UInt32) (advert : Advert)
  | prune (id : Uuid) (sourceIssi : UInt32)
  | btsHello (version : UInt8)
  | bts (advert : BtsAdvert)
  | msPos (advert : MsAdvert)
  | emergency (advert : EmAdvert)
  | unknown (msgType : UInt8)
  deriving DecidableEq

/-- A text cut to `maxBtsText` bytes at a character boundary. -/
def clip (s : String) : Bytes :=
  let bs := utf8Bytes s
  bs.take (boundaryBefore bs (min bs.length maxBtsText))

/-- A length byte and the bytes. -/
def lengthPrefixed (bs : Bytes) : Bytes := UInt8.ofNat bs.length :: bs

/-- A length byte and the servers of a path. -/
def pathBytes (path : List UInt64) : Bytes := UInt8.ofNat path.length :: path.flatMap le64

def flagByte (b : Bool) : UInt8 := if b then 1 else 0

def buildBtsHello : Bytes := [classFederation, fedBtsHello, helloVersion]

def buildEmergency (a : EmAdvert) : Bytes :=
  [classFederation, fedEmergency] ++ le64 a.seq ++ [flagByte a.active] ++ le32 a.issi ++
    le32 (a.dest.getD 0) ++ pathBytes a.path ++ lengthPrefixed (clip a.bts)

def buildMsPos (a : MsAdvert) : Bytes :=
  [classFederation, fedMsPos] ++ le64 a.atMs ++ le32 a.issi ++ le64 a.lat ++ le64 a.lon ++
    pathBytes a.path ++ lengthPrefixed (clip a.station)

def buildBts (a : BtsAdvert) : Bytes :=
  [classFederation, fedBts] ++ le64 a.seq ++ [flagByte a.online] ++ le64 a.lat ++ le64 a.lon ++
    pathBytes a.path ++ lengthPrefixed (clip a.key) ++ lengthPrefixed (clip a.name)

def buildWithdraw (issi : UInt32) : Bytes := [classFederation, fedWithdraw] ++ le32 issi

def buildPrune (id : Uuid) (sourceIssi : UInt32) : Bytes :=
  [classFederation, fedPrune] ++ (id.asBytes ++ le32 sourceIssi)

def buildRoute (issi : UInt32) (reg : UInt64) (path : List UInt64) (groups : List UInt32) : Bytes :=
  [classFederation, fedRoute] ++
    (le32 issi ++ (le64 reg ++ (UInt8.ofNat path.length :: (path.flatMap le64 ++ groups.flatMap le32))))

/-- Whether an entry of a path occurs before itself. -/
def crossesTwice (path : List UInt64) : Bool :=
  path.zipIdx.any fun (id, i) => (path.take i).contains id

abbrev Parsed := Option (Except String FedMessage)

def parseEmergency (raw : Bytes) (nbrId : UInt64) : Parsed := do
  if raw.length < 21 then return .error "FED_EMERGENCY too short"
  let n := (← raw[19]?).toNat
  if n = 0 || maxPath < n then return .error "FED_EMERGENCY path length out of range"
  let pos := 20 + 8 * n
  match raw[pos]? with
  | none => return .error "FED_EMERGENCY of wrong length"
  | some blen =>
    if maxBtsText < blen.toNat || raw.length ≠ pos + 1 + blen.toNat then
      return .error "FED_EMERGENCY of wrong length"
    let path ← u64sAt raw 20 n
    if (← path[0]?) ≠ nbrId then
      return .error "FED_EMERGENCY path does not start at the server that sent it"
    if crossesTwice path then return .error "FED_EMERGENCY path crosses a server twice"
    match fromUtf8 (raw.drop (pos + 1)) with
    | none => return .error "FED_EMERGENCY text is not UTF-8"
    | some bts =>
      let dest ← u32At raw 15
      let issi ← u32At raw 11
      let active : UInt8 ← raw[10]?
      let seq ← u64At raw 2
      return .ok (.emergency
        { issi, dest := if dest ≠ 0 then some dest else none, bts, active := active != 0, seq, path })

def parseMsPos (raw : Bytes) (nbrId : UInt64) : Parsed := do
  if raw.length < 32 then return .error "FED_MS_POS too short"
  let n := (← raw[30]?).toNat
  if n = 0 || maxPath < n then return .error "FED_MS_POS path length out of range"
  let pos := 31 + 8 * n
  match raw[pos]? with
  | none => return .error "FED_MS_POS of wrong length"
  | some slen =>
    if maxBtsText < slen.toNat || raw.length ≠ pos + 1 + slen.toNat then
      return .error "FED_MS_POS of wrong length"
    let path ← u64sAt raw 31 n
    if (← path[0]?) ≠ nbrId then
      return .error "FED_MS_POS path does not start at the server that sent it"
    if crossesTwice path then return .error "FED_MS_POS path crosses a server twice"
    match fromUtf8 (raw.drop (pos + 1)) with
    | none => return .error "FED_MS_POS text is not UTF-8"
    | some station =>
      let issi ← u32At raw 10
      let lat ← u64At raw 14
      let lon ← u64At raw 22
      let atMs ← u64At raw 2
      return .ok (.msPos { issi, lat, lon, atMs, station, path })

/-- One length-prefixed text of a `FED_BTS` at `pos`, with where it ends. -/
def btsText (raw : Bytes) (pos : Nat) : Except String (String × Nat) :=
  match raw[pos]? with
  | none => .error "FED_BTS of wrong length"
  | some len =>
    match slice raw (pos + 1) len.toNat with
    | none => .error "FED_BTS of wrong length"
    | some bytes =>
      if maxBtsText < len.toNat then .error "FED_BTS text too long"
      else
        match fromUtf8 bytes with
        | none => .error "FED_BTS text is not UTF-8"
        | some text => .ok (text, pos + 1 + len.toNat)

def parseBts (raw : Bytes) (nbrId : UInt64) : Parsed := do
  if raw.length < 28 then return .error "FED_BTS too short"
  let n := (← raw[27]?).toNat
  if n = 0 || maxPath < n then return .error "FED_BTS path length out of range"
  let pos := 28 + 8 * n
  if raw.length < pos then return .error "FED_BTS of wrong length"
  let path ← u64sAt raw 28 n
  if (← path[0]?) ≠ nbrId then
    return .error "FED_BTS path does not start at the server that sent it"
  if crossesTwice path then return .error "FED_BTS path crosses a server twice"
  match btsText raw pos with
  | .error e => return .error e
  | .ok (key, pos) =>
    match btsText raw pos with
    | .error e => return .error e
    | .ok (name, pos) =>
      if pos ≠ raw.length then return .error "FED_BTS of wrong length"
      let lat ← u64At raw 11
      let lon ← u64At raw 19
      let online : UInt8 ← raw[10]?
      let seq ← u64At raw 2
      return .ok (.bts { key, name, lat, lon, online := online != 0, seq, path })

def parseRoute (raw : Bytes) (nbrId : UInt64) : Parsed := do
  if raw.length < 15 then return .error "FED_ROUTE too short"
  let n := (← raw[14]?).toNat
  if n = 0 || maxPath < n then return .error "FED_ROUTE path length out of range"
  let groupsAt := 15 + 8 * n
  if raw.length < groupsAt || (raw.length - groupsAt) % 4 ≠ 0 then
    return .error "FED_ROUTE of wrong length"
  let path ← u64sAt raw 15 n
  if (← path[0]?) ≠ nbrId then
    return .error "FED_ROUTE path does not start at the server that sent it"
  if crossesTwice path then return .error "FED_ROUTE path crosses a server twice"
  let issi ← u32At raw 2
  let reg ← u64At raw 6
  return .ok (.route issi { reg, path, groups := u32s (raw.drop groupsAt) })

/-- Parses a federation message received from neighbour `nbrId`. -/
def parse (raw : Bytes) (nbrId : UInt64) : Parsed := do
  match raw[1]? with
  | none => return .error "too short"
  | some msgType =>
    if msgType = fedWithdraw then
      if raw.length ≠ 6 then return .error "FED_WITHDRAW of wrong length"
      let issi ← u32At raw 2
      return .ok (.withdraw issi)
    else if msgType = fedPrune then
      if raw.length ≠ 22 then return .error "FED_PRUNE of wrong length"
      let id ← slice raw 2 16
      let sourceIssi ← u32At raw 18
      return .ok (.prune (Uuid.fromBytes id) sourceIssi)
    else if msgType = fedRoute then parseRoute raw nbrId
    else if msgType = fedBtsHello then return .ok (.btsHello ((raw[2]?).getD 1))
    else if msgType = fedMsPos then parseMsPos raw nbrId
    else if msgType = fedEmergency then parseEmergency raw nbrId
    else if msgType = fedBts then parseBts raw nbrId
    else return .ok (.unknown msgType)

theorem crossesTwice_eq_false_iff {path : List UInt64} : crossesTwice path = false ↔ path.Nodup := by
  rw [crossesTwice, List.any_eq_false]
  simp only [Prod.forall, List.mem_zipIdx_iff_getElem?, List.contains_iff_mem]
  rw [List.nodup_iff_pairwise_ne, List.pairwise_iff_getElem]
  constructor
  · intro h i j hi hj hij heq
    have hi' : i < (path.take j).length := by simp [hij, hi]
    refine h path[j] j (List.getElem?_eq_getElem hj) ?_
    exact List.mem_of_getElem (i := i) (h := hi') (by simpa using heq)
  · intro h id j hj hmem
    obtain ⟨hlt, hid⟩ := List.getElem?_eq_some_iff.mp hj
    obtain ⟨i, hi, hv⟩ := List.getElem_of_mem hmem
    rw [List.length_take] at hi
    rw [List.getElem_take] at hv
    exact h i j (by omega) hlt (by omega) (hv.trans hid.symm)

/-- What the parser demands of a path that came from `nbrId`. -/
structure PathFrom (nbrId : UInt64) (path : List UInt64) : Prop where
  head : path.head? = some nbrId
  nodup : path.Nodup
  short : path.length ≤ maxPath

theorem PathFrom.pos {nbrId : UInt64} {path : List UInt64} (h : PathFrom nbrId path) : 0 < path.length := by
  cases path with
  | nil => exact absurd h.head (by simp)
  | cons => simp

theorem toNat_length {path : List UInt64} (h : path.length ≤ maxPath) :
    (UInt8.ofNat path.length).toNat = path.length := by
  have : path.length < 256 := lt_of_le_of_lt h (by decide)
  simp only [UInt8.toNat_ofNat']
  omega

theorem parse_buildRoute (issi : UInt32) (reg : UInt64) {path : List UInt64} (groups : List UInt32)
    {nbrId : UInt64} (h : PathFrom nbrId path) :
    parse (buildRoute issi reg path groups) nbrId = some (.ok (.route issi { reg, path, groups })) := by
  have hn := toNat_length h.short
  have hpos := h.pos
  have hlen : (buildRoute issi reg path groups).length = 15 + 8 * path.length + 4 * groups.length := by
    simp only [buildRoute, List.length_append, List.length_cons, List.length_nil, length_le32, length_le64,
      length_flatMap_le64, length_flatMap_le32]
    omega
  have hissi : u32At (buildRoute issi reg path groups) 2 = some issi := u32At_field _ _ issi rfl
  have hreg : u64At (buildRoute issi reg path groups) 6 = some reg := by
    have := u64At_field ([classFederation, fedRoute] ++ le32 issi)
      (UInt8.ofNat path.length :: (path.flatMap le64 ++ groups.flatMap le32)) reg (o := 6) (by simp)
    rwa [List.append_assoc] at this
  -- Everything up to and including the path length is fifteen bytes.
  have hsplit : buildRoute issi reg path groups =
      ([classFederation, fedRoute] ++ le32 issi ++ le64 reg ++ [UInt8.ofNat path.length]) ++
        (path.flatMap le64 ++ groups.flatMap le32) := by
    simp only [buildRoute, List.append_assoc, List.singleton_append]
  have hhead : ([classFederation, fedRoute] ++ le32 issi ++ le64 reg ++ [UInt8.ofNat path.length]).length = 15 := by
    simp
  have hpath : u64sAt (buildRoute issi reg path groups) 15 path.length = some path := by
    rw [hsplit]
    exact u64sAt_field _ _ path hhead
  have hgroups : u32s ((buildRoute issi reg path groups).drop (15 + 8 * path.length)) = groups := by
    rw [hsplit, ← hhead, List.drop_append, List.drop_of_length_le (by omega), List.nil_append,
      Nat.add_sub_cancel_left, List.drop_append, List.drop_of_length_le (by rw [length_flatMap_le64]),
      length_flatMap_le64, Nat.sub_self, List.drop_zero, List.nil_append, u32s_flatMap]
  have hcount : (buildRoute issi reg path groups)[14]? = some (UInt8.ofNat path.length) := by
    rw [hsplit, List.getElem?_append_left (by rw [hhead]; omega),
      List.getElem?_append_right (by simp)]
    simp
  have hfirst : path[0]? = some nbrId := by rw [← List.head?_eq_getElem?, h.head]
  have htype : (buildRoute issi reg path groups)[1]? = some fedRoute := rfl
  have hmod : (15 + 8 * path.length + 4 * groups.length - (15 + 8 * path.length)) % 4 = 0 := by omega
  have hle : ¬ maxPath < path.length := by have := h.short; omega
  have hz : ¬ path.length = 0 := by omega
  simp only [parse, htype, parseRoute, hlen, hcount, hn, hpath, hfirst, hissi, hreg, hgroups, hmod,
    crossesTwice_eq_false_iff.mpr h.nodup, Option.bind_eq_bind, Option.bind_some, Option.pure_def,
    decide_eq_false hle, decide_eq_false hz]
  have h15 : ¬ 15 + 8 * path.length + 4 * groups.length < 15 := by omega
  have hg : ¬ 15 + 8 * path.length + 4 * groups.length < 15 + 8 * path.length := by omega
  simp [h15, hg, fedRoute, fedWithdraw, fedPrune]

/-! ## Every byte string -/

/-- The path a message carries. -/
def FedMessage.path? : FedMessage → Option (List UInt64)
  | .route _ a => some a.path
  | .bts a => some a.path
  | .msPos a => some a.path
  | .emergency a => some a.path
  | _ => none

/-- Routes and withdrawals are what their type byte says. -/
def FedMessage.Typed (raw : Bytes) : FedMessage → Prop
  | .route _ _ => raw[1]? = some fedRoute
  | .withdraw _ => raw[1]? = some fedWithdraw
  | _ => True

/-- The path of a message is one that `nbrId` could have sent. -/
def PathOk (nbrId : UInt64) (m : FedMessage) : Prop := ∀ path, m.path? = some path → PathFrom nbrId path

/-- A message is what its type byte says, and its path is one from `nbrId`. -/
def FedMessage.ComesFrom (raw : Bytes) (nbrId : UInt64) (m : FedMessage) : Prop := m.Typed raw ∧ PathOk nbrId m

/-- The checks on a path: its length, its first server and that none comes twice. -/
theorem pathFrom_of_checks {path : List UInt64} {n : ℕ} {nbrId first : UInt64} (hlen : path.length = n)
    (hn : ¬ (decide (n = 0) || decide (maxPath < n)) = true) (hfirst : path[0]? = some first) (hhead : ¬ first ≠ nbrId)
    (hcross : ¬ crossesTwice path = true) : PathFrom nbrId path := by
  rw [Bool.or_eq_true, not_or, decide_eq_true_eq, decide_eq_true_eq, not_lt] at hn
  exact
    { head := by rw [List.head?_eq_getElem?, hfirst, not_not.mp hhead]
      nodup := crossesTwice_eq_false_iff.mp (Bool.eq_false_iff.mpr hcross)
      short := hlen ▸ hn.2 }

/-- A path that is not empty has a first server. -/
theorem first_isSome {path : List UInt64} {n : ℕ} (hlen : path.length = n)
    (hn : ¬ (decide (n = 0) || decide (maxPath < n)) = true) : ∃ first, path[0]? = some first := by
  rw [Bool.or_eq_true, not_or, decide_eq_true_eq, decide_eq_true_eq] at hn
  exact ⟨_, List.getElem?_eq_getElem (by omega)⟩

section Total

variable (raw : Bytes) (nbrId : UInt64)

theorem parseMsPos_settles : Settles (·.ComesFrom raw nbrId) (parseMsPos raw nbrId) := by
  simp only [parseMsPos, Option.bind_eq_bind, Option.pure_def]
  refine .check fun hshort => .bind (getElem?_isSome (by omega)) fun n _ => .check fun hn => ?_
  split
  · exact .error
  · next slen hslen =>
    have hlt := (List.getElem?_eq_some_iff.mp hslen).1
    refine .check fun _ => ?_
    obtain ⟨path, hpath, hplen⟩ : ∃ path, u64sAt raw 31 n.toNat = some path ∧ path.length = n.toNat :=
      u64sAt_isSome (by omega)
    refine .bind ⟨path, hpath⟩ fun path' hpath' => ?_
    obtain rfl : path = path' := Option.some.inj (hpath.symm.trans hpath')
    refine .bind (first_isSome hplen hn) fun first hfirst => .check fun hhead => .check fun hcross => ?_
    split
    · exact .error
    · refine .bind (u32At_isSome (by omega)) fun _ _ => .bind (u64At_isSome (by omega)) fun _ _ =>
        .bind (u64At_isSome (by omega)) fun _ _ => .bind (u64At_isSome (by omega)) fun _ _ => .ok ?_
      refine ⟨trivial, ?_⟩
      rintro _ ⟨⟩
      exact pathFrom_of_checks hplen hn hfirst hhead hcross

theorem parseEmergency_settles : Settles (·.ComesFrom raw nbrId) (parseEmergency raw nbrId) := by
  simp only [parseEmergency, Option.bind_eq_bind, Option.pure_def]
  refine .check fun hshort => .bind (getElem?_isSome (by omega)) fun n _ => .check fun hn => ?_
  split
  · exact .error
  · next blen hblen =>
    have hlt := (List.getElem?_eq_some_iff.mp hblen).1
    refine .check fun _ => ?_
    obtain ⟨path, hpath, hplen⟩ : ∃ path, u64sAt raw 20 n.toNat = some path ∧ path.length = n.toNat :=
      u64sAt_isSome (by omega)
    refine .bind ⟨path, hpath⟩ fun path' hpath' => ?_
    obtain rfl : path = path' := Option.some.inj (hpath.symm.trans hpath')
    refine .bind (first_isSome hplen hn) fun first hfirst => .check fun hhead => .check fun hcross => ?_
    split
    · exact .error
    · refine .bind (u32At_isSome (by omega)) fun _ _ => .bind (u32At_isSome (by omega)) fun _ _ =>
        .bind (getElem?_isSome (by omega)) fun _ _ => .bind (u64At_isSome (by omega)) fun _ _ => .ok ?_
      refine ⟨trivial, ?_⟩
      rintro _ ⟨⟩
      exact pathFrom_of_checks hplen hn hfirst hhead hcross

theorem parseBts_settles : Settles (·.ComesFrom raw nbrId) (parseBts raw nbrId) := by
  simp only [parseBts, Option.bind_eq_bind, Option.pure_def]
  refine .check fun hshort => .bind (getElem?_isSome (by omega)) fun n _ => .check fun hn => .check fun hlong => ?_
  obtain ⟨path, hpath, hplen⟩ : ∃ path, u64sAt raw 28 n.toNat = some path ∧ path.length = n.toNat :=
    u64sAt_isSome (by omega)
  refine .bind ⟨path, hpath⟩ fun path' hpath' => ?_
  obtain rfl : path = path' := Option.some.inj (hpath.symm.trans hpath')
  refine .bind (first_isSome hplen hn) fun first hfirst => .check fun hhead => .check fun hcross => ?_
  split
  · exact .error
  · split
    · exact .error
    · refine .check fun _ => .bind (u64At_isSome (by omega)) fun _ _ => .bind (u64At_isSome (by omega)) fun _ _ =>
        .bind (getElem?_isSome (by omega)) fun _ _ => .bind (u64At_isSome (by omega)) fun _ _ => .ok ?_
      refine ⟨trivial, ?_⟩
      rintro _ ⟨⟩
      exact pathFrom_of_checks hplen hn hfirst hhead hcross

theorem parseRoute_settles (ht : raw[1]? = some fedRoute) : Settles (·.ComesFrom raw nbrId) (parseRoute raw nbrId) := by
  simp only [parseRoute, Option.bind_eq_bind, Option.pure_def]
  refine .check fun hshort => .bind (getElem?_isSome (by omega)) fun n _ => .check fun hn => .check fun hlong => ?_
  rw [Bool.or_eq_true, not_or, decide_eq_true_eq, not_lt] at hlong
  obtain ⟨path, hpath, hplen⟩ : ∃ path, u64sAt raw 15 n.toNat = some path ∧ path.length = n.toNat :=
    u64sAt_isSome hlong.1
  refine .bind ⟨path, hpath⟩ fun path' hpath' => ?_
  obtain rfl : path = path' := Option.some.inj (hpath.symm.trans hpath')
  refine .bind (first_isSome hplen hn) fun first hfirst => .check fun hhead => .check fun hcross => ?_
  refine .bind (u32At_isSome (by omega)) fun _ _ => .bind (u64At_isSome (by omega)) fun _ _ => .ok ?_
  refine ⟨ht, ?_⟩
  rintro _ ⟨⟩
  exact pathFrom_of_checks hplen hn hfirst hhead hcross

theorem parse_settles : Settles (·.ComesFrom raw nbrId) (parse raw nbrId) := by
  simp only [parse, Option.bind_eq_bind, Option.pure_def]
  split
  · exact .error
  · next msgType htype =>
    refine .ite (fun ht => .check fun hlen => ?_) fun _ => .ite (fun _ => .check fun hlen => ?_) fun _ => ?_
    · refine .bind (u32At_isSome (by omega)) fun _ _ => .ok ⟨htype.trans (congrArg some ht), ?_⟩
      exact fun _ h => by cases h
    · refine .bind ⟨_, slice_eq_some (by omega)⟩ fun _ _ => .bind (u32At_isSome (by omega)) fun _ _ => .ok ⟨trivial, ?_⟩
      exact fun _ h => by cases h
    · refine .ite (fun ht => parseRoute_settles raw nbrId (htype.trans (congrArg some ht))) fun _ => ?_
      refine .ite (fun _ => .ok ⟨trivial, fun _ h => by cases h⟩) fun _ => ?_
      refine .ite (fun _ => parseMsPos_settles raw nbrId) fun _ => ?_
      exact .ite (fun _ => parseEmergency_settles raw nbrId) fun _ =>
        .ite (fun _ => parseBts_settles raw nbrId) fun _ => .ok ⟨trivial, fun _ h => by cases h⟩

end Total

theorem parse_comesFrom {raw : Bytes} {nbrId : UInt64} {m : FedMessage} (h : parse raw nbrId = some (.ok m)) :
    m.ComesFrom raw nbrId := by
  obtain ⟨r, hr, hok⟩ := parse_settles raw nbrId
  exact hok m (Option.some.inj (hr.symm.trans h))

/-- A route that is accepted starts at the neighbour it came from, crosses no
server twice and is not too long. -/
theorem pathFrom_of_parse {raw : Bytes} {nbrId : UInt64} {issi : UInt32} {a : Advert}
    (h : parse raw nbrId = some (.ok (.route issi a))) : PathFrom nbrId a.path :=
  (parse_comesFrom h).2 a.path rfl

theorem parse_buildWithdraw (issi : UInt32) (nbrId : UInt64) :
    parse (buildWithdraw issi) nbrId = some (.ok (.withdraw issi)) := by
  have hissi : u32At (buildWithdraw issi) 2 = some issi := by
    have := u32At_field [classFederation, fedWithdraw] [] issi (o := 2) rfl
    rwa [List.append_nil] at this
  have htype : (buildWithdraw issi)[1]? = some fedWithdraw := rfl
  have hlen : (buildWithdraw issi).length = 6 := by simp [buildWithdraw]
  simp only [parse, htype, hlen, hissi, ne_eq, not_true_eq_false, ite_false, ite_true, Option.bind_eq_bind,
    Option.bind_some, Option.pure_def]

theorem parse_buildPrune (id : Uuid) (sourceIssi : UInt32) (nbrId : UInt64) :
    parse (buildPrune id sourceIssi) nbrId = some (.ok (.prune id sourceIssi)) := by
  have hid : slice (buildPrune id sourceIssi) 2 16 = some id.asBytes :=
    slice_field [classFederation, fedPrune] id.asBytes _ rfl (by simp)
  have hsrc : u32At (buildPrune id sourceIssi) 18 = some sourceIssi := by
    have := u32At_field ([classFederation, fedPrune] ++ id.asBytes) [] sourceIssi (o := 18) (by simp)
    rwa [List.append_nil, List.append_assoc] at this
  have htype : (buildPrune id sourceIssi)[1]? = some fedPrune := rfl
  have hlen : (buildPrune id sourceIssi).length = 22 := by simp [buildPrune]
  have hne : ¬ fedPrune = fedWithdraw := by decide
  simp only [parse, htype, hlen, hid, hsrc, hne, ne_eq, not_true_eq_false, ite_false, ite_true,
    Option.bind_eq_bind, Option.bind_some, Option.pure_def, Uuid.fromBytes_asBytes]

end BrewServer.Fedroute
