import BrewServer.Lib.Transition
import BrewServer.Position.Aprs
import BrewServer.State
import BrewServer.Store.Times

/-!
# Positions on the APRS network

Every position the router decodes is queued, and one task with its own connection sends
it on as an object, unless the same radio was reported a moment before. The connection
comes and goes; what is queued waits for it.
-/

namespace BrewServer.Aprs

open Calendar Chars Position

/-- What of the configuration the task reads, apart from the server's address. -/
structure AprsConfig where
  enabled : Bool := false
  callsign : Chars := []
  passcode : Chars := []
  symbolTable : Char := '/'
  symbolCode : Char := 'j'
  comment : Chars := "TETRA MS via brew-server".toList
  objectNamePrefix : Chars := "MS".toList
  minReportIntervalSeconds : UInt64 := 60
  reconnectIntervalSeconds : UInt64 := 15

structure PositionReport where
  issi : UInt32
  lat : ℚ
  lon : ℚ
  deriving DecidableEq

/-! ## One line -/

/-- `as u64`. -/
def asU64 (v : ℤ) : ℕ := (v % 2 ^ 64).toNat

/-- Subtraction of unsigned numbers, which must not go below zero. -/
def minus (a b : ℕ) : Option ℕ := if b ≤ a then some (a - b) else none

/-- The history's algorithm on unsigned numbers. -/
def civilFromDays (z : ℤ) : Option (ℤ × ℕ × ℕ) := do
  let z := z + 719468
  let era := (if 0 ≤ z then z else z - 146096).tdiv 146097
  let doe := asU64 (z - era * 146097)
  let yoe := (← minus ((← minus doe (doe / 1460)) + doe / 36524) (doe / 146096)) / 365
  let y := yoe + era * 400
  let doy ← minus doe (← minus (365 * yoe + yoe / 4) (yoe / 100))
  let mp := (5 * doy + 2) / 153
  let d := BrewHistory.asU32 ((← minus doy ((153 * mp + 2) / 5)) + 1 : ℕ)
  let late := if mp < 10 then some (mp + 3) else minus mp 9
  let m := BrewHistory.asU32 (← late : ℕ)
  let y := if m ≤ 2 then y + 1 else y
  return (y, m, d)

/-- Day of the month, hour and minute. -/
def aprsDhmTimestamp (secs : UInt64) : Option Chars := do
  let days : ℤ := secs.toNat / 86400
  let timeOfDay := secs.toNat % 86400
  let hour := timeOfDay / 3600
  let minute := timeOfDay % 3600 / 60
  let (_, _, day) ← civilFromDays days
  return padded 2 day ++ padded 2 hour ++ padded 2 minute

/-- Nine characters. -/
def objectName (pre : Chars) (issi : UInt32) : Chars := ((pre ++ decimal issi.toNat).take 9).rightpad 9 ' '

def buildObjectPacket (cfg : AprsConfig) (r : PositionReport) (secs : UInt64) : Option Chars := do
  let name := objectName cfg.objectNamePrefix r.issi
  let latS := formatAprsLat r.lat
  let lonS := formatAprsLon r.lon
  let ts ← aprsDhmTimestamp secs
  return cfg.callsign ++ ">APRS,TCPIP*:;".toList ++ name ++ "*".toList ++ ts ++ "z".toList ++ latS ++ [cfg.symbolTable] ++
    lonS ++ [cfg.symbolCode] ++ cfg.comment ++ "\r\n".toList

section Line

theorem minus_eq_some {a b c : ℕ} (h : a = c + b) : minus a b = some c := by
  unfold minus
  rw [if_pos (by omega), h, Nat.add_sub_cancel]

/-- No subtraction goes below zero, and the calendar comes out. -/
theorem civilFromDays_eq (z : ℤ) :
    civilFromDays z = some ((Date.ofDays z).year, (Date.ofDays z).month, (Date.ofDays z).day) := by
  generalize hd : Date.ofDays z = d
  obtain rfl : z = d.toDays := by rw [← hd, Date.toDays_ofDays]
  obtain ⟨era, doe, yoe, doy, mp, h⟩ := d.parts
  have hdays := h.days
  have hdoe := h.doe_le
  have hera := BrewHistory.era_eq hdays (Int.natCast_nonneg doe) (by omega)
  have hday : asU64 (d.toDays + 719468 - era * 146097) = doe := by
    unfold asU64
    omega
  have hquads : minus doe (doe / 1460) = some (doe - doe / 1460) := minus_eq_some (by omega)
  have heras : minus (doe - doe / 1460 + doe / 36524) (doe / 146096) =
      some (doe - doe / 1460 + doe / 36524 - doe / 146096) := minus_eq_some (by omega)
  have hhundreds : minus (365 * yoe + yoe / 4) (yoe / 100) = some (365 * yoe + yoe / 4 - yoe / 100) :=
    minus_eq_some (by omega)
  have hdoy : minus doe (365 * yoe + yoe / 4 - yoe / 100) = some doy := minus_eq_some (by rw [h.doe_eq, Nat.add_comm])
  have hpos := d.day_pos
  have hstart : minus doy ((153 * mp + 2) / 5) = some (d.day - 1) := minus_eq_some (by have := h.day_eq; omega)
  have hmonth : (if mp < 10 then some (mp + 3) else minus mp 9) = some d.month := by
    have hm := h.month_eq
    have hpos := d.month_pos
    split_ifs at hm ⊢
    · exact congrArg some hm.symm
    · exact minus_eq_some (by omega)
  have hm : d.month < 2 ^ 32 := d.month_le.trans_lt (by decide)
  have hlast : d.day < 2 ^ 32 := d.day_le.trans_lt (by unfold daysIn; split_ifs <;> decide)
  unfold civilFromDays
  simp only [hera, hday, hquads, heras, h.yoe_eq, hhundreds, hdoy, h.mp_eq, hstart, hmonth, Option.bind_eq_bind,
    Option.bind_some, Option.pure_def, Nat.sub_add_cancel hpos, BrewHistory.asU32_natCast hm,
    BrewHistory.asU32_natCast hlast, ← h.year_eq]

theorem aprsDhmTimestamp_eq (secs : UInt64) :
    aprsDhmTimestamp secs = some (padded 2 (Date.ofDays (secs.toNat / 86400)).day ++
      padded 2 (secs.toNat / 3600 % 24) ++ padded 2 (secs.toNat / 60 % 60)) := by
  have hhour : secs.toNat % 86400 / 3600 = secs.toNat / 3600 % 24 := by omega
  have hminute : secs.toNat % 86400 % 3600 / 60 = secs.toNat / 60 % 60 := by omega
  unfold aprsDhmTimestamp
  simp only [civilFromDays_eq, Option.bind_eq_bind, Option.bind_some, Option.pure_def, hhour, hminute]

theorem length_objectName (pre : Chars) (issi : UInt32) : (objectName pre issi).length = 9 := by
  unfold objectName
  simp only [List.length_rightpad, List.length_take]
  omega

end Line

/-! ## The task -/

/-- What became of a report. Times are in nanoseconds, `secs` is the date the line shows. -/
inductive Fate
  | drained
  | skipped (time : ℕ)
  | sent (text : Chars) (secs : UInt64) (began done : ℕ)
  | lost (time : ℕ)

inductive Link
  /-- Not configured: reports are taken and forgotten. -/
  | draining
  | connecting
  | up
  /-- A line is being written. -/
  | writing (r : PositionReport) (text : Chars) (secs : UInt64) (began : ℕ)
  /-- The pause before the next try. -/
  | waiting (till : ℕ)
  | ended
  deriving DecidableEq

structure Forwarder where
  now : ℕ
  link : Link
  queue : List PositionReport := []
  /-- A sender for the queue is left. -/
  opened : Bool := true
  lastSent : FinMap UInt32 ℕ := ∅
  /-- All reports ever queued, and what became of those that were taken. -/
  offered : List PositionReport := []
  taken : List (PositionReport × Fate) := []

inductive Event
  | report (r : PositionReport) (now : ℕ)
  | close
  | connect (ok : Bool) (now : ℕ)
  | recv (now : ℕ) (secs : UInt64)
  | wrote (now : ℕ)
  | failed (now : ℕ)
  | dropped (now : ℕ)
  | wake (now : ℕ)

def blank (t : Chars) : Bool := (trim isWhitespace t).isEmpty

def AprsConfig.configured (cfg : AprsConfig) : Bool := cfg.enabled && !(blank cfg.callsign || blank cfg.passcode)

def AprsConfig.minInterval (cfg : AprsConfig) : ℕ := cfg.minReportIntervalSeconds.toNat * 10 ^ 9

def AprsConfig.interval (cfg : AprsConfig) : ℕ := max cfg.reconnectIntervalSeconds.toNat 5 * 10 ^ 9

def Link.isWriting : Link → Bool
  | .writing .. => true
  | _ => false

/-- The pause is over. -/
def Link.due (now : ℕ) : Link → Bool
  | .waiting till => till ≤ now
  | _ => false

namespace Forwarder

/-- The task as it is spawned. -/
def start (cfg : AprsConfig) (now : ℕ) : Forwarder :=
  { now, link := if cfg.configured then .connecting else .draining }

/-- The radio was reported a moment before. -/
def recent (cfg : AprsConfig) (f : Forwarder) (issi : UInt32) (now : ℕ) : Bool :=
  0 < cfg.minReportIntervalSeconds && f.lastSent[issi]?.any fun last => now - last < cfg.minInterval

/-- `report_position`. -/
def report (f : Forwarder) (r : PositionReport) : Forwarder :=
  { f with queue := f.queue ++ [r], offered := f.offered ++ [r] }

/-- `sleep`, before the next try. -/
def pause (cfg : AprsConfig) (f : Forwarder) : Forwarder := { f with link := .waiting (f.now + cfg.interval) }

/-- A report is taken with a connection. -/
def take (cfg : AprsConfig) (f : Forwarder) (r : PositionReport) (secs : UInt64) : Forwarder :=
  if f.recent cfg r.issi f.now then { f with taken := f.taken ++ [(r, .skipped f.now)] }
  else match buildObjectPacket cfg r secs with
    | some text => { f with link := .writing r text secs f.now }
    | none => { f with link := .ended }

/-- `recv` of the queue, and what is done without waiting. -/
def recv (cfg : AprsConfig) (f : Forwarder) (secs : UInt64) : Forwarder :=
  match f.queue with
  | [] => { f with link := .ended }
  | r :: rest =>
    let f := { f with queue := rest }
    match f.link with
    | .draining => { f with taken := f.taken ++ [(r, .drained)] }
    | .up => f.take cfg r secs
    | _ => f

/-- `write_all` is done. -/
def wrote (f : Forwarder) : Forwarder :=
  match f.link with
  | .writing r text secs began =>
    { f with link := .up, lastSent := f.lastSent.insert r.issi f.now,
             taken := f.taken ++ [(r, .sent text secs began f.now)] }
  | _ => f

/-- It failed, and with it the connection. -/
def failed (cfg : AprsConfig) (f : Forwarder) : Forwarder :=
  match f.link with
  | .writing r _ _ _ => pause cfg { f with taken := f.taken ++ [(r, .lost f.now)] }
  | _ => f

def next (cfg : AprsConfig) (f : Forwarder) : Event → Forwarder
  | .report r now => { f with now }.report r
  | .close => { f with opened := false }
  | .connect true now => { f with now, link := .up }
  | .connect false now => { f with now }.pause cfg
  | .recv now secs => { f with now }.recv cfg secs
  | .wrote now => { f with now }.wrote
  | .failed now => { f with now }.failed cfg
  | .dropped now => { f with now }.pause cfg
  | .wake now => { f with now, link := .connecting }

/-- The clock does not go back, and each event is one its place in the task waits for. -/
def Allowed (f : Forwarder) : Event → Prop
  | .report _ now => f.now ≤ now ∧ f.opened = true
  | .close => True
  | .connect _ now => f.now ≤ now ∧ f.link = .connecting
  | .recv now _ => f.now ≤ now ∧ (f.link = .draining ∨ f.link = .up) ∧ (f.queue ≠ [] ∨ f.opened = false)
  | .wrote now | .failed now => f.now ≤ now ∧ f.link.isWriting = true
  | .dropped now => f.now ≤ now ∧ f.link = .up
  | .wake now => f.now ≤ now ∧ f.link.due now = true

instance (f : Forwarder) (e : Event) : Decidable (f.Allowed e) :=
  match e with
  | .report _ now => inferInstanceAs (Decidable (f.now ≤ now ∧ f.opened = true))
  | .close => inferInstanceAs (Decidable True)
  | .connect _ now => inferInstanceAs (Decidable (f.now ≤ now ∧ f.link = .connecting))
  | .recv now _ => inferInstanceAs (Decidable (f.now ≤ now ∧ (f.link = .draining ∨ f.link = .up) ∧
      (f.queue ≠ [] ∨ f.opened = false)))
  | .wrote now | .failed now => inferInstanceAs (Decidable (f.now ≤ now ∧ f.link.isWriting = true))
  | .dropped now => inferInstanceAs (Decidable (f.now ≤ now ∧ f.link = .up))
  | .wake now => inferInstanceAs (Decidable (f.now ≤ now ∧ f.link.due now = true))

end Forwarder

/-! ## What the network is told -/

/-- Nothing of the configuration breaks a line. -/
def AprsConfig.OneLine (cfg : AprsConfig) : Prop :=
  '\n' ∉ cfg.callsign ++ cfg.objectNamePrefix ++ cfg.symbolTable :: cfg.symbolCode :: cfg.comment

/-- A line has its fields in their columns. -/
structure Shows (cfg : AprsConfig) (r : PositionReport) (secs : UInt64) (text name time lat lon : Chars) : Prop where
  text_eq : text = cfg.callsign ++ ">APRS,TCPIP*:;".toList ++ name ++ "*".toList ++ time ++ "z".toList ++ lat ++
    [cfg.symbolTable] ++ lon ++ [cfg.symbolCode] ++ cfg.comment ++ "\r\n".toList
  name : name.length = 9 ∧ name = objectName cfg.objectNamePrefix r.issi
  time : time.length = 6 ∧ time = padded 2 (Date.ofDays (secs.toNat / 86400)).day ++
    padded 2 (secs.toNat / 3600 % 24) ++ padded 2 (secs.toNat / 60 % 60)
  lat : lat.length = 8 ∧ (|r.lat| ≤ 90 → Int.fract |r.lat| * 60 < 59.995 → ReadsBack (aprsLatAt 10) r.lat lat)
  lon : lon.length = 9 ∧ (|r.lon| ≤ 180 → Int.fract |r.lon| * 60 < 59.995 → ReadsBack (aprsLonAt 10) r.lon lon)
  oneLine : cfg.OneLine → '\n' ∉ text.dropLast

section Fields

variable {cfg : AprsConfig} {t : Chars} {n bound : ℕ} {plus minus : Char}

theorem digit_ne_newline {c : Char} (h : c.isDigit = true) : c ≠ '\n' := by
  rintro rfl
  exact absurd h (by decide)

theorem newline_padded {w k : ℕ} : '\n' ∉ padded w k := fun h => digit_ne_newline (isDigit_of_mem_padded h) rfl

/-- A coordinate out of range is held within it. -/
theorem formatAprs_clamp {q x : ℚ} (hq : 0 ≤ q) :
    formatAprs n q plus minus x = formatAprs n q plus minus (max (-q) (min q x)) := by
  have hle : -q ≤ q := by linarith
  have hidem : max (-q) (min q (max (-q) (min q x))) = max (-q) (min q x) := by
    rw [min_eq_right (max_le hle (min_le_left _ _)), max_eq_right (le_max_left _ _)]
  unfold formatAprs
  rw [hidem]

theorem formatAprs_token (hbound : bound < 10 ^ n) (x : ℚ) : ∃ deg cents hemi,
    formatAprs n bound plus minus x = token n deg cents hemi ∧ deg < 10 ^ n ∧ cents < 10000 ∧ (hemi = plus ∨ hemi = minus) := by
  rw [formatAprs_clamp (Nat.cast_nonneg bound)]
  generalize hy : max (-(bound : ℚ)) (min bound x) = y
  have hpos : (0 : ℚ) ≤ bound := Nat.cast_nonneg bound
  have hy' : |y| ≤ bound := by
    rw [← hy]
    exact abs_le.mpr ⟨le_max_left _ _, max_le (by linarith) (min_le_left _ _)⟩
  have hfract := Int.fract_nonneg |y|
  have hfract' := Int.fract_lt_one |y|
  have hfloor : ⌊|y|⌋ ≤ bound := by
    rw [← Int.floor_natCast (R := ℚ) bound]
    exact Int.floor_mono hy'
  have hcents : hundredths (Int.fract |y| * 60) < 10000 := (hundredths_lt_iff (by linarith) (by decide)).mpr (by
    push_cast
    linarith)
  refine ⟨_, _, _, formatAprs_eq hy', by omega, hcents, ?_⟩
  split_ifs
  · exact .inr rfl
  · exact .inl rfl

theorem length_formatAprs (hn : 0 < n) (hbound : bound < 10 ^ n) (x : ℚ) :
    (formatAprs n bound plus minus x).length = n + 6 := by
  obtain ⟨deg, cents, hemi, htoken, hdeg, hcents, -⟩ := @formatAprs_token n bound plus minus hbound x
  rw [htoken]
  exact length_token hn hdeg hcents

theorem newline_formatAprs (hbound : bound < 10 ^ n) (hplus : plus ≠ '\n') (hminus : minus ≠ '\n') (x : ℚ) :
    '\n' ∉ formatAprs n bound plus minus x := by
  obtain ⟨deg, cents, hemi, htoken, -, -, hhemi⟩ := @formatAprs_token n bound plus minus hbound x
  have hne : '\n' ≠ hemi := by
    rcases hhemi with rfl | rfl
    · exact hplus.symm
    · exact hminus.symm
  rw [htoken]
  unfold token
  simp [newline_padded, hne]

theorem newline_objectName {pre : Chars} {issi : UInt32} (h : '\n' ∉ pre) : '\n' ∉ objectName pre issi := by
  intro hm
  unfold objectName List.rightpad at hm
  rcases List.mem_append.mp hm with hm | hm
  · rcases List.mem_append.mp (List.mem_of_mem_take hm) with hm | hm
    · exact h hm
    · exact digit_ne_newline (isDigit_of_mem_decimal hm) rfl
  · exact absurd (List.eq_of_mem_replicate hm) (by decide)

/-- A line can always be built. -/
theorem shows_of_build (cfg : AprsConfig) (r : PositionReport) (secs : UInt64) : ∃ text name time lat lon,
    buildObjectPacket cfg r secs = some text ∧ Shows cfg r secs text name time lat lon := by
  have hday : (Date.ofDays (secs.toNat / 86400)).day < 10 ^ 2 :=
    (Date.ofDays (secs.toNat / 86400)).day_le.trans_lt (by unfold daysIn; split_ifs <;> decide)
  have hhour : secs.toNat / 3600 % 24 < 10 ^ 2 := by omega
  have hminute : secs.toNat / 60 % 60 < 10 ^ 2 := by omega
  refine ⟨_, objectName cfg.objectNamePrefix r.issi, _, formatAprsLat r.lat, formatAprsLon r.lon, ?_,
    { text_eq := rfl, name := ⟨length_objectName _ _, rfl⟩, time := ⟨?_, rfl⟩,
      lat := ⟨length_formatAprs (by decide) (by decide) r.lat, fun hx hm => ?_⟩,
      lon := ⟨length_formatAprs (by decide) (by decide) r.lon, fun hx hm => ?_⟩, oneLine := fun hone => ?_ }⟩
  · unfold buildObjectPacket
    rw [aprsDhmTimestamp_eq]
    rfl
  · rw [List.length_append, List.length_append, length_padded (by decide) hday, length_padded (by decide) hhour,
      length_padded (by decide) hminute]
  · exact ((@formatAprs_reads_back 2 90 _ _ _ _ (by decide) (by decide) letters_lat hx (by decide)).mpr hm).2
  · exact ((@formatAprs_reads_back 3 180 _ _ _ _ (by decide) (by decide) letters_lon hx (by decide)).mpr hm).2
  · have hline : "\r\n".toList = ['\r'] ++ ['\n'] := rfl
    rw [hline, ← List.append_assoc, List.dropLast_concat]
    have hlat : '\n' ∉ formatAprsLat r.lat := newline_formatAprs (by decide) (by decide) (by decide) r.lat
    have hlon : '\n' ∉ formatAprsLon r.lon := newline_formatAprs (by decide) (by decide) (by decide) r.lon
    unfold AprsConfig.OneLine at hone
    simp only [List.mem_append, List.mem_cons, not_or] at hone
    obtain ⟨⟨hcall, hpre⟩, htable, hcode, hcomment⟩ := hone
    have hname : '\n' ∉ objectName cfg.objectNamePrefix r.issi := newline_objectName hpre
    simp [hlat, hlon, hcall, htable, hcode, hcomment, hname, newline_padded]

end Fields

/-- The second line of a radio is begun an interval after the first was done, or later. -/
def Spaced (interval : ℕ) (x y : PositionReport × Fate) : Prop :=
  ∀ text secs b e text' secs' b' e', x.2 = .sent text secs b e → y.2 = .sent text' secs' b' e' →
    x.1.issi = y.1.issi → e + interval ≤ b'

/-- Connections are not lost in quick succession. -/
def Paused (interval : ℕ) (x y : PositionReport × Fate) : Prop :=
  ∀ t t', x.2 = .lost t → y.2 = .lost t' → t + interval ≤ t'

/-- The report that has been taken and is not done. -/
def Link.inHand : Link → List PositionReport
  | .writing r _ _ _ => [r]
  | _ => []

/-- A connection is there or tried for. -/
def Link.Active : Link → Prop
  | .connecting | .up | .writing .. => True
  | _ => False

/-- What has become of reports. -/
structure Records (cfg : AprsConfig) (taken : List (PositionReport × Fate)) : Prop where
  lines : ∀ r text secs b e, (r, Fate.sent text secs b e) ∈ taken →
    b ≤ e ∧ ∃ name time lat lon, Shows cfg r secs text name time lat lon
  spaced : taken.Pairwise (Spaced cfg.minInterval)
  skipped : ∀ r t, (r, Fate.skipped t) ∈ taken → ∃ r' text secs b e,
    (r', Fate.sent text secs b e) ∈ taken ∧ r'.issi = r.issi ∧ e ≤ t ∧ t < e + cfg.minInterval
  paused : taken.Pairwise (Paused cfg.interval)
  drained : ∀ x ∈ taken, x.2 = .drained ↔ cfg.configured = false

theorem Records.nil (cfg : AprsConfig) : Records cfg [] where
  lines _ _ _ _ _ hm := nomatch hm
  spaced := .nil
  skipped _ _ hm := nomatch hm
  paused := .nil
  drained _ hm := nomatch hm

theorem pairwise_concat {α : Type} {R : α → α → Prop} {l : List α} {a : α} (h : l.Pairwise R) (ha : ∀ x ∈ l, R x a) :
    (l ++ [a]).Pairwise R :=
  List.pairwise_append.mpr ⟨h, List.pairwise_singleton R a, fun x hx _ hy => List.mem_singleton.mp hy ▸ ha x hx⟩

/-- A record of another fate was there before. -/
theorem mem_of_fate_ne {taken : List (PositionReport × Fate)} {x : PositionReport × Fate} {r : PositionReport} {fate : Fate}
    (hx : x ∈ taken ++ [(r, fate)]) (hne : fate ≠ x.2) : x ∈ taken :=
  (List.mem_append.mp hx).resolve_right fun hr => hne (congrArg Prod.snd (List.mem_singleton.mp hr)).symm

/-- One report more. -/
theorem Records.concat {cfg : AprsConfig} {taken : List (PositionReport × Fate)} (h : Records cfg taken)
    (r : PositionReport) {fate : Fate}
    (hsent : ∀ text secs b e, fate = .sent text secs b e →
      (b ≤ e ∧ ∃ name time lat lon, Shows cfg r secs text name time lat lon) ∧
        ∀ r' text' secs' b' e', (r', Fate.sent text' secs' b' e') ∈ taken → r'.issi = r.issi → e' + cfg.minInterval ≤ b)
    (hskipped : ∀ t, fate = .skipped t → ∃ r' text secs b e,
      (r', Fate.sent text secs b e) ∈ taken ∧ r'.issi = r.issi ∧ e ≤ t ∧ t < e + cfg.minInterval)
    (hlost : ∀ t, fate = .lost t → ∀ x ∈ taken, ∀ t', x.2 = .lost t' → t' + cfg.interval ≤ t)
    (hdrained : fate = .drained ↔ cfg.configured = false) : Records cfg (taken ++ [(r, fate)]) where
  lines r' text secs b e hm := by
    rcases List.mem_append.mp hm with hm | hm
    · exact h.lines r' text secs b e hm
    · obtain ⟨rfl, hfate⟩ := Prod.mk.inj (List.mem_singleton.mp hm)
      exact (hsent text secs b e hfate.symm).1
  spaced := pairwise_concat h.spaced fun ⟨r', fate'⟩ hx text' secs' b' e' text secs b e hx' hfate hsame => by
    obtain rfl : fate' = _ := hx'
    exact (hsent text secs b e hfate).2 r' text' secs' b' e' hx hsame
  skipped r' t hm := by
    have hwiden : (∃ r'' text secs b e, (r'', Fate.sent text secs b e) ∈ taken ∧ r''.issi = r'.issi ∧ e ≤ t ∧
        t < e + cfg.minInterval) → ∃ r'' text secs b e, (r'', Fate.sent text secs b e) ∈ taken ++ [(r, fate)] ∧
        r''.issi = r'.issi ∧ e ≤ t ∧ t < e + cfg.minInterval := by
      rintro ⟨r'', text, secs, b, e, hmem, hrest⟩
      exact ⟨r'', text, secs, b, e, List.mem_append_left _ hmem, hrest⟩
    rcases List.mem_append.mp hm with hm | hm
    · exact hwiden (h.skipped r' t hm)
    · obtain ⟨rfl, hfate⟩ := Prod.mk.inj (List.mem_singleton.mp hm)
      exact hwiden (hskipped t hfate.symm)
  paused := pairwise_concat h.paused fun x hx t' t hx' hfate => hlost t hfate x hx t' hx'
  drained x hx := by
    rcases List.mem_append.mp hx with hx | hx
    · exact h.drained x hx
    · rw [List.mem_singleton.mp hx]
      exact hdrained

namespace Forwarder

/-- What the task has done with the reports. -/
structure Forwarded (cfg : AprsConfig) (f : Forwarder) : Prop extends Records cfg f.taken where
  order : f.offered = f.taken.map Prod.fst ++ f.link.inHand ++ f.queue

/-- What the task knows of what it has done. -/
structure Sound (cfg : AprsConfig) (f : Forwarder) : Prop extends Forwarded cfg f where
  known : ∀ r text secs b e, (r, Fate.sent text secs b e) ∈ f.taken →
    ∃ last, f.lastSent[r.issi]? = some last ∧ e ≤ last
  last : ∀ (issi : UInt32) (last : ℕ), f.lastSent[issi]? = some last →
    last ≤ f.now ∧ ∃ r text secs b, (r, Fate.sent text secs b last) ∈ f.taken ∧ r.issi = issi
  hand : ∀ r text secs b, f.link = .writing r text secs b →
    b ≤ f.now ∧ (∃ name time lat lon, Shows cfg r secs text name time lat lon) ∧
      ∀ last, f.lastSent[r.issi]? = some last → last + cfg.minInterval ≤ b
  active : f.link.Active → ∀ x ∈ f.taken, ∀ t, x.2 = .lost t → t + cfg.interval ≤ f.now
  waiting : ∀ till, f.link = .waiting till → ∀ x ∈ f.taken, ∀ t, x.2 = .lost t → t + cfg.interval ≤ till
  past : ∀ x ∈ f.taken, ∀ t, x.2 = .lost t → t ≤ f.now
  draining : f.link ≠ .ended → (f.link = .draining ↔ cfg.configured = false)

section Steps

variable {cfg : AprsConfig} {f : Forwarder}

theorem sound_start (cfg : AprsConfig) (now : ℕ) : (start cfg now).Sound cfg := by
  have hlink : (start cfg now).link = .draining ∨ (start cfg now).link = .connecting := by
    unfold start
    dsimp only
    split_ifs
    · exact .inr rfl
    · exact .inl rfl
  refine { toRecords := .nil cfg, order := ?_, known := fun _ _ _ _ _ hm => (nomatch hm),
           last := fun issi last hl => by simp [start] at hl, hand := fun _ _ _ _ hl => ?_,
           active := fun _ _ hm => (nomatch hm), waiting := fun _ _ _ hm => (nomatch hm), past := fun _ hm => (nomatch hm),
           draining := fun _ => ?_ }
  · rcases hlink with hlink | hlink <;> rw [hlink] <;> rfl
  · rcases hlink with hlink | hlink <;> rw [hlink] at hl <;> cases hl
  · unfold start
    dsimp only
    cases cfg.configured <;> simp

/-- Time goes by. -/
theorem Sound.tick (h : f.Sound cfg) {now : ℕ} (hnow : f.now ≤ now) : Sound cfg { f with now } where
  toRecords := h.toRecords
  order := h.order
  known := h.known
  last issi last hl := ⟨(h.last issi last hl).1.trans hnow, (h.last issi last hl).2⟩
  hand r text secs b hl := ⟨(h.hand r text secs b hl).1.trans hnow, (h.hand r text secs b hl).2⟩
  active hl x hx t ht := (h.active hl x hx t ht).trans hnow
  waiting := h.waiting
  past x hx t ht := (h.past x hx t ht).trans hnow
  draining := h.draining

theorem Sound.report (h : f.Sound cfg) (r : PositionReport) : (f.report r).Sound cfg :=
  { h with
    order := by
      change f.offered ++ [r] = f.taken.map Prod.fst ++ f.link.inHand ++ (f.queue ++ [r])
      rw [h.order, List.append_assoc] }

/-- The connection is given up, or comes up, with nothing in hand. -/
theorem Sound.relink (h : f.Sound cfg) {link : Link} (hhand : f.link.inHand = []) (hnew : link.inHand = [])
    (hdrain : link = .ended ∨ link ≠ .draining ∧ f.link ≠ .draining ∧ f.link ≠ .ended)
    (hactive : link.Active → ∀ x ∈ f.taken, ∀ t, x.2 = .lost t → t + cfg.interval ≤ f.now)
    (hwait : ∀ till, link = .waiting till → ∀ x ∈ f.taken, ∀ t, x.2 = .lost t → t + cfg.interval ≤ till) :
    Sound cfg { f with link } where
  toRecords := h.toRecords
  order := by
    have horder := h.order
    rw [hhand] at horder
    rw [hnew]
    exact horder
  known := h.known
  last := h.last
  hand r text secs b hl := by
    dsimp only at hl
    rw [hl] at hnew
    cases hnew
  active := hactive
  waiting := hwait
  past := h.past
  draining hlive := by
    obtain ⟨hnew, hold, hlive⟩ := hdrain.resolve_left hlive
    exact iff_of_false hnew fun hc => hold ((h.draining hlive).mpr hc)

theorem Sound.pause (h : f.Sound cfg) (hhand : f.link.inHand = []) (hnot : f.link ≠ .draining) (hlive : f.link ≠ .ended) :
    (f.pause cfg).Sound cfg :=
  h.relink hhand rfl (.inr ⟨by simp, hnot, hlive⟩) False.elim fun till htill x hx t ht => by
    obtain rfl := Link.waiting.inj htill
    exact Nat.add_le_add_right (h.past x hx t ht) _

/-- Only a task that is not configured drains. -/
theorem Sound.configured (h : f.Sound cfg) (hnot : f.link ≠ .draining) (hlive : f.link ≠ .ended) :
    ¬ cfg.configured = false := fun hc => hnot ((h.draining hlive).mpr hc)

/-- The last line of a radio stays on record. -/
theorem Sound.last_append (h : f.Sound cfg) (more : List (PositionReport × Fate)) {issi : UInt32} {last : ℕ}
    (hl : f.lastSent[issi]? = some last) :
    last ≤ f.now ∧ ∃ r text secs b, (r, Fate.sent text secs b last) ∈ f.taken ++ more ∧ r.issi = issi := by
  obtain ⟨hle, r, text, secs, b, hm, hissi⟩ := h.last issi last hl
  exact ⟨hle, r, text, secs, b, List.mem_append_left more hm, hissi⟩

/-- The next of the queue is taken, and nothing is written. -/
theorem Sound.pass (h : f.Sound cfg) {r : PositionReport} {rest : List PositionReport} {fate : Fate}
    (hhand : f.link.inHand = []) (hqueue : f.queue = r :: rest) (hsent : ∀ text secs b e, fate ≠ .sent text secs b e)
    (hlost : ∀ t, fate ≠ .lost t) (hrecords : Records cfg (f.taken ++ [(r, fate)])) :
    Sound cfg { f with queue := rest, taken := f.taken ++ [(r, fate)] } where
  toRecords := hrecords
  order := by
    have horder := h.order
    simp only [hhand, hqueue, List.append_nil, List.map_append, List.map_cons, List.map_nil, List.append_assoc,
      List.singleton_append] at horder ⊢
    exact horder
  known r' text secs b e hm := h.known r' text secs b e (mem_of_fate_ne hm (hsent _ _ _ _))
  last issi last hl := h.last_append _ hl
  hand := h.hand
  active hl x hx t ht := h.active hl x (mem_of_fate_ne hx (ht ▸ hlost t)) t ht
  waiting till hl x hx t ht := h.waiting till hl x (mem_of_fate_ne hx (ht ▸ hlost t)) t ht
  past x hx t ht := h.past x (mem_of_fate_ne hx (ht ▸ hlost t)) t ht
  draining := h.draining

theorem recent_iff {issi : UInt32} {now : ℕ} : f.recent cfg issi now = true ↔
    0 < cfg.minReportIntervalSeconds ∧ ∃ last, f.lastSent[issi]? = some last ∧ now - last < cfg.minInterval := by
  unfold recent
  simp [Option.any_eq_true]

/-- The next of the queue is taken with a connection. -/
theorem Sound.take (h : f.Sound cfg) {r : PositionReport} {rest : List PositionReport} (hup : f.link = .up)
    (hqueue : f.queue = r :: rest) (secs : UInt64) : ({ f with queue := rest }.take cfg r secs).Sound cfg := by
  have hon := h.configured (by rw [hup]; simp) (by rw [hup]; simp)
  unfold Forwarder.take
  split
  · next hrecent =>
    change f.recent cfg r.issi f.now = true at hrecent
    obtain ⟨-, last, hlast, hlt⟩ := recent_iff.mp hrecent
    obtain ⟨hle, r', text, secs', b, hm, hissi⟩ := h.last r.issi last hlast
    refine h.pass (by rw [hup]; rfl) hqueue (by simp) (by simp) (h.toRecords.concat r (by simp) ?_ (by simp)
      (iff_of_false (by simp) hon))
    intro t ht
    obtain rfl := Fate.skipped.inj ht
    exact ⟨r', text, secs', b, last, hm, hissi, hle, by change f.now < last + cfg.minInterval; omega⟩
  · next hrecent =>
    change ¬ f.recent cfg r.issi f.now = true at hrecent
    have hspace (last : ℕ) (hlast : f.lastSent[r.issi]? = some last) : last + cfg.minInterval ≤ f.now := by
      have hle := (h.last r.issi last hlast).1
      rcases Nat.eq_zero_or_pos cfg.minReportIntervalSeconds.toNat with hzero | hpos
      · have hnone : cfg.minInterval = 0 := by
          unfold AprsConfig.minInterval
          rw [hzero, Nat.zero_mul]
        omega
      · have hfar : ¬ f.now - last < cfg.minInterval := fun hlt =>
          hrecent (recent_iff.mpr ⟨UInt64.lt_iff_toNat_lt.mpr hpos, last, hlast, hlt⟩)
        omega
    obtain ⟨text, name, time, lat, lon, htext, hshows⟩ := shows_of_build cfg r secs
    rw [htext]
    exact {
      toRecords := h.toRecords
      order := by
        have horder := h.order
        simp only [hup, hqueue, Link.inHand, List.append_nil, List.append_assoc, List.singleton_append] at horder ⊢
        exact horder
      known := h.known
      last := h.last
      hand := fun r' text' secs' b hl => by
        obtain ⟨rfl, rfl, rfl, rfl⟩ := Link.writing.inj hl
        exact ⟨le_refl _, ⟨name, time, lat, lon, hshows⟩, hspace⟩
      active := fun _ => h.active (by rw [hup]; trivial)
      waiting := fun till hl => nomatch hl
      past := h.past
      draining := fun _ => iff_of_false (by simp) hon }

theorem Sound.recv (h : f.Sound cfg) (hlink : f.link = .draining ∨ f.link = .up) (secs : UInt64) :
    (f.recv cfg secs).Sound cfg := by
  have hhand : f.link.inHand = [] := by rcases hlink with hlink | hlink <;> rw [hlink] <;> rfl
  unfold Forwarder.recv
  split
  · exact h.relink hhand rfl (.inl rfl) False.elim fun till htill => nomatch htill
  · next r rest hqueue =>
    dsimp only
    rcases hlink with hlink | hlink
    · rw [hlink]
      have hoff : cfg.configured = false := (h.draining (by rw [hlink]; simp)).mp hlink
      have hpass : Sound cfg { f with queue := rest, taken := f.taken ++ [(r, .drained)] } :=
        h.pass hhand hqueue (by simp) (by simp)
          (h.toRecords.concat r (by simp) (by simp) (by simp) (iff_of_true rfl hoff))
      rw [hlink] at hpass
      exact hpass
    · have htake := h.take hlink hqueue secs
      rw [hlink] at htake ⊢
      exact htake

theorem Sound.wrote (h : f.Sound cfg) : f.wrote.Sound cfg := by
  unfold Forwarder.wrote
  split
  · next r text secs b hlink =>
    obtain ⟨hle, hshows, hspace⟩ := h.hand r text secs b hlink
    have hon := h.configured (by rw [hlink]; simp) (by rw [hlink]; simp)
    have hmem {x : PositionReport × Fate} (hx : x ∈ f.taken ++ [(r, .sent text secs b f.now)]) {t : ℕ}
        (hlost : x.2 = .lost t) : x ∈ f.taken := mem_of_fate_ne hx (by rw [hlost]; simp)
    exact {
      toRecords := h.toRecords.concat r
        (fun text' secs' b' e hfate => by
          obtain ⟨rfl, rfl, rfl, rfl⟩ := Fate.sent.inj hfate
          refine ⟨⟨hle, hshows⟩, fun r' text' secs' b' e' hm hissi => ?_⟩
          obtain ⟨last, hlast, hbefore⟩ := h.known r' text' secs' b' e' hm
          exact (Nat.add_le_add_right hbefore _).trans (hspace last (hissi ▸ hlast)))
        (by simp) (by simp) (iff_of_false (by simp) hon)
      order := by
        have horder := h.order
        simp only [hlink, Link.inHand, List.append_nil, List.map_append, List.map_cons, List.map_nil] at horder ⊢
        exact horder
      known := fun r' text' secs' b' e hm => by
        dsimp only
        rw [FinMap.getElem?_insert]
        rcases List.mem_append.mp hm with hm | hm
        · obtain ⟨last, hlast, hbefore⟩ := h.known r' text' secs' b' e hm
          split_ifs with hsame
          · exact ⟨f.now, rfl, hbefore.trans (h.last r'.issi last hlast).1⟩
          · exact ⟨last, hlast, hbefore⟩
        · obtain ⟨rfl, hfate⟩ := Prod.mk.inj (List.mem_singleton.mp hm)
          obtain ⟨rfl, rfl, rfl, rfl⟩ := Fate.sent.inj hfate
          exact ⟨_, if_pos rfl, le_refl _⟩
      last := fun issi last hl => by
        dsimp only at hl
        rw [FinMap.getElem?_insert] at hl
        split_ifs at hl with hsame
        · obtain rfl := Option.some.inj hl
          exact ⟨le_refl _, r, text, secs, b, List.mem_append_right _ (List.mem_singleton_self _), hsame⟩
        · exact h.last_append _ hl
      hand := fun _ _ _ _ hl => nomatch hl
      active := fun _ x hx t ht => h.active (by rw [hlink]; trivial) x (hmem hx ht) t ht
      waiting := fun _ hl => nomatch hl
      past := fun x hx t ht => h.past x (hmem hx ht) t ht
      draining := fun _ => iff_of_false (by simp) hon }
  · exact h

theorem Sound.failed (h : f.Sound cfg) : (f.failed cfg).Sound cfg := by
  unfold Forwarder.failed
  split
  · next r text secs b hlink =>
    have hon := h.configured (by rw [hlink]; simp) (by rw [hlink]; simp)
    have hactive := h.active (by rw [hlink]; trivial)
    have hpast {x : PositionReport × Fate} (hx : x ∈ f.taken ++ [(r, .lost f.now)]) {t : ℕ} (ht : x.2 = .lost t) :
        t ≤ f.now := by
      rcases List.mem_append.mp hx with hx | hx
      · exact h.past x hx t ht
      · rw [List.mem_singleton.mp hx] at ht
        exact (Fate.lost.inj ht).ge
    exact {
      toRecords := h.toRecords.concat r (by simp) (by simp)
        (fun t ht x hx t' hx' => by
          obtain rfl := Fate.lost.inj ht
          exact hactive x hx t' hx') (iff_of_false (by simp) hon)
      order := by
        have horder := h.order
        simp only [Forwarder.pause, hlink, Link.inHand, List.append_nil, List.map_append, List.map_cons,
          List.map_nil] at horder ⊢
        exact horder
      known := fun r' text' secs' b' e hm => h.known r' text' secs' b' e (mem_of_fate_ne hm (by simp))
      last := fun issi last hl => h.last_append _ hl
      hand := fun _ _ _ _ hl => nomatch hl
      active := False.elim
      waiting := fun till hl x hx t ht => by
        obtain rfl := Link.waiting.inj hl
        exact Nat.add_le_add_right (hpast hx ht) _
      past := fun x hx t ht => hpast hx ht
      draining := fun _ => iff_of_false (by simp [Forwarder.pause]) hon }
  · exact h

theorem Sound.next (h : f.Sound cfg) {e : Event} (hok : f.Allowed e) : (f.next cfg e).Sound cfg := by
  cases e with
  | report r now => exact (h.tick hok.1).report r
  | close => exact { h with }
  | connect ok now =>
    obtain ⟨hnow, hlink⟩ := hok
    have hhand : f.link.inHand = [] := by rw [hlink]; rfl
    have htick := h.tick hnow
    cases ok with
    | false => exact htick.pause hhand (by rw [hlink]; simp) (by rw [hlink]; simp)
    | true =>
      exact htick.relink hhand rfl (.inr ⟨by simp, by rw [hlink]; simp, by rw [hlink]; simp⟩)
        (fun _ => htick.active (by rw [hlink]; trivial)) fun till hl => nomatch hl
  | recv now secs => exact (h.tick hok.1).recv hok.2.1 secs
  | wrote now => exact (h.tick hok.1).wrote
  | failed now => exact (h.tick hok.1).failed
  | dropped now =>
    obtain ⟨hnow, hlink⟩ := hok
    exact (h.tick hnow).pause (by rw [hlink]; rfl) (by rw [hlink]; simp) (by rw [hlink]; simp)
  | wake now =>
    obtain ⟨hnow, hdue⟩ := hok
    obtain ⟨till, hlink, htill⟩ : ∃ till, f.link = .waiting till ∧ till ≤ now := by
      unfold Link.due at hdue
      split at hdue
      · next till hlink => exact ⟨till, hlink, of_decide_eq_true hdue⟩
      · cases hdue
    exact (h.tick hnow).relink (by rw [hlink]; rfl) rfl (.inr ⟨by simp, by rw [hlink]; simp, by rw [hlink]; simp⟩)
      (fun _ x hx t ht => (h.waiting till hlink x hx t ht).trans htill) fun till' hl => nomatch hl

end Steps

/-- Whatever the connection does, reports are sent on in their order, and no radio too often. -/
theorem forwarded_of_reach {cfg : AprsConfig} {now : ℕ} {f : Forwarder}
    (h : Reach (start cfg now) Allowed (next cfg) f) : f.Forwarded cfg :=
  (h.invariant (P := Sound cfg) (sound_start cfg now) fun _ _ hf hok => hf.next hok).toForwarded

/-- A radio is reported, and again too soon; the next line is lost with the connection. -/
def gateway : AprsConfig :=
  { enabled := true, callsign := "MYCALL-10".toList, passcode := "12345".toList, comment := "TETRA MS".toList }

def athens (issi : UInt32) : PositionReport := { issi, lat := 37.9917, lon := 23.764 }

def reconnecting : List Event :=
  [.report (athens 90) 0, .connect true 1, .recv 2 951868799, .wrote 3, .report (athens 90) 4, .report (athens 91) 5,
    .recv 6 951868799, .recv 7 951868799, .failed 8, .wake (9 + 15 * 10 ^ 9)]

theorem forwarded_reconnecting : (reconnecting.foldl (next gateway) (start gateway 0)).Forwarded gateway :=
  forwarded_of_reach (.of_list reconnecting .init (by decide +kernel))

example : buildObjectPacket gateway (athens 90) 951868799 =
    some "MYCALL-10>APRS,TCPIP*:;MS90     *292359z3759.50N/02345.84EjTETRA MS\r\n".toList := by decide +kernel

end Forwarder

end BrewServer.Aprs
