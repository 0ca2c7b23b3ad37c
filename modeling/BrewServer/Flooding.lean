import BrewServer.Fedroute.AdvertWire
import BrewServer.Fedroute.Handle
import BrewServer.Lib.Flood
import Mathlib.Data.Bool.AllAny

/-!
# Position and emergency adverts across a network

Basestation positions, emergency alarms and mobile station positions flood a network of
loop-safe servers. Each server is the model's own, handed the bytes its neighbours queued;
a run of the network is a run of the flooding of `Lib.Flood`.
-/

namespace BrewServer.Flooding

open Fedroute Protocol

/-- Newer adverts have greater numbers. -/
local instance seqOrder : LinearOrder UInt64 where
  toLE := inferInstance
  toLT := inferInstance
  le_refl := UInt64.le_refl
  le_trans _ _ _ := UInt64.le_trans
  le_antisymm _ _ := UInt64.le_antisymm
  le_total := UInt64.le_total
  lt_iff_le_not_ge a b := by
    rw [UInt64.not_le]
    exact ⟨fun h => ⟨UInt64.le_of_lt h, h⟩, fun h => h.2⟩
  toDecidableLE := inferInstance

/-! ## Adverts of every kind -/

/-- What an advert is about. -/
inductive Topic
  | bts (origin : UInt64) (key : String)
  | em (origin : UInt64) (issi : UInt32)
  | ms (issi : UInt32)
  deriving DecidableEq

/-- The one server that advertises on a topic. -/
def Topic.owner : Topic → Option UInt64
  | .bts origin _ => some origin
  | .em origin _ => some origin
  | .ms _ => none

/-- What an advert tells. An alarm has no position, a position no called party. -/
structure Report where
  text : String
  lat : F64
  lon : F64
  dest : Option UInt32
  live : Bool
  deriving DecidableEq

/-- A report as it arrives. -/
def Report.wire (r : Report) : Report := { r with text := clipText r.text, dest := wireDest r.dest }

/-- The message of an advert. -/
def encode (t : Topic) (seq : UInt64) (r : Report) (path : List UInt64) : Bytes :=
  match t with
  | .bts _ key => buildBts { key, name := r.text, lat := r.lat, lon := r.lon, online := r.live, seq, path }
  | .em _ issi => buildEmergency { issi, dest := r.dest, bts := r.text, active := r.live, seq, path }
  | .ms issi => buildMsPos { issi, lat := r.lat, lon := r.lon, atMs := seq, station := r.text, path }

/-- What a server has learned about a topic, with its number. -/
def heldBy (s : Inner) : Topic → Option (UInt64 × Report)
  | .bts origin key => (s.fed.btsRemote[(origin, key)]?).map fun b =>
      (b.seq, Report.wire { text := b.name, lat := b.lat, lon := b.lon, dest := none, live := b.online })
  | .em origin issi => (s.fed.emRemote[(origin, issi)]?).map fun e =>
      (e.seq, Report.wire { text := e.bts, lat := 0, lon := 0, dest := e.dest, live := e.active })
  | .ms issi => (s.fed.msPos[issi]?).map fun e =>
      (e.atMs, Report.wire { text := e.station, lat := e.lat, lon := e.lon, dest := none, live := true })

/-- What the reports on a topic look like when they arrive. -/
def Fits (t : Topic) (r : Report) : Prop :=
  r.wire = r ∧
    match t with
    | .bts _ key => (utf8Bytes key).length ≤ maxBtsText ∧ (r.live = true → validPosition r.lat r.lon = true) ∧ r.dest = none
    | .em _ _ => r.lat = 0 ∧ r.lon = 0
    | .ms _ => validPosition r.lat r.lon = true ∧ r.dest = none ∧ r.live = true

theorem getD_wireDest (dest : Option UInt32) : (wireDest dest).getD 0 = dest.getD 0 := by
  unfold wireDest
  split
  · rfl
  · next h => rw [not_not.mp h, Option.getD_none]

theorem wireDest_wireDest (dest : Option UInt32) : wireDest (wireDest dest) = wireDest dest := by
  rw [wireDest, getD_wireDest, wireDest]

theorem Report.wire_wire (r : Report) : r.wire.wire = r.wire := by
  simp only [Report.wire, clipText_clipText, wireDest_wireDest]

/-- What is sent of a report is what arrives. -/
theorem encode_wire (t : Topic) (seq : UInt64) (r : Report) : encode t seq r.wire = encode t seq r := by
  funext path
  cases t with
  | bts origin key => simp only [encode, Report.wire, buildBts, clip_clipText]
  | em origin issi => simp only [encode, Report.wire, buildEmergency, clip_clipText, getD_wireDest]
  | ms issi => simp only [encode, Report.wire, buildMsPos, clip_clipText]

/-- The links that an advert on a topic goes to. -/
def linksFor (s : Inner) : Topic → FinSet ClientId
  | .bts _ _ => s.fed.btsLinks
  | .em _ _ => s.fed.emLinks
  | .ms _ => s.fed.msLinks

/-- A report learned over `path`. -/
def learn (s : Inner) (nowMs : UInt64) (t : Topic) (seq : UInt64) (r : Report) (path : List UInt64) : Inner :=
  match t with
  | .bts origin key =>
    let entry : RemoteBts := { name := r.text, lat := r.lat, lon := r.lon, online := r.live, seq, path, seenMs := nowMs }
    { s with fed := { s.fed with btsRemote := s.fed.btsRemote.insert (origin, key) entry } }
  | .em origin issi =>
    let entry : RemoteEm := { dest := r.dest, bts := r.text, active := r.live, seq, path, seenMs := nowMs }
    { s with fed := { s.fed with emRemote := s.fed.emRemote.insert (origin, issi) entry } }
  | .ms issi =>
    let entry : MsEntry := { lat := r.lat, lon := r.lon, atMs := seq, station := r.text, path }
    { s with fed := { s.fed with msPos := s.fed.msPos.insert issi entry } }

/-- What is learned of one topic leaves the others alone. -/
theorem heldBy_learn {s : Inner} {nowMs : UInt64} {t : Topic} {seq : UInt64} {r : Report} {path : List UInt64}
    (hfits : Fits t r) (t' : Topic) :
    heldBy (learn s nowMs t seq r path) t' = if t' = t then some (seq, r) else heldBy s t' := by
  obtain ⟨text, lat, lon, dest, live⟩ := r
  obtain ⟨hwire, hkind⟩ := hfits
  cases t with
  | bts origin key =>
    obtain ⟨-, -, rfl⟩ := hkind
    cases t' with
    | bts origin' key' =>
      simp only [heldBy, learn, FinMap.getElem?_insert, Prod.mk.injEq, Topic.bts.injEq, eq_comm (a := origin),
        eq_comm (a := key)]
      split <;> simp [hwire]
    | _ => rfl
  | em origin issi =>
    obtain ⟨rfl, rfl⟩ := hkind
    cases t' with
    | em origin' issi' =>
      simp only [heldBy, learn, FinMap.getElem?_insert, Prod.mk.injEq, Topic.em.injEq, eq_comm (a := origin),
        eq_comm (a := issi)]
      split <;> simp [hwire]
    | _ => rfl
  | ms issi =>
    obtain ⟨-, rfl, rfl⟩ := hkind
    cases t' with
    | ms issi' =>
      simp only [heldBy, learn, FinMap.getElem?_insert, Topic.ms.injEq, eq_comm (a := issi)]
      split <;> simp [hwire]
    | _ => rfl

theorem fromSelf_eq {s : Inner} {path : List UInt64} : fromSelf s path = decide (s.fed.selfId ∈ path) := by
  rw [Bool.eq_iff_iff, fromSelf, Bool.or_eq_true, beq_iff_eq, List.contains_iff_mem, decide_eq_true_eq]
  exact ⟨fun h => h.elim List.mem_of_getLast? id, .inr⟩

/-- A server takes in an advert that did not go through it and is newer than what it
holds, and passes it on. -/
theorem handle_encode {s : Inner} {nowMs : UInt64} {link : ClientId} {nbrId : UInt64} {t : Topic} {seq : UInt64}
    {r : Report} {path : List UInt64} (hlink : s.fed.links[link]? = some nbrId) (hpath : PathFrom nbrId path)
    (hfits : Fits t r) (howner : ∀ o, t.owner = some o → path.getLast? = some o) :
    handle s nowMs link (encode t seq r path) =
      if s.fed.selfId ∈ path ∨ (heldBy s t).any (seq ≤ ·.1) then (s, [], none)
      else
        let s' := learn s nowMs t seq r path
        (s', relay s' (linksFor s' t) (some link) path (encode t seq r), none) := by
  obtain ⟨text, lat, lon, dest, live⟩ := r
  obtain ⟨hwire, hkind⟩ := hfits
  simp only [Report.wire, Report.mk.injEq, true_and, and_true] at hwire
  obtain ⟨htext, hdest⟩ := hwire
  obtain ⟨last, hlast⟩ : ∃ last, path.getLast? = some last :=
    Option.isSome_iff_exists.mp (List.getLast?_isSome.mpr (List.ne_nil_of_length_pos hpath.pos))
  cases t with
  | bts origin key =>
    obtain ⟨hshort, hvalid, rfl⟩ := hkind
    obtain rfl : last = origin := Option.some.inj (hlast.symm.trans (howner origin rfl))
    have hunusable : (live && !validPosition lat lon) = false := by
      cases live with
      | false => rfl
      | true => rw [hvalid rfl]; rfl
    have hparse := parse_buildBts { key, name := text, lat, lon, online := live, seq, path } hpath
    simp only [handle, hlink, encode, hparse, handleMessage, acceptBts, hlast, fromSelf_eq, htext,
      clipText_of_short hshort, hunusable, heldBy, Option.any_map, relayBts, learn, linksFor]
    by_cases hself : s.fed.selfId ∈ path
    · simp [hself]
    · cases (s.fed.btsRemote[(last, key)]?).any (seq ≤ ·.seq) with
      | true => simp [hself]
      | false =>
        simp only [hself, decide_false, Bool.false_eq_true, or_false, ite_false]
        rfl
  | em origin issi =>
    obtain ⟨rfl, rfl⟩ := hkind
    obtain rfl : last = origin := Option.some.inj (hlast.symm.trans (howner origin rfl))
    have hparse := parse_buildEmergency { issi, dest, bts := text, active := live, seq, path } hpath
    simp only [handle, hlink, encode, hparse, handleMessage, acceptEm, hlast, fromSelf_eq, htext,
      hdest, heldBy, Option.any_map, relayEm, learn, linksFor]
    by_cases hself : s.fed.selfId ∈ path
    · simp [hself]
    · cases (s.fed.emRemote[(last, issi)]?).any (seq ≤ ·.seq) with
      | true => simp [hself]
      | false =>
        simp only [hself, decide_false, Bool.false_eq_true, or_false, ite_false]
        rfl
  | ms issi =>
    obtain ⟨hvalid, rfl, rfl⟩ := hkind
    have hparse := parse_buildMsPos { issi, lat, lon, atMs := seq, station := text, path } hpath
    simp only [handle, hlink, encode, hparse, handleMessage, acceptMs, hlast, fromSelf_eq, htext,
      hvalid, heldBy, Option.any_map, relayMs, learn, linksFor]
    by_cases hself : s.fed.selfId ∈ path
    · simp [hself]
    · cases (s.fed.msPos[issi]?).any (seq ≤ ·.atMs) with
      | true => simp [hself]
      | false =>
        simp only [hself, decide_false, Bool.false_eq_true, or_false, ite_false]
        rfl

/-! ## Servers of a network -/

/-- How the servers of a network are linked. -/
abbrev Graph := Flood.Graph UInt64 ClientId

/-- The links of server `n` are those of the network, and each announced every kind of
advert. -/
structure Wired (G : Graph) (n : UInt64) (s : Inner) : Prop where
  self : s.fed.selfId = n
  links : ∀ t, (linksFor s t).toList = G.links n
  neighbour : ∀ l ∈ G.links n, s.fed.links[l]? = some (G.far n l).1
  attached : ∀ l ∈ G.links n, l ∈ s.clients

/-- What is the same of two states of a server that differ in adverts only. -/
structure SameLinks (s s' : Inner) : Prop where
  self : s'.fed.selfId = s.fed.selfId
  links : ∀ t, linksFor s' t = linksFor s t
  neighbours : s'.fed.links = s.fed.links
  clients : s'.clients = s.clients

theorem Wired.congr {G : Graph} {n : UInt64} {s s' : Inner} (h : Wired G n s) (hs : SameLinks s s') : Wired G n s' where
  self := hs.self.trans h.self
  links t := by rw [hs.links, h.links]
  neighbour l hl := by rw [hs.neighbours, h.neighbour l hl]
  attached l hl := by
    rw [hs.clients]
    exact h.attached l hl

theorem sameLinks_learn (s : Inner) (nowMs : UInt64) (t : Topic) (seq : UInt64) (r : Report) (path : List UInt64) :
    SameLinks s (learn s nowMs t seq r path) := by
  cases t <;> exact ⟨rfl, fun t => by cases t <;> rfl, rfl, rfl⟩

/-- A server of the network passes an advert on as the flooding does. -/
theorem Wired.relay_eq {G : Graph} (hlimit : G.limit = maxPath) {n : UInt64} {s : Inner} (h : Wired G n s) (t : Topic)
    (except : Option ClientId) (path : List UInt64) (build : List UInt64 → Bytes) :
    relay s (linksFor s t) except path build =
      (Flood.passLinks G n except path).map fun l => (l, build (n :: path)) := by
  unfold relay Flood.passLinks
  rw [hlimit, h.links t]
  split
  · rfl
  · obtain ⟨ls, hls, hsub⟩ : ∃ ls, G.links n = ls ∧ ls ⊆ G.links n := ⟨_, rfl, List.Subset.refl _⟩
    rw [hls]
    clear hls
    induction ls with
    | nil => rfl
    | cons l ls ih =>
      have hl : l ∈ G.links n := hsub List.mem_cons_self
      rw [List.flatMap_cons, ih (List.subset_of_cons_subset hsub), List.filter_cons, h.neighbour l hl, h.self]
      by_cases hex : some l = except
      · simp [hex]
      · by_cases hfar : (G.far n l).1 ∈ path
        · simp [hex, hfar]
        · simp [hex, hfar, Inner.send, h.attached l hl]

/-! ## Advertising -/

/-- What a server is asked to advertise. -/
inductive Advertisement
  | bts (key name : String) (lat lon : F64) (online : Bool)
  | em (issi : UInt32) (dest : Option UInt32) (bts : String) (active : Bool)
  | ms (issi : UInt32) (lat lon : F64) (atMs : UInt64) (station : String)
  deriving DecidableEq

def advertise (s : Inner) (nowMs : UInt64) : Advertisement → Inner × Sends
  | .bts key name lat lon online => advertiseBts s nowMs key name lat lon online
  | .em issi dest bts active => advertiseEmergency s nowMs issi dest bts active
  | .ms issi lat lon atMs station => advertiseMs s issi lat lon atMs station

/-- Positions are real fixes, and the key of a Basestation is sent in full. -/
def Advertisement.Valid : Advertisement → Prop
  | .bts key _ lat lon online => (utf8Bytes key).length ≤ maxBtsText ∧ (online = true → validPosition lat lon = true)
  | .em _ _ _ _ => True
  | .ms _ lat lon _ _ => validPosition lat lon = true

/-- The advert a server is to make: none to withdraw what it does not advertise. -/
def issued (s : Inner) (nowMs : UInt64) : Advertisement → Option (Topic × UInt64 × Report)
  | .bts key name lat lon online =>
    if online = true ∨ key ∈ s.fed.btsLocal then
      some (.bts s.fed.selfId key, nextSeq ((s.fed.btsLocal[key]?).map (·.seq)) nowMs,
        Report.wire { text := name, lat, lon, dest := none, live := online })
    else none
  | .em issi dest bts active =>
    if active = true ∨ issi ∈ s.fed.emLocal then
      some (.em s.fed.selfId issi, nextSeq ((s.fed.emLocal[issi]?).map (·.seq)) nowMs,
        Report.wire { text := bts, lat := 0, lon := 0, dest, live := active })
    else none
  | .ms issi lat lon atMs station =>
    some (.ms issi, atMs, Report.wire { text := station, lat, lon, dest := none, live := true })

/-- Whether an advert is sent: a position older than the one held is not. -/
def loud (s : Inner) (t : Topic) (seq : UInt64) : Bool := t.owner.isSome || !(heldBy s t).any (seq ≤ ·.1)

/-- What advertising does: the advert goes to every link, and only a position is also
held by the server that advertises it. -/
structure Advertises (s s' : Inner) (sends : Sends) (t : Topic) (seq : UInt64) (r : Report) : Prop where
  same : SameLinks s s'
  sends : sends = if loud s t seq = true then relay s' (linksFor s' t) none [] (encode t seq r) else []
  held : ∀ t', heldBy s' t' = if t' = t ∧ t.owner = none ∧ loud s t seq = true then some (seq, r) else heldBy s t'
  fits : Fits t r
  owner : ∀ o, t.owner = some o → o = s.fed.selfId

theorem advertise_none {s : Inner} {nowMs : UInt64} {a : Advertisement} (h : issued s nowMs a = none) :
    advertise s nowMs a = (s, []) := by
  cases a with
  | bts key name lat lon online =>
    simp only [issued, ite_eq_right_iff, reduceCtorEq, imp_false, not_or] at h
    simp [advertise, advertiseBts, h.1, h.2]
  | em issi dest bts active =>
    simp only [issued, ite_eq_right_iff, reduceCtorEq, imp_false, not_or] at h
    simp [advertise, advertiseEmergency, h.1, h.2]
  | ms => cases h

theorem relayBts_eq (s : Inner) (except : Option ClientId) (a : BtsAdvert) (origin : UInt64) :
    relayBts s except a = relay s (linksFor s (.bts origin a.key)) except a.path (encode (.bts origin a.key) a.seq
      { text := a.name, lat := a.lat, lon := a.lon, dest := none, live := a.online }) := rfl

theorem relayEm_eq (s : Inner) (except : Option ClientId) (a : EmAdvert) (origin : UInt64) :
    relayEm s except a = relay s (linksFor s (.em origin a.issi)) except a.path (encode (.em origin a.issi) a.seq
      { text := a.bts, lat := 0, lon := 0, dest := a.dest, live := a.active }) := rfl

theorem relayMs_eq (s : Inner) (except : Option ClientId) (a : MsAdvert) :
    relayMs s except a = relay s (linksFor s (.ms a.issi)) except a.path (encode (.ms a.issi) a.atMs
      { text := a.station, lat := a.lat, lon := a.lon, dest := none, live := true }) := rfl

theorem advertiseBts_eq {s : Inner} (nowMs : UInt64) {key : String} (name : String) {lat lon : F64} {online : Bool}
    (hv : online = true → validPosition lat lon = true) (hmade : online = true ∨ key ∈ s.fed.btsLocal) :
    ∃ s', SameLinks s s' ∧ (∀ t, heldBy s' t = heldBy s t) ∧
      advertiseBts s nowMs key name lat lon online =
        (s', relayBts s' none
          { key, name, lat, lon, online, seq := nextSeq ((s.fed.btsLocal[key]?).map (·.seq)) nowMs, path := [] }) := by
  unfold advertiseBts
  cases online with
  | true =>
    rw [if_pos rfl, hv rfl, Bool.not_true, if_neg Bool.false_ne_true]
    refine ⟨_, ?_, ?_, rfl⟩
    · exact ⟨rfl, fun t => by cases t <;> rfl, rfl, rfl⟩
    · intro t
      cases t <;> rfl
  | false =>
    rw [if_neg Bool.false_ne_true, if_neg (not_not.mpr (hmade.resolve_left Bool.false_ne_true))]
    refine ⟨_, ?_, ?_, rfl⟩
    · exact ⟨rfl, fun t => by cases t <;> rfl, rfl, rfl⟩
    · intro t
      cases t <;> rfl

theorem advertiseEmergency_eq {s : Inner} (nowMs : UInt64) {issi : UInt32} (dest : Option UInt32) (bts : String)
    {active : Bool} (hmade : active = true ∨ issi ∈ s.fed.emLocal) :
    ∃ s', SameLinks s s' ∧ (∀ t, heldBy s' t = heldBy s t) ∧
      advertiseEmergency s nowMs issi dest bts active =
        (s', relayEm s' none
          { issi, dest, bts, active, seq := nextSeq ((s.fed.emLocal[issi]?).map (·.seq)) nowMs, path := [] }) := by
  unfold advertiseEmergency
  cases active with
  | true =>
    rw [if_pos rfl]
    refine ⟨_, ?_, ?_, rfl⟩
    · exact ⟨rfl, fun t => by cases t <;> rfl, rfl, rfl⟩
    · intro t
      cases t <;> rfl
  | false =>
    rw [if_neg Bool.false_ne_true, if_neg (not_not.mpr (hmade.resolve_left Bool.false_ne_true))]
    refine ⟨_, ?_, ?_, rfl⟩
    · exact ⟨rfl, fun t => by cases t <;> rfl, rfl, rfl⟩
    · intro t
      cases t <;> rfl

theorem advertise_some {s : Inner} {nowMs : UInt64} {a : Advertisement} (hv : a.Valid) {t : Topic} {seq : UInt64}
    {r : Report} (h : issued s nowMs a = some (t, seq, r)) :
    Advertises s (advertise s nowMs a).1 (advertise s nowMs a).2 t seq r := by
  cases a with
  | bts key name lat lon online =>
    simp only [issued, Option.ite_none_right_eq_some, Option.some.injEq, Prod.mk.injEq] at h
    obtain ⟨hmade, rfl, rfl, rfl⟩ := h
    obtain ⟨s', hsame, hheld, heq⟩ := advertiseBts_eq nowMs name hv.2 hmade
    rw [advertise, heq]
    refine ⟨hsame, ?_, ?_, ?_, ?_⟩
    · rw [loud, Topic.owner, Option.isSome_some, Bool.true_or, if_pos rfl, encode_wire]
      dsimp only
      exact relayBts_eq _ _ _ s.fed.selfId
    · intro t'
      rw [if_neg fun hc => absurd hc.2.1 (Option.some_ne_none _), hheld]
    · exact ⟨Report.wire_wire _, hv.1, hv.2, rfl⟩
    · exact fun o ho => (Option.some.inj ho).symm
  | em issi dest bts active =>
    simp only [issued, Option.ite_none_right_eq_some, Option.some.injEq, Prod.mk.injEq] at h
    obtain ⟨hmade, rfl, rfl, rfl⟩ := h
    obtain ⟨s', hsame, hheld, heq⟩ := advertiseEmergency_eq nowMs dest bts hmade
    rw [advertise, heq]
    refine ⟨hsame, ?_, ?_, ?_, ?_⟩
    · rw [loud, Topic.owner, Option.isSome_some, Bool.true_or, if_pos rfl, encode_wire]
      dsimp only
      exact relayEm_eq _ _ _ s.fed.selfId
    · intro t'
      rw [if_neg fun hc => absurd hc.2.1 (Option.some_ne_none _), hheld]
    · exact ⟨Report.wire_wire _, rfl, rfl⟩
    · exact fun o ho => (Option.some.inj ho).symm
  | ms issi lat lon atMs station =>
    simp only [issued, Option.some.injEq, Prod.mk.injEq] at h
    obtain ⟨rfl, rfl, rfl⟩ := h
    have hv : validPosition lat lon = true := hv
    have hheld : (heldBy s (.ms issi)).any (atMs ≤ ·.1) = (s.fed.msPos[issi]?).any (atMs ≤ ·.atMs) := by
      simp only [heldBy, Option.any_map]
    simp only [advertise, advertiseMs, hv, Bool.not_true, Bool.false_eq_true, ite_false]
    split
    · next hold =>
      have hquiet : loud s (.ms issi) atMs = false := by
        rw [loud, hheld, hold]
        rfl
      refine ⟨⟨rfl, fun _ => rfl, rfl, rfl⟩, ?_, ?_, ⟨Report.wire_wire _, hv, rfl, rfl⟩, fun o ho => by cases ho⟩
      · rw [hquiet]
        rfl
      · intro t'
        rw [hquiet, if_neg fun hc => Bool.false_ne_true hc.2.2]
    · next hnew =>
      have hloud : loud s (.ms issi) atMs = true := by
        rw [loud, hheld, Bool.eq_false_iff.mpr hnew]
        rfl
      refine ⟨⟨rfl, fun t => by cases t <;> rfl, rfl, rfl⟩, ?_, ?_, ⟨Report.wire_wire _, hv, rfl, rfl⟩, fun o ho => by cases ho⟩
      · rw [if_pos hloud, encode_wire]
        dsimp only
        exact relayMs_eq _ _ _
      · intro t'
        rw [hloud]
        cases t' with
        | ms issi' =>
          simp only [heldBy, FinMap.getElem?_insert, Topic.ms.injEq, Topic.owner, and_true, eq_comm (a := issi)]
          split <;> rfl
        | _ => rfl

/-! ## The network -/

/-- A message that `sender` queued to its link `link`. -/
structure Packet where
  sender : UInt64
  link : ClientId
  raw : Bytes
  deriving DecidableEq

structure Network where
  servers : UInt64 → Inner
  flight : List Packet := []
  /-- Everything ever queued. -/
  log : List Packet := []
  /-- The adverts the servers were to make. -/
  adverts : List (Topic × UInt64 × Report) := []
  delivered : ℕ := 0

inductive Action
  | advertise (n nowMs : UInt64) (a : Advertisement)
  | deliver (nowMs : UInt64) (i : ℕ)
  deriving DecidableEq

namespace Network

/-- Server `n` goes to a new state and queues what it sends. -/
def put (net : Network) (n : UInt64) (s : Inner) (sends : Sends) : Network :=
  { net with
    servers := fun n' => if n' = n then s else net.servers n'
    flight := net.flight ++ sends.map fun m => { sender := n, link := m.1, raw := m.2 }
    log := net.log ++ sends.map fun m => { sender := n, link := m.1, raw := m.2 } }

theorem put_same (net : Network) (n : UInt64) : net.put n (net.servers n) [] = net := by
  have hservers : (fun n' => if n' = n then net.servers n else net.servers n') = net.servers := by
    funext n'
    split
    · next heq => rw [heq]
    · rfl
  simp only [put, hservers, List.map_nil, List.append_nil]

/-- A message arrives in whatever order: `i` is its place among those in flight. -/
def next (G : Graph) (net : Network) : Action → Network
  | .advertise n nowMs a =>
    let (s, sends) := advertise (net.servers n) nowMs a
    { net with adverts := (issued (net.servers n) nowMs a).toList ++ net.adverts }.put n s sends
  | .deliver nowMs i =>
    match net.flight[i]? with
    | none => net
    | some p =>
      let (n, link) := G.far p.sender p.link
      let (s, sends, _) := handle (net.servers n) nowMs link p.raw
      { net with flight := net.flight.eraseIdx i, delivered := net.delivered + 1 }.put n s sends

/-- The adverts on a topic have distinct numbers. -/
def Admits (G : Graph) (net : Network) : Action → Prop
  | .advertise n nowMs a =>
    n ∈ G.members ∧ a.Valid ∧
      ∀ made ∈ issued (net.servers n) nowMs a, ∀ x ∈ net.adverts, (x.1, x.2.1) ≠ (made.1, made.2.1)
  | .deliver _ _ => True

/-- Before any advert: every link is up and announced, and nothing is learned. -/
structure Fresh (G : Graph) (net : Network) : Prop where
  wired : ∀ n ∈ G.members, Wired G n (net.servers n)
  held : ∀ n ∈ G.members, ∀ t, heldBy (net.servers n) t = none
  flight : net.flight = []
  log : net.log = []
  adverts : net.adverts = []
  delivered : net.delivered = 0

end Network

/-! ## A run of the network is a run of the flooding -/

abbrev Parcel := Flood.Parcel UInt64 ClientId Topic UInt64 Report

abbrev Spread := Flood.State UInt64 ClientId Topic UInt64 Report

/-- The message a parcel is. -/
def packet (p : Parcel) : Packet :=
  { sender := p.sender, link := p.link, raw := encode p.msg.key p.msg.ver p.msg.data p.msg.path }

/-- An advert that arrives as it was sent, from the owner of its topic. -/
structure Travels (p : Parcel) : Prop where
  fits : Fits p.msg.key p.msg.data
  owner : ∀ o, p.msg.key.owner = some o → p.msg.path.getLast? = some o

/-- The flooding is what the network does. A server does not learn its own adverts. -/
structure Simulates (G : Graph) (net : Network) (w : Spread) : Prop where
  wired : ∀ n ∈ G.members, Wired G n (net.servers n)
  held : ∀ n ∈ G.members, ∀ t, t.owner ≠ some n → heldBy (net.servers n) t = w.held n t
  flight : net.flight = w.flight.map packet
  log : net.log = w.log.map packet
  adverts : net.adverts = w.sent
  delivered : net.delivered = w.delivered
  travels : ∀ p ∈ w.log, Travels p

theorem packets_outgoing (G : Graph) (n : UInt64) (except : Option ClientId) (m : Flood.Msg UInt64 Topic UInt64 Report) :
    (((Flood.passLinks G n except m.path).map fun l => (l, encode m.key m.ver m.data (n :: m.path))).map
        fun x => ({ sender := n, link := x.1, raw := x.2 } : Packet)) =
      (Flood.outgoing G n except m).map packet := by
  rw [Flood.outgoing, List.map_map, List.map_map]
  rfl

section Simulation

variable {G : Graph} {net : Network} {w : Spread}

/-- A server that takes an advert in and passes it on, on both sides. -/
theorem Simulates.spread (h : Simulates G net w) (hlimit : G.limit = maxPath) {n : UInt64} (hn : n ∈ G.members)
    (except : Option ClientId) (m : Flood.Msg UInt64 Topic UInt64 Report) {s' : Inner}
    (hsame : SameLinks (net.servers n) s') (hfits : Fits m.key m.data)
    (howner : ∀ o, m.key.owner = some o → (n :: m.path).getLast? = some o)
    (hheld : ∀ t, t.owner ≠ some n → heldBy s' t = Flood.raise w.held n m n t) :
    Simulates G (net.put n s' (relay s' (linksFor s' m.key) except m.path (encode m.key m.ver m.data)))
      (w.spread G n except m) := by
  have hwired : Wired G n s' := (h.wired n hn).congr hsame
  have hother : ∀ n' t, n' ≠ n → Flood.raise w.held n m n' t = w.held n' t := by
    intro n' t hne
    unfold Flood.raise
    split
    · rfl
    · exact if_neg fun hc => hne hc.1
  rw [hwired.relay_eq hlimit]
  refine ⟨?_, ?_, ?_, ?_, h.adverts, h.delivered, ?_⟩
  · intro n' hn'
    by_cases heq : n' = n
    · subst heq
      simpa only [Network.put, if_true] using hwired
    · simpa only [Network.put, if_neg heq] using h.wired n' hn'
  · intro n' hn' t ht
    by_cases heq : n' = n
    · subst heq
      simpa only [Network.put, Flood.State.spread, if_true] using hheld t ht
    · simp only [Network.put, if_neg heq, Flood.State.spread, hother n' t heq]
      exact h.held n' hn' t ht
  · simp only [Network.put, Flood.State.spread, packets_outgoing, List.map_append, h.flight]
  · simp only [Network.put, Flood.State.spread, packets_outgoing, List.map_append, h.log]
  · intro p hp
    rcases List.mem_append.mp hp with hp | hp
    · exact h.travels p hp
    · obtain ⟨-, -, hm⟩ := Flood.mem_outgoing hp
      refine ⟨?_, ?_⟩
      · rw [hm]
        exact hfits
      · rw [hm]
        exact howner

theorem reaches_eq (h : Simulates G net w) {n : UInt64} (hn : n ∈ G.members) {t : Topic} (ht : t.owner ≠ some n)
    (seq : UInt64) : Flood.reaches w.held n t seq = (heldBy (net.servers n) t).any (seq ≤ ·.1) := by
  rw [h.held n hn t ht]
  rfl

/-- What a server holds after taking in what it did not hold. -/
theorem raise_of_new {held : UInt64 → Topic → Option (UInt64 × Report)} {n : UInt64}
    {m : Flood.Msg UInt64 Topic UInt64 Report} (hnew : ¬ Flood.reaches held n m.key m.ver = true) (t : Topic) :
    Flood.raise held n m n t = if t = m.key then some (m.ver, m.data) else held n t := by
  rw [Flood.raise, if_neg hnew]
  simp only [true_and]

theorem Simulates.next_advertise (h : Simulates G net w) (hlimit : G.limit = maxPath) {n nowMs : UInt64} {a : Advertisement}
    (ha : net.Admits G (.advertise n nowMs a)) :
    ∃ w', (w' = w ∨ ∃ e, w.Allowed G e ∧ w' = w.next G e) ∧ Simulates G (net.next G (.advertise n nowMs a)) w' := by
  obtain ⟨hn, hvalid, hfresh⟩ := ha
  simp only [Network.next]
  cases hmade : issued (net.servers n) nowMs a with
  | none =>
    rw [advertise_none hmade]
    refine ⟨w, .inl rfl, ?_⟩
    exact (Network.put_same net n).symm ▸ h
  | some made =>
    obtain ⟨t, seq, r⟩ := made
    have hadv := advertise_some hvalid hmade
    have hself : (net.servers n).fed.selfId = n := (h.wired n hn).self
    have howner : ∀ o, t.owner = some o → o = n := fun o ho => (hadv.owner o ho).trans hself
    let net' : Network := { net with adverts := (t, seq, r) :: net.adverts }
    let w' : Spread := { w with sent := (t, seq, r) :: w.sent }
    have hsim : Simulates G net' w' :=
      { wired := h.wired
        held := h.held
        flight := h.flight
        log := h.log
        adverts := congrArg ((t, seq, r) :: ·) h.adverts
        delivered := h.delivered
        travels := h.travels }
    have hallowed : w.Allowed G (.publish n t seq r (loud (net.servers n) t seq)) := by
      refine ⟨hn, ?_, ?_⟩
      · intro x hx
        rw [← h.adverts] at hx
        exact hfresh (t, seq, r) hmade x hx
      · intro hquiet
        -- Only a position is held back, by a server that holds one as new.
        rw [loud, Bool.or_eq_false_iff, Bool.not_eq_false'] at hquiet
        have hnone : t.owner = none := Option.not_isSome_iff_eq_none.mp (Bool.eq_false_iff.mp hquiet.1)
        rw [reaches_eq h hn (by simp [hnone])]
        exact hquiet.2
    refine ⟨_, .inr ⟨_, hallowed, rfl⟩, ?_⟩
    obtain ⟨hsame, hsends, hheld, hfits, -⟩ := hadv
    change Simulates G (net'.put n (advertise (net.servers n) nowMs a).1 (advertise (net.servers n) nowMs a).2) _
    cases hloud : loud (net.servers n) t seq with
    | true =>
      have hnext : w.next G (.publish n t seq r true) =
          w'.spread G n none { key := t, ver := seq, data := r, path := [] } := rfl
      rw [hsends, hloud, if_pos rfl, hnext]
      refine hsim.spread hlimit hn none { key := t, ver := seq, data := r, path := [] } hsame hfits
        (fun o ho => ?_) fun k hk => ?_
      · rw [howner o ho]
        rfl
      rw [hheld k, hloud]
      by_cases hkt : k = t
      · subst hkt
        have hnone : k.owner = none := by
          cases ho : k.owner with
          | none => rfl
          | some o => exact absurd ((howner o ho) ▸ ho) hk
        have hnew : ¬ Flood.reaches w.held n k seq = true := by
          rw [reaches_eq h hn hk]
          simpa [loud, hnone] using hloud
        rw [if_pos ⟨rfl, hnone, rfl⟩, raise_of_new hnew, if_pos rfl]
      · rw [if_neg fun hc => hkt hc.1]
        refine (h.held n hn k hk).trans ?_
        unfold Flood.raise
        split
        · rfl
        · exact (if_neg fun hc => hkt hc.2).symm
    | false =>
      have hnext : w.next G (.publish n t seq r false) = w' := rfl
      rw [hsends, hloud, if_neg Bool.false_ne_true, hnext]
      refine ⟨?_, ?_, ?_, ?_, hsim.adverts, h.delivered, h.travels⟩
      · intro n' hn'
        by_cases heq : n' = n
        · subst heq
          simpa only [Network.put, if_true] using (h.wired n' hn).congr hsame
        · simpa only [Network.put, if_neg heq] using h.wired n' hn'
      · intro n' hn' k hk
        by_cases heq : n' = n
        · subst heq
          simp only [Network.put, if_true]
          rw [hheld k, hloud, if_neg fun hc => Bool.false_ne_true hc.2.2]
          exact h.held n' hn k hk
        · simpa only [Network.put, if_neg heq] using h.held n' hn' k hk
      · simpa only [Network.put, List.map_nil, List.append_nil] using h.flight
      · simpa only [Network.put, List.map_nil, List.append_nil] using h.log

theorem Simulates.next_deliver (h : Simulates G net w) (hg : Flood.Good G w) (hlimit : G.limit = maxPath) (nowMs : UInt64)
    (i : ℕ) : Simulates G (net.next G (.deliver nowMs i)) (w.next G (.deliver i)) := by
  simp only [Network.next, Flood.State.next, h.flight, List.getElem?_map]
  cases hi : w.flight[i]? with
  | none => exact h
  | some p =>
    have hmem : p ∈ w.log := hg.sound.logged p (List.mem_of_getElem? hi)
    have hlegal := hg.sound.legal p hmem
    have htravels := h.travels p hmem
    have htarget : G.far (packet p).sender (packet p).link = G.target p := rfl
    simp only [Option.map_some, htarget, Flood.State.receive]
    have hn : (G.target p).1 ∈ G.members := G.far_mem _ hlegal.member _ hlegal.link
    have hback : G.far (G.target p).1 (G.target p).2 = (p.sender, p.link) := G.far_far _ hlegal.member _ hlegal.link
    have hto : (G.target p).2 ∈ G.links (G.target p).1 := G.far_link _ hlegal.member _ hlegal.link
    generalize (G.target p).1 = n at hn hback hto ⊢
    generalize (G.target p).2 = link at hback hto ⊢
    have hwired := h.wired n hn
    have hlink : (net.servers n).fed.links[link]? = some p.sender := by rw [hwired.neighbour link hto, hback]
    have hpath : PathFrom p.sender p.msg.path :=
      { head := hlegal.head
        nodup := hlegal.nodup
        short := hlimit ▸ Flood.length_le_limit hlegal.nodup hlegal.within }
    let net' : Network := { net with flight := w.flight.map packet |>.eraseIdx i, delivered := net.delivered + 1 }
    let w' : Spread := { w with flight := w.flight.eraseIdx i, delivered := w.delivered + 1 }
    have hsim : Simulates G net' w' :=
      { wired := h.wired
        held := h.held
        flight := by simp only [net', w', List.eraseIdx_map]
        log := h.log
        adverts := h.adverts
        delivered := congrArg (· + 1) h.delivered
        travels := h.travels }
    -- Its own adverts come back to a server over a path through it.
    have hdrops : ((net.servers n).fed.selfId ∈ p.msg.path ∨
          (heldBy (net.servers n) p.msg.key).any (p.msg.ver ≤ ·.1) = true) ↔
        (n ∈ p.msg.path ∨ Flood.reaches w.held n p.msg.key p.msg.ver = true) := by
      rw [hwired.self]
      by_cases hmine : p.msg.key.owner = some n
      · have hthrough : n ∈ p.msg.path := List.mem_of_getLast? (htravels.owner n hmine)
        simp only [hthrough, true_or]
      · rw [reaches_eq h hn hmine]
    change Simulates G (net'.put n (handle (net.servers n) nowMs link (encode p.msg.key p.msg.ver p.msg.data p.msg.path)).1
      (handle (net.servers n) nowMs link (encode p.msg.key p.msg.ver p.msg.data p.msg.path)).2.1) _
    rw [handle_encode hlink hpath htravels.fits htravels.owner]
    by_cases hdrop : n ∈ p.msg.path ∨ Flood.reaches w.held n p.msg.key p.msg.ver = true
    · rw [if_pos (hdrops.mpr hdrop), if_pos hdrop]
      exact (Network.put_same net' n).symm ▸ hsim
    · rw [if_neg (mt hdrops.mp hdrop), if_neg hdrop]
      rw [not_or] at hdrop
      have hne : p.msg.path ≠ [] := List.ne_nil_of_length_pos hpath.pos
      refine hsim.spread hlimit hn (some link) p.msg (sameLinks_learn _ _ _ _ _ _) htravels.fits (fun o ho => ?_)
        fun t ht => ?_
      · rw [List.getLast?_cons_of_ne_nil hne]
        exact htravels.owner o ho
      · rw [heldBy_learn htravels.fits, raise_of_new hdrop.2, h.held n hn t ht]

/-- Every state of the network is simulated by one that the flooding reaches. -/
theorem simulates_of_reach {net₀ : Network} (hlimit : G.limit = maxPath) (hfresh : net₀.Fresh G)
    (h : Reach net₀ (Network.Admits G) (Network.next G) net) :
    ∃ w : Spread, Flood.Good G w ∧ Simulates G net w := by
  refine Reach.invariant (P := fun net => ∃ w : Spread, Flood.Good G w ∧ Simulates G net w) ?_ ?_ h
  · refine ⟨.init, Flood.good_init, ?_⟩
    exact
      { wired := hfresh.wired
        held := fun n hn t _ => hfresh.held n hn t
        flight := hfresh.flight
        log := hfresh.log
        adverts := hfresh.adverts
        delivered := hfresh.delivered
        travels := fun p hp => absurd hp List.not_mem_nil }
  · rintro net a ⟨w, hg, hsim⟩ ha
    cases a with
    | advertise n nowMs a =>
      obtain ⟨w', hw', hsim'⟩ := hsim.next_advertise hlimit ha
      refine ⟨w', ?_, hsim'⟩
      rcases hw' with rfl | ⟨e, he, rfl⟩
      · exact hg
      · exact hg.next he
    | deliver nowMs i => exact ⟨_, hg.deliver i, hsim.next_deliver hg hlimit nowMs i⟩

end Simulation

/-- Topic and number of the advert that a message from `nbrId` is. -/
def advertOf (nbrId : UInt64) (raw : Bytes) : Option (Topic × UInt64) :=
  match parse raw nbrId with
  | some (.ok (.bts a)) => a.path.getLast?.map fun origin => (.bts origin a.key, a.seq)
  | some (.ok (.emergency a)) => a.path.getLast?.map fun origin => (.em origin a.issi, a.seq)
  | some (.ok (.msPos a)) => some (.ms a.issi, a.atMs)
  | _ => none

/-- The crossing of a link by an advert. -/
def crossing (p : Packet) : (UInt64 × ClientId) × Option (Topic × UInt64) := ((p.sender, p.link), advertOf p.sender p.raw)

theorem advertOf_encode {nbrId : UInt64} {t : Topic} {seq : UInt64} {r : Report} {path : List UInt64}
    (hpath : PathFrom nbrId path) (hfits : Fits t r) (howner : ∀ o, t.owner = some o → path.getLast? = some o) :
    advertOf nbrId (encode t seq r path) = some (t, seq) := by
  cases t with
  | bts origin key =>
    have hparse := parse_buildBts { key, name := r.text, lat := r.lat, lon := r.lon, online := r.live, seq, path } hpath
    simp only [advertOf, encode, hparse, howner origin rfl, Option.map_some, clipText_of_short hfits.2.1]
  | em origin issi =>
    have hparse := parse_buildEmergency { issi, dest := r.dest, bts := r.text, active := r.live, seq, path } hpath
    simp only [advertOf, encode, hparse, howner origin rfl, Option.map_some]
  | ms issi =>
    have hparse := parse_buildMsPos { issi, lat := r.lat, lon := r.lon, atMs := seq, station := r.text, path } hpath
    simp only [advertOf, encode, hparse]

section Results

variable {G : Graph} {net₀ net : Network}

theorem Simulates.crossings {w : Spread} (h : Simulates G net w) (hg : Flood.Good G w) (hlimit : G.limit = maxPath) :
    net.log.map crossing = (w.log.map Flood.Parcel.crossing).map fun c => (c.1, some c.2) := by
  rw [h.log, List.map_map, List.map_map]
  refine List.map_congr_left fun p hp => ?_
  have hlegal := hg.sound.legal p hp
  have hpath : PathFrom p.sender p.msg.path :=
    { head := hlegal.head
      nodup := hlegal.nodup
      short := hlimit ▸ Flood.length_le_limit hlegal.nodup hlegal.within }
  have hadvert := @advertOf_encode _ _ p.msg.ver _ _ hpath (h.travels p hp).fits (h.travels p hp).owner
  simp only [Function.comp_apply, crossing, packet, Flood.Parcel.crossing, hadvert]

/-- Anything in flight may arrive at any time. -/
theorem reach_deliver (h : Reach net₀ (Network.Admits G) (Network.next G) net) (nowMs : UInt64) (i : ℕ) :
    Reach net₀ (Network.Admits G) (Network.next G) (net.next G (.deliver nowMs i)) := h.step trivial

/-- Deliveries alone make no advert. -/
theorem adverts_deliver (nowMs : UInt64) (i : ℕ) : (net.next G (.deliver nowMs i)).adverts = net.adverts := by
  simp only [Network.next]
  split <;> rfl

theorem delivered_deliver (nowMs : UInt64) {i : ℕ} (hi : i < net.flight.length) :
    (net.next G (.deliver nowMs i)).delivered = net.delivered + 1 := by
  simp only [Network.next, List.getElem?_eq_getElem hi]
  rfl

/-- What is queued is bounded by the links and the adverts. -/
theorem length_log_le (hlimit : G.limit = maxPath) (hfresh : net₀.Fresh G)
    (h : Reach net₀ (Network.Admits G) (Network.next G) net) :
    net.delivered + net.flight.length = net.log.length ∧
      net.log.length ≤ (∑ n ∈ G.members, (G.links n).length) * net.adverts.length := by
  obtain ⟨w, hg, hsim⟩ := simulates_of_reach hlimit hfresh h
  have hcounted := hg.sound.counted
  have hle := hg.length_log_le
  rw [hsim.delivered, hsim.flight, hsim.log, hsim.adverts, List.length_map, List.length_map]
  exact ⟨hcounted, hle⟩

/-- Whatever is delivered next, the messages in flight run out. -/
theorem exists_quiet (hlimit : G.limit = maxPath) (hfresh : net₀.Fresh G)
    (h : Reach net₀ (Network.Admits G) (Network.next G) net) (pick : Network → UInt64 × ℕ)
    (hpick : ∀ net : Network, net.flight ≠ [] → (pick net).2 < net.flight.length) :
    ∃ k, ((fun net => net.next G (.deliver (pick net).1 (pick net).2))^[k] net).flight = [] := by
  by_contra hnever
  rw [not_exists] at hnever
  have hrun : ∀ k, ∃ net', (fun net => net.next G (.deliver (pick net).1 (pick net).2))^[k] net = net' ∧
      Reach net₀ (Network.Admits G) (Network.next G) net' ∧ net'.adverts = net.adverts ∧
      net'.delivered = net.delivered + k := by
    intro k
    induction k with
    | zero => exact ⟨net, rfl, h, rfl, rfl⟩
    | succ k ih =>
      obtain ⟨net', heq, hreach, hadverts, hdelivered⟩ := ih
      have hlt := hpick net' (heq ▸ hnever k)
      refine ⟨_, rfl, ?_⟩
      rw [Function.iterate_succ_apply', heq]
      refine ⟨reach_deliver hreach _ _, (adverts_deliver _ _).trans hadverts, ?_⟩
      rw [delivered_deliver _ hlt, hdelivered]
      omega
  obtain ⟨net', -, hreach, hadverts, hdelivered⟩ := hrun ((∑ n ∈ G.members, (G.links n).length) * net.adverts.length + 1)
  have hbound := length_log_le hlimit hfresh hreach
  rw [hadverts, hdelivered] at hbound
  omega

/-- In a connected network of loop-safe servers whose links announced every kind of
advert, each advert crosses each link at most once each way and the messages run out.
Then every server but its origin holds the newest advert of each Basestation and alarm,
and every server the newest position of each ISSI. -/
theorem newest_of_reach (hlimit : G.limit = maxPath) (hconn : G.Connected) (hfresh : net₀.Fresh G)
    (h : Reach net₀ (Network.Admits G) (Network.next G) net) :
    (net.log.map crossing).Nodup ∧
      (∀ pick : Network → UInt64 × ℕ, (∀ net : Network, net.flight ≠ [] → (pick net).2 < net.flight.length) →
        ∃ k, ((fun net => net.next G (.deliver (pick net).1 (pick net).2))^[k] net).flight = []) ∧
      (net.flight = [] → ∀ t seq r, (t, seq, r) ∈ net.adverts →
        (∀ seq' r', (t, seq', r') ∈ net.adverts → seq' ≤ seq) →
          ∀ n ∈ G.members, t.owner ≠ some n → heldBy (net.servers n) t = some (seq, r)) := by
  refine ⟨?_, exists_quiet hlimit hfresh h, ?_⟩
  · obtain ⟨w, hg, hsim⟩ := simulates_of_reach hlimit hfresh h
    rw [hsim.crossings hg hlimit]
    refine hg.sound.once.map fun c c' heq => ?_
    rw [Prod.mk.injEq, Option.some.injEq] at heq
    exact Prod.ext heq.1 heq.2
  · intro hquiet t seq r hsent hmax n hn howner
    obtain ⟨w, hg, hsim⟩ := simulates_of_reach hlimit hfresh h
    rw [hsim.held n hn t howner]
    refine hg.newest hconn ?_ (hsim.adverts ▸ hsent) (fun seq' r' hs => hmax seq' r' (hsim.adverts.symm ▸ hs)) hn
    exact List.map_eq_nil_iff.mp (hsim.flight.symm.trans hquiet)

end Results

/-! ### A ring of three -/

def ringMembers : List UInt64 := [1, 2, 3]

/-- The link to a server of the ring. -/
def linkTo (n : UInt64) : ClientId := if n = 1 then 1 else if n = 2 then 2 else 3

def serverOf (l : ClientId) : UInt64 := if l = 1 then 1 else if l = 2 then 2 else 3

def ringLinks (n : UInt64) : List ClientId := ([1, 2, 3] : List ClientId).filter fun l => decide (l ≠ linkTo n)

def ringFar (n : UInt64) (l : ClientId) : UInt64 × ClientId := (serverOf l, linkTo n)

/-- The ends of the links. -/
def ringEnds : List (UInt64 × ClientId) := ringMembers.flatMap fun n => (ringLinks n).map fun l => (n, l)

theorem mem_ringEnds {n : UInt64} (hn : n ∈ ringMembers) {l : ClientId} (hl : l ∈ ringLinks n) : (n, l) ∈ ringEnds :=
  List.mem_flatMap.mpr ⟨n, hn, List.mem_map.mpr ⟨l, hl, rfl⟩⟩

theorem ring_linked : ∀ e ∈ ringEnds, (ringFar e.1 e.2).1 ∈ ringMembers ∧
    (ringFar e.1 e.2).2 ∈ ringLinks (ringFar e.1 e.2).1 ∧ ringFar (ringFar e.1 e.2).1 (ringFar e.1 e.2).2 = e :=
  List.all_iff_forall_prop.mp (by decide +kernel)

/-- Three servers, each linked to the two others. -/
def ring : Graph where
  members := ringMembers.toFinset
  links := ringLinks
  far := ringFar
  limit := maxPath
  far_mem _ hn _ hl := List.mem_toFinset.mpr (ring_linked _ (mem_ringEnds (List.mem_toFinset.mp hn) hl)).1
  far_link _ hn _ hl := (ring_linked _ (mem_ringEnds (List.mem_toFinset.mp hn) hl)).2.1
  far_far _ hn _ hl := (ring_linked _ (mem_ringEnds (List.mem_toFinset.mp hn) hl)).2.2
  nodup_links n := List.Nodup.filter _ (by decide)
  small := by decide

theorem connected_ring : ring.Connected := by
  have hall : ∀ e ∈ ringMembers.product ringMembers, e.1 ≠ e.2 →
      linkTo e.2 ∈ ringLinks e.1 ∧ serverOf (linkTo e.2) = e.2 := List.all_iff_forall_prop.mp (by decide +kernel)
  intro m hm n hn
  by_cases hmn : m = n
  · rw [hmn]
  · have h := hall (m, n) (List.mem_product.mpr ⟨List.mem_toFinset.mp hm, List.mem_toFinset.mp hn⟩) hmn
    exact .single ⟨hm, linkTo n, h.1, h.2⟩

/-- A server of the ring before any advert. -/
def ringServer (n : UInt64) : Inner :=
  let links := ringLinks n
  let client : Client := { mode := .peer, version := .v1, versionAnnounced := true, remoteAddr := none }
  { clients := links.foldl (fun m l => m.insert l client) ∅
    fed :=
      { selfId := n
        links := links.foldl (fun m l => m.insert l (serverOf l)) ∅
        btsLinks := FinSet.ofList links
        msLinks := FinSet.ofList links
        emLinks := FinSet.ofList links } }

def ringStart : Network := { servers := ringServer }

theorem fresh_ringStart : ringStart.Fresh ring where
  wired := by
    have hsets : ∀ n ∈ ringMembers, (FinSet.ofList (ringLinks n)).toList = ringLinks n :=
      List.all_iff_forall_prop.mp (by decide +kernel)
    have hends : ∀ e ∈ ringEnds, (ringServer e.1).fed.links[e.2]? = some (serverOf e.2) ∧
        e.2 ∈ (ringServer e.1).clients :=
      List.all_iff_forall_prop.mp (by decide +kernel)
    intro n hn
    have hn := List.mem_toFinset.mp hn
    exact
      { self := rfl
        links := fun t => by cases t <;> exact hsets n hn
        neighbour := fun l hl => (hends _ (mem_ringEnds hn hl)).1
        attached := fun l hl => (hends _ (mem_ringEnds hn hl)).2 }
  held := fun n _ t => by cases t <;> rfl
  flight := rfl
  log := rfl
  adverts := rfl
  delivered := rfl

/-- Server 1 advertises a Basestation, and its messages cross the ring. -/
def ringRun : List Action :=
  [.advertise 1 1000 (.bts "b" "Hill" 0x4042fef000000000 0x4037c39500000000 true), .deliver 1001 1, .deliver 1002 0,
    .deliver 1003 1, .deliver 1004 0]

def ringEnd : Network := ringRun.foldl (Network.next ring) ringStart

theorem newest_in_ring :
    heldBy (ringEnd.servers 3) (.bts 1 "b") =
      some (1000, { text := "Hill", lat := 0x4042fef000000000, lon := 0x4037c39500000000, dest := none, live := true }) := by
  have hrun : Reach ringStart (Network.Admits ring) (Network.next ring) ringEnd := by
    have hsent : ringStart.Admits ring
        (.advertise 1 1000 (.bts "b" "Hill" 0x4042fef000000000 0x4037c39500000000 true)) := by
      refine ⟨by decide, ⟨by decide +kernel, fun _ => by decide +kernel⟩, ?_⟩
      intro made _ x hx
      exact absurd hx List.not_mem_nil
    have hmade : Reach ringStart (Network.Admits ring) (Network.next ring) (ringStart.next ring _) := .step .init hsent
    exact reach_deliver (reach_deliver (reach_deliver (reach_deliver hmade 1001 1) 1002 0) 1003 1) 1004 0
  refine (newest_of_reach rfl connected_ring fresh_ringStart hrun).2.2 (by decide +kernel) _ _ _ (by decide +kernel) ?_ 3
    (by decide) (by decide)
  have hone : ∀ x ∈ ringEnd.adverts, x.2.1 ≤ 1000 := by decide +kernel
  exact fun seq' r' h => hone _ h

end BrewServer.Flooding
