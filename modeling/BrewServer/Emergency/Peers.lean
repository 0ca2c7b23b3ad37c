import BrewServer.Emergency.Snapshot
import BrewServer.Fedroute.AdvertWire
import BrewServer.Fedroute.Handle
import BrewServer.Lib.Transition
import Mathlib.Data.String.Basic

/-!
# Alarms at the other servers

Once a second a server advertises its own alarms to its peers: new and changed ones at
once, those that stay up every few seconds, and those that are over. The peer at the other
end of a link keeps what it was told for half a minute.
-/

namespace BrewServer.Emergencies

open Fedroute

/-- Between two adverts of an alarm that stays up, in nanoseconds. -/
def refreshAfter : ℕ := 10 * 10 ^ 9

/-- The order of the alarms: by ISSI, then by Basestation. -/
def earlier (a b : UInt32 × String) : Bool := a.1 < b.1 || (a.1 == b.1 && a.2 ≤ b.2)

/-- This server's alarms, each with the Basestation that reported it. -/
def ownAlarms (stations : List (String × FinSet UInt32)) : List (UInt32 × String) :=
  let all := stations.flatMap fun (id, issis) => issis.toList.map fun issi => (issi, id)
  (all.mergeSort earlier).destutter fun a b => a.1 ≠ b.1

/-- Where each radio talks. -/
def talkers (s : Inner) : FinMap UInt32 UInt32 :=
  s.calls.toList.foldl (fun m c => if c.2.kind = .group then m.insert c.2.sourceIssi c.2.destination else m) ∅

/-- What a pass has read. -/
structure Reading where
  began : ℕ
  stations : List (String × FinSet UInt32)
  dests : FinMap UInt32 UInt32
  deriving DecidableEq

def Reading.alarms (r : Reading) : List (UInt32 × String) := ownAlarms r.stations

def Reading.reported (r : Reading) : List UInt32 := r.alarms.map Prod.fst

/-- Where `advertise_if_due` is. -/
inductive Task
  | idle
  | alarms (r : Reading) (todo : List (UInt32 × String))
  | clearing (r : Reading) (todo : List UInt32)
  deriving DecidableEq

/-- Two servers and the link between them. Times are in nanoseconds. -/
structure Pair where
  now : ℕ
  a : Inner
  b : Inner
  /-- `AdvertState`: when each alarm was advertised last, and its destination. -/
  sent : FinMap UInt32 (ℕ × Option UInt32) := ∅
  task : Task := .idle
  /-- What the link carries. -/
  wire : List Bytes := []
  /-- What the last pass that ended had read. -/
  passed : Option Reading := none
  /-- The latest wall clock readings, of all passes and of the passes that ended. -/
  top : UInt64 := 0
  high : UInt64 := 0

inductive PairEvent
  | begin (now : ℕ) (stations : List (String × FinSet UInt32))
  | step (now : ℕ) (nowMs : UInt64)
  /-- The other handlers of a server. -/
  | serveA (a : Inner)
  | serveB (now : ℕ) (b : Inner)
  | receive (now : ℕ)

/-- The connections of the two servers to each other, and the peer's wall clock when it
all begins: from there on it runs evenly. -/
structure Ends where
  la : ClientId
  lb : ClientId
  idA : UInt64
  idB : UInt64
  distinct : idA ≠ idB
  base : ℕ

section Steps

variable (x : Ends)

/-- The peer's wall clock in milliseconds. -/
def Ends.clock (t : ℕ) : UInt64 := UInt64.ofNat (x.base + t / 10 ^ 6)

theorem Ends.toNat_clock {t : ℕ} (h : x.base + t / 10 ^ 6 < 2 ^ 64) : (x.clock t).toNat = x.base + t / 10 ^ 6 :=
  UInt64.toNat_ofNat'.trans (Nat.mod_eq_of_lt h)

namespace Pair

/-- An advert goes out. -/
def advertise (w : Pair) (nowMs : UInt64) (issi : UInt32) (dest : Option UInt32) (bts : String) (active : Bool) : Pair :=
  let (a, sends) := advertiseEmergency w.a nowMs issi dest bts active
  { w with a, wire := w.wire ++ sends.on x.la }

/-- What `advertise_if_due` does next. -/
def work (w : Pair) (nowMs : UInt64) : Pair :=
  match w.task with
  | .idle => w
  | .alarms r ((issi, bts) :: todo) =>
    let dest := r.dests[issi]?
    if (w.sent[issi]?).all fun (at', d) => d ≠ dest || refreshAfter ≤ w.now - at' then
      { w.advertise x nowMs issi dest bts true with task := .alarms r todo, sent := w.sent.insert issi (w.now, dest) }
    else { w with task := .alarms r todo }
  | .alarms r [] => { w with task := .clearing r (w.sent.keys.filter fun issi => !r.reported.contains issi) }
  | .clearing r (issi :: todo) =>
    { w.advertise x nowMs issi none "" false with task := .clearing r todo, sent := w.sent.erase issi }
  | .clearing r [] => { w with task := .idle, passed := some r }

def next (w : Pair) : PairEvent → Pair
  | .begin now stations =>
    let r : Reading := { began := now, stations, dests := talkers w.a }
    { w with now, high := w.top, task := .alarms r r.alarms }
  | .step now nowMs => work x { w with now, top := maxU64 w.top nowMs } nowMs
  | .serveA a => { w with a }
  | .serveB now b => { w with now, b }
  | .receive now =>
    match w.wire with
    | raw :: rest => { w with now, b := (handle w.b (x.clock now) x.lb raw).1, wire := rest }
    | [] => { w with now }

/-- The link is up, and both ends announced alarms on it. -/
def LinkedA (s : Inner) : Prop :=
  s.fed.selfId = x.idA ∧ s.fed.links[x.la]? = some x.idB ∧ x.la ∈ s.fed.emLinks ∧ x.la ∈ s.clients

def LinkedB (s : Inner) : Prop := s.fed.selfId = x.idB ∧ s.fed.links[x.lb]? = some x.idA

instance (s : Inner) : Decidable (LinkedA x s) :=
  inferInstanceAs (Decidable (s.fed.selfId = x.idA ∧ s.fed.links[x.la]? = some x.idB ∧ x.la ∈ s.fed.emLinks ∧ x.la ∈ s.clients))

instance (s : Inner) : Decidable (LinkedB x s) :=
  inferInstanceAs (Decidable (s.fed.selfId = x.idB ∧ s.fed.links[x.lb]? = some x.idA))

/-- The clocks go on, a pass reads a later millisecond than the one before, the link stays
up, and the other handlers leave the alarms be but for what is stale at the peer: no copy of
an advert comes to it over a third server. -/
def Allowed (w : Pair) : PairEvent → Prop
  | .begin now _ => w.now ≤ now ∧ w.task = .idle
  | .step now nowMs => w.now ≤ now ∧ w.high < nowMs
  | .serveA a => LinkedA x a ∧ a.fed.emLocal = w.a.fed.emLocal
  | .serveB now b => w.now ≤ now ∧ x.base + now / 10 ^ 6 < 2 ^ 64 ∧ LinkedB x b ∧
      ∀ issi : UInt32, b.fed.emRemote[(x.idA, issi)]? = w.b.fed.emRemote[(x.idA, issi)]? ∨
        b.fed.emRemote[(x.idA, issi)]? = none ∧
          (w.b.fed.emRemote[(x.idA, issi)]?).all fun e => emStaleMs ≤ satSub (x.clock now) e.seenMs
  | .receive now => w.now ≤ now ∧ x.base + now / 10 ^ 6 < 2 ^ 64

end Pair

end Steps

/-! ## The alarms of a pass -/

section Reported

variable {r : Reading} {issi : UInt32}

theorem earlier_trans (a b c : UInt32 × String) (hab : earlier a b = true) (hbc : earlier b c = true) :
    earlier a c = true := by
  simp only [earlier, Bool.or_eq_true, Bool.and_eq_true, decide_eq_true_eq, beq_iff_eq] at *
  rcases hab with hab | ⟨hab, hab'⟩
  · rcases hbc with hbc | ⟨hbc, -⟩
    · exact .inl (UInt32.lt_trans hab hbc)
    · exact .inl (hbc ▸ hab)
  · rw [hab]
    exact hbc.imp_right fun hbc => ⟨hbc.1, le_trans hab' hbc.2⟩

theorem earlier_total (a b : UInt32 × String) : (earlier a b || earlier b a) = true := by
  simp only [earlier, Bool.or_eq_true, Bool.and_eq_true, decide_eq_true_eq, beq_iff_eq]
  by_cases he : a.1 = b.1
  · exact (le_total a.2 b.2).imp (fun h => .inr ⟨he, h⟩) fun h => .inr ⟨he.symm, h⟩
  · exact (UInt32.lt_or_lt_of_ne he).imp .inl .inl

/-- In a sorted list whose neighbours differ all are different. -/
theorem nodup_of_neighbours {l : List UInt32} (hsorted : l.Pairwise (· ≤ ·)) (hne : l.IsChain (· ≠ ·)) : l.Nodup := by
  induction l with
  | nil => exact List.nodup_nil
  | cons a l ih =>
    obtain ⟨hle, hsorted⟩ := List.pairwise_cons.mp hsorted
    obtain ⟨hhead, hne⟩ := List.isChain_cons.mp hne
    refine List.nodup_cons.mpr ⟨fun hin => ?_, ih hsorted hne⟩
    cases l with
    | nil => exact absurd hin List.not_mem_nil
    | cons b l =>
      have hab := hle b List.mem_cons_self
      have hba : b ≤ a := by
        rcases List.mem_cons.mp hin with rfl | hin
        · exact UInt32.le_refl _
        · exact (List.pairwise_cons.mp hsorted).1 a hin
      exact hhead b rfl (UInt32.le_antisymm hab hba)

theorem mem_reported : issi ∈ r.reported ↔ ∃ s ∈ r.stations, issi ∈ s.2 := by
  constructor
  · intro h
    obtain ⟨⟨i, id⟩, hm, rfl⟩ := List.mem_map.mp h
    have hall := (List.mergeSort_perm _ _).mem_iff.mp ((List.destutter_sublist _ _).subset hm)
    obtain ⟨s, hs, hi⟩ := List.mem_flatMap.mp hall
    obtain ⟨j, hj, he⟩ := List.mem_map.mp hi
    cases he
    exact ⟨s, hs, Std.ExtTreeSet.mem_toList.mp hj⟩
  · rintro ⟨s, hs, hi⟩
    have hall : (issi, s.1) ∈ r.stations.flatMap fun (id, issis) => issis.toList.map fun issi => (issi, id) :=
      List.mem_flatMap.mpr ⟨s, hs, List.mem_map.mpr ⟨issi, Std.ExtTreeSet.mem_toList.mpr hi, rfl⟩⟩
    obtain ⟨y, hy, he⟩ := exists_mem_destutter Prod.fst ((List.mergeSort_perm _ earlier).mem_iff.mpr hall)
    exact List.mem_map.mpr ⟨y, hy, he⟩

/-- Every radio is listed once. -/
theorem nodup_reported (r : Reading) : r.reported.Nodup := by
  unfold Reading.reported Reading.alarms ownAlarms
  refine nodup_of_neighbours ?_ ((List.isChain_map Prod.fst).mpr (List.isChain_destutter _ _))
  refine List.pairwise_map.mpr (List.Pairwise.sublist (List.destutter_sublist _ _) ?_)
  refine (List.pairwise_mergeSort earlier_trans earlier_total _).imp fun {a b} hab => ?_
  simp only [earlier, Bool.or_eq_true, Bool.and_eq_true, decide_eq_true_eq, beq_iff_eq] at hab
  exact hab.elim UInt32.le_of_lt fun hab => hab.1 ▸ UInt32.le_refl _

end Reported

/-! ## One advert -/

section Advert

variable {x : Ends} {s : Inner} {ad : EmAdvert}

/-- Where everything sent for a connection goes to it, each connection gets its own. -/
theorem on_flatMap {f : ClientId → Sends} (hf : ∀ c, ∀ m ∈ f c, m.1 = c) {link : ClientId} {l : List ClientId} (hl : l.Nodup) :
    Sends.on (l.flatMap f) link = if link ∈ l then (f link).on link else [] := by
  induction l with
  | nil => rfl
  | cons c l ih =>
    obtain ⟨hc, hl⟩ := List.nodup_cons.mp hl
    rw [List.flatMap_cons, Sends.on_append, ih hl]
    by_cases hcl : c = link
    · subst hcl
      rw [if_neg hc, if_pos List.mem_cons_self, List.append_nil]
    · have hnone : (f c).on link = [] := Sends.on_eq_nil fun m hm => hf c m hm ▸ hcl
      rw [hnone, List.nil_append]
      by_cases hin : link ∈ l
      · rw [if_pos hin, if_pos (List.mem_cons_of_mem c hin)]
      · rw [if_neg hin, if_neg fun h => (List.mem_cons.mp h).elim (fun h => hcl h.symm) hin]

/-- A server that is linked queues its own advert to the link, once. -/
theorem on_relayEm (h : Pair.LinkedA x s) (hpath : ad.path = []) :
    (relayEm s none ad).on x.la = [buildEmergency { ad with path := [x.idA] }] := by
  obtain ⟨hself, hlink, hem, hclient⟩ := h
  have hshort : ¬ maxPath ≤ ad.path.length := by rw [hpath]; decide
  unfold relayEm relay
  rw [if_neg hshort, on_flatMap ?_ FinSet.nodup_toList, if_pos (Std.ExtTreeSet.mem_toList.mpr hem),
    if_neg (Option.some_ne_none x.la), hlink]
  · dsimp only
    rw [hpath, if_neg List.not_mem_nil, Inner.send, if_pos hclient, Sends.on_cons, if_pos rfl, hself]
    rfl
  · intro c m hm
    split at hm
    · exact absurd hm List.not_mem_nil
    · split at hm
      · exact absurd hm List.not_mem_nil
      · split at hm
        · exact absurd hm List.not_mem_nil
        · exact congrArg Prod.fst (Inner.mem_send.mp hm).1

/-- What the peer holds of an advert. -/
def entryOf (x : Ends) (ad : EmAdvert) (now : ℕ) : RemoteEm :=
  { dest := wireDest ad.dest, bts := clipText ad.bts, active := ad.active, seq := ad.seq, path := [x.idA],
    seenMs := x.clock now }

/-- The peer takes an advert that is newer than what it holds. -/
theorem handle_advert (h : Pair.LinkedB x s) (hnew : ∀ r ∈ s.fed.emRemote[(x.idA, ad.issi)]?, r.seq < ad.seq) (now : ℕ) :
    (handle s (x.clock now) x.lb (buildEmergency { ad with path := [x.idA] })).1 =
      { s with fed := { s.fed with emRemote := s.fed.emRemote.insert (x.idA, ad.issi) (entryOf x ad now) } } := by
  obtain ⟨hself, hlink⟩ := h
  have hpath : PathFrom x.idA [x.idA] := ⟨rfl, List.nodup_singleton _, Nat.le_of_ble_eq_true rfl⟩
  have hparse := parse_buildEmergency { ad with path := [x.idA] } hpath
  have hfrom : fromSelf s [x.idA] = false := by
    unfold fromSelf
    simp [hself, x.distinct, x.distinct.symm]
  have hseq : ((s.fed.emRemote[(x.idA, ad.issi)]?).any (ad.seq ≤ ·.seq)) = false := by
    cases hr : s.fed.emRemote[(x.idA, ad.issi)]? with
    | none => rfl
    | some r => exact decide_eq_false (UInt64.not_le.mpr (hnew r hr))
  unfold handle
  rw [hlink]
  dsimp only
  rw [hparse]
  dsimp only [handleMessage]
  unfold acceptEm
  dsimp only [List.getLast?_singleton]
  rw [hfrom, if_neg Bool.false_ne_true, hseq, if_neg Bool.false_ne_true]
  rfl

end Advert

/-! ## One alarm -/

/-- An alarm at both ends: what the server holds of it and remembers, what of it is on the
way, and what the peer holds. -/
structure Alarm where
  own : Option LocalEm
  sent : Option (ℕ × Option UInt32)
  coming : List EmAdvert
  held : Option RemoteEm

namespace Alarm

variable {x : Ends} {v : Alarm} {e : LocalEm} {r : RemoteEm} {ad : EmAdvert} {now now' t : ℕ} {n top top' nowMs : UInt64}
  {dest : Option UInt32}

/-- No sequence number is above `n`. -/
structure Below (v : Alarm) (n : UInt64) : Prop where
  own : ∀ e ∈ v.own, e.seq ≤ n
  coming : ∀ ad ∈ v.coming, ad.seq ≤ n
  held : ∀ r ∈ v.held, r.seq ≤ n

/-- The peer has the alarm as it was advertised at `t`, or is about to. -/
def Shown (x : Ends) (v : Alarm) (dest : Option UInt32) (t : ℕ) : Prop :=
  match v.coming.getLast? with
  | some ad => ad.active = true ∧ ad.dest = dest
  | none => ∃ r, v.held = some r ∧ r.active = true ∧ r.dest = wireDest dest ∧ x.base + t / 10 ^ 6 ≤ r.seenMs.toNat

/-- The peer knows that it is over, or is about to. -/
def Over (v : Alarm) : Prop :=
  match v.coming.getLast? with
  | some ad => ad.active = false
  | none => ∀ r ∈ v.held, r.active = false

structure Sound (x : Ends) (v : Alarm) (now : ℕ) (top : UInt64) : Prop where
  up : ∀ e, v.own = some e → ∃ t, v.sent = some (t, e.dest) ∧ t ≤ now ∧ (29 * 10 ^ 9 ≤ now - t ∨ v.Shown x e.dest t)
  down : v.own = none → v.sent = none ∧ v.Over
  newer : v.coming.Pairwise (·.seq < ·.seq)
  above : ∀ r ∈ v.held, ∀ ad ∈ v.coming, r.seq < ad.seq
  below : v.Below top

theorem Below.mono (h : v.Below n) (hle : n ≤ top) : v.Below top :=
  ⟨fun e he => UInt64.le_trans (h.own e he) hle, fun ad ha => UInt64.le_trans (h.coming ad ha) hle,
    fun r hr => UInt64.le_trans (h.held r hr) hle⟩

theorem Sound.mono (h : v.Sound x now top) (hnow : now ≤ now') (htop : top ≤ top') : v.Sound x now' top' where
  up e he := by
    obtain ⟨t, hs, ht, hshown⟩ := h.up e he
    exact ⟨t, hs, ht.trans hnow, hshown.imp_left fun hold => hold.trans (Nat.sub_le_sub_right hnow t)⟩
  down := h.down
  newer := h.newer
  above := h.above
  below := h.below.mono htop

/-- One more advert goes out. -/
theorem Sound.advert (h : v.Sound x now top) (hbelow : v.Below n) (hn : n < ad.seq) (htop : ad.seq ≤ top)
    {own : Option LocalEm} {sent : Option (ℕ × Option UInt32)} (hseq : ∀ e ∈ own, e.seq ≤ top)
    (hup : ∀ e, own = some e → ad.active = true ∧ ad.dest = e.dest ∧ sent = some (now, e.dest))
    (hdown : own = none → sent = none ∧ ad.active = false) :
    Sound x ⟨own, sent, v.coming ++ [ad], v.held⟩ now top := by
  have hlast : (v.coming ++ [ad]).getLast? = some ad := List.getLast?_concat
  refine ⟨fun e he => ?_, fun hnone => ?_, ?_, fun r hr a ha => ?_, ⟨hseq, fun a ha => ?_, h.below.held⟩⟩
  · obtain ⟨hactive, hdest, hsent⟩ := hup e he
    refine ⟨now, hsent, le_refl now, .inr ?_⟩
    unfold Shown
    dsimp only
    rw [hlast]
    exact ⟨hactive, hdest⟩
  · obtain ⟨hsent, hactive⟩ := hdown hnone
    refine ⟨hsent, ?_⟩
    unfold Over
    dsimp only
    rw [hlast]
    exact hactive
  · refine List.pairwise_append.mpr ⟨h.newer, List.pairwise_singleton _ _, fun a ha b hb => ?_⟩
    rw [List.mem_singleton.mp hb]
    exact UInt64.lt_of_le_of_lt (hbelow.coming a ha) hn
  · rcases List.mem_append.mp ha with ha | ha
    · exact h.above r hr a ha
    · rw [List.mem_singleton.mp ha]
      exact UInt64.lt_of_le_of_lt (hbelow.held r hr) hn
  · rcases List.mem_append.mp ha with ha | ha
    · exact h.below.coming a ha
    · exact List.mem_singleton.mp ha ▸ htop

theorem Below.take {rest : List EmAdvert} (h : v.Below n) (hc : v.coming = ad :: rest) (now : ℕ) :
    Below ⟨v.own, v.sent, rest, some (entryOf x ad now)⟩ n := by
  refine ⟨h.own, fun a ha => h.coming a (hc ▸ List.mem_cons_of_mem ad ha), fun r hr => ?_⟩
  cases hr
  exact h.coming ad (hc ▸ List.mem_cons_self)

/-- The peer takes the next advert. -/
theorem Sound.take {rest : List EmAdvert} (h : v.Sound x now top) (hc : v.coming = ad :: rest)
    (hclock : x.base + now / 10 ^ 6 < 2 ^ 64) :
    Sound x ⟨v.own, v.sent, rest, some (entryOf x ad now)⟩ now top := by
  have hnewer := List.pairwise_cons.mp (hc ▸ h.newer)
  have hlast : v.coming.getLast? = some (rest.getLast?.getD ad) := by
    rw [hc]
    exact List.getLast?_cons
  refine ⟨fun e he => ?_, fun hnone => ?_, hnewer.2, fun r hr a ha => ?_, h.below.take hc now⟩
  · obtain ⟨t, hsent, ht, hshown⟩ := h.up e he
    refine ⟨t, hsent, ht, hshown.imp_right fun hshown => ?_⟩
    unfold Shown at hshown ⊢
    rw [hlast] at hshown
    dsimp only at hshown ⊢
    cases hr : rest.getLast? with
    | none =>
      rw [hr] at hshown
      refine ⟨_, rfl, hshown.1, congrArg wireDest hshown.2, ?_⟩
      change _ ≤ (x.clock now).toNat
      rw [x.toNat_clock hclock]
      exact Nat.add_le_add_left (Nat.div_le_div_right ht) x.base
    | some a =>
      rw [hr] at hshown
      exact hshown
  · obtain ⟨hsent, hover⟩ := h.down hnone
    refine ⟨hsent, ?_⟩
    unfold Over at hover ⊢
    rw [hlast] at hover
    dsimp only at hover ⊢
    cases hr : rest.getLast? with
    | none =>
      rw [hr] at hover
      intro r hr
      cases hr
      exact hover
    | some a =>
      rw [hr] at hover
      exact hover
  · cases hr
    exact hnewer.1 a ha

theorem Below.drop (h : v.Below n) : Below ⟨v.own, v.sent, v.coming, none⟩ n :=
  ⟨h.own, h.coming, fun r hr => by cases hr⟩

/-- The peer drops what is stale. -/
theorem Sound.drop (h : v.Sound x now top) (hclock : x.base + now / 10 ^ 6 < 2 ^ 64)
    (hstale : ∀ r ∈ v.held, emStaleMs ≤ satSub (x.clock now) r.seenMs) :
    Sound x ⟨v.own, v.sent, v.coming, none⟩ now top := by
  refine ⟨fun e he => ?_, fun hnone => ?_, h.newer, fun r hr => (by cases hr), h.below.drop⟩
  · obtain ⟨t, hsent, ht, hshown⟩ := h.up e he
    refine ⟨t, hsent, ht, ?_⟩
    rcases hshown with hold | hshown
    · exact .inl hold
    · unfold Shown at hshown ⊢
      dsimp only at hshown ⊢
      cases hl : v.coming.getLast? with
      | some ad =>
        rw [hl] at hshown
        exact .inr hshown
      | none =>
        rw [hl] at hshown
        obtain ⟨r, hr, -, -, hseen⟩ := hshown
        have hs := hstale r hr
        rw [UInt64.le_iff_toNat_le] at hs
        unfold satSub at hs
        have hms : emStaleMs.toNat = 30000 := rfl
        refine .inl ?_
        split at hs
        · next hle =>
          rw [UInt64.toNat_sub_of_le _ _ hle, x.toNat_clock hclock, hms] at hs
          omega
        · rw [hms] at hs
          exact absurd hs (by decide)
  · obtain ⟨hsent, hover⟩ := h.down hnone
    refine ⟨hsent, ?_⟩
    unfold Over at hover ⊢
    dsimp only at hover ⊢
    cases hl : v.coming.getLast? with
    | some ad =>
      rw [hl] at hover
      exact hover
    | none => exact fun r hr => by cases hr

end Alarm

/-! ## A pass -/

/-- The alarm is as the pass read it, and was advertised not long before. -/
def Alarm.Current (v : Alarm) (r : Reading) (issi : UInt32) : Prop :=
  ∃ e t, v.own = some e ∧ e.dest = r.dests[issi]? ∧ v.sent = some (t, e.dest) ∧ r.began ≤ t + refreshAfter

/-- What a pass has done of its work, and what it has not touched yet. -/
def Doing (v : UInt32 → Alarm) (now : ℕ) (high : UInt64) (passed : Option Reading) : Task → Prop
  | .idle => ∀ r ∈ passed, (∀ issi ∈ r.reported, (v issi).Current r issi) ∧ ∀ issi ∉ r.reported, (v issi).own = none
  | .alarms r todo => r.began ≤ now ∧ ∃ done, r.alarms = done ++ todo ∧
      (∀ issi ∈ done.map Prod.fst, (v issi).Current r issi) ∧ ∀ issi ∉ done.map Prod.fst, (v issi).Below high
  | .clearing r todo => todo.Nodup ∧ (∀ issi ∈ r.reported, (v issi).Current r issi ∧ issi ∉ todo) ∧
      (∀ issi ∉ r.reported, issi ∉ todo → (v issi).own = none) ∧ ∀ issi ∈ todo, (v issi).own ≠ none ∧ (v issi).Below high

/-- What the peer does leaves the pass be. -/
theorem Doing.mono {v v' : UInt32 → Alarm} {now now' : ℕ} {high : UInt64} {passed : Option Reading} {task : Task}
    (h : Doing v now high passed task) (hnow : now ≤ now') (hown : ∀ issi, (v' issi).own = (v issi).own)
    (hsent : ∀ issi, (v' issi).sent = (v issi).sent) (hbelow : ∀ issi n, (v issi).Below n → (v' issi).Below n) :
    Doing v' now' high passed task := by
  have hcurrent : ∀ r issi, (v issi).Current r issi → (v' issi).Current r issi := fun r issi hc => by
    unfold Alarm.Current
    rw [hown, hsent]
    exact hc
  cases task with
  | idle =>
    refine fun r hr => ⟨fun issi hi => hcurrent r issi ((h r hr).1 issi hi), fun issi hi => ?_⟩
    rw [hown]
    exact (h r hr).2 issi hi
  | alarms r todo =>
    obtain ⟨hbegan, done, hdone, hcur, hrest⟩ := h
    exact ⟨hbegan.trans hnow, done, hdone, fun issi hi => hcurrent r issi (hcur issi hi),
      fun issi hi => hbelow issi high (hrest issi hi)⟩
  | clearing r todo =>
    obtain ⟨hnd, hcur, hnone, htodo⟩ := h
    refine ⟨hnd, fun issi hi => ⟨hcurrent r issi (hcur issi hi).1, (hcur issi hi).2⟩, fun issi hi ht => ?_, fun issi hi => ?_⟩
    · rw [hown]
      exact hnone issi hi ht
    · rw [hown]
      exact ⟨(htodo issi hi).1, hbelow issi high (htodo issi hi).2⟩

namespace Pair

/-- One alarm of the pair. -/
def alarm (x : Ends) (w : Pair) (ads : List EmAdvert) (issi : UInt32) : Alarm where
  own := w.a.fed.emLocal[issi]?
  sent := w.sent[issi]?
  coming := ads.filter (·.issi = issi)
  held := w.b.fed.emRemote[(x.idA, issi)]?

/-- The link carries `ads`, and all is well with every alarm. -/
structure Told (x : Ends) (w : Pair) (ads : List EmAdvert) : Prop where
  linkA : LinkedA x w.a
  linkB : LinkedB x w.b
  wire : w.wire = ads.map fun ad => buildEmergency { ad with path := [x.idA] }
  alarms : ∀ issi, (w.alarm x ads issi).Sound x w.now w.top
  doing : Doing (w.alarm x ads) w.now w.high w.passed w.task

section Steps

variable {x : Ends} {w : Pair} {ads : List EmAdvert} {ad : EmAdvert} {now : ℕ} {nowMs : UInt64}

/-- The clock goes on. -/
theorem Told.tick (h : Told x w ads) (hnow : w.now ≤ now) {top : UInt64} (htop : w.top ≤ top) :
    Told x { w with now, top } ads where
  linkA := h.linkA
  linkB := h.linkB
  wire := h.wire
  alarms issi := (h.alarms issi).mono hnow htop
  doing := h.doing.mono hnow (fun _ => rfl) (fun _ => rfl) fun _ _ hb => hb

/-- An alarm is advertised. -/
theorem Told.advert (h : Told x w ads) (ad : EmAdvert) {a : Inner} {sent : FinMap UInt32 (ℕ × Option UInt32)} {task : Task}
    {own : Option LocalEm} {last : Option (ℕ × Option UInt32)} (hlink : LinkedA x a)
    (hown : ∀ issi : UInt32, a.fed.emLocal[issi]? = if ad.issi = issi then own else w.a.fed.emLocal[issi]?)
    (hsent : ∀ issi : UInt32, sent[issi]? = if ad.issi = issi then last else w.sent[issi]?)
    (hsound : Alarm.Sound x ⟨own, last, (w.alarm x ads ad.issi).coming ++ [ad], (w.alarm x ads ad.issi).held⟩ w.now w.top)
    (hdoing : ∀ v : UInt32 → Alarm, (v ad.issi).own = own → (v ad.issi).sent = last →
      (∀ issi, ad.issi ≠ issi → v issi = w.alarm x ads issi) → Doing v w.now w.high w.passed task) :
    Told x { w with a, sent, task, wire := w.wire ++ [buildEmergency { ad with path := [x.idA] }] } (ads ++ [ad]) := by
  let w' : Pair := { w with a, sent, task, wire := w.wire ++ [buildEmergency { ad with path := [x.idA] }] }
  have hsame : w'.alarm x (ads ++ [ad]) ad.issi =
      ⟨own, last, (w.alarm x ads ad.issi).coming ++ [ad], (w.alarm x ads ad.issi).held⟩ := by
    unfold alarm
    rw [hown, hsent, if_pos rfl, if_pos rfl, List.filter_append, List.filter_singleton,
      decide_eq_true (rfl : ad.issi = ad.issi), cond_true]
  have hother : ∀ issi, ad.issi ≠ issi → w'.alarm x (ads ++ [ad]) issi = w.alarm x ads issi := by
    intro issi hne
    unfold alarm
    rw [hown, hsent, if_neg hne, if_neg hne, List.filter_append, List.filter_singleton, decide_eq_false hne, cond_false,
      List.append_nil]
  refine ⟨hlink, h.linkB, ?_, fun issi => ?_, ?_⟩
  · dsimp only
    rw [h.wire, List.map_append, List.map_singleton]
  · by_cases hi : ad.issi = issi
    · subst hi
      exact hsame ▸ hsound
    · exact hother issi hi ▸ h.alarms issi
  · exact hdoing _ (by rw [hsame]) (by rw [hsame]) hother

/-- An advert is numbered by the clock of its pass. -/
theorem nextSeq_eq {prev : Option LocalEm} {n : UInt64} (h : ∀ e ∈ prev, e.seq ≤ n) (hn : n < nowMs) :
    maxU64 nowMs (satAdd ((prev.map LocalEm.seq).getD 0) 1) = nowMs := by
  have hprev : ((prev.map LocalEm.seq).getD 0).toNat < nowMs.toNat := by
    cases prev with
    | none => exact lt_of_le_of_lt (Nat.zero_le _) (UInt64.lt_iff_toNat_lt.mp hn)
    | some e => exact lt_of_le_of_lt (UInt64.le_iff_toNat_le.mp (h e rfl)) (UInt64.lt_iff_toNat_lt.mp hn)
  rw [← UInt64.toNat_inj, toNat_maxU64, toNat_satAdd]
  have hone : (1 : UInt64).toNat = 1 := rfl
  omega

theorem advertise_up {issi : UInt32} {dest : Option UInt32} {bts : String} (h : LinkedA x w.a)
    (hbelow : ∀ e ∈ w.a.fed.emLocal[issi]?, e.seq ≤ w.high) (hms : w.high < nowMs) :
    w.advertise x nowMs issi dest bts true = { w with
      a := { w.a with fed := { w.a.fed with emLocal := w.a.fed.emLocal.insert issi { dest, bts, seq := nowMs } } }
      wire := w.wire ++ [buildEmergency { issi, dest, bts, active := true, seq := nowMs, path := [x.idA] }] } := by
  have hlink : LinkedA x { w.a with fed := { w.a.fed with
      emLocal := w.a.fed.emLocal.insert issi { dest, bts, seq := nowMs } } } := h
  unfold advertise advertiseEmergency
  dsimp only
  rw [nextSeq_eq hbelow hms, if_pos rfl]
  dsimp only
  rw [on_relayEm hlink rfl]

theorem advertise_over {issi : UInt32} {bts : String} (h : LinkedA x w.a)
    (hbelow : ∀ e ∈ w.a.fed.emLocal[issi]?, e.seq ≤ w.high) (hms : w.high < nowMs) (hown : w.a.fed.emLocal[issi]? ≠ none) :
    w.advertise x nowMs issi none bts false = { w with
      a := { w.a with fed := { w.a.fed with emLocal := w.a.fed.emLocal.erase issi } }
      wire := w.wire ++ [buildEmergency { issi, dest := none, bts, active := false, seq := nowMs, path := [x.idA] }] } := by
  have hlink : LinkedA x { w.a with fed := { w.a.fed with emLocal := w.a.fed.emLocal.erase issi } } := h
  have hmem : ¬ issi ∉ w.a.fed.emLocal := by
    obtain ⟨e, he⟩ := Option.ne_none_iff_exists'.mp hown
    exact not_not.mpr (FinMap.mem_of_getElem? he)
  unfold advertise advertiseEmergency
  dsimp only
  rw [nextSeq_eq hbelow hms, if_neg Bool.false_ne_true, if_neg hmem]
  dsimp only
  rw [on_relayEm hlink rfl]

theorem Told.alarm_up (h : Told x w ads) {r : Reading} {issi : UInt32} {bts : String} {todo : List (UInt32 × String)}
    (htask : w.task = .alarms r ((issi, bts) :: todo)) (hnodup : r.reported.Nodup) (hms : w.high < nowMs)
    (htop : nowMs ≤ w.top) : ∃ ads, Told x (w.work x nowMs) ads := by
  have hdoing := h.doing
  rw [htask] at hdoing
  obtain ⟨hbegan, done, hdone, hcur, hrest⟩ := hdoing
  have hreported : r.reported = done.map Prod.fst ++ issi :: todo.map Prod.fst := by
    unfold Reading.reported
    rw [hdone, List.map_append, List.map_cons]
  have hnew : issi ∉ done.map Prod.fst := by
    rw [hreported] at hnodup
    exact fun hin => (List.nodup_append.mp hnodup).2.2 issi hin issi List.mem_cons_self rfl
  have hbelow := hrest issi hnew
  have hlist : r.alarms = (done ++ [(issi, bts)]) ++ todo := by rw [hdone, List.append_assoc, List.singleton_append]
  -- Whether it is advertised or not, the alarm is current and the others are as before.
  have hnext : ∀ v : UInt32 → Alarm, (v issi).Current r issi → (∀ i, issi ≠ i → v i = w.alarm x ads i) →
      Doing v w.now w.high w.passed (.alarms r todo) := by
    refine fun v hi hother => ⟨hbegan, done ++ [(issi, bts)], hlist, fun i hin => ?_, fun i hin => ?_⟩
    · rw [List.map_append, List.mem_append] at hin
      rcases hin with hin | hin
      · have hne : issi ≠ i := fun he => hnew (he ▸ hin)
        exact hother i hne ▸ hcur i hin
      · cases List.mem_singleton.mp hin
        exact hi
    · rw [List.map_append, List.mem_append, not_or] at hin
      have hne : issi ≠ i := fun he => hin.2 (he ▸ List.mem_singleton_self issi)
      exact hother i hne ▸ hrest i hin.1
  unfold work
  rw [htask]
  dsimp only
  split
  · next hdue =>
    let ad : EmAdvert := { issi, dest := r.dests[issi]?, bts, active := true, seq := nowMs, path := [] }
    refine ⟨ads ++ [ad], ?_⟩
    rw [advertise_up h.linkA hbelow.own hms]
    refine h.advert ad h.linkA (fun i => FinMap.getElem?_insert) (fun i => FinMap.getElem?_insert) ?_ ?_
    · refine (h.alarms issi).advert hbelow hms htop (fun e he => ?_) (fun e he => ?_) fun hn => ?_
      · cases he
        exact htop
      · cases he
        exact ⟨rfl, rfl, rfl⟩
      · cases hn
    · intro v hown hsent hother
      exact hnext v ⟨_, _, hown, rfl, hsent, Nat.le_add_right_of_le hbegan⟩ hother
  · next hdue =>
    refine ⟨ads, ⟨h.linkA, h.linkB, h.wire, h.alarms, hnext _ ?_ fun _ _ => rfl⟩⟩
    have hsound := h.alarms issi
    cases hown : w.a.fed.emLocal[issi]? with
    | none =>
      have hs : w.sent[issi]? = none := (hsound.down hown).1
      rw [hs] at hdue
      exact absurd rfl hdue
    | some e =>
      obtain ⟨t, hsent, ht, -⟩ := hsound.up e hown
      have hs : w.sent[issi]? = some (t, e.dest) := hsent
      rw [hs] at hdue
      simp only [Option.all_some, Bool.or_eq_true, decide_eq_true_eq, not_or, not_not, Nat.not_le] at hdue
      exact ⟨e, t, hown, hdue.1, hsent, by omega⟩

theorem Told.alarm_over (h : Told x w ads) {r : Reading} {issi : UInt32} {todo : List UInt32}
    (htask : w.task = .clearing r (issi :: todo)) (hms : w.high < nowMs) (htop : nowMs ≤ w.top) :
    ∃ ads, Told x (w.work x nowMs) ads := by
  have hdoing := h.doing
  rw [htask] at hdoing
  obtain ⟨hnodup, hcur, hnone, htodo⟩ := hdoing
  obtain ⟨hnew, hnodup⟩ := List.nodup_cons.mp hnodup
  obtain ⟨hown, hbelow⟩ := htodo issi List.mem_cons_self
  let ad : EmAdvert := { issi, dest := none, bts := "", active := false, seq := nowMs, path := [] }
  refine ⟨ads ++ [ad], ?_⟩
  unfold work
  rw [htask]
  dsimp only
  rw [advertise_over h.linkA hbelow.own hms hown]
  refine h.advert ad h.linkA (fun i => FinMap.getElem?_erase) (fun i => FinMap.getElem?_erase) ?_ ?_
  · refine (h.alarms issi).advert hbelow hms htop (fun e he => ?_) (fun e he => ?_) fun _ => ⟨rfl, rfl⟩
    · cases he
    · cases he
  · intro v hown' hsent hother
    refine ⟨hnodup, fun i hi => ?_, fun i hi ht => ?_, fun i hi => ?_⟩
    · obtain ⟨hc, hout⟩ := hcur i hi
      rw [List.mem_cons, not_or] at hout
      exact ⟨hother i (fun he => hout.1 he.symm) ▸ hc, hout.2⟩
    · by_cases he : issi = i
      · exact he ▸ hown'
      · rw [hother i he]
        exact hnone i hi fun hin => (List.mem_cons.mp hin).elim (fun h => he h.symm) ht
    · have hne : issi ≠ i := fun he => hnew (he ▸ hi)
      exact hother i hne ▸ htodo i (List.mem_cons_of_mem issi hi)

theorem Told.work (h : Told x w ads) (hnodup : ∀ r : Reading, r.reported.Nodup) (hms : w.high < nowMs)
    (htop : nowMs ≤ w.top) : ∃ ads, Told x (w.work x nowMs) ads := by
  cases htask : w.task with
  | idle =>
    refine ⟨ads, ?_⟩
    unfold Pair.work
    rw [htask]
    exact h
  | alarms r todo =>
    cases todo with
    | cons alarm todo => exact h.alarm_up htask (hnodup r) hms htop
    | nil =>
      have hdoing := h.doing
      rw [htask] at hdoing
      obtain ⟨-, done, hdone, hcur, hrest⟩ := hdoing
      rw [List.append_nil] at hdone
      unfold Pair.work
      rw [htask]
      refine ⟨ads, h.linkA, h.linkB, h.wire, h.alarms, List.Nodup.filter _ FinMap.nodup_keys, fun i hi => ?_,
        fun i hi ht => ?_, fun i hi => ?_⟩
      · refine ⟨hcur i (hdone ▸ hi), fun hin => ?_⟩
        have hout := (List.mem_filter.mp hin).2
        rw [List.contains_iff_mem.mpr hi] at hout
        cases hout
      · cases hown : w.a.fed.emLocal[i]? with
        | none => exact hown
        | some e =>
          obtain ⟨t, hsent, -⟩ := (h.alarms i).up e hown
          refine absurd (List.mem_filter.mpr ⟨Std.ExtTreeMap.mem_keys.mpr (FinMap.mem_of_getElem? hsent), ?_⟩) ht
          rw [Bool.not_eq_true', ← Bool.not_eq_true, List.contains_iff_mem]
          exact hi
      · obtain ⟨hkey, hout⟩ := List.mem_filter.mp hi
        rw [Bool.not_eq_true', ← Bool.not_eq_true, List.contains_iff_mem] at hout
        refine ⟨fun hown => ?_, hrest i (hdone ▸ hout)⟩
        obtain ⟨s, hs⟩ := FinMap.mem_iff.mp (Std.ExtTreeMap.mem_keys.mp hkey)
        have hnone : w.sent[i]? = none := ((h.alarms i).down hown).1
        rw [hs] at hnone
        cases hnone
  | clearing r todo =>
    cases todo with
    | cons issi todo => exact h.alarm_over htask hms htop
    | nil =>
      have hdoing := h.doing
      rw [htask] at hdoing
      obtain ⟨-, hcur, hnone, -⟩ := hdoing
      unfold Pair.work
      rw [htask]
      refine ⟨ads, h.linkA, h.linkB, h.wire, h.alarms, fun r' hr => ?_⟩
      cases hr
      exact ⟨fun i hi => (hcur i hi).1, fun i hi => hnone i hi List.not_mem_nil⟩

/-- The peer handles what comes first. -/
theorem Told.receive (h : Told x w (ad :: ads)) (hclock : x.base + w.now / 10 ^ 6 < 2 ^ 64) {rest : List Bytes}
    {raw : Bytes} (hwire : w.wire = raw :: rest) :
    Told x { w with b := (handle w.b (x.clock w.now) x.lb raw).1, wire := rest } ads := by
  have hw := h.wire
  rw [hwire, List.map_cons] at hw
  obtain ⟨rfl, rfl⟩ := List.cons.inj hw
  have hfirst : (w.alarm x (ad :: ads) ad.issi).coming = ad :: ads.filter (·.issi = ad.issi) :=
    List.filter_cons_of_pos (p := fun a : EmAdvert => a.issi = ad.issi) (decide_eq_true rfl)
  have habove : ∀ r ∈ w.b.fed.emRemote[(x.idA, ad.issi)]?, r.seq < ad.seq := fun r hr =>
    (h.alarms ad.issi).above r hr ad (hfirst ▸ List.mem_cons_self)
  rw [handle_advert h.linkB habove]
  let w' : Pair := { w with
    b := { w.b with fed := { w.b.fed with emRemote := w.b.fed.emRemote.insert (x.idA, ad.issi) (entryOf x ad w.now) } }
    wire := ads.map fun ad => buildEmergency { ad with path := [x.idA] } }
  have hsame : w'.alarm x ads ad.issi = ⟨(w.alarm x (ad :: ads) ad.issi).own, (w.alarm x (ad :: ads) ad.issi).sent,
      ads.filter (·.issi = ad.issi), some (entryOf x ad w.now)⟩ := by
    unfold alarm
    dsimp only [w']
    rw [FinMap.getElem?_insert, if_pos rfl]
  have hother : ∀ issi, ad.issi ≠ issi → w'.alarm x ads issi = w.alarm x (ad :: ads) issi := by
    intro issi hne
    unfold alarm
    dsimp only [w']
    rw [FinMap.getElem?_insert, if_neg fun he => hne (Prod.mk.inj he).2,
      List.filter_cons_of_neg (by rw [decide_eq_false hne]; exact Bool.false_ne_true)]
  refine ⟨h.linkA, h.linkB, rfl, fun issi => ?_, h.doing.mono (le_refl w.now) (fun issi => ?_) (fun issi => ?_) fun issi n hb => ?_⟩
  · by_cases hi : ad.issi = issi
    · subst hi
      exact hsame ▸ (h.alarms ad.issi).take hfirst hclock
    · exact hother issi hi ▸ h.alarms issi
  · rfl
  · rfl
  · by_cases hi : ad.issi = issi
    · subst hi
      exact hsame ▸ hb.take hfirst w.now
    · exact hother issi hi ▸ hb

/-- The other handlers of the peer. -/
theorem Told.serve (h : Told x w ads) (hclock : x.base + w.now / 10 ^ 6 < 2 ^ 64) {b : Inner} (hlink : LinkedB x b)
    (hheld : ∀ issi : UInt32, b.fed.emRemote[(x.idA, issi)]? = w.b.fed.emRemote[(x.idA, issi)]? ∨
      b.fed.emRemote[(x.idA, issi)]? = none ∧
        (w.b.fed.emRemote[(x.idA, issi)]?).all fun e => emStaleMs ≤ satSub (x.clock w.now) e.seenMs) :
    Told x { w with b } ads := by
  have hview : ∀ issi, alarm x { w with b } ads issi = w.alarm x ads issi ∨
      (∀ r ∈ (w.alarm x ads issi).held, emStaleMs ≤ satSub (x.clock w.now) r.seenMs) ∧ alarm x { w with b } ads issi =
        ⟨(w.alarm x ads issi).own, (w.alarm x ads issi).sent, (w.alarm x ads issi).coming, none⟩ := by
    intro issi
    unfold alarm
    dsimp only
    rcases hheld issi with he | ⟨he, hstale⟩
    · exact .inl (by rw [he])
    · refine .inr ⟨fun r hr => ?_, by rw [he]⟩
      rw [Option.mem_def.mp hr] at hstale
      exact of_decide_eq_true hstale
  refine ⟨h.linkA, hlink, h.wire, fun issi => ?_, h.doing.mono (le_refl w.now) (fun _ => rfl) (fun _ => rfl) fun issi n hb => ?_⟩
  · rcases hview issi with he | ⟨hstale, he⟩
    · exact he ▸ h.alarms issi
    · exact he ▸ (h.alarms issi).drop hclock hstale
  · rcases hview issi with he | ⟨-, he⟩
    · exact he ▸ hb
    · exact he ▸ hb.drop

theorem Told.next (h : Told x w ads) (hnodup : ∀ r : Reading, r.reported.Nodup) {e : PairEvent} (hok : w.Allowed x e) :
    ∃ ads, Told x (w.next x e) ads := by
  cases e with
  | begin now stations =>
    obtain ⟨hnow, -⟩ := hok
    have htick := h.tick hnow (UInt64.le_refl _)
    refine ⟨ads, h.linkA, h.linkB, h.wire, htick.alarms, le_refl now, [], rfl, fun i hi => ?_, fun i _ => ?_⟩
    · exact absurd hi List.not_mem_nil
    · exact (h.alarms i).below
  | step now nowMs =>
    obtain ⟨hnow, hms⟩ := hok
    have htick : Told x { w with now, top := maxU64 w.top nowMs } ads := h.tick hnow <| by
      rw [UInt64.le_iff_toNat_le, toNat_maxU64]
      exact le_max_left _ _
    refine htick.work hnodup hms ?_
    rw [UInt64.le_iff_toNat_le, toNat_maxU64]
    exact le_max_right _ _
  | serveA a =>
    obtain ⟨hlink, hown⟩ := hok
    have hview : ∀ issi, alarm x { w with a } ads issi = w.alarm x ads issi := fun issi => by
      unfold alarm
      dsimp only
      rw [hown]
    refine ⟨ads, hlink, h.linkB, h.wire, fun issi => ?_, ?_⟩
    · exact hview issi ▸ h.alarms issi
    · have hall : alarm x { w with a } ads = w.alarm x ads := funext hview
      exact hall ▸ h.doing
  | serveB now b =>
    obtain ⟨hnow, hclock, hlink, hheld⟩ := hok
    exact ⟨ads, (h.tick hnow (UInt64.le_refl _)).serve hclock hlink hheld⟩
  | receive now =>
    obtain ⟨hnow, hclock⟩ := hok
    have htick := h.tick hnow (UInt64.le_refl _)
    unfold Pair.next
    dsimp only
    split
    · next raw rest hwire =>
      cases ads with
      | nil =>
        have hw := h.wire
        rw [hwire] at hw
        cases hw
      | cons ad ads => exact ⟨ads, htick.receive hclock hwire⟩
    · exact ⟨ads, htick⟩

end Steps

/-- Where it begins: the link is up, and neither end knows of an alarm. -/
structure Starts (x : Ends) (w : Pair) : Prop where
  linkA : LinkedA x w.a
  linkB : LinkedB x w.b
  own : w.a.fed.emLocal = ∅
  held : ∀ issi : UInt32, w.b.fed.emRemote[(x.idA, issi)]? = none
  sent : w.sent = ∅
  task : w.task = .idle
  passed : w.passed = none
  wire : w.wire = []

theorem told_start {x : Ends} {w : Pair} (h : Starts x w) : Told x w [] where
  linkA := h.linkA
  linkB := h.linkB
  wire := h.wire
  alarms issi := by
    have hown : w.a.fed.emLocal[issi]? = none := by rw [h.own]; rfl
    have hsent : w.sent[issi]? = none := by rw [h.sent]; rfl
    have hheld := h.held issi
    unfold alarm
    rw [hown, hsent, hheld]
    exact ⟨fun e he => absurd he.symm (Option.some_ne_none e), fun _ => ⟨rfl, fun r hr => absurd hr (Option.not_mem_none r)⟩,
      List.Pairwise.nil, fun r hr => absurd hr (Option.not_mem_none r), fun e he => absurd he (Option.not_mem_none e),
      fun ad ha => absurd ha List.not_mem_nil, fun r hr => absurd hr (Option.not_mem_none r)⟩
  doing := by
    rw [h.task]
    intro r hr
    rw [h.passed] at hr
    cases hr

/-- Once a pass has ended and the link has carried its adverts, the peer shows the alarms
that the pass has read, each with where its radio talked, and no others. -/
theorem propagated_of_reach {x : Ends} {w₀ w : Pair} (h0 : Starts x w₀) (h : Reach w₀ (Allowed x) (next x) w) {r : Reading}
    (hidle : w.task = .idle) (hpassed : w.passed = some r) (hwire : w.wire = []) (hsoon : w.now < r.began + 19 * 10 ^ 9)
    (hclock : x.base + w.now / 10 ^ 6 < 2 ^ 64) (issi : UInt32) :
    if ∃ s ∈ r.stations, issi ∈ s.2 then ∃ e, w.b.fed.emRemote[(x.idA, issi)]? = some e ∧ e.active = true ∧
      satSub (x.clock w.now) e.seenMs < emStaleMs ∧ e.dest = wireDest r.dests[issi]?
    else ∀ e ∈ w.b.fed.emRemote[(x.idA, issi)]?, e.active = false := by
  obtain ⟨ads, htold⟩ := h.invariant (P := fun w => ∃ ads, Told x w ads) ⟨[], told_start h0⟩
    fun w e hw hok => hw.elim fun ads hw => hw.next nodup_reported hok
  have hads : ads = [] := List.map_eq_nil_iff.mp (htold.wire.symm.trans hwire)
  subst hads
  have hdoing := htold.doing
  rw [hidle] at hdoing
  obtain ⟨hcur, hnone⟩ := hdoing r hpassed
  have hsound := htold.alarms issi
  split
  · next hup =>
    obtain ⟨e, t, hown, hdest, hsent, hbegan⟩ := hcur issi (mem_reported.mpr hup)
    obtain ⟨t', hsent', ht, hshown⟩ := hsound.up e hown
    obtain ⟨rfl, -⟩ := Prod.mk.inj (Option.some.inj (hsent.symm.trans hsent'))
    have hrefresh : refreshAfter = 10 * 10 ^ 9 := rfl
    obtain ⟨held, hheld, hactive, hdest', hseen⟩ := hshown.resolve_left (by omega)
    refine ⟨held, hheld, hactive, ?_, hdest ▸ hdest'⟩
    have hms : emStaleMs.toNat = 30000 := rfl
    unfold satSub
    split
    · next hle =>
      rw [UInt64.lt_iff_toNat_lt, UInt64.toNat_sub_of_le _ _ hle, x.toNat_clock hclock, hms]
      omega
    · decide
  · next hover => exact (hsound.down (hnone issi fun hin => hover (mem_reported.mp hin))).2

/-- A station of one server reports an alarm, and the other hears of it. -/
def ends : Ends where
  la := 7
  lb := 8
  idA := 1
  idB := 2
  distinct := by decide
  base := 1000

def linked (self : UInt64) (link : ClientId) (peer : UInt64) : Inner :=
  let s := Inner.empty self
  { s with
    clients := s.clients.insert link { mode := .peer, version := .v1, versionAnnounced := true, remoteAddr := none }
    fed := { s.fed with links := s.fed.links.insert link peer, emLinks := s.fed.emLinks.insert link } }

def reading : Reading where
  began := 10 ^ 9
  stations := [("bts1", FinSet.ofList [4013])]
  dests := ∅

def linkedPair : Pair := { now := 0, a := linked 1 7 2, b := linked 2 8 1 }

def reported : List PairEvent :=
  [.step (10 ^ 9) 5000, .step (10 ^ 9) 5000, .step (10 ^ 9) 5000, .receive (2 * 10 ^ 9)]

theorem alarms_reading : reading.alarms = [(4013, "bts1")] := by
  have hone : (FinSet.ofList [(4013 : UInt32)]).toList = [4013] := by decide +kernel
  unfold Reading.alarms ownAlarms reading
  simp [hone]

/-- The pair once the pass has read the alarm. -/
def reporting : Pair := { linkedPair with now := 10 ^ 9, task := .alarms reading [(4013, "bts1")] }

/-- The pair once the peer has been told. -/
def told : Pair := reported.foldl (next ends) reporting

theorem propagated_reported :
    ∃ e, told.b.fed.emRemote[(ends.idA, (4013 : UInt32))]? = some e ∧ e.active = true ∧
      satSub (ends.clock told.now) e.seenMs < emStaleMs ∧ e.dest = wireDest reading.dests[(4013 : UInt32)]? := by
  have hstart : Starts ends linkedPair :=
    ⟨by decide +kernel, by decide +kernel, rfl, fun _ => rfl, rfl, rfl, rfl, rfl⟩
  have hbegin : linkedPair.next ends (.begin (10 ^ 9) reading.stations) = reporting := by
    unfold reporting
    rw [← alarms_reading]
    rfl
  have hzero : Reach linkedPair (Allowed ends) (next ends) reporting :=
    hbegin ▸ Reach.step .init (show Allowed ends linkedPair (.begin (10 ^ 9) reading.stations) from ⟨by decide, rfl⟩)
  have hone := hzero.step (show Allowed ends _ (.step (10 ^ 9) 5000) from ⟨by decide, by decide⟩)
  have htwo := hone.step (show Allowed ends _ (.step (10 ^ 9) 5000) from ⟨by decide +kernel, by decide +kernel⟩)
  have hthree := htwo.step (show Allowed ends _ (.step (10 ^ 9) 5000) from ⟨by decide +kernel, by decide +kernel⟩)
  have hfour := hthree.step (show Allowed ends _ (.receive (2 * 10 ^ 9)) from ⟨by decide +kernel, by decide⟩)
  have hrun : Reach linkedPair (Allowed ends) (next ends) told := hfour
  have htold := propagated_of_reach hstart hrun (r := reading) (by decide +kernel) (by decide +kernel)
    (by decide +kernel) (by decide +kernel) (by decide +kernel) 4013
  rw [if_pos ⟨_, List.mem_singleton_self _, by decide +kernel⟩] at htold
  exact htold

end Pair

end BrewServer.Emergencies
