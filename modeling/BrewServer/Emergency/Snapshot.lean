import BrewServer.Fedroute.ServerId
import BrewServer.Router.Group
import Mathlib.Data.List.Destutter
import Mathlib.Data.List.Perm.Basic

/-!
# Active emergencies

The alarms of this server's Basestations, those that other servers relay and the live
emergency calls, as one list. An alarm whose radio has a live call is one emergency.
-/

namespace BrewServer.Emergencies

open Fedroute Router

inductive Kind
  | alarm
  | call
  deriving DecidableEq

structure Emergency where
  issi : UInt32
  /-- The group or the called ISSI of a call; none for an alarm whose radio is in no call. -/
  destination : Option UInt32
  /-- The Basestation that reported the alarm; none for a call. -/
  bts : Option String
  kind : Kind
  blacklisted : Bool
  deriving DecidableEq

/-- What the list is made from. -/
structure Sources where
  /-- Every station, with the ISSIs whose alarm it reported. -/
  stations : List (String × FinSet UInt32)
  distinct : (stations.map Prod.fst).Nodup
  inner : Inner
  blocked : UInt32 → Bool
  /-- `telemetry::now_ms`. -/
  nowMs : UInt64

namespace Sources

def own (src : Sources) : List Emergency :=
  src.stations.flatMap fun (id, issis) => issis.toList.map fun issi =>
    { issi, destination := none, bts := some id, kind := .alarm, blacklisted := src.blocked issi }

/-- Kept fresh by the server they are from. -/
def fresh (src : Sources) (e : RemoteEm) : Bool := e.active && satSub src.nowMs e.seenMs < emStaleMs

/-- How the station of another server is named. -/
def relayedBts (origin : UInt64) (e : RemoteEm) : String :=
  e.bts ++ " @ " ++ String.ofList ((formatServerId origin).take 8)

def relayed (src : Sources) : List Emergency :=
  (src.inner.fed.emRemote.toList.filter fun e => src.fresh e.2).map fun ((origin, issi), e) =>
    { issi
      destination := e.dest
      bts := some (relayedBts origin e)
      kind := .alarm
      blacklisted := src.blocked issi }

def calls (src : Sources) : List Emergency :=
  (src.inner.calls.toList.filter fun c => emergencyPriority ≤ c.2.priority).map fun (_, call) =>
    { issi := call.sourceIssi
      destination := some call.destination
      bts := none
      kind := .call
      blacklisted := src.blocked call.sourceIssi }

end Sources

def Kind.rank : Kind → ℕ
  | .alarm => 0
  | .call => 1

/-- The order of the list: by ISSI, an alarm before a call. -/
def before (a b : Emergency) : Bool :=
  a.issi < b.issi || (a.issi == b.issi && a.kind.rank ≤ b.kind.rank)

/-- What makes two entries one. -/
def entry (e : Emergency) : UInt32 × Kind × Option UInt32 × Option String := (e.issi, e.kind, e.destination, e.bts)

/-- An alarm takes the destination of a call of its radio. -/
def placed (calls : List Emergency) (e : Emergency) : Emergency :=
  match e.kind, calls.find? (·.issi = e.issi) with
  | .alarm, some call => { e with destination := call.destination }
  | _, _ => e

namespace Sources

def found (src : Sources) : List Emergency := src.own ++ src.relayed ++ src.calls

/-- Everything that is found, each alarm with where its radio talks. -/
def joined (src : Sources) : List Emergency := src.found.map (placed (src.found.filter (·.kind = .call)))

def alarmed (src : Sources) : List UInt32 := (src.joined.filter (·.kind = .alarm)).map (·.issi)

end Sources

def snapshot (src : Sources) : List Emergency :=
  let out := src.joined.filter fun e => e.kind ≠ .call || !src.alarmed.contains e.issi
  (out.mergeSort before).destutter fun a b => entry a ≠ entry b

/-! ## What the list says -/

/-- What stands for a list stands for a part of it. -/
theorem exists_forall₂_of_sublist {α β : Type} {R : α → β → Prop} {as : List α} {l l' : List β} (hsub : l'.Sublist l)
    (h : List.Forall₂ R as l) : ∃ as' : List α, as'.Sublist as ∧ List.Forall₂ R as' l' := by
  induction hsub generalizing as with
  | slnil => exact ⟨as, List.Sublist.refl as, h⟩
  | cons b _ ih =>
    cases h with
    | cons _ hrest =>
      obtain ⟨as', hsub, h⟩ := ih hrest
      exact ⟨as', hsub.cons _, h⟩
  | cons_cons b _ ih =>
    cases h with
    | cons hfst hrest =>
      obtain ⟨as', hsub, h⟩ := ih hrest
      exact ⟨_ :: as', hsub.cons_cons _, .cons hfst h⟩

/-- What a run of equal neighbours loses is still there. -/
theorem exists_mem_destutter {α β : Type} [DecidableEq β] (f : α → β) {l : List α} {x : α} (h : x ∈ l) :
    ∃ y ∈ l.destutter fun a b => f a ≠ f b, f y = f x := by
  have hfirst (a : α) (l : List α) : ∀ x ∈ a :: l, ∃ y ∈ l.destutter' (fun a b => f a ≠ f b) a, f y = f x := by
    induction l generalizing a with
    | nil =>
      intro x hx
      exact ⟨a, List.mem_destutter' _ _ _, by rw [List.mem_singleton.mp hx]⟩
    | cons b l ih =>
      intro x hx
      by_cases hab : f a = f b
      · rw [List.destutter'_cons_neg _ (not_not.mpr hab)]
        rcases List.mem_cons.mp hx with rfl | hx
        · exact ih x x List.mem_cons_self
        · rcases List.mem_cons.mp hx with rfl | hx
          · obtain ⟨y, hy, he⟩ := ih a a List.mem_cons_self
            exact ⟨y, hy, he.trans hab⟩
          · exact ih a x (List.mem_cons_of_mem a hx)
      · rw [List.destutter'_cons_pos _ hab]
        rcases List.mem_cons.mp hx with rfl | hx
        · exact ⟨x, List.mem_cons_self, rfl⟩
        · obtain ⟨y, hy, he⟩ := ih b x hx
          exact ⟨y, List.mem_cons_of_mem a hy, he⟩
  cases l with
  | nil => exact absurd h List.not_mem_nil
  | cons a l =>
    rw [List.destutter_cons']
    exact hfirst a l x h

namespace Sources

variable {src : Sources} {issi g : UInt32} {e : Emergency}

/-- A station of this server or another server reports an alarm of the radio. -/
def Alarmed (src : Sources) (issi : UInt32) : Prop :=
  (∃ s ∈ src.stations, issi ∈ s.2) ∨
    ∃ (origin : UInt64) (e : RemoteEm), src.inner.fed.emRemote[(origin, issi)]? = some e ∧ src.fresh e = true

/-- Who an entry comes from: a station of this server or another server that reports an alarm
of a radio, or a call. -/
inductive Report
  | station (id : String) (issi : UInt32)
  | server (origin : UInt64) (issi : UInt32)
  | call (id : Uuid)

/-- An entry says what is reported. -/
def Says (src : Sources) : Report → Emergency → Prop
  | .station id issi, e =>
    (∃ s ∈ src.stations, s.1 = id ∧ issi ∈ s.2) ∧ e.kind = .alarm ∧ e.issi = issi ∧ e.bts = some id
  | .server origin issi, e =>
    ∃ held, src.inner.fed.emRemote[(origin, issi)]? = some held ∧ src.fresh held = true ∧
      e.kind = .alarm ∧ e.issi = issi ∧ e.bts = some (relayedBts origin held)
  | .call id, e =>
    ∃ call, src.inner.calls[id]? = some call ∧ emergencyPriority ≤ call.priority ∧
      e.kind = .call ∧ e.issi = call.sourceIssi ∧ e.destination = some call.destination

/-- Each entry is another's report, and no report has two. -/
def Apart (src : Sources) (l : List Emergency) : Prop := ∃ reports : List Report, reports.Nodup ∧ List.Forall₂ src.Says reports l

theorem Apart.sublist {l l' : List Emergency} (h : src.Apart l) (hsub : l'.Sublist l) : src.Apart l' := by
  obtain ⟨reports, hnodup, hrep⟩ := h
  obtain ⟨reports', hpart, hrep⟩ := exists_forall₂_of_sublist hsub hrep
  exact ⟨reports', hnodup.sublist hpart, hrep⟩

theorem Apart.perm {l l' : List Emergency} (h : src.Apart l) (hperm : l'.Perm l) : src.Apart l' := by
  obtain ⟨reports, hnodup, hrep⟩ := h
  obtain ⟨reports', hrep, hpart⟩ := List.perm_comp_forall₂ hperm hrep.flip
  exact ⟨reports', hpart.nodup_iff.mpr hnodup, hrep.flip⟩

/-- The radio talks in a live emergency call to `g`. -/
def Calling (src : Sources) (issi g : UInt32) : Prop :=
  ∃ (id : Uuid) (call : ActiveCall), src.inner.calls[id]? = some call ∧ emergencyPriority ≤ call.priority ∧
    call.sourceIssi = issi ∧ call.destination = g

theorem mem_own : e ∈ src.own → e.kind = .alarm ∧ e.destination = none ∧ src.Alarmed e.issi := by
  intro h
  obtain ⟨s, hs, he⟩ := List.mem_flatMap.mp h
  obtain ⟨issi, hi, rfl⟩ := List.mem_map.mp he
  exact ⟨rfl, rfl, .inl ⟨s, hs, Std.ExtTreeSet.mem_toList.mp hi⟩⟩

theorem mem_relayed : e ∈ src.relayed → e.kind = .alarm ∧ src.Alarmed e.issi := by
  intro h
  obtain ⟨⟨⟨origin, issi⟩, held⟩, hm, rfl⟩ := List.mem_map.mp h
  obtain ⟨hm, hfresh⟩ := List.mem_filter.mp hm
  exact ⟨rfl, .inr ⟨origin, held, FinMap.mem_toList.mp hm, hfresh⟩⟩

theorem mem_calls : e ∈ src.calls → e.kind = .call ∧ ∃ g, e.destination = some g ∧ src.Calling e.issi g := by
  intro h
  obtain ⟨⟨id, call⟩, hm, rfl⟩ := List.mem_map.mp h
  obtain ⟨hm, hp⟩ := List.mem_filter.mp hm
  exact ⟨rfl, call.destination, rfl, id, call, FinMap.mem_toList.mp hm, of_decide_eq_true hp, rfl, rfl⟩

theorem exists_alarm (h : src.Alarmed issi) : ∃ e ∈ src.own ++ src.relayed, e.issi = issi := by
  rcases h with ⟨s, hs, hi⟩ | ⟨origin, held, hm, hfresh⟩
  · exact ⟨_, List.mem_append_left _ (List.mem_flatMap.mpr
      ⟨s, hs, List.mem_map.mpr ⟨issi, Std.ExtTreeSet.mem_toList.mpr hi, rfl⟩⟩), rfl⟩
  · exact ⟨_, List.mem_append_right _ (List.mem_map.mpr
      ⟨((origin, issi), held), List.mem_filter.mpr ⟨FinMap.mem_toList.mpr hm, hfresh⟩, rfl⟩), rfl⟩

theorem exists_call (h : src.Calling issi g) : ∃ e ∈ src.calls, e.issi = issi := by
  obtain ⟨id, call, hm, hp, rfl, -⟩ := h
  exact ⟨_, List.mem_map.mpr ⟨(id, call), List.mem_filter.mpr ⟨FinMap.mem_toList.mpr hm, decide_eq_true hp⟩, rfl⟩, rfl⟩

/-- Each alarm that is reported has an entry. -/
theorem exists_entry {r : Report} (h : src.Says r e) (hkind : e.kind = .alarm) :
    ∃ e' ∈ src.own ++ src.relayed, e'.kind = .alarm ∧ e'.issi = e.issi ∧ e'.bts = e.bts := by
  cases r with
  | station id issi =>
    obtain ⟨⟨s, hs, rfl, hi⟩, -, rfl, hbts⟩ := h
    exact ⟨_, List.mem_append_left _ (List.mem_flatMap.mpr
      ⟨s, hs, List.mem_map.mpr ⟨e.issi, Std.ExtTreeSet.mem_toList.mpr hi, rfl⟩⟩), rfl, rfl, hbts.symm⟩
  | server origin issi =>
    obtain ⟨held, hm, hfresh, -, rfl, hbts⟩ := h
    exact ⟨_, List.mem_append_right _ (List.mem_map.mpr
      ⟨((origin, e.issi), held), List.mem_filter.mpr ⟨FinMap.mem_toList.mpr hm, hfresh⟩, rfl⟩), rfl, rfl, hbts.symm⟩
  | call id =>
    obtain ⟨call, -, -, hcall, -⟩ := h
    rw [hkind] at hcall
    cases hcall

def stationReports (src : Sources) : List (String × UInt32) := src.stations.flatMap fun s => s.2.toList.map (s.1, ·)

/-- What is reported, in the order in which the list is made. -/
def reports (src : Sources) : List Report :=
  src.stationReports.map (fun r => .station r.1 r.2) ++
    (src.inner.fed.emRemote.toList.filter fun e => src.fresh e.2).map (fun e => .server e.1.1 e.1.2) ++
      (src.inner.calls.toList.filter fun c => emergencyPriority ≤ c.2.priority).map fun c => .call c.1

theorem mem_stationReports {r : String × UInt32} (h : r ∈ src.stationReports) : ∃ s ∈ src.stations, s.1 = r.1 ∧ r.2 ∈ s.2 := by
  obtain ⟨s, hs, hr⟩ := List.mem_flatMap.mp h
  obtain ⟨issi, hi, rfl⟩ := List.mem_map.mp hr
  exact ⟨s, hs, rfl, Std.ExtTreeSet.mem_toList.mp hi⟩

theorem own_eq (src : Sources) : src.own = src.stationReports.map fun r =>
    { issi := r.2, destination := none, bts := some r.1, kind := .alarm, blacklisted := src.blocked r.2 } := by
  unfold own stationReports
  rw [List.map_flatMap]
  simp only [List.map_map, Function.comp_def]

theorem nodup_stationReports : src.stationReports.Nodup := by
  refine List.nodup_flatMap.mpr ⟨fun s _ => ?_, ?_⟩
  · exact FinSet.nodup_toList.map fun i j hij => congrArg Prod.snd hij
  · refine (List.pairwise_map.mp src.distinct).imp fun {s t} hne => ?_
    intro r hs ht
    obtain ⟨i, -, rfl⟩ := List.mem_map.mp hs
    obtain ⟨j, -, hj⟩ := List.mem_map.mp ht
    exact hne (congrArg Prod.fst hj).symm

theorem nodup_reports : src.reports.Nodup := by
  have hservers : (src.inner.fed.emRemote.toList.filter fun e => src.fresh e.2).Pairwise fun a b => a.1 ≠ b.1 := by
    refine List.Pairwise.sublist List.filter_sublist (List.pairwise_map.mp ?_)
    rw [Std.ExtTreeMap.map_fst_toList_eq_keys]
    exact FinMap.nodup_keys
  have hcalls : (src.inner.calls.toList.filter fun c => emergencyPriority ≤ c.2.priority).Pairwise fun a b => a.1 ≠ b.1 := by
    refine List.Pairwise.sublist List.filter_sublist (List.pairwise_map.mp ?_)
    rw [Std.ExtTreeMap.map_fst_toList_eq_keys]
    exact FinMap.nodup_keys
  refine List.nodup_append.mpr ⟨List.nodup_append.mpr ⟨?_, ?_, ?_⟩, ?_, ?_⟩
  · exact nodup_stationReports.map fun r r' h => by
      obtain ⟨hid, hissi⟩ := Report.station.inj h
      exact Prod.ext hid hissi
  · refine List.pairwise_map.mpr (hservers.imp fun {a b} hne heq => ?_)
    obtain ⟨horigin, hissi⟩ := Report.server.inj heq
    exact hne (Prod.ext horigin hissi)
  · intro r hr r' hr' heq
    obtain ⟨x, -, rfl⟩ := List.mem_map.mp hr
    obtain ⟨y, -, rfl⟩ := List.mem_map.mp hr'
    cases heq
  · refine List.pairwise_map.mpr (hcalls.imp fun {a b} hne heq => ?_)
    exact hne (Report.call.inj heq)
  · intro r hr r' hr' heq
    obtain ⟨y, -, rfl⟩ := List.mem_map.mp hr'
    rcases List.mem_append.mp hr with hr | hr
    · obtain ⟨x, -, rfl⟩ := List.mem_map.mp hr
      cases heq
    · obtain ⟨x, -, rfl⟩ := List.mem_map.mp hr
      cases heq

theorem says_found : List.Forall₂ src.Says src.reports src.found := by
  refine List.rel_append (List.rel_append ?_ ?_) ?_
  · rw [own_eq, List.forall₂_map_left_iff, List.forall₂_map_right_iff, List.forall₂_same]
    exact fun r hr => ⟨mem_stationReports hr, rfl, rfl, rfl⟩
  · unfold relayed
    rw [List.forall₂_map_left_iff, List.forall₂_map_right_iff, List.forall₂_same]
    intro x hx
    obtain ⟨hm, hfresh⟩ := List.mem_filter.mp hx
    exact ⟨x.2, FinMap.mem_toList.mp hm, hfresh, rfl, rfl, rfl⟩
  · unfold calls
    rw [List.forall₂_map_left_iff, List.forall₂_map_right_iff, List.forall₂_same]
    intro x hx
    obtain ⟨hm, hp⟩ := List.mem_filter.mp hx
    exact ⟨x.2, FinMap.mem_toList.mp hm, of_decide_eq_true hp, rfl, rfl, rfl⟩

end Sources

/-- The list is the emergencies there are, each radio's with where it talks. -/
structure Lists (src : Sources) (l : List Emergency) : Prop where
  /-- No station, no other server and no call has two entries for a radio. -/
  apart : src.Apart l
  /-- Each station and each other server that reports an alarm has an entry for it. -/
  reported : ∀ r e, src.Says r e → e.kind = .alarm → ∃ e' ∈ l, e'.kind = .alarm ∧ e'.issi = e.issi ∧ e'.bts = e.bts
  all : ∀ issi, (∃ e ∈ l, e.issi = issi) ↔ src.Alarmed issi ∨ ∃ g, src.Calling issi g
  /-- A radio with an alarm is not listed for its call as well. -/
  once : ∀ e ∈ l, e.kind = .alarm ↔ src.Alarmed e.issi
  talks : ∀ e ∈ l, ∀ g, src.Calling e.issi g → ∃ g', e.destination = some g' ∧ src.Calling e.issi g'
  called : ∀ e ∈ l, e.kind = .call → ∃ g, e.destination = some g ∧ src.Calling e.issi g
  sorted : l.Pairwise fun a b => a.issi ≤ b.issi

section Spec

variable {src : Sources} {e : Emergency} {cs : List Emergency}

theorem placed_eq (cs : List Emergency) (e : Emergency) : (placed cs e).issi = e.issi ∧ (placed cs e).kind = e.kind := by
  unfold placed
  split
  · exact ⟨rfl, rfl⟩
  · exact ⟨rfl, rfl⟩

theorem placed_bts (cs : List Emergency) (e : Emergency) : (placed cs e).bts = e.bts := by
  unfold placed
  split
  · rfl
  · rfl

theorem placed_call (h : e.kind = .call) : placed cs e = e := by
  unfold placed
  rw [h]

/-- An alarm stays its reporter's wherever its radio talks. -/
theorem says_placed {r : Sources.Report} (cs : List Emergency) (h : src.Says r e) : src.Says r (placed cs e) := by
  obtain ⟨hissi, hkind⟩ := placed_eq cs e
  have hbts := placed_bts cs e
  cases r with
  | station id issi =>
    obtain ⟨hs, hk, hi, hb⟩ := h
    exact ⟨hs, hkind.trans hk, hissi.trans hi, hbts.trans hb⟩
  | server origin issi =>
    obtain ⟨held, hm, hfresh, hk, hi, hb⟩ := h
    exact ⟨held, hm, hfresh, hkind.trans hk, hissi.trans hi, hbts.trans hb⟩
  | call id =>
    have hsame : placed cs e = e := by
      obtain ⟨-, -, -, hk, -⟩ := h
      exact placed_call hk
    rw [hsame]
    exact h

theorem apart_joined (src : Sources) : src.Apart src.joined :=
  ⟨src.reports, Sources.nodup_reports,
    List.forall₂_map_right_iff.mpr (Sources.says_found.imp fun _ _ hs => says_placed _ hs)⟩

theorem before_trans (a b c : Emergency) (hab : before a b = true) (hbc : before b c = true) : before a c = true := by
  simp only [before, Bool.or_eq_true, Bool.and_eq_true, decide_eq_true_eq, beq_iff_eq, UInt32.lt_iff_toNat_lt,
    ← UInt32.toNat_inj] at *
  omega

theorem before_total (a b : Emergency) : (before a b || before b a) = true := by
  simp only [before, Bool.or_eq_true, Bool.and_eq_true, decide_eq_true_eq, beq_iff_eq, UInt32.lt_iff_toNat_lt,
    ← UInt32.toNat_inj]
  omega

theorem mem_found (h : e ∈ src.found) : e.kind = .alarm ∧ src.Alarmed e.issi ∨
    e.kind = .call ∧ ∃ g, e.destination = some g ∧ src.Calling e.issi g := by
  rcases List.mem_append.mp h with h | h
  · rcases List.mem_append.mp h with h | h
    · exact .inl ⟨(Sources.mem_own h).1, (Sources.mem_own h).2.2⟩
    · exact .inl (Sources.mem_relayed h)
  · exact .inr (Sources.mem_calls h)

theorem mem_joined (h : e ∈ src.joined) : ∃ e' ∈ src.found, e = placed (src.found.filter (·.kind = .call)) e' ∧
    e.issi = e'.issi ∧ e.kind = e'.kind := by
  obtain ⟨e', he', rfl⟩ := List.mem_map.mp h
  exact ⟨e', he', rfl, placed_eq _ e'⟩

theorem mem_alarmed {issi : UInt32} : issi ∈ src.alarmed ↔ src.Alarmed issi := by
  constructor
  · intro h
    obtain ⟨e, he, rfl⟩ := List.mem_map.mp h
    obtain ⟨he, hk⟩ := List.mem_filter.mp he
    obtain ⟨e', he', -, hi, hkind⟩ := mem_joined he
    rcases mem_found he' with ⟨-, h⟩ | ⟨hc, -⟩
    · rw [hi]
      exact h
    · rw [← hkind, of_decide_eq_true hk] at hc
      cases hc
  · intro h
    obtain ⟨e, he, rfl⟩ := Sources.exists_alarm h
    have hfound : e ∈ src.found := List.mem_append_left _ he
    have hkind : e.kind = .alarm := by
      rcases List.mem_append.mp he with he | he
      · exact (Sources.mem_own he).1
      · exact (Sources.mem_relayed he).1
    obtain ⟨hi, hk⟩ := placed_eq (src.found.filter (·.kind = .call)) e
    exact List.mem_map.mpr ⟨_, List.mem_filter.mpr ⟨List.mem_map_of_mem hfound, decide_eq_true (hk.trans hkind)⟩, hi⟩

/-- The call of a radio with an alarm is left out. -/
theorem mem_snapshot (h : e ∈ snapshot src) : e ∈ src.joined ∧ (e.kind = .call → ¬ src.Alarmed e.issi) := by
  have hm := (List.mergeSort_perm _ _).mem_iff.mp ((List.destutter_sublist _ _).subset h)
  obtain ⟨hm, hkept⟩ := List.mem_filter.mp hm
  refine ⟨hm, fun hcall halarm => ?_⟩
  have hin := mem_alarmed.mpr halarm
  simp [hcall, hin] at hkept

/-- Nothing else is. -/
theorem exists_mem_snapshot (h : e ∈ src.joined) (hk : e.kind = .alarm ∨ ¬ src.Alarmed e.issi) :
    ∃ e' ∈ snapshot src, entry e' = entry e := by
  have hkept : e ∈ src.joined.filter fun e => e.kind ≠ .call || !src.alarmed.contains e.issi := by
    refine List.mem_filter.mpr ⟨h, ?_⟩
    rcases hk with hk | hk
    · rw [hk]
      rfl
    · have hout : src.alarmed.contains e.issi = false := by
        rw [← Bool.not_eq_true, List.contains_iff_mem, mem_alarmed]
        exact hk
      rw [hout, Bool.not_false, Bool.or_true]
  exact exists_mem_destutter entry ((List.mergeSort_perm _ before).mem_iff.mpr hkept)

theorem exists_issi_snapshot {issi : UInt32} :
    (∃ e ∈ snapshot src, e.issi = issi) ↔ src.Alarmed issi ∨ ∃ g, src.Calling issi g := by
  constructor
  · rintro ⟨e, he, rfl⟩
    obtain ⟨e', he', -, hi, -⟩ := mem_joined (mem_snapshot he).1
    rw [hi]
    rcases mem_found he' with ⟨-, h⟩ | ⟨-, g, -, h⟩
    · exact .inl h
    · exact .inr ⟨g, h⟩
  · intro h
    by_cases halarm : src.Alarmed issi
    · obtain ⟨e, he, hk⟩ := List.mem_map.mp (mem_alarmed.mpr halarm)
      obtain ⟨he, hkind⟩ := List.mem_filter.mp he
      obtain ⟨e', he', hsame⟩ := exists_mem_snapshot he (.inl (of_decide_eq_true hkind))
      exact ⟨e', he', (congrArg Prod.fst hsame).trans hk⟩
    · obtain ⟨g, hcall⟩ := h.resolve_left halarm
      obtain ⟨e, he, rfl⟩ := Sources.exists_call hcall
      have hjoined : e ∈ src.joined := by
        refine List.mem_map.mpr ⟨e, List.mem_append_right _ he, placed_call (Sources.mem_calls he).1⟩
      obtain ⟨e', he', hsame⟩ := exists_mem_snapshot hjoined (.inr halarm)
      exact ⟨e', he', congrArg Prod.fst hsame⟩

theorem apart_snapshot (src : Sources) : src.Apart (snapshot src) := by
  have hkept : src.Apart (src.joined.filter fun e => e.kind ≠ .call || !src.alarmed.contains e.issi) :=
    (apart_joined src).sublist List.filter_sublist
  exact (hkept.perm (List.mergeSort_perm _ before)).sublist (List.destutter_sublist _ _)

/-- An alarm that is reported is kept. -/
theorem exists_alarm_snapshot {r : Sources.Report} (hrep : src.Says r e) (hkind : e.kind = .alarm) :
    ∃ e' ∈ snapshot src, e'.kind = .alarm ∧ e'.issi = e.issi ∧ e'.bts = e.bts := by
  obtain ⟨e₁, he₁, hk₁, hi₁, hb₁⟩ := Sources.exists_entry hrep hkind
  obtain ⟨hi₂, hk₂⟩ := placed_eq (src.found.filter (·.kind = .call)) e₁
  have hb₂ := placed_bts (src.found.filter (·.kind = .call)) e₁
  have hjoined : placed (src.found.filter (·.kind = .call)) e₁ ∈ src.joined :=
    List.mem_map_of_mem (List.mem_append_left _ he₁)
  obtain ⟨e', he', hsame⟩ := exists_mem_snapshot hjoined (.inl (hk₂.trans hk₁))
  obtain ⟨hi, hrest⟩ := Prod.mk.inj hsame
  obtain ⟨hk, hrest⟩ := Prod.mk.inj hrest
  obtain ⟨-, hb⟩ := Prod.mk.inj hrest
  exact ⟨e', he', hk.trans (hk₂.trans hk₁), hi.trans (hi₂.trans hi₁), hb.trans (hb₂.trans hb₁)⟩

theorem kind_of_mem_snapshot (he : e ∈ snapshot src) : e.kind = .alarm ↔ src.Alarmed e.issi := by
  obtain ⟨hjoined, hcall⟩ := mem_snapshot he
  obtain ⟨e', he', -, hi, hk⟩ := mem_joined hjoined
  constructor
  · intro halarm
    rcases mem_found he' with ⟨-, h⟩ | ⟨hc, -⟩
    · exact hi ▸ h
    · rw [← hk, halarm] at hc
      cases hc
  · intro halarm
    cases hkind : e.kind with
    | alarm => rfl
    | call => exact absurd halarm (hcall hkind)

/-- An alarm is placed where its radio talks. -/
theorem destination_of_calling (he : e ∈ snapshot src) {g : UInt32} (hcalling : src.Calling e.issi g) :
    ∃ g', e.destination = some g' ∧ src.Calling e.issi g' := by
  obtain ⟨e', he', hplaced, hi, hk⟩ := mem_joined (mem_snapshot he).1
  rcases mem_found he' with ⟨halarm, -⟩ | ⟨hc, h⟩
  · obtain ⟨c, hc, hissi⟩ := Sources.exists_call hcalling
    have hin : c ∈ src.found.filter (·.kind = .call) :=
      List.mem_filter.mpr ⟨List.mem_append_right _ hc, decide_eq_true (Sources.mem_calls hc).1⟩
    -- The alarm is placed where the first call of its radio goes.
    cases hfind : (src.found.filter (·.kind = .call)).find? (·.issi = e'.issi) with
    | none => exact absurd (hissi.trans hi) (of_decide_eq_false (Bool.eq_false_iff.mpr (List.find?_eq_none.mp hfind c hin)))
    | some c' =>
      have hmem := List.mem_of_find?_eq_some hfind
      have hsame : c'.issi = e'.issi := by simpa using List.find?_some hfind
      obtain ⟨hfound, hckind⟩ := List.mem_filter.mp hmem
      rcases mem_found hfound with ⟨hc', -⟩ | ⟨-, g', hdest, hcalls⟩
      · rw [hc'] at hckind
        cases of_decide_eq_true hckind
      · refine ⟨g', ?_, (hsame.trans hi.symm) ▸ hcalls⟩
        rw [hplaced, ← hdest]
        unfold placed
        rw [halarm, hfind]
  · rw [hplaced, placed_call hc]
    exact h

theorem destination_of_call (he : e ∈ snapshot src) (hkind : e.kind = .call) :
    ∃ g, e.destination = some g ∧ src.Calling e.issi g := by
  obtain ⟨e', he', hplaced, hi, hk⟩ := mem_joined (mem_snapshot he).1
  rcases mem_found he' with ⟨halarm, -⟩ | ⟨hc, h⟩
  · rw [← hk, hkind] at halarm
    cases halarm
  · rw [hplaced, placed_call hc]
    exact h

theorem pairwise_snapshot (src : Sources) : (snapshot src).Pairwise fun a b => a.issi ≤ b.issi := by
  refine List.Pairwise.sublist (List.destutter_sublist _ _) ?_
  refine (List.pairwise_mergeSort before_trans before_total _).imp fun {a b} hab => ?_
  simp only [before, Bool.or_eq_true, Bool.and_eq_true, decide_eq_true_eq, beq_iff_eq, UInt32.lt_iff_toNat_lt,
    ← UInt32.toNat_inj] at hab
  rw [UInt32.le_iff_toNat_le]
  omega

theorem lists_snapshot (src : Sources) : Lists src (snapshot src) where
  apart := apart_snapshot src
  reported _ _ := exists_alarm_snapshot
  all _ := exists_issi_snapshot
  once _ := kind_of_mem_snapshot
  talks _ he _ := destination_of_calling he
  called _ := destination_of_call
  sorted := pairwise_snapshot src

end Spec

end BrewServer.Emergencies
