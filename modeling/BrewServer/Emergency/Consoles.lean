import BrewServer.Emergency.Snapshot
import BrewServer.Lib.Transition
import BrewServer.RoundTrip

/-!
# The consoles' list

Once a second the list is sent to every dispatch console if it has changed, and again
every few seconds while it is not empty. Consoles come and go at any moment, also
between the look at the tables and the sending.
-/

namespace BrewServer.Emergencies

open Protocol

def serviceEmergency : UInt8 := 0x11

/-- What of an entry the consoles are told. -/
abbrev Key := UInt32 × Option UInt32

def Emergency.key (e : Emergency) : Key := (e.issi, e.destination)

def Key.json (k : Key) : String :=
  "\x7b\"dest\":" ++ (match k.2 with
    | some g => toString g.toNat
    | none => "null") ++ ",\"issi\":" ++ toString k.1.toNat ++ "\x7d"

def keysMessage (keys : List Key) : Bytes :=
  buildService serviceEmergency ("\x7b\"emergencies\":[" ++ ",".intercalate (keys.map Key.json) ++ "]\x7d")

def buildMessage (list : List Emergency) : Bytes := keysMessage (list.map Emergency.key)

/-- A connected console, and the last list it was sent. -/
structure Console where
  since : ℕ
  told : Option Bytes := none
  deriving DecidableEq

/-- What the task remembers, and the consoles. Times are in nanoseconds. -/
structure World where
  now : ℕ
  consoles : FinMap ClientId Console := ∅
  last : List Key := []
  lastSent : ℕ
  /-- A message that is due and not sent yet. -/
  pending : Option Bytes := none
  /-- The last look at the tables, and when it was. -/
  seen : Option (Sources × ℕ) := none

inductive Event
  | connect (id : ClientId) (now : ℕ)
  | disconnect (id : ClientId)
  | look (src : Sources) (now : ℕ)
  | send

def resendAfter : ℕ := 5 * 10 ^ 9

namespace World

/-- The first half of `push_if_due`. -/
def look (w : World) (src : Sources) (now : ℕ) : World :=
  let list := snapshot src
  let key := list.map Emergency.key
  let due := key ≠ w.last ∨ key ≠ [] ∧ resendAfter ≤ now - w.lastSent
  let w := { w with now, seen := some (src, now) }
  if due then { w with last := key, lastSent := now, pending := some (buildMessage list) } else w

/-- The second half. -/
def send (w : World) : World :=
  match w.pending with
  | some msg => { w with consoles := w.consoles.map fun _ c => { c with told := some msg }, pending := none }
  | none => w

def next (w : World) : Event → World
  | .connect id now => { w with now, consoles := w.consoles.insert id { since := now } }
  | .disconnect id => { w with consoles := w.consoles.erase id }
  | .look src now => w.look src now
  | .send => w.send

/-- The clock does not go back, and a list is sent before the tables are looked at again. -/
def Allowed (w : World) : Event → Prop
  | .connect _ now => w.now ≤ now
  | .disconnect _ => True
  | .look _ now => w.now ≤ now ∧ w.pending = none
  | .send => True

instance (w : World) (e : Event) : Decidable (w.Allowed e) :=
  match e with
  | .connect _ now => inferInstanceAs (Decidable (w.now ≤ now))
  | .disconnect _ => inferInstanceAs (Decidable True)
  | .look _ now => inferInstanceAs (Decidable (w.now ≤ now ∧ w.pending = none))
  | .send => inferInstanceAs (Decidable True)

/-- `PushState::default`, a minute before the first look. -/
def start (now : ℕ) : World := { now, lastSent := now - 60 * 10 ^ 9 }

/-- Every console shows the emergencies there were at the last look, or has not been there
for long. -/
structure UpToDate (w : World) : Prop where
  shown : w.pending = none → ∀ src t, w.seen = some (src, t) → ∃ list, Lists src list ∧
    ∀ (id : ClientId) (c : Console), w.consoles[id]? = some c →
      c.told = some (buildMessage list) ∨ c.told = none ∧ (list = [] ∨ t - c.since < resendAfter)

structure Sound (w : World) : Prop where
  pending : ∀ msg ∈ w.pending, msg = keysMessage w.last
  sent : w.lastSent ≤ w.now
  told : w.pending = none → ∀ (id : ClientId) (c : Console), w.consoles[id]? = some c →
    c.told = some (keysMessage w.last) ∨ c.told = none ∧ w.lastSent ≤ c.since
  seen : ∀ src t, w.seen = some (src, t) → w.last = (snapshot src).map Emergency.key ∧
    (w.last = [] ∨ t - w.lastSent < resendAfter)

section Run

variable {w : World}

theorem sound_start (now : ℕ) : (start now).Sound where
  pending msg hm := by cases hm
  sent := Nat.sub_le now _
  told _ id c hc := by simp [start] at hc
  seen src t hs := by cases hs

theorem Sound.look (h : w.Sound) {now : ℕ} (hnow : w.now ≤ now) (src : Sources) :
    (w.look src now).Sound := by
  have hlast := h.sent.trans hnow
  unfold World.look
  dsimp only
  split
  · refine ⟨fun msg hm => (Option.some.inj hm).symm, le_refl now, fun hp => absurd hp (Option.some_ne_none _),
      fun src' t hs => ?_⟩
    obtain ⟨rfl, rfl⟩ := Prod.mk.inj (Option.some.inj hs)
    refine ⟨rfl, .inr ?_⟩
    rw [Nat.sub_self]
    decide
  · next hdue =>
    rw [not_or, not_not] at hdue
    obtain ⟨hsame, hrecent⟩ := hdue
    refine ⟨h.pending, hlast, h.told, fun src' t hs => ?_⟩
    obtain ⟨rfl, rfl⟩ := Prod.mk.inj (Option.some.inj hs)
    refine ⟨hsame.symm, ?_⟩
    by_cases hnil : w.last = []
    · exact .inl hnil
    · rw [not_and, Nat.not_le, hsame] at hrecent
      exact .inr (hrecent hnil)

theorem Sound.send (h : w.Sound) : w.send.Sound := by
  unfold World.send
  split
  · next msg hm =>
    refine ⟨fun msg hm => absurd hm.symm (Option.some_ne_none _), h.sent, fun _ id c hc => ?_, h.seen⟩
    dsimp only at hc
    rw [FinMap.getElem?_map] at hc
    obtain ⟨c', -, rfl⟩ := Option.map_eq_some_iff.mp hc
    exact .inl (congrArg some (h.pending msg hm))
  · exact h

theorem Sound.next (h : w.Sound) {e : Event} (hok : w.Allowed e) : (w.next e).Sound := by
  cases e with
  | connect id now =>
    refine ⟨h.pending, h.sent.trans hok, fun hp k c hc => ?_, h.seen⟩
    change (w.consoles.insert id { since := now })[k]? = some c at hc
    rw [FinMap.getElem?_insert] at hc
    split at hc
    · cases hc
      exact .inr ⟨rfl, h.sent.trans hok⟩
    · exact h.told hp k c hc
  | disconnect id =>
    refine ⟨h.pending, h.sent, fun hp k c hc => ?_, h.seen⟩
    change (w.consoles.erase id)[k]? = some c at hc
    rw [FinMap.getElem?_erase] at hc
    split at hc
    · cases hc
    · exact h.told hp k c hc
  | look src now => exact h.look hok.1 src
  | send => exact h.send

end Run

/-- The consoles keep up with the emergencies. -/
theorem upToDate_of_reach {now : ℕ} {w : World} (h : Reach (start now) Allowed next w) : w.UpToDate where
  shown hp src t hs := by
    have hsound : w.Sound := h.invariant (P := Sound) (sound_start now) fun w e hw hok => hw.next hok
    obtain ⟨hlast, hrecent⟩ := hsound.seen src t hs
    refine ⟨snapshot src, lists_snapshot src, fun id c hc => ?_⟩
    rcases hsound.told hp id c hc with htold | ⟨hnone, hsince⟩
    · exact .inl (by rw [htold, hlast]; rfl)
    · refine .inr ⟨hnone, ?_⟩
      rcases hrecent with hnil | hrecent
      · exact .inl (List.map_eq_nil_iff.mp (hlast ▸ hnil))
      · exact .inr (by omega)

/-- Two stations report an alarm of one radio while one console is connected, and another
connects before it is told. -/
def alarmed : Sources :=
  { stations := [("bts2", FinSet.ofList [4013]), ("bts3", FinSet.ofList [4013])]
    distinct := by decide
    inner := .empty 1
    blocked := fun _ => false
    nowMs := 0 }

theorem upToDate_alarmed :
    UpToDate ([.connect 1 100, .look alarmed 200, .connect 2 300, .send].foldl next (start 0)) := by
  have hone : Reach (start 0) Allowed next ((start 0).next (.connect 1 100)) := .step .init (Nat.zero_le 100)
  have htwo := Reach.step hone (show Allowed _ (.look alarmed 200) from ⟨by decide, rfl⟩)
  have hthree := Reach.step htwo (show Allowed _ (.connect 2 300) by
    change (look _ alarmed 200).now ≤ 300
    unfold look
    dsimp only
    split
    · exact Nat.le_of_ble_eq_true rfl
    · exact Nat.le_of_ble_eq_true rfl)
  have hrun := Reach.step hthree (show Allowed _ .send from trivial)
  exact upToDate_of_reach hrun

end World

end BrewServer.Emergencies
