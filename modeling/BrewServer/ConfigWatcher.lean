import BrewServer.Lib.Transition
import Mathlib.Tactic.Common

/-!
# The config watcher

A change of the config file restarts the process, unless a flag says that it was applied
live. The flag is set before a live write reaches the file and taken by the poll that sees
a change, whoever made it.
-/

namespace BrewServer

/-- A finished poll, with what came before it. -/
structure Poll where
  /-- The file was edited otherwise since the poll before. -/
  edited : Bool
  /-- It was edited otherwise at some time. -/
  everEdited : Bool
  restarted : Bool
  deriving DecidableEq

/-- The first poll after an edit restarts the process, and none does after live writes
alone. -/
def Poll.Right (p : Poll) : Prop :=
  (p.edited = true → p.restarted = true) ∧ (p.restarted = true → p.everEdited = true)

instance (p : Poll) : Decidable p.Right := by unfold Poll.Right; infer_instance

/-- The file, the flag, and where the watcher and the live writes stand. -/
structure ConfigWatcher where
  /-- The modification time of the file. -/
  mtime : ℕ
  /-- Whether the file parses. -/
  valid : Bool := true
  configWriteAppliedLive : Bool := false
  lastMtime : ℕ
  /-- The poll has seen a change and is about to take the flag. -/
  polling : Bool := false
  /-- Whether the change it saw has an edit in it. -/
  due : Bool := false
  /-- Live writes that have set the flag and not yet written the file. -/
  saving : ℕ := 0
  /-- The file was edited otherwise since a poll last looked. -/
  edited : Bool := false
  everEdited : Bool := false
  restarted : Bool := false
  polls : List Poll := []

namespace ConfigWatcher

inductive Move
  /-- Someone else writes the file. -/
  | edit (mtime : ℕ) (valid : Bool)
  /-- `blacklist::apply` has changed the running list and sets the flag. -/
  | apply
  /-- Its file is written. -/
  | saved (mtime : ℕ)
  /-- Its file could not be written; it clears the flag. -/
  | saveFailed
  /-- A poll reads the modification time. -/
  | look
  /-- A poll that saw a change takes the flag. -/
  | swap
  deriving DecidableEq

def start (mtime : ℕ) : ConfigWatcher := { mtime, lastMtime := mtime }

def finish (w : ConfigWatcher) (edited restarted : Bool) : List Poll :=
  { edited, everEdited := w.everEdited, restarted } :: w.polls

def next (w : ConfigWatcher) : Move → ConfigWatcher
  | .edit mtime valid => { w with mtime, valid, edited := true, everEdited := true }
  | .apply => { w with configWriteAppliedLive := true, saving := w.saving + 1 }
  -- What it saves was parsed before.
  | .saved mtime => { w with mtime, valid := true, saving := w.saving - 1 }
  | .saveFailed => { w with configWriteAppliedLive := false, saving := w.saving - 1 }
  | .look =>
    if w.mtime = w.lastMtime then { w with edited := false, polls := w.finish w.edited false }
    else { w with lastMtime := w.mtime, polling := true, due := w.edited, edited := false }
  | .swap =>
    if w.configWriteAppliedLive then
      { w with configWriteAppliedLive := false, polling := false, polls := w.finish w.due false }
    else if w.valid then { w with polling := false, restarted := true, polls := w.finish w.due true }
    else { w with polling := false, polls := w.finish w.due false }

/-- What can happen: a write changes the modification time and leaves a file that parses,
and a process that was restarted is over. -/
def Move.Allowed (w : ConfigWatcher) : Move → Prop
  | .edit mtime valid => w.restarted = false ∧ mtime ≠ w.mtime ∧ valid = true
  | .apply => w.restarted = false
  | .saved mtime => w.restarted = false ∧ 0 < w.saving ∧ mtime ≠ w.mtime
  | .saveFailed => w.restarted = false ∧ 0 < w.saving
  | .look => w.restarted = false ∧ w.polling = false
  | .swap => w.restarted = false ∧ w.polling = true

instance (w : ConfigWatcher) (m : Move) : Decidable (m.Allowed w) := by
  cases m <;> (unfold Move.Allowed; infer_instance)

/-- A live write and anything else that the next poll will see stay apart. -/
def Move.Apart (w : ConfigWatcher) : Move → Prop
  -- No live write waits to be noticed, unless the flag is about to be taken for it.
  | .edit _ _ => w.configWriteAppliedLive = false ∨ w.polling = true
  -- No edit waits to be noticed, and no poll is about to take the flag.
  | .apply => w.edited = false ∧ w.polling = false
  | .saved _ => True
  -- No other live write is under way or waits to be noticed.
  | .saveFailed => w.saving = 1 ∧ w.mtime = w.lastMtime
  -- No live write is still on its way to the file, and an edit shows.
  | .look => (w.mtime ≠ w.lastMtime → w.saving = 0) ∧ (w.edited = true → w.mtime ≠ w.lastMtime)
  | .swap => True

instance (w : ConfigWatcher) (m : Move) : Decidable (m.Apart w) := by
  cases m <;> (unfold Move.Apart; infer_instance)

/-- What the flag means as long as live writes and edits stay apart. -/
structure Settled (w : ConfigWatcher) : Prop where
  valid : w.valid = true
  saving : 0 < w.saving → w.configWriteAppliedLive = true ∧ w.polling = false ∧ w.edited = false
  -- Between two polls the flag stands for a live write that has reached the file.
  written : w.polling = false → w.edited = false → w.mtime ≠ w.lastMtime → w.configWriteAppliedLive = true
  edited : w.edited = true → w.polling = false → w.configWriteAppliedLive = false
  ever : w.edited = true → w.everEdited = true
  -- A poll that saw a change finds the flag exactly if no edit is in it.
  due : w.polling = true → w.configWriteAppliedLive = !w.due
  dueEver : w.polling = true → w.due = true → w.everEdited = true
  quiet : w.polling = true → w.edited = false → w.mtime = w.lastMtime
  polls : ∀ p ∈ w.polls, p.Right

variable {w : ConfigWatcher}

theorem settled_start (mtime : ℕ) : Settled (start mtime) := by
  constructor <;> simp [start]

theorem Settled.finish (h : Settled w) {edited restarted : Bool} (hp : Poll.Right ⟨edited, w.everEdited, restarted⟩) :
    ∀ p ∈ w.finish edited restarted, p.Right := by
  intro p hmem
  rcases List.mem_cons.mp hmem with rfl | hmem
  · exact hp
  · exact h.polls p hmem

theorem Settled.edit (h : Settled w) {mtime : ℕ} {valid : Bool} (hok : Move.Allowed w (.edit mtime valid))
    (hapart : Move.Apart w (.edit mtime valid)) : Settled (w.next (.edit mtime valid)) where
  valid := hok.2.2
  saving := by
    intro hpos
    have hsaving := h.saving hpos
    rcases hapart with hflag | hpolling
    · rw [hsaving.1] at hflag
      cases hflag
    · rw [hsaving.2.1] at hpolling
      cases hpolling
  written := by
    intro _ hedited
    cases hedited
  edited := by
    intro _ hpolling
    rcases hapart with hflag | hpolling'
    · exact hflag
    · rw [show w.polling = false from hpolling] at hpolling'
      cases hpolling'
  ever := fun _ => rfl
  due := h.due
  dueEver := fun _ _ => rfl
  quiet := by
    intro _ hedited
    cases hedited
  polls := h.polls

theorem Settled.apply (h : Settled w) (hapart : Move.Apart w .apply) : Settled (w.next .apply) where
  valid := h.valid
  saving := fun _ => ⟨rfl, hapart.2, hapart.1⟩
  written := fun _ _ _ => rfl
  edited := by
    intro hedited
    rw [show (w.next .apply).edited = w.edited from rfl, hapart.1] at hedited
    cases hedited
  ever := h.ever
  due := by
    intro hpolling
    rw [show (w.next .apply).polling = w.polling from rfl, hapart.2] at hpolling
    cases hpolling
  dueEver := h.dueEver
  quiet := by
    intro hpolling
    rw [show (w.next .apply).polling = w.polling from rfl, hapart.2] at hpolling
    cases hpolling
  polls := h.polls

theorem Settled.saved (h : Settled w) {mtime : ℕ} (hok : Move.Allowed w (.saved mtime)) :
    Settled (w.next (.saved mtime)) := by
  obtain ⟨hflag, hpolling, hedited⟩ := h.saving hok.2.1
  constructor
  · rfl
  · intro _
    exact ⟨hflag, hpolling, hedited⟩
  · intro _ _ _
    exact hflag
  · exact h.edited
  · exact h.ever
  · exact h.due
  · exact h.dueEver
  · intro hpolling'
    rw [show (w.next (.saved mtime)).polling = w.polling from rfl, hpolling] at hpolling'
    cases hpolling'
  · exact h.polls

theorem Settled.saveFailed (h : Settled w) (hok : Move.Allowed w .saveFailed) (hapart : Move.Apart w .saveFailed) :
    Settled (w.next .saveFailed) := by
  obtain ⟨-, hpolling, hedited⟩ := h.saving hok.2
  constructor
  · exact h.valid
  · intro hpos
    have hone := hapart.1
    have hpos' : 0 < w.saving - 1 := hpos
    omega
  · intro _ _ hne
    exact absurd hapart.2 hne
  · intro _ _
    rfl
  · exact h.ever
  · intro hpolling'
    rw [show (w.next .saveFailed).polling = w.polling from rfl, hpolling] at hpolling'
    cases hpolling'
  · exact h.dueEver
  · exact h.quiet
  · exact h.polls

theorem Settled.look (h : Settled w) (hok : Move.Allowed w .look) (hapart : Move.Apart w .look) :
    Settled (w.next .look) := by
  have hpolling : w.polling = false := hok.2
  by_cases hsame : w.mtime = w.lastMtime
  · -- An edit would show, so this poll has none to answer.
    have hedited : w.edited = false := by
      cases he : w.edited with
      | false => rfl
      | true => exact absurd hsame (hapart.2 he)
    have hnext : w.next .look = { w with edited := false, polls := w.finish w.edited false } := if_pos hsame
    rw [hnext]
    constructor
    · exact h.valid
    · intro hpos
      exact ⟨(h.saving hpos).1, hpolling, rfl⟩
    · intro _ _ hne
      exact absurd hsame hne
    · intro hfalse
      cases hfalse
    · intro hfalse
      cases hfalse
    · exact h.due
    · exact h.dueEver
    · intro _ _
      exact hsame
    · apply h.finish
      constructor
      · intro htrue
        rw [show w.edited = true from htrue] at hedited
        cases hedited
      · intro hfalse
        cases hfalse
  · have hnone : w.saving = 0 := hapart.1 hsame
    have hnext : w.next .look = { w with lastMtime := w.mtime, polling := true, due := w.edited, edited := false } :=
      if_neg hsame
    rw [hnext]
    constructor
    · exact h.valid
    · intro hpos
      rw [hnone] at hpos
      cases hpos
    · intro hfalse
      cases hfalse
    · intro hfalse
      cases hfalse
    · intro hfalse
      cases hfalse
    · intro _
      show w.configWriteAppliedLive = !w.edited
      cases he : w.edited with
      | false => exact h.written hpolling he hsame
      | true => exact h.edited he hpolling
    · intro _ hdue
      exact h.ever hdue
    · intro _ _
      rfl
    · exact h.polls

theorem Settled.swap (h : Settled w) (hok : Move.Allowed w .swap) : Settled (w.next .swap) := by
  have hpolling : w.polling = true := hok.2
  have hdue := h.due hpolling
  have hnone : ¬ 0 < w.saving := by
    intro hpos
    rw [(h.saving hpos).2.1] at hpolling
    cases hpolling
  cases hflag : w.configWriteAppliedLive with
  | true =>
    have hnot : w.due = false := by
      rw [hflag] at hdue
      simpa using hdue.symm
    have hnext : w.next .swap =
        { w with configWriteAppliedLive := false, polling := false, polls := w.finish w.due false } := if_pos hflag
    rw [hnext]
    constructor
    · exact h.valid
    · exact fun hpos => absurd hpos hnone
    · intro _ hedited hne
      exact absurd (h.quiet hpolling hedited) hne
    · intro _ _
      rfl
    · exact h.ever
    · intro hfalse
      cases hfalse
    · intro hfalse
      cases hfalse
    · intro hfalse
      cases hfalse
    · apply h.finish
      constructor
      · intro htrue
        rw [show w.due = true from htrue] at hnot
        cases hnot
      · intro hfalse
        cases hfalse
  | false =>
    have hyes : w.due = true := by
      rw [hflag] at hdue
      simpa using hdue.symm
    have hnext : w.next .swap = { w with polling := false, restarted := true, polls := w.finish w.due true } := by
      show (if w.configWriteAppliedLive = true then _ else _ : ConfigWatcher) = _
      rw [if_neg (by simp [hflag]), if_pos h.valid]
    rw [hnext]
    constructor
    · exact h.valid
    · exact fun hpos => absurd hpos hnone
    · intro _ hedited hne
      exact absurd (h.quiet hpolling hedited) hne
    · intro _ _
      exact hflag
    · exact h.ever
    · intro hfalse
      cases hfalse
    · intro hfalse
      cases hfalse
    · intro hfalse
      cases hfalse
    · apply h.finish
      constructor
      · intro _
        rfl
      · intro _
        exact h.dueEver hpolling hyes

theorem Settled.next (h : Settled w) {m : Move} (hok : m.Allowed w) (hapart : m.Apart w) : Settled (w.next m) := by
  cases m with
  | edit mtime valid => exact h.edit hok hapart
  | apply => exact h.apply hapart
  | saved mtime => exact h.saved hok
  | saveFailed => exact h.saveFailed hok hapart
  | look => exact h.look hok hapart
  | swap => exact h.swap hok

/-- As long as live writes and edits stay apart, every poll does what it should. -/
theorem right_of_reach (mtime : ℕ)
    (h : Reach (start mtime) (fun w m => m.Allowed w ∧ m.Apart w) ConfigWatcher.next w) : ∀ p ∈ w.polls, p.Right := by
  have hsettled : Settled w :=
    h.invariant (settled_start mtime) fun _ _ hs hm => hs.next hm.1 hm.2
  exact hsettled.polls

/-- A live write, noticed, and an edit, answered. -/
theorem right_of_turns :
    let w := ([.apply, .saved 1, .look, .swap, .edit 2 true, .look, .swap] : List Move).foldl ConfigWatcher.next (start 0)
    w.polls.map (·.restarted) = [true, false] ∧ ∀ p ∈ w.polls, p.Right := by
  intro w
  exact ⟨by decide, right_of_reach 0 (Reach.of_list _ .init (by decide))⟩

/-- An edit and a live write in one interval: the poll leaves the edit alone. Two live
writes, of which one is noticed before the other is written: the process is restarted. -/
theorem not_right :
    ¬ (∀ w, Reach (start 0) (fun w m => m.Allowed w) ConfigWatcher.next w →
        ∀ p ∈ w.polls, p.edited = true → p.restarted = true) ∧
    ¬ (∀ w, Reach (start 0) (fun w m => m.Allowed w) ConfigWatcher.next w →
        ∀ p ∈ w.polls, p.restarted = true → p.everEdited = true) := by
  constructor
  · intro h
    have hrun : Reach (start 0) (fun w m => m.Allowed w) ConfigWatcher.next _ :=
      Reach.of_list [.edit 1 true, .apply, .saved 2, .look, .swap] .init (by decide)
    exact absurd (h _ hrun ⟨true, true, false⟩ (by decide) rfl) (by decide)
  · intro h
    have hrun : Reach (start 0) (fun w m => m.Allowed w) ConfigWatcher.next _ :=
      Reach.of_list [.apply, .apply, .saved 1, .look, .swap, .saved 2, .look, .swap] .init (by decide)
    exact absurd (h _ hrun ⟨false, false, true⟩ (by decide) rfl) (by decide)

end ConfigWatcher

end BrewServer
