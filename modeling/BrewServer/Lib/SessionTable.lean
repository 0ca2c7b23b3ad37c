import BrewServer.Lib.FinMap

/-!
# Tables of sessions by identity

Connections announce an identity, and a table keeps one entry for each identity:
that of the connection that opened last. A connection that closes takes out the
entry of its identity, whoever put it there.
-/

namespace BrewServer

variable {C K V : Type} [Ord K]

/-- Each entry remembers the connection that put it there. -/
structure SessionTable (C K V : Type) [Ord K] where
  entries : FinMap K (C × V) := ∅
  /-- Every connection with its identity, the newest first. -/
  opened : List (C × K) := []
  closed : List C := []

namespace SessionTable

variable [DecidableEq C] [DecidableEq K] [Std.TransOrd K]

/-- The identity a connection announced. -/
def identityOf (t : SessionTable C K V) (c : C) : Option K := (t.opened.find? fun e => e.1 = c).map Prod.snd

/-- The connection that opened last under an identity. -/
def newest (t : SessionTable C K V) (k : K) : Option C := (t.opened.find? fun e => e.2 = k).map Prod.fst

/-- Whose entry an identity has. -/
def holder (t : SessionTable C K V) (k : K) : Option C := (t.entries[k]?).map Prod.fst

def start (t : SessionTable C K V) (c : C) (k : K) (v : V) : SessionTable C K V :=
  { t with entries := t.entries.insert k (c, v), opened := (c, k) :: t.opened }

def stop (t : SessionTable C K V) (c : C) : SessionTable C K V :=
  match t.identityOf c with
  | none => t
  | some k => { t with entries := t.entries.erase k, closed := c :: t.closed }

/-- Changes entries and leaves them to their connections. -/
def amend (t : SessionTable C K V) (f : K → V → V) : SessionTable C K V :=
  { t with entries := t.entries.map fun k e => (e.1, f k e.2) }

/-- While the newest connection of an identity is open, the identity has its entry. -/
def Live (t : SessionTable C K V) : Prop :=
  ∀ (k : K) (c : C), t.newest k = some c → c ∉ t.closed → t.holder k = some c

/-- A connection that closes is the newest of its identity, or closes after it. -/
def InOrder (t : SessionTable C K V) (c : C) : Prop :=
  ∀ k ∈ t.identityOf c, ∀ n ∈ t.newest k, n = c ∨ n ∈ t.closed

instance (t : SessionTable C K V) (c : C) : Decidable (t.InOrder c) :=
  @Option.decidableForallMem _ _ (fun k => @Option.decidableForallMem _ _ (fun _ => inferInstance) (t.newest k))
    (t.identityOf c)

variable {t : SessionTable C K V} {c : C} {k : K} {v : V}

omit [DecidableEq C] in
theorem live_empty : Live ({} : SessionTable C K V) := by
  intro k c h
  cases h

section Lawful

variable [Std.LawfulEqOrd K]

omit [DecidableEq C] in
theorem Live.start (h : t.Live) : (t.start c k v).Live := by
  intro k' c' hnew hopen
  unfold newest SessionTable.start at hnew
  rw [List.find?_cons] at hnew
  have hholder : (t.start c k v).holder k' = if k = k' then some c else t.holder k' := by
    unfold holder SessionTable.start
    dsimp only
    rw [FinMap.getElem?_insert]
    split <;> rfl
  rw [hholder]
  by_cases hk : k = k'
  · simp only [hk, decide_true, Option.map_some] at hnew
    rw [if_pos hk]
    exact hnew
  · simp only [hk, decide_false] at hnew
    rw [if_neg hk]
    exact h k' c' hnew hopen

/-- A close keeps the table live exactly when it is in order. -/
theorem live_stop_iff (h : t.Live) : (t.stop c).Live ↔ t.InOrder c := by
  unfold SessionTable.stop InOrder
  cases hid : t.identityOf c with
  | none => exact ⟨fun _ => nofun, fun _ => h⟩
  | some k =>
    have hholder : ∀ k' : K, holder { t with entries := t.entries.erase k, closed := c :: t.closed } k' =
        if k = k' then none else t.holder k' := by
      intro k'
      unfold holder
      dsimp only
      rw [FinMap.getElem?_erase]
      split <;> rfl
    constructor
    · rintro hlive _ ⟨⟩ n hn
      by_contra hno
      rw [not_or] at hno
      have hkept := hlive k n hn fun hmem => (List.mem_cons.mp hmem).elim hno.1 hno.2
      rw [hholder, if_pos rfl] at hkept
      cases hkept
    · intro horder k' c' hnew hopen
      have hnot := not_or.mp fun h => hopen (List.mem_cons.mpr h)
      rw [hholder]
      split
      · next hk =>
        subst hk
        exact ((horder k rfl c' hnew).elim (fun he => absurd he hnot.1) fun hc => absurd hc hnot.2)
      · exact h k' c' hnew hnot.2

omit [DecidableEq C] [DecidableEq K] in
theorem holder_amend {f : K → V → V} : (t.amend f).holder k = t.holder k := by
  unfold holder amend
  dsimp only
  rw [FinMap.getElem?_map]
  cases t.entries[k]? <;> rfl

omit [DecidableEq C] in
theorem Live.amend (h : t.Live) {f : K → V → V} : (t.amend f).Live := by
  intro k c hnew hopen
  rw [holder_amend]
  exact h k c hnew hopen

end Lawful

end SessionTable

end BrewServer
