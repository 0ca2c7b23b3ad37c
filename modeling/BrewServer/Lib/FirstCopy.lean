import BrewServer.Lib.Flood
import Mathlib.Algebra.BigOperators.Group.Multiset.Basic
import Mathlib.Data.Multiset.UnionInter
import Mathlib.Data.Set.Insert

/-!
# The first copy of a transmission over a graph

One node sends a transmission. A node that gets its first copy keeps the link it came over
as its source and sends copies on over links of its choice; every other copy is answered
with a request to prune the link it came over, and the link is pruned. A node may refuse a
copy instead, without an answer. In any order of delivery the messages run out, and where a
node that refuses a copy is sent no other, the sources and the links left make a tree: over
it each later message of the transmission reaches a node at most once.
-/

namespace BrewServer.FirstCopy

/-- A message that a node put on its link. -/
inductive Signal (N L : Type)
  | copy (n : N) (l : L)
  | prune (n : N) (l : L)
  deriving DecidableEq

structure State (N L : Type) where
  /-- The link a node took its copy from; the origin has it from no link. -/
  source : N → Option (Option L)
  /-- The links over which a node sends the transmission on. -/
  onward : N → Set L
  flight : Multiset (Signal N L)
  /-- Every copy ever sent. -/
  sent : Finset (N × L)
  taken : List N
  refused : Finset (N × L)
  delivered : ℕ

/-- A copy or a request is delivered, named by the end of the link it left. -/
inductive Event (N L : Type)
  | take (n : N) (l : L) (out : List L)
  | bounce (n : N) (l : L)
  | refuse (n : N) (l : L)
  | cut (n : N) (l : L)

section Steps

variable {N L : Type} [DecidableEq N] [DecidableEq L]

/-- The copies that a node sends. -/
def copies (n : N) (out : List L) : Multiset (Signal N L) := ↑(out.map (Signal.copy n))

def ends (n : N) (out : List L) : Finset (N × L) := (out.map fun l => (n, l)).toFinset

namespace State

/-- The origin has sent its first copies. -/
def start (o : N) (out : List L) : State N L :=
  { source := fun n => if n = o then some none else none
    onward := fun n => if n = o then {l | l ∈ out} else ∅
    flight := copies o out
    sent := ends o out
    taken := [o]
    refused := ∅
    delivered := 0 }

def next (G : Flood.Graph N L) (s : State N L) : Event N L → State N L
  | .take n l out =>
    let m := (G.far n l).1
    { s with
      source := Function.update s.source m (some (some (G.far n l).2))
      onward := Function.update s.onward m {l | l ∈ out}
      flight := s.flight.erase (.copy n l) + copies m out
      sent := s.sent ∪ ends m out
      taken := m :: s.taken
      delivered := s.delivered + 1 }
  | .bounce n l =>
    { s with
      flight := .prune (G.far n l).1 (G.far n l).2 ::ₘ s.flight.erase (.copy n l)
      delivered := s.delivered + 1 }
  | .refuse n l =>
    { s with
      flight := s.flight.erase (.copy n l)
      refused := insert (n, l) s.refused
      delivered := s.delivered + 1 }
  | .cut n l =>
    { s with
      onward := Function.update s.onward (G.far n l).1 (s.onward (G.far n l).1 \ {(G.far n l).2})
      flight := s.flight.erase (.prune n l)
      delivered := s.delivered + 1 }

/-- A copy in flight finds its node without one, the node having refused none. -/
structure Finds (G : Flood.Graph N L) (s : State N L) (n : N) (l : L) : Prop where
  flies : Signal.copy n l ∈ s.flight
  without : s.source (G.far n l).1 = none
  unrefused : ∀ e ∈ s.refused, (G.far e.1 e.2).1 ≠ (G.far n l).1

def Allowed (G : Flood.Graph N L) (s : State N L) : Event N L → Prop
  | .take n l out =>
    s.Finds G n l ∧ out.Nodup ∧ ∀ l' ∈ out, l' ∈ G.links (G.far n l).1 ∧ l' ≠ (G.far n l).2
  | .bounce n l =>
    Signal.copy n l ∈ s.flight ∧ ∃ x, s.source (G.far n l).1 = some x ∧ x ≠ some (G.far n l).2
  | .refuse n l => s.Finds G n l
  | .cut n l => Signal.prune n l ∈ s.flight

end State

/-- The node that a node has the transmission from. -/
def Up (G : Flood.Graph N L) (source : N → Option (Option L)) (m n : N) : Prop :=
  ∃ k, source m = some (some k) ∧ (G.far m k).1 = n

/-- What a message still costs to deliver, with what it causes. -/
def Signal.cost : Signal N L → ℕ
  | .copy _ _ => 2
  | .prune _ _ => 1

/-- The invariant of every run. -/
structure Sound (G : Flood.Graph N L) (o : N) (s : State N L) : Prop where
  member : ∀ n l, (n, l) ∈ s.sent → n ∈ G.members ∧ l ∈ G.links n
  sender : ∀ n l, (n, l) ∈ s.sent → ∃ x, s.source n = some x ∧ x ≠ some l
  carried : ∀ n, ∀ l ∈ s.onward n, (n, l) ∈ s.sent
  /-- A copy in flight is on a link that its sender has not pruned. -/
  live : ∀ n l, Signal.copy n l ∈ s.flight → l ∈ s.onward n ∧
    s.source (G.far n l).1 ≠ some (some (G.far n l).2) ∧
    Signal.prune (G.far n l).1 (G.far n l).2 ∉ s.flight ∧ (n, l) ∉ s.refused
  once : ∀ n l, s.flight.count (Signal.copy n l) ≤ 1
  /-- Only a link that is not the source is asked to be pruned. -/
  asked : ∀ n l, Signal.prune n l ∈ s.flight → n ∈ G.members ∧ l ∈ G.links n ∧ G.far n l ∈ s.sent ∧
    ∃ x, s.source n = some x ∧ x ≠ some l
  up : ∀ m k, s.source m = some (some k) → m ∈ G.members ∧ k ∈ G.links m ∧
    (G.far m k).2 ∈ s.onward (G.far m k).1
  /-- What comes of a copy. -/
  met : ∀ n, ∀ l ∈ s.onward n, Signal.copy n l ∈ s.flight ∨
    s.source (G.far n l).1 = some (some (G.far n l).2) ∨
    Signal.prune (G.far n l).1 (G.far n l).2 ∈ s.flight ∨ (n, l) ∈ s.refused
  leads : ∀ n, s.source n ≠ none → Relation.ReflTransGen (Up G s.source) n o
  nodup_taken : s.taken.Nodup
  taken : ∀ n ∈ s.taken, s.source n ≠ none
  origin : ∀ n, s.source n = some none ↔ n = o
  refused_sent : ∀ e ∈ s.refused, e ∈ s.sent
  refused_source : ∀ e ∈ s.refused, s.source (G.far e.1 e.2).1 = none
  refused_once : ∀ e ∈ s.refused, ∀ e' ∈ s.refused, (G.far e.1 e.2).1 = (G.far e'.1 e'.2).1 → e = e'
  spent : s.delivered + (s.flight.map Signal.cost).sum ≤ 2 * s.sent.card

variable {G : Flood.Graph N L} {o : N} {s : State N L}

omit [DecidableEq N] [DecidableEq L] in
theorem far_inj {n n' : N} {l l' : L} (hn : n ∈ G.members) (hl : l ∈ G.links n) (hn' : n' ∈ G.members)
    (hl' : l' ∈ G.links n') (h : G.far n l = G.far n' l') : n = n' ∧ l = l' := by
  have hback := G.far_far n hn l hl
  rw [h, G.far_far n' hn' l' hl'] at hback
  exact ⟨(congrArg Prod.fst hback).symm, (congrArg Prod.snd hback).symm⟩

omit [DecidableEq N] [DecidableEq L] in
theorem mem_copies {n : N} {out : List L} {x : Signal N L} : x ∈ copies n out ↔ ∃ l ∈ out, x = .copy n l := by
  rw [copies, Multiset.mem_coe, List.mem_map]
  exact ⟨fun ⟨l, hl, h⟩ => ⟨l, hl, h.symm⟩, fun ⟨l, hl, h⟩ => ⟨l, hl, h.symm⟩⟩

theorem mem_ends {n n' : N} {out : List L} {l : L} : (n', l) ∈ ends n out ↔ n' = n ∧ l ∈ out := by
  rw [ends, List.mem_toFinset, List.mem_map]
  constructor
  · rintro ⟨l', hl', h⟩
    cases h
    exact ⟨rfl, hl'⟩
  · rintro ⟨rfl, hl⟩
    exact ⟨l, hl, rfl⟩

theorem card_ends {n : N} {out : List L} (h : out.Nodup) : (ends n out).card = out.length := by
  rw [ends, List.toFinset_card_of_nodup, List.length_map]
  exact h.map fun l l' heq => (Prod.mk.inj heq).2

theorem count_copies {n n' : N} {out : List L} (h : out.Nodup) (l : L) :
    (copies n out).count (.copy n' l) ≤ 1 := by
  rw [copies, Multiset.coe_count]
  refine List.nodup_iff_count_le_one.mp (h.map fun l l' heq => ?_) _
  cases heq
  rfl

omit [DecidableEq N] [DecidableEq L] in
theorem cost_copies {n : N} {out : List L} : ((copies n out).map Signal.cost).sum = 2 * out.length := by
  rw [copies, Multiset.map_coe, Multiset.sum_coe, List.map_map]
  induction out with
  | nil => rfl
  | cons l out ih =>
    rw [List.map_cons, List.sum_cons, ih, List.length_cons]
    simp only [Function.comp_apply, Signal.cost]
    omega

/-- A message that leaves takes its cost with it. -/
theorem cost_erase {flight : Multiset (Signal N L)} {x : Signal N L} (h : x ∈ flight) :
    (flight.map Signal.cost).sum = x.cost + ((flight.erase x).map Signal.cost).sum := by
  conv_lhs => rw [← Multiset.cons_erase h]
  rw [Multiset.map_cons, Multiset.sum_cons]

theorem sound_start {out : List L} (ho : o ∈ G.members) (hnodup : out.Nodup) (hout : ∀ l ∈ out, l ∈ G.links o) :
    Sound G o (State.start o out) where
  member n l h := by
    obtain ⟨rfl, hl⟩ := mem_ends.mp h
    exact ⟨ho, hout l hl⟩
  sender n l h := by
    obtain ⟨rfl, hl⟩ := mem_ends.mp h
    exact ⟨none, if_pos rfl, Option.some_ne_none l |>.symm⟩
  carried n l h := by
    simp only [State.start] at h
    split at h
    · next heq => exact mem_ends.mpr ⟨heq, h⟩
    · exact absurd h (Set.notMem_empty l)
  live n l h := by
    obtain ⟨l', hl', heq⟩ := mem_copies.mp h
    cases heq
    refine ⟨?_, ?_, fun hp => ?_, Finset.notMem_empty _⟩
    · simp only [State.start, if_pos]
      exact hl'
    · simp only [State.start]
      split <;> simp
    · obtain ⟨_, _, heq⟩ := mem_copies.mp hp
      cases heq
  once n l := count_copies hnodup l
  asked n l h := by
    obtain ⟨_, _, heq⟩ := mem_copies.mp h
    cases heq
  up m k h := by
    simp only [State.start] at h
    split at h <;> cases h
  met n l h := by
    simp only [State.start] at h
    split at h
    · next heq => exact .inl (mem_copies.mpr ⟨l, h, by rw [heq]⟩)
    · exact absurd h (Set.notMem_empty l)
  leads n h := by
    simp only [State.start] at h
    split at h
    · next heq => rw [heq]
    · exact absurd rfl h
  nodup_taken := List.nodup_singleton o
  taken n h := by
    rw [List.mem_singleton.mp h]
    simp [State.start]
  origin n := by
    simp only [State.start]
    by_cases h : n = o <;> simp [h]
  refused_sent e h := absurd h (Finset.notMem_empty e)
  refused_source e h := absurd h (Finset.notMem_empty e)
  refused_once e h := absurd h (Finset.notMem_empty e)
  spent := by
    change 0 + ((copies o out).map Signal.cost).sum ≤ 2 * (ends o out).card
    rw [cost_copies, card_ends hnodup]
    omega

/-- Where nothing is sent on yet there is no source. -/
theorem Sound.not_sent (h : Sound G o s) {m : N} (hm : s.source m = none) (l : L) : (m, l) ∉ s.sent := by
  intro hsent
  obtain ⟨x, hx, -⟩ := h.sender m l hsent
  rw [hm] at hx
  cases hx

theorem Sound.member_of_copy (h : Sound G o s) {n : N} {l : L} (hf : Signal.copy n l ∈ s.flight) :
    n ∈ G.members ∧ l ∈ G.links n := h.member n l (h.carried n l (h.live n l hf).1)

/-- A copy delivered is not in flight any more. -/
theorem Sound.gone (h : Sound G o s) (n : N) (l : L) : Signal.copy n l ∉ s.flight.erase (.copy n l) := by
  rw [← Multiset.count_pos, Multiset.count_erase_self]
  have := h.once n l
  omega

theorem Sound.copy_of_erase (h : Sound G o s) {n n' : N} {l l' : L}
    (hf : Signal.copy n' l' ∈ s.flight.erase (.copy n l)) : Signal.copy n' l' ∈ s.flight ∧ ¬ (n' = n ∧ l' = l) := by
  refine ⟨Multiset.mem_of_mem_erase hf, ?_⟩
  rintro ⟨rfl, rfl⟩
  exact h.gone _ _ hf

theorem mem_erase_copy {flight : Multiset (Signal N L)} {n n' : N} {l l' : L} (hf : Signal.copy n' l' ∈ flight)
    (hne : ¬ (n' = n ∧ l' = l)) : Signal.copy n' l' ∈ flight.erase (.copy n l) := by
  refine (Multiset.mem_erase_of_ne fun heq => hne ?_).mpr hf
  cases heq
  exact ⟨rfl, rfl⟩

theorem mem_erase_prune {flight : Multiset (Signal N L)} {n n' : N} {l l' : L} :
    Signal.prune n' l' ∈ flight.erase (.copy n l) ↔ Signal.prune n' l' ∈ flight :=
  Multiset.mem_erase_of_ne fun heq => by cases heq

omit [DecidableEq L] in
/-- A node that had nothing has its copy, and what the others have stays. -/
theorem update_source {source : N → Option (Option L)} {m : N} (hm : source m = none) {y : Option L} {x : N}
    {z : Option L} : Function.update source m (some y) x = some z ↔ (x = m ∧ z = y) ∨ source x = some z := by
  by_cases hx : x = m
  · subst hx
    rw [Function.update_self, hm, Option.some.injEq]
    simp [eq_comm]
  · rw [Function.update_of_ne hx]
    simp [hx]

omit [DecidableEq L] in
/-- A node that sent nothing sends over `out`, and what the others send stays. -/
theorem update_onward {onward : N → Set L} {m : N} (hm : ∀ l, l ∉ onward m) {out : List L} {x : N} {l : L} :
    l ∈ Function.update onward m {l | l ∈ out} x ↔ (x = m ∧ l ∈ out) ∨ l ∈ onward x := by
  by_cases hx : x = m
  · subst hx
    rw [Function.update_self]
    simp [hm]
  · rw [Function.update_of_ne hx]
    simp [hx]

omit [DecidableEq N] [DecidableEq L] in
/-- A node whose sources only grow is led where it was. -/
theorem leads_mono {source source' : N → Option (Option L)} (h : ∀ x z, source x = some z → source' x = some z) {x : N}
    (hx : Relation.ReflTransGen (Up G source) x o) : Relation.ReflTransGen (Up G source') x o :=
  hx.lift id fun _ _ ⟨k, hk, hfar⟩ => ⟨k, h _ _ hk, hfar⟩

/-! ### A copy is taken -/

section Take

variable {n : N} {l : L} {out : List L}

theorem source_take (ha : s.Allowed G (.take n l out)) {x : N} {z : Option L} :
    (s.next G (.take n l out)).source x = some z ↔
      (x = (G.far n l).1 ∧ z = some (G.far n l).2) ∨ s.source x = some z :=
  update_source ha.1.without

theorem kept_take (ha : s.Allowed G (.take n l out)) (x : N) (z : Option L) (hx : s.source x = some z) :
    (s.next G (.take n l out)).source x = some z := (source_take ha).mpr (.inr hx)

theorem flight_take {x : Signal N L} : x ∈ (s.next G (.take n l out)).flight ↔
    x ∈ s.flight.erase (.copy n l) ∨ ∃ l' ∈ out, x = .copy (G.far n l).1 l' := by
  simp only [State.next, Multiset.mem_add, mem_copies]

theorem sent_take {x : N} {l' : L} :
    (x, l') ∈ (s.next G (.take n l out)).sent ↔ (x, l') ∈ s.sent ∨ (x = (G.far n l).1 ∧ l' ∈ out) := by
  simp only [State.next, Finset.mem_union, mem_ends]

namespace Sound

/-- The node that takes a copy had sent none. -/
theorem new_take (h : Sound G o s) (ha : s.Allowed G (.take n l out)) (l' : L) : ((G.far n l).1, l') ∉ s.sent :=
  h.not_sent ha.1.without l'

theorem onward_take (h : Sound G o s) (ha : s.Allowed G (.take n l out)) {x : N} {l' : L} :
    l' ∈ (s.next G (.take n l out)).onward x ↔ (x = (G.far n l).1 ∧ l' ∈ out) ∨ l' ∈ s.onward x :=
  update_onward fun l' hl' => h.new_take ha l' (h.carried _ l' hl')

theorem member_take (h : Sound G o s) (ha : s.Allowed G (.take n l out)) {x : N} {l' : L}
    (hs : (x, l') ∈ (s.next G (.take n l out)).sent) : x ∈ G.members ∧ l' ∈ G.links x := by
  obtain ⟨hn, hl⟩ := h.member_of_copy ha.1.flies
  rcases sent_take.mp hs with hs | ⟨rfl, hl'⟩
  · exact h.member x l' hs
  · exact ⟨G.far_mem n hn l hl, (ha.2.2 l' hl').1⟩

theorem sender_take (h : Sound G o s) (ha : s.Allowed G (.take n l out)) {x : N} {l' : L}
    (hs : (x, l') ∈ (s.next G (.take n l out)).sent) :
    ∃ y, (s.next G (.take n l out)).source x = some y ∧ y ≠ some l' := by
  rcases sent_take.mp hs with hs | ⟨rfl, hl'⟩
  · obtain ⟨y, hy, hne⟩ := h.sender x l' hs
    exact ⟨y, kept_take ha x y hy, hne⟩
  · exact ⟨some (G.far n l).2, (source_take ha).mpr (.inl ⟨rfl, rfl⟩),
      fun heq => (ha.2.2 l' hl').2 (Option.some.inj heq).symm⟩

theorem carried_take (h : Sound G o s) (ha : s.Allowed G (.take n l out)) {x : N} {l' : L}
    (hl' : l' ∈ (s.next G (.take n l out)).onward x) : (x, l') ∈ (s.next G (.take n l out)).sent := by
  rcases (h.onward_take ha).mp hl' with ⟨rfl, hout⟩ | hold
  · exact sent_take.mpr (.inr ⟨rfl, hout⟩)
  · exact sent_take.mpr (.inl (h.carried x l' hold))

/-- Of the copies in flight, only the one that is taken is on its link. -/
theorem far_take (h : Sound G o s) (ha : s.Allowed G (.take n l out)) {x : N} {l' : L} (hx : x ∈ G.members)
    (hl' : l' ∈ G.links x) (hs : (s.next G (.take n l out)).source (G.far x l').1 = some (some (G.far x l').2)) :
    (x = n ∧ l' = l) ∨ s.source (G.far x l').1 = some (some (G.far x l').2) := by
  obtain ⟨hn, hl⟩ := h.member_of_copy ha.1.flies
  rcases (source_take ha).mp hs with ⟨hfar, hback⟩ | hs
  · exact .inl (far_inj hx hl' hn hl (Prod.ext hfar (Option.some.inj hback)))
  · exact .inr hs

/-- What flew before flies on as it did. -/
theorem live_take_old (h : Sound G o s) (ha : s.Allowed G (.take n l out)) {x : N} {l' : L}
    (hf : Signal.copy x l' ∈ s.flight.erase (.copy n l)) :
    l' ∈ (s.next G (.take n l out)).onward x ∧
      (s.next G (.take n l out)).source (G.far x l').1 ≠ some (some (G.far x l').2) ∧
      Signal.prune (G.far x l').1 (G.far x l').2 ∉ (s.next G (.take n l out)).flight ∧
      (x, l') ∉ (s.next G (.take n l out)).refused := by
  obtain ⟨hf, hne⟩ := h.copy_of_erase hf
  obtain ⟨hx, hl'⟩ := h.member_of_copy hf
  obtain ⟨hon', hs, hp, hr⟩ := h.live x l' hf
  refine ⟨(h.onward_take ha).mpr (.inr hon'), fun hs' => ?_, fun hp' => ?_, hr⟩
  · exact (h.far_take ha hx hl' hs').elim hne hs
  · rcases flight_take.mp hp' with hp' | ⟨_, _, heq⟩
    · exact hp (Multiset.mem_of_mem_erase hp')
    · cases heq

/-- The node sends its copies to where none was asked for or refused. -/
theorem live_take_new (h : Sound G o s) (ha : s.Allowed G (.take n l out)) {l' : L} (hl' : l' ∈ out) :
    l' ∈ (s.next G (.take n l out)).onward (G.far n l).1 ∧
      (s.next G (.take n l out)).source (G.far (G.far n l).1 l').1 ≠ some (some (G.far (G.far n l).1 l').2) ∧
      Signal.prune (G.far (G.far n l).1 l').1 (G.far (G.far n l).1 l').2 ∉ (s.next G (.take n l out)).flight ∧
      ((G.far n l).1, l') ∉ (s.next G (.take n l out)).refused := by
  obtain ⟨hn, hl⟩ := h.member_of_copy ha.1.flies
  have hm := G.far_mem n hn l hl
  have hlink := (ha.2.2 l' hl').1
  have hback := G.far_far _ hm l' hlink
  have hnew := h.new_take ha l'
  refine ⟨(h.onward_take ha).mpr (.inl ⟨rfl, hl'⟩), fun hs => ?_, fun hp => ?_, fun hr => hnew (h.refused_sent _ hr)⟩
  · rcases h.far_take ha hm hlink hs with ⟨hself, hsame⟩ | hs
    · -- A link from the node to itself would have brought the copy before it was taken.
      rw [hself, hsame] at hnew
      exact hnew (h.carried n l (h.live n l ha.1.flies).1)
    · obtain ⟨-, -, hup⟩ := h.up _ _ hs
      rw [hback] at hup
      exact hnew (h.carried _ l' hup)
  · rcases flight_take.mp hp with hp | ⟨_, _, heq⟩
    · obtain ⟨-, -, hs, -⟩ := h.asked _ _ (Multiset.mem_of_mem_erase hp)
      rw [hback] at hs
      exact hnew hs
    · cases heq

theorem once_take (h : Sound G o s) (ha : s.Allowed G (.take n l out)) (x : N) (l' : L) :
    (s.next G (.take n l out)).flight.count (.copy x l') ≤ 1 := by
  simp only [State.next, Multiset.count_add]
  by_cases hx : x = (G.far n l).1
  · subst hx
    have hzero : (s.flight.erase (.copy n l)).count (.copy (G.far n l).1 l') = 0 := by
      rw [Multiset.count_eq_zero]
      exact fun hf => h.new_take ha l' (h.carried _ l' (h.live _ l' (Multiset.mem_of_mem_erase hf)).1)
    rw [hzero, Nat.zero_add]
    exact count_copies ha.2.1 l'
  · have hzero : (copies (G.far n l).1 out).count (.copy x l') = 0 := by
      rw [Multiset.count_eq_zero, mem_copies]
      rintro ⟨_, _, heq⟩
      cases heq
      exact hx rfl
    rw [hzero, Nat.add_zero]
    exact (Multiset.count_le_of_le _ (Multiset.erase_le _ _)).trans (h.once x l')

theorem asked_take (h : Sound G o s) (ha : s.Allowed G (.take n l out)) {x : N} {l' : L}
    (hp : Signal.prune x l' ∈ (s.next G (.take n l out)).flight) :
    x ∈ G.members ∧ l' ∈ G.links x ∧ G.far x l' ∈ (s.next G (.take n l out)).sent ∧
      ∃ y, (s.next G (.take n l out)).source x = some y ∧ y ≠ some l' := by
  rcases flight_take.mp hp with hp | ⟨_, _, heq⟩
  · obtain ⟨hx, hl', hs, y, hy, hne⟩ := h.asked x l' (Multiset.mem_of_mem_erase hp)
    exact ⟨hx, hl', sent_take.mpr (.inl hs), y, kept_take ha x y hy, hne⟩
  · cases heq

theorem up_take (h : Sound G o s) (ha : s.Allowed G (.take n l out)) {x : N} {k : L}
    (hs : (s.next G (.take n l out)).source x = some (some k)) :
    x ∈ G.members ∧ k ∈ G.links x ∧ (G.far x k).2 ∈ (s.next G (.take n l out)).onward (G.far x k).1 := by
  obtain ⟨hn, hl⟩ := h.member_of_copy ha.1.flies
  rcases (source_take ha).mp hs with ⟨rfl, hk⟩ | hs
  · cases hk
    rw [G.far_far n hn l hl]
    exact ⟨G.far_mem n hn l hl, G.far_link n hn l hl, (h.onward_take ha).mpr (.inr (h.live n l ha.1.flies).1)⟩
  · obtain ⟨hx, hk, hup⟩ := h.up x k hs
    exact ⟨hx, hk, (h.onward_take ha).mpr (.inr hup)⟩

theorem met_take (h : Sound G o s) (ha : s.Allowed G (.take n l out)) {x : N} {l' : L}
    (hl' : l' ∈ (s.next G (.take n l out)).onward x) :
    Signal.copy x l' ∈ (s.next G (.take n l out)).flight ∨
      (s.next G (.take n l out)).source (G.far x l').1 = some (some (G.far x l').2) ∨
      Signal.prune (G.far x l').1 (G.far x l').2 ∈ (s.next G (.take n l out)).flight ∨
      (x, l') ∈ (s.next G (.take n l out)).refused := by
  rcases (h.onward_take ha).mp hl' with ⟨rfl, hout⟩ | hold
  · exact .inl (flight_take.mpr (.inr ⟨l', hout, rfl⟩))
  · rcases h.met x l' hold with hf | hs | hp | hr
    · by_cases hsame : x = n ∧ l' = l
      · obtain ⟨rfl, rfl⟩ := hsame
        exact .inr (.inl ((source_take ha).mpr (.inl ⟨rfl, rfl⟩)))
      · exact .inl (flight_take.mpr (.inl (mem_erase_copy hf hsame)))
    · exact .inr (.inl (kept_take ha _ _ hs))
    · exact .inr (.inr (.inl (flight_take.mpr (.inl (mem_erase_prune.mpr hp)))))
    · exact .inr (.inr (.inr hr))

theorem leads_take (h : Sound G o s) (ha : s.Allowed G (.take n l out)) {x : N}
    (hx : (s.next G (.take n l out)).source x ≠ none) :
    Relation.ReflTransGen (Up G (s.next G (.take n l out)).source) x o := by
  obtain ⟨hn, hl⟩ := h.member_of_copy ha.1.flies
  obtain ⟨z, hz⟩ := Option.ne_none_iff_exists'.mp hx
  rcases (source_take ha).mp hz with ⟨rfl, rfl⟩ | hz
  · have hsender : Relation.ReflTransGen (Up G s.source) n o := by
      obtain ⟨y, hy, -⟩ := h.sender n l (h.carried n l (h.live n l ha.1.flies).1)
      exact h.leads n (by rw [hy]; exact Option.some_ne_none y)
    refine .head ⟨(G.far n l).2, (source_take ha).mpr (.inl ⟨rfl, rfl⟩), ?_⟩ (leads_mono (kept_take ha) hsender)
    rw [G.far_far n hn l hl]
  · exact leads_mono (kept_take ha) (h.leads x (by rw [hz]; exact Option.some_ne_none z))

theorem taken_take (h : Sound G o s) (ha : s.Allowed G (.take n l out)) {x : N}
    (hx : x ∈ (s.next G (.take n l out)).taken) : (s.next G (.take n l out)).source x ≠ none := by
  rcases List.mem_cons.mp hx with rfl | hx
  · rw [(source_take ha).mpr (.inl ⟨rfl, rfl⟩)]
    exact Option.some_ne_none _
  · obtain ⟨z, hz⟩ := Option.ne_none_iff_exists'.mp (h.taken x hx)
    rw [kept_take ha x z hz]
    exact Option.some_ne_none _

theorem origin_take (h : Sound G o s) (ha : s.Allowed G (.take n l out)) (x : N) :
    (s.next G (.take n l out)).source x = some none ↔ x = o := by
  rw [source_take ha, h.origin]
  simp

theorem refused_source_take (h : Sound G o s) (ha : s.Allowed G (.take n l out)) {e : N × L} (he : e ∈ s.refused) :
    (s.next G (.take n l out)).source (G.far e.1 e.2).1 = none := by
  have hkept : (s.next G (.take n l out)).source (G.far e.1 e.2).1 = s.source (G.far e.1 e.2).1 :=
    Function.update_of_ne (ha.1.unrefused e he) _ _
  rw [hkept]
  exact h.refused_source e he

theorem spent_take (h : Sound G o s) (ha : s.Allowed G (.take n l out)) :
    (s.next G (.take n l out)).delivered + ((s.next G (.take n l out)).flight.map Signal.cost).sum ≤
      2 * (s.next G (.take n l out)).sent.card := by
  have hdisjoint : Disjoint s.sent (ends (G.far n l).1 out) := by
    rw [Finset.disjoint_left]
    rintro ⟨x, l'⟩ hs he
    obtain ⟨rfl, -⟩ := mem_ends.mp he
    exact h.new_take ha l' hs
  have hspent := h.spent
  rw [cost_erase ha.1.flies] at hspent
  show s.delivered + 1 + ((s.flight.erase (.copy n l) + copies (G.far n l).1 out).map Signal.cost).sum ≤
    2 * (s.sent ∪ ends (G.far n l).1 out).card
  rw [Multiset.map_add, Multiset.sum_add, cost_copies, Finset.card_union_of_disjoint hdisjoint, card_ends ha.2.1]
  have hcost : (Signal.copy n l).cost = 2 := rfl
  omega

theorem take (h : Sound G o s) (ha : s.Allowed G (.take n l out)) : Sound G o (s.next G (.take n l out)) where
  member _ _ := h.member_take ha
  sender _ _ := h.sender_take ha
  carried _ _ := h.carried_take ha
  live x l' hf := by
    rcases flight_take.mp hf with hf | ⟨l'', hl', heq⟩
    · exact h.live_take_old ha hf
    · cases heq
      exact h.live_take_new ha hl'
  once := h.once_take ha
  asked _ _ := h.asked_take ha
  up _ _ := h.up_take ha
  met _ _ := h.met_take ha
  leads _ := h.leads_take ha
  nodup_taken := List.nodup_cons.mpr ⟨fun hmem => h.taken _ hmem ha.1.without, h.nodup_taken⟩
  taken _ := h.taken_take ha
  origin := h.origin_take ha
  refused_sent e he := sent_take.mpr (.inl (h.refused_sent e he))
  refused_source _ := h.refused_source_take ha
  refused_once := h.refused_once
  spent := h.spent_take ha

end Sound

end Take

theorem Sound.bounce (h : Sound G o s) {n : N} {l : L} (ha : s.Allowed G (.bounce n l)) :
    Sound G o (s.next G (.bounce n l)) := by
  obtain ⟨hflies, y, hy, hne⟩ := ha
  obtain ⟨hn, hl⟩ := h.member_of_copy hflies
  obtain ⟨hon, -, -, -⟩ := h.live n l hflies
  have hback := G.far_far n hn l hl
  have hm := G.far_mem n hn l hl
  have hk := G.far_link n hn l hl
  have hprune : ∀ {x l'}, Signal.prune x l' ∈ (s.next G (.bounce n l)).flight ↔
      (x = (G.far n l).1 ∧ l' = (G.far n l).2) ∨ Signal.prune x l' ∈ s.flight := by
    intro x l'
    simp only [State.next, Multiset.mem_cons, mem_erase_prune, Signal.prune.injEq]
  have hcopy : ∀ {x l'}, Signal.copy x l' ∈ (s.next G (.bounce n l)).flight ↔
      Signal.copy x l' ∈ s.flight.erase (.copy n l) := by
    intro x l'
    simp [State.next]
  exact
    { member := h.member
      sender := h.sender
      carried := h.carried
      live := by
        intro x l' hf
        obtain ⟨hf, hother⟩ := h.copy_of_erase (hcopy.mp hf)
        obtain ⟨hx, hl'⟩ := h.member_of_copy hf
        obtain ⟨hon', hs, hp, hr⟩ := h.live x l' hf
        refine ⟨hon', hs, fun hp' => ?_, hr⟩
        rcases hprune.mp hp' with ⟨heq, heq'⟩ | hp'
        · exact hother (far_inj hx hl' hn hl (Prod.ext heq heq'))
        · exact hp hp'
      once := by
        intro x l'
        have hcount : (s.next G (.bounce n l)).flight.count (.copy x l') =
            (s.flight.erase (.copy n l)).count (.copy x l') := Multiset.count_cons_of_ne (by simp) _
        rw [hcount]
        exact (Multiset.count_le_of_le _ (Multiset.erase_le _ _)).trans (h.once x l')
      asked := by
        intro x l' hp
        rcases hprune.mp hp with ⟨rfl, rfl⟩ | hp
        · rw [hback]
          exact ⟨hm, hk, h.carried n l hon, y, hy, hne⟩
        · exact h.asked x l' hp
      up := h.up
      met := by
        intro x l' hl'
        rcases h.met x l' hl' with hf | hs | hp | hr
        · by_cases hsame : x = n ∧ l' = l
          · obtain ⟨rfl, rfl⟩ := hsame
            exact .inr (.inr (.inl (hprune.mpr (.inl ⟨rfl, rfl⟩))))
          · exact .inl (hcopy.mpr (mem_erase_copy hf hsame))
        · exact .inr (.inl hs)
        · exact .inr (.inr (.inl (hprune.mpr (.inr hp))))
        · exact .inr (.inr (.inr hr))
      leads := h.leads
      nodup_taken := h.nodup_taken
      taken := h.taken
      origin := h.origin
      refused_sent := h.refused_sent
      refused_source := h.refused_source
      refused_once := h.refused_once
      spent := by
        have hspent := h.spent
        rw [cost_erase hflies] at hspent
        simp only [State.next, Multiset.map_cons, Multiset.sum_cons]
        have hcost : (Signal.copy n l).cost = 2 := rfl
        have hcost' : (Signal.prune (G.far n l).1 (G.far n l).2).cost = 1 := rfl
        omega }

theorem Sound.refuse (h : Sound G o s) {n : N} {l : L} (ha : s.Allowed G (.refuse n l)) :
    Sound G o (s.next G (.refuse n l)) := by
  obtain ⟨hflies, hwithout, hunrefused⟩ := ha
  obtain ⟨hn, hl⟩ := h.member_of_copy hflies
  have hsent := h.carried n l (h.live n l hflies).1
  exact
    { member := h.member
      sender := h.sender
      carried := h.carried
      live := by
        intro x l' hf
        obtain ⟨hf, hother⟩ := h.copy_of_erase hf
        obtain ⟨hon', hs, hp, hr⟩ := h.live x l' hf
        refine ⟨hon', hs, fun hp' => hp (mem_erase_prune.mp hp'), fun hr' => ?_⟩
        rcases Finset.mem_insert.mp hr' with heq | hr'
        · exact hother (Prod.mk.inj heq)
        · exact hr hr'
      once := fun x l' => (Multiset.count_le_of_le _ (Multiset.erase_le _ _)).trans (h.once x l')
      asked := fun x l' hp => h.asked x l' (mem_erase_prune.mp hp)
      up := h.up
      met := by
        intro x l' hl'
        rcases h.met x l' hl' with hf | hs | hp | hr
        · by_cases hsame : x = n ∧ l' = l
          · obtain ⟨rfl, rfl⟩ := hsame
            exact .inr (.inr (.inr (Finset.mem_insert_self _ _)))
          · exact .inl (mem_erase_copy hf hsame)
        · exact .inr (.inl hs)
        · exact .inr (.inr (.inl (mem_erase_prune.mpr hp)))
        · exact .inr (.inr (.inr (Finset.mem_insert_of_mem hr)))
      leads := h.leads
      nodup_taken := h.nodup_taken
      taken := h.taken
      origin := h.origin
      refused_sent := by
        intro e he
        rcases Finset.mem_insert.mp he with rfl | he
        · exact hsent
        · exact h.refused_sent e he
      refused_source := by
        intro e he
        rcases Finset.mem_insert.mp he with rfl | he
        · exact hwithout
        · exact h.refused_source e he
      refused_once := by
        intro e he e' he' heq
        rcases Finset.mem_insert.mp he with rfl | he
        · rcases Finset.mem_insert.mp he' with rfl | he'
          · rfl
          · exact absurd heq.symm (hunrefused e' he')
        · rcases Finset.mem_insert.mp he' with rfl | he'
          · exact absurd heq (hunrefused e he)
          · exact h.refused_once e he e' he' heq
      spent := by
        have hspent := h.spent
        rw [cost_erase hflies] at hspent
        simp only [State.next]
        have hcost : (Signal.copy n l).cost = 2 := rfl
        omega }

theorem Sound.cut (h : Sound G o s) {n : N} {l : L} (ha : s.Allowed G (.cut n l)) : Sound G o (s.next G (.cut n l)) := by
  obtain ⟨hn, hl, hasked, y, hy, hne⟩ := h.asked n l ha
  have hback := G.far_far n hn l hl
  have hm := G.far_mem n hn l hl
  have hk := G.far_link n hn l hl
  have honward : ∀ {x l'}, l' ∈ (s.next G (.cut n l)).onward x ↔
      l' ∈ s.onward x ∧ ¬ (x = (G.far n l).1 ∧ l' = (G.far n l).2) := by
    intro x l'
    simp only [State.next]
    by_cases hx : x = (G.far n l).1
    · subst hx
      rw [Function.update_self]
      simp
    · rw [Function.update_of_ne hx]
      simp [hx]
  have hcopy : ∀ {x l'}, Signal.copy x l' ∈ (s.next G (.cut n l)).flight ↔ Signal.copy x l' ∈ s.flight :=
    Multiset.mem_erase_of_ne (by simp)
  exact
    { member := h.member
      sender := h.sender
      carried := fun x l' hl' => h.carried x l' (honward.mp hl').1
      live := by
        intro x l' hf
        obtain ⟨hon', hs, hp, hr⟩ := h.live x l' (hcopy.mp hf)
        refine ⟨honward.mpr ⟨hon', ?_⟩, hs, fun hp' => hp (Multiset.mem_of_mem_erase hp'), hr⟩
        rintro ⟨rfl, rfl⟩
        rw [hback] at hp
        exact hp ha
      once := fun x l' => (Multiset.count_le_of_le _ (Multiset.erase_le _ _)).trans (h.once x l')
      asked := fun x l' hp => h.asked x l' (Multiset.mem_of_mem_erase hp)
      up := by
        intro x k (hs : s.source x = some (some k))
        obtain ⟨hx, hk', hup⟩ := h.up x k hs
        refine ⟨hx, hk', honward.mpr ⟨hup, fun ⟨heq, heq'⟩ => ?_⟩⟩
        obtain ⟨rfl, rfl⟩ := far_inj hx hk' hn hl (Prod.ext heq heq')
        rw [hs, Option.some.injEq] at hy
        exact hne hy.symm
      met := by
        intro x l' hl'
        obtain ⟨hl', hother⟩ := honward.mp hl'
        obtain ⟨hx, hlink⟩ := h.member x l' (h.carried x l' hl')
        rcases h.met x l' hl' with hf | hs | hp | hr
        · exact .inl (hcopy.mpr hf)
        · exact .inr (.inl hs)
        · refine .inr (.inr (.inl ((Multiset.mem_erase_of_ne fun heq => ?_).mpr hp)))
          have hfar : G.far x l' = (n, l) := by
            rw [Signal.prune.injEq] at heq
            exact Prod.ext heq.1 heq.2
          have hsame := G.far_far x hx l' hlink
          rw [hfar] at hsame
          exact hother ⟨(congrArg Prod.fst hsame).symm, (congrArg Prod.snd hsame).symm⟩
        · exact .inr (.inr (.inr hr))
      leads := h.leads
      nodup_taken := h.nodup_taken
      taken := h.taken
      origin := h.origin
      refused_sent := h.refused_sent
      refused_source := h.refused_source
      refused_once := h.refused_once
      spent := by
        have hspent := h.spent
        rw [cost_erase ha] at hspent
        simp only [State.next]
        have hcost : (Signal.prune n l).cost = 1 := rfl
        omega }

theorem Sound.next (h : Sound G o s) {e : Event N L} (ha : s.Allowed G e) : Sound G o (s.next G e) := by
  cases e with
  | take n l out => exact h.take ha
  | bounce n l => exact h.bounce ha
  | refuse n l => exact h.refuse ha
  | cut n l => exact h.cut ha

/-! ## What is left -/

/-- What is left once nothing is in flight: over the sources every node is led to the
origin, and a link over which the transmission is sent on is the only one into its node. -/
structure Tree (G : Flood.Graph N L) (o : N) (source : N → Option (Option L)) (onward : N → Set L) : Prop where
  leads : ∀ n, source n ≠ none → Relation.ReflTransGen (Up G source) n o
  down : ∀ n, ∀ l ∈ onward n, source (G.far n l).1 = some (some (G.far n l).2) ∨ source (G.far n l).1 = none
  joined : ∀ m k, source m = some (some k) → (G.far m k).2 ∈ onward (G.far m k).1
  single : ∀ n, ∀ l ∈ onward n, ∀ n', ∀ l' ∈ onward n', (G.far n l).1 = (G.far n' l').1 → n = n' ∧ l = l'
  apart : ∀ n, ∀ l ∈ onward n, (G.far n l).1 ≠ o

omit [DecidableEq N] [DecidableEq L] in
/-- Where no node has the transmission there is nothing to be a tree. -/
theorem tree_empty : Tree G o (fun _ => none) fun _ => ∅ where
  leads _ h := absurd rfl h
  down _ l hl := absurd hl (Set.notMem_empty l)
  joined _ _ h := by cases h
  single _ l hl := absurd hl (Set.notMem_empty l)
  apart _ l hl := absurd hl (Set.notMem_empty l)

/-- A node is sent on to over its source, or over the link of the one copy it refused. -/
theorem Sound.tree (h : Sound G o s) (hquiet : s.flight = 0) : Tree G o s.source s.onward := by
  have hmet : ∀ n, ∀ l ∈ s.onward n,
      s.source (G.far n l).1 = some (some (G.far n l).2) ∨ (n, l) ∈ s.refused := by
    intro n l hl
    rcases h.met n l hl with hf | hs | hp | hr
    · rw [hquiet] at hf
      exact absurd hf (Multiset.notMem_zero _)
    · exact .inl hs
    · rw [hquiet] at hp
      exact absurd hp (Multiset.notMem_zero _)
    · exact .inr hr
  exact
    { leads := h.leads
      down := fun n l hl => (hmet n l hl).imp_right (h.refused_source _)
      joined := fun m k hs => (h.up m k hs).2.2
      single := by
        intro n l hl n' l' hl' heq
        obtain ⟨hn, hlink⟩ := h.member n l (h.carried n l hl)
        obtain ⟨hn', hlink'⟩ := h.member n' l' (h.carried n' l' hl')
        rcases hmet n l hl with hs | hr
        · rcases hmet n' l' hl' with hs' | hr'
          · rw [← heq, hs, Option.some.injEq, Option.some.injEq] at hs'
            exact far_inj hn hlink hn' hlink' (Prod.ext heq hs')
          · have hnone := h.refused_source _ hr'
            rw [← heq, hs] at hnone
            cases hnone
        · rcases hmet n' l' hl' with hs' | hr'
          · have hnone := h.refused_source _ hr
            rw [heq, hs'] at hnone
            cases hnone
          · exact Prod.mk.inj (h.refused_once _ hr _ hr' heq)
      apart := by
        intro n l hl heq
        have horigin := (h.origin o).mpr rfl
        rcases hmet n l hl with hs | hr
        · rw [heq, horigin] at hs
          cases hs
        · have hnone := h.refused_source _ hr
          rw [heq, horigin] at hnone
          cases hnone }

/-- Only so much is delivered. -/
theorem Sound.delivered_le (h : Sound G o s) :
    s.delivered ≤ 2 * ∑ n ∈ G.members, (G.links n).length := by
  let all : Finset ((_ : N) × L) := G.members.sigma fun n => (G.links n).toFinset
  have hsub : s.sent ⊆ all.image fun e => (e.1, e.2) := by
    rintro ⟨n, l⟩ he
    obtain ⟨hn, hl⟩ := h.member n l he
    exact Finset.mem_image.mpr ⟨⟨n, l⟩, Finset.mem_sigma.mpr ⟨hn, List.mem_toFinset.mpr hl⟩, rfl⟩
  have hcard : s.sent.card ≤ ∑ n ∈ G.members, (G.links n).length := by
    calc s.sent.card ≤ all.card := (Finset.card_le_card hsub).trans Finset.card_image_le
      _ = ∑ n ∈ G.members, (G.links n).length := by
        rw [Finset.card_sigma]
        exact Finset.sum_congr rfl fun n _ => List.toFinset_card_of_nodup (G.nodup_links n)
  have := h.spent
  omega

end Steps

/-! ## Messages over the tree -/

/-- The later messages of the transmission, by number: on which links they are, and which
nodes they reached. -/
structure Stream (N L : Type) where
  flight : Multiset (ℕ × N × L) := 0
  reached : List (ℕ × N) := []
  spoken : ℕ := 0

/-- The origin sends its next message, or a message arrives and is passed on. -/
inductive Speech (N L : Type)
  | speak (out : List L)
  | pass (j : ℕ) (n : N) (l : L) (out : List L)

section Streams

variable {N L : Type} [DecidableEq N] [DecidableEq L]

namespace Stream

/-- A message on the links that a node sends it over. -/
def onLinks (j : ℕ) (n : N) (out : List L) : Multiset (ℕ × N × L) := ↑(out.map fun l => (j, n, l))

def next (G : Flood.Graph N L) (o : N) (w : Stream N L) : Speech N L → Stream N L
  | .speak out => { w with flight := w.flight + onLinks w.spoken o out, spoken := w.spoken + 1 }
  | .pass j n l out =>
    { w with
      flight := w.flight.erase (j, n, l) + onLinks j (G.far n l).1 out
      reached := (j, (G.far n l).1) :: w.reached }

def Allowed (G : Flood.Graph N L) (o : N) (onward : N → Set L) (w : Stream N L) : Speech N L → Prop
  | .speak out => out.Nodup ∧ ∀ l ∈ out, l ∈ onward o
  | .pass j n l out => (j, n, l) ∈ w.flight ∧ out.Nodup ∧ ∀ l' ∈ out, l' ∈ onward (G.far n l).1

end Stream

/-- The invariant of every run: a message is on a link once, after it reached the sender
and before it reaches the far end. -/
structure Single (G : Flood.Graph N L) (o : N) (onward : N → Set L) (w : Stream N L) : Prop where
  nodup_flight : w.flight.Nodup
  flies : ∀ j n l, (j, n, l) ∈ w.flight →
    l ∈ onward n ∧ j < w.spoken ∧ (j, (G.far n l).1) ∉ w.reached ∧ (n = o ∨ (j, n) ∈ w.reached)
  came : ∀ j m, (j, m) ∈ w.reached →
    j < w.spoken ∧ ∃ n l, l ∈ onward n ∧ (G.far n l).1 = m ∧ (n = o ∨ (j, n) ∈ w.reached)
  nodup_reached : w.reached.Nodup

variable {G : Flood.Graph N L} {o : N} {source : N → Option (Option L)} {onward : N → Set L} {w : Stream N L}

omit [DecidableEq N] [DecidableEq L] in
theorem mem_onLinks {j j' : ℕ} {n n' : N} {l : L} {out : List L} :
    (j', n', l) ∈ Stream.onLinks j n out ↔ j' = j ∧ n' = n ∧ l ∈ out := by
  rw [Stream.onLinks, Multiset.mem_coe, List.mem_map]
  constructor
  · rintro ⟨l', hl', heq⟩
    cases heq
    exact ⟨rfl, rfl, hl'⟩
  · rintro ⟨rfl, rfl, hl⟩
    exact ⟨l, hl, rfl⟩

omit [DecidableEq N] [DecidableEq L] in
theorem nodup_onLinks {j : ℕ} {n : N} {out : List L} (h : out.Nodup) : (Stream.onLinks j n out).Nodup := by
  refine Multiset.coe_nodup.mpr (h.map fun l l' heq => ?_)
  cases heq
  rfl

omit [DecidableEq N] [DecidableEq L] in
theorem single_empty : Single G o onward ({} : Stream N L) where
  nodup_flight := Multiset.nodup_zero
  flies _ _ _ h := absurd h (Multiset.notMem_zero _)
  came _ _ h := absurd h List.not_mem_nil
  nodup_reached := List.nodup_nil

theorem Single.speak (h : Single G o onward w) {out : List L} (ha : w.Allowed G o onward (.speak out)) :
    Single G o onward (w.next G o (.speak out)) where
  nodup_flight := by
    refine Multiset.nodup_add.mpr ⟨h.nodup_flight, nodup_onLinks ha.1, Multiset.disjoint_left.mpr ?_⟩
    rintro ⟨j, n, l⟩ hf hnew
    obtain ⟨rfl, -, -⟩ := mem_onLinks.mp hnew
    exact absurd (h.flies _ n l hf).2.1 (Nat.lt_irrefl _)
  flies j n l hf := by
    rcases Multiset.mem_add.mp hf with hf | hf
    · obtain ⟨hl, hj, hnot, hfrom⟩ := h.flies j n l hf
      exact ⟨hl, Nat.lt_succ_of_lt hj, hnot, hfrom⟩
    · obtain ⟨rfl, rfl, hl⟩ := mem_onLinks.mp hf
      exact ⟨ha.2 l hl, Nat.lt_succ_self _, fun hr => absurd (h.came _ _ hr).1 (Nat.lt_irrefl _), .inl rfl⟩
  came j m hr := (h.came j m hr).imp_left Nat.lt_succ_of_lt
  nodup_reached := h.nodup_reached

theorem Single.pass (h : Single G o onward w) (ht : Tree G o source onward) {j : ℕ} {n : N} {l : L} {out : List L}
    (ha : w.Allowed G o onward (.pass j n l out)) : Single G o onward (w.next G o (.pass j n l out)) := by
  obtain ⟨hflies, hnodup, hout⟩ := ha
  obtain ⟨hl, hj, hnot, hfrom⟩ := h.flies j n l hflies
  have hapart : (G.far n l).1 ≠ o := ht.apart n l hl
  -- Nothing the node passes on went out before, or reached the far end by another way.
  have hfresh : ∀ l' ∈ out, (j, (G.far n l).1, l') ∉ w.flight := by
    intro l' _ hf
    exact (h.flies j _ l' hf).2.2.2.elim hapart hnot
  have hunreached : ∀ l' ∈ out, (j, (G.far (G.far n l).1 l').1) ∉ (j, (G.far n l).1) :: w.reached := by
    intro l' hl' hr
    rcases List.mem_cons.mp hr with heq | hr
    · obtain ⟨hself, -⟩ := ht.single _ l' (hout l' hl') n l hl (Prod.mk.inj heq).2
      rcases hfrom with ho | hr
      · exact hapart (hself.trans ho)
      · exact hnot (hself.symm ▸ hr)
    · obtain ⟨-, n', l'', hl'', hfar, hfrom'⟩ := h.came j _ hr
      obtain ⟨rfl, rfl⟩ := ht.single n' l'' hl'' _ l' (hout l' hl') hfar
      exact hfrom'.elim hapart hnot
  exact
    { nodup_flight := by
        refine Multiset.nodup_add.mpr ⟨h.nodup_flight.erase _, nodup_onLinks hnodup, Multiset.disjoint_left.mpr ?_⟩
        rintro ⟨j', n', l'⟩ hf hnew
        obtain ⟨rfl, rfl, hl'⟩ := mem_onLinks.mp hnew
        exact hfresh l' hl' (Multiset.mem_of_mem_erase hf)
      flies := by
        intro j' n' l' hf
        rcases Multiset.mem_add.mp hf with hf | hf
        · obtain ⟨hne, hf⟩ := (h.nodup_flight.mem_erase_iff).mp hf
          obtain ⟨hon', hj', hnot', hfrom'⟩ := h.flies j' n' l' hf
          refine ⟨hon', hj', fun hr => ?_, hfrom'.imp_right (List.mem_cons_of_mem _)⟩
          rcases List.mem_cons.mp hr with heq | hr
          · obtain ⟨rfl, hfar⟩ := Prod.mk.inj heq
            obtain ⟨rfl, rfl⟩ := ht.single n' l' hon' n l hl hfar
            exact hne rfl
          · exact hnot' hr
        · obtain ⟨rfl, rfl, hl'⟩ := mem_onLinks.mp hf
          exact ⟨hout l' hl', hj, hunreached l' hl', .inr List.mem_cons_self⟩
      came := by
        intro j' m hr
        rcases List.mem_cons.mp hr with heq | hr
        · cases heq
          exact ⟨hj, n, l, hl, rfl, hfrom.imp_right (List.mem_cons_of_mem _)⟩
        · obtain ⟨hj', n', l', hl', hfar, hfrom'⟩ := h.came j' m hr
          exact ⟨hj', n', l', hl', hfar, hfrom'.imp_right (List.mem_cons_of_mem _)⟩
      nodup_reached := List.nodup_cons.mpr ⟨hnot, h.nodup_reached⟩ }

/-- Over a tree, each message reaches each node at most once. -/
theorem Single.next (h : Single G o onward w) (ht : Tree G o source onward) {e : Speech N L}
    (ha : w.Allowed G o onward e) : Single G o onward (w.next G o e) := by
  cases e with
  | speak out => exact h.speak ha
  | pass j n l out => exact h.pass ht ha

end Streams

end BrewServer.FirstCopy
