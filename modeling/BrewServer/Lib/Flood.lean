import Mathlib.Data.Finset.Card
import Mathlib.Algebra.BigOperators.Group.Finset.Sigma
import Mathlib.Data.List.Perm.Subperm
import Mathlib.Logic.Relation
import BrewServer.Lib.Transition

/-!
# Flooding versioned records over a graph

A record is a key with a version and a datum. A node that takes in a record newer than
what it holds keeps it and passes it on over its links, leaving out the link it came over
and the nodes it went through. Over any graph no larger than the path limit, and in any
order of delivery, each record crosses each link at most once each way, and once nothing
is in flight every node holds the newest record of each key.
-/

namespace BrewServer.Flood

/-- Nodes and the links between them. Each link has an end at both of its nodes:
`far n l` is the other end of the link that node `n` calls `l`. -/
structure Graph (N L : Type) where
  members : Finset N
  links : N → List L
  far : N → L → N × L
  limit : ℕ
  far_mem : ∀ n ∈ members, ∀ l ∈ links n, (far n l).1 ∈ members
  far_link : ∀ n ∈ members, ∀ l ∈ links n, (far n l).2 ∈ links (far n l).1
  far_far : ∀ n ∈ members, ∀ l ∈ links n, far (far n l).1 (far n l).2 = (n, l)
  nodup_links : ∀ n, (links n).Nodup
  small : members.card ≤ limit

/-- A record and the nodes it went through, last first. -/
structure Msg (N K V D : Type) where
  key : K
  ver : V
  data : D
  path : List N

/-- A message that `sender` put on its link `link`. -/
structure Parcel (N L K V D : Type) where
  sender : N
  link : L
  msg : Msg N K V D

/-- What tells the crossings of links by records apart. -/
def Parcel.crossing {N L K V D : Type} (p : Parcel N L K V D) : (N × L) × K × V :=
  ((p.sender, p.link), p.msg.key, p.msg.ver)

structure State (N L K V D : Type) where
  held : N → K → Option (V × D)
  flight : List (Parcel N L K V D)
  /-- Everything ever put on a link. -/
  log : List (Parcel N L K V D)
  /-- The records published. -/
  sent : List (K × V × D)
  delivered : ℕ

def State.init {N L K V D : Type} : State N L K V D :=
  { held := fun _ _ => none, flight := [], log := [], sent := [], delivered := 0 }

inductive Event (N K V D : Type)
  | publish (n : N) (k : K) (v : V) (d : D) (loud : Bool)
  | deliver (i : ℕ)

namespace Graph

variable {N L K V D : Type} (G : Graph N L)

/-- Any two nodes are joined by links. -/
def Connected : Prop :=
  ∀ m ∈ G.members, ∀ n ∈ G.members,
    Relation.ReflTransGen (fun a b => a ∈ G.members ∧ ∃ l ∈ G.links a, (G.far a l).1 = b) m n

/-- Where a parcel arrives. -/
def target (p : Parcel N L K V D) : N × L := G.far p.sender p.link

end Graph

section Held

variable {N K V D : Type} [DecidableEq N] [DecidableEq K] [LinearOrder V]

/-- Whether node `n` holds version `v` of `k` or a newer one. -/
def reaches (held : N → K → Option (V × D)) (n : N) (k : K) (v : V) : Bool := (held n k).any (v ≤ ·.1)

/-- Node `n` takes in a record, unless it holds one as new. -/
def raise (held : N → K → Option (V × D)) (n : N) (m : Msg N K V D) : N → K → Option (V × D) :=
  if reaches held n m.key m.ver then held
  else fun n' k => if n' = n ∧ k = m.key then some (m.ver, m.data) else held n' k

variable {held : N → K → Option (V × D)} {n n' : N} {k : K} {v w : V} {m : Msg N K V D}

omit [DecidableEq N] [DecidableEq K] in
theorem reaches_iff : reaches held n k v = true ↔ ∃ x, held n k = some x ∧ v ≤ x.1 := by
  rw [reaches, Option.any_eq_true]
  simp only [decide_eq_true_eq]

omit [DecidableEq N] [DecidableEq K] in
theorem reaches_of_le (h : reaches held n k w = true) (hvw : v ≤ w) : reaches held n k v = true := by
  obtain ⟨x, hx, hwx⟩ := reaches_iff.mp h
  exact reaches_iff.mpr ⟨x, hx, hvw.trans hwx⟩

/-- What a node holds only gets newer. -/
theorem reaches_raise (h : reaches held n' k v = true) : reaches (raise held n m) n' k v = true := by
  obtain ⟨x, hx, hvx⟩ := reaches_iff.mp h
  unfold raise
  split
  · exact h
  · next hlow =>
    rw [reaches_iff]
    by_cases hnk : n' = n ∧ k = m.key
    · refine ⟨(m.ver, m.data), if_pos hnk, ?_⟩
      obtain ⟨rfl, rfl⟩ := hnk
      -- The record taken in is newer than the one held, and so newer than `v`.
      have hlt : ¬ m.ver ≤ x.1 := fun hle => hlow (reaches_iff.mpr ⟨x, hx, hle⟩)
      exact hvx.trans (not_le.mp hlt).le
    · exact ⟨x, (if_neg hnk).trans hx, hvx⟩

theorem reaches_raise_self : reaches (raise held n m) n m.key m.ver = true := by
  unfold raise
  split
  · next h => exact h
  · exact reaches_iff.mpr ⟨(m.ver, m.data), if_pos ⟨rfl, rfl⟩, le_refl _⟩

/-- What a node holds is what it held or what it took in. -/
theorem raise_eq_some {x : V × D} (h : raise held n m n' k = some x) :
    held n' k = some x ∨ (n' = n ∧ k = m.key ∧ x = (m.ver, m.data)) := by
  unfold raise at h
  split at h
  · exact .inl h
  · dsimp only at h
    by_cases hnk : n' = n ∧ k = m.key
    · rw [if_pos hnk] at h
      exact .inr ⟨hnk.1, hnk.2, (Option.some.inj h).symm⟩
    · rw [if_neg hnk] at h
      exact .inl h

end Held

section Steps

variable {N L K V D : Type} [DecidableEq N] [DecidableEq L] [DecidableEq K] [LinearOrder V]
variable (G : Graph N L)

/-- The links node `n` passes a record on over. -/
def passLinks (n : N) (except : Option L) (path : List N) : List L :=
  if G.limit ≤ path.length then []
  else (G.links n).filter fun l => decide (some l ≠ except) && decide ((G.far n l).1 ∉ path)

/-- What node `n` puts on its links when it passes a record on. -/
def outgoing (n : N) (except : Option L) (m : Msg N K V D) : List (Parcel N L K V D) :=
  (passLinks G n except m.path).map fun l => ⟨n, l, { m with path := n :: m.path }⟩

namespace State

/-- Node `n` takes a record in and passes it on. -/
def spread (s : State N L K V D) (n : N) (except : Option L) (m : Msg N K V D) : State N L K V D :=
  { s with held := raise s.held n m
           flight := s.flight ++ outgoing G n except m
           log := s.log ++ outgoing G n except m }

/-- A parcel arrives. -/
def receive (s : State N L K V D) (p : Parcel N L K V D) : State N L K V D :=
  if (G.target p).1 ∈ p.msg.path ∨ reaches s.held (G.target p).1 p.msg.key p.msg.ver then s
  else s.spread G (G.target p).1 (some (G.target p).2) p.msg

def next (s : State N L K V D) : Event N K V D → State N L K V D
  | .publish n k v d loud =>
    let s := { s with sent := (k, v, d) :: s.sent }
    if loud then s.spread G n none { key := k, ver := v, data := d, path := [] } else s
  | .deliver i =>
    match s.flight[i]? with
    | none => s
    | some p => { s with flight := s.flight.eraseIdx i, delivered := s.delivered + 1 }.receive G p

/-- Versions of a key are distinct, and a record is held back only by a node that
holds one as new. -/
def Allowed (s : State N L K V D) : Event N K V D → Prop
  | .publish n k v _ loud =>
    n ∈ G.members ∧ (∀ x ∈ s.sent, (x.1, x.2.1) ≠ (k, v)) ∧ (loud = false → reaches s.held n k v = true)
  | .deliver _ => True

end State

variable {G}

omit [DecidableEq K] [LinearOrder V] in
theorem mem_outgoing {n : N} {except : Option L} {m : Msg N K V D} {p : Parcel N L K V D}
    (h : p ∈ outgoing G n except m) :
    p.sender = n ∧ p.link ∈ G.links n ∧ p.msg = { m with path := n :: m.path } := by
  obtain ⟨l, hl, rfl⟩ := List.mem_map.mp h
  refine ⟨rfl, ?_, rfl⟩
  unfold passLinks at hl
  split at hl
  · exact absurd hl List.not_mem_nil
  · exact (List.mem_filter.mp hl).1

omit [DecidableEq K] [LinearOrder V] in
/-- A link that is not passed over leads to a node on the path. -/
theorem mem_outgoing_or {n : N} {except : Option L} {m : Msg N K V D} (hshort : m.path.length < G.limit)
    (hexcept : ∀ l, except = some l → (G.far n l).1 ∈ m.path) {l : L} (hl : l ∈ G.links n) :
    (G.far n l).1 ∈ m.path ∨ ∃ p ∈ outgoing G n except m, p.sender = n ∧ p.link = l ∧
      p.msg.key = m.key ∧ p.msg.ver = m.ver := by
  by_cases hfar : (G.far n l).1 ∈ m.path
  · exact .inl hfar
  · have hne : some l ≠ except := fun heq => hfar (hexcept l heq.symm)
    have hpass : l ∈ passLinks G n except m.path := by
      rw [passLinks, if_neg (not_le.mpr hshort), List.mem_filter]
      simp [hl, hne, hfar]
    exact .inr ⟨_, List.mem_map.mpr ⟨l, hpass, rfl⟩, rfl, rfl, rfl, rfl⟩

omit [DecidableEq K] [LinearOrder V] in
theorem nodup_outgoing (n : N) (except : Option L) (m : Msg N K V D) :
    ((outgoing G n except m).map Parcel.crossing).Nodup := by
  have hlinks : (passLinks G n except m.path).Nodup := by
    unfold passLinks
    split
    · exact List.nodup_nil
    · exact (G.nodup_links n).filter _
  rw [outgoing, List.map_map]
  refine hlinks.map fun l l' heq => ?_
  simpa only [Function.comp_apply, Parcel.crossing, Prod.mk.injEq, true_and, and_true] using heq

end Steps

section Invariants

variable {N L K V D : Type} [DecidableEq N] [DecidableEq L] [DecidableEq K] [LinearOrder V]

/-- A parcel is on a link of its sender, which is the last node it went through. -/
structure Parcel.Legal (G : Graph N L) (p : Parcel N L K V D) : Prop where
  member : p.sender ∈ G.members
  link : p.link ∈ G.links p.sender
  head : p.msg.path.head? = some p.sender
  nodup : p.msg.path.Nodup
  within : ∀ n ∈ p.msg.path, n ∈ G.members

/-- What holds of every parcel ever sent, of every record held and of every record
published. -/
structure Sound (G : Graph N L) (s : State N L K V D) : Prop where
  legal : ∀ p ∈ s.log, p.Legal G
  known : ∀ p ∈ s.log, (p.msg.key, p.msg.ver, p.msg.data) ∈ s.sent
  /-- Every node a record went through has held it. -/
  passed : ∀ p ∈ s.log, ∀ n ∈ p.msg.path, reaches s.held n p.msg.key p.msg.ver = true
  logged : ∀ p ∈ s.flight, p ∈ s.log
  counted : s.delivered + s.flight.length = s.log.length
  once : (s.log.map Parcel.crossing).Nodup
  held_sent : ∀ n k v d, s.held n k = some (v, d) → (k, v, d) ∈ s.sent
  unique : ∀ k v d d', (k, v, d) ∈ s.sent → (k, v, d') ∈ s.sent → d = d'

/-- What a node holds, each of its neighbours holds or is about to be told. -/
def Covers (G : Graph N L) (held : N → K → Option (V × D)) (flight : List (Parcel N L K V D)) : Prop :=
  ∀ n ∈ G.members, ∀ l ∈ G.links n, ∀ k v d, held n k = some (v, d) →
    reaches held (G.far n l).1 k v = true ∨
      ∃ p ∈ flight, p.sender = n ∧ p.link = l ∧ p.msg.key = k ∧ v ≤ p.msg.ver

/-- Every record published is held by some node, or a newer one is. -/
def Kept (G : Graph N L) (s : State N L K V D) : Prop :=
  ∀ k v d, (k, v, d) ∈ s.sent → ∃ n ∈ G.members, reaches s.held n k v = true

variable {G : Graph N L}

omit [DecidableEq L] in
/-- A path crosses no more nodes than there are. -/
theorem length_le_limit {path : List N} (hnodup : path.Nodup) (hwithin : ∀ n ∈ path, n ∈ G.members) :
    path.length ≤ G.limit := by
  rw [← List.toFinset_card_of_nodup hnodup]
  exact (Finset.card_le_card fun n hn => hwithin n (List.mem_toFinset.mp hn)).trans G.small

omit [DecidableEq L] in
/-- A path leaves room for one more node, if that node is not on it. -/
theorem length_lt_limit {path : List N} (hnodup : path.Nodup) (hwithin : ∀ n ∈ path, n ∈ G.members) {n : N}
    (hn : n ∈ G.members) (hnew : n ∉ path) : path.length < G.limit := by
  have h := length_le_limit (List.nodup_cons.mpr ⟨hnew, hnodup⟩) (List.forall_mem_cons.mpr ⟨hn, hwithin⟩)
  rw [List.length_cons] at h
  exact h

/-- What a node needs to take a record in and pass it on. -/
structure Passable (G : Graph N L) (s : State N L K V D) (n : N) (except : Option L) (m : Msg N K V D) : Prop where
  member : n ∈ G.members
  new : n ∉ m.path
  nodup : m.path.Nodup
  within : ∀ n ∈ m.path, n ∈ G.members
  passed : ∀ n ∈ m.path, reaches s.held n m.key m.ver = true
  known : (m.key, m.ver, m.data) ∈ s.sent
  /-- It has not passed this record on before. -/
  fresh : ∀ p ∈ s.log, p.sender = n → (p.msg.key, p.msg.ver) ≠ (m.key, m.ver)
  back : ∀ l, except = some l → (G.far n l).1 ∈ m.path

theorem Sound.spread {s : State N L K V D} (h : Sound G s) {n : N} {except : Option L} {m : Msg N K V D}
    (hp : Passable G s n except m) : Sound G (s.spread G n except m) where
  legal := by
    intro p hpm
    rcases List.mem_append.mp hpm with hpm | hpm
    · exact h.legal p hpm
    · obtain ⟨hs, hl, hm⟩ := mem_outgoing hpm
      refine ⟨hs ▸ hp.member, hs ▸ hl, ?_, ?_, ?_⟩
      · rw [hm, hs, List.head?_cons]
      · rw [hm]
        exact List.nodup_cons.mpr ⟨hp.new, hp.nodup⟩
      · rw [hm]
        exact List.forall_mem_cons.mpr ⟨hp.member, hp.within⟩
  known := by
    intro p hpm
    rcases List.mem_append.mp hpm with hpm | hpm
    · exact h.known p hpm
    · rw [(mem_outgoing hpm).2.2]
      exact hp.known
  passed := by
    intro p hpm
    rcases List.mem_append.mp hpm with hpm | hpm
    · exact fun x hx => reaches_raise (h.passed p hpm x hx)
    · rw [(mem_outgoing hpm).2.2]
      exact List.forall_mem_cons.mpr ⟨reaches_raise_self, fun x hx => reaches_raise (hp.passed x hx)⟩
  logged := by
    intro p hpm
    rcases List.mem_append.mp hpm with hpm | hpm
    · exact List.mem_append_left _ (h.logged p hpm)
    · exact List.mem_append_right _ hpm
  counted := by
    have := h.counted
    simp only [State.spread, List.length_append]
    omega
  once := by
    rw [State.spread, List.map_append, List.nodup_append]
    refine ⟨h.once, nodup_outgoing n except m, ?_⟩
    rintro _ hold _ hnew rfl
    obtain ⟨p, hpm, hpc⟩ := List.mem_map.mp hold
    obtain ⟨q, hqm, hqc⟩ := List.mem_map.mp hnew
    obtain ⟨hs, -, hm⟩ := mem_outgoing hqm
    have heq : p.crossing = q.crossing := hpc.trans hqc.symm
    simp only [Parcel.crossing, hs, hm, Prod.mk.injEq] at heq
    exact hp.fresh p hpm heq.1.1 (Prod.ext heq.2.1 heq.2.2)
  held_sent := by
    intro n' k v d hheld
    rcases raise_eq_some hheld with hheld | ⟨-, rfl, hx⟩
    · exact h.held_sent n' k v d hheld
    · rw [Prod.mk.injEq] at hx
      rw [hx.1, hx.2]
      exact hp.known
  unique := h.unique

omit [DecidableEq N] [DecidableEq L] [DecidableEq K] in
/-- Parcels may leave once the node they go to holds their record. -/
theorem Covers.shrink {held : N → K → Option (V × D)} {flight flight' : List (Parcel N L K V D)}
    (h : Covers G held flight)
    (hgone : ∀ p ∈ flight, p ∈ flight' ∨ reaches held (G.target p).1 p.msg.key p.msg.ver = true) :
    Covers G held flight' := by
  intro n hn l hl k v d hheld
  rcases h n hn l hl k v d hheld with hr | ⟨p, hp, rfl, rfl, rfl, hv⟩
  · exact .inl hr
  · rcases hgone p hp with hp' | hr
    · exact .inr ⟨p, hp', rfl, rfl, rfl, hv⟩
    · exact .inl (reaches_of_le hr hv)

/-- A node that passes a record on keeps its neighbours told. -/
theorem Covers.spread {s : State N L K V D} {flight : List (Parcel N L K V D)} (h : Covers G s.held flight) {n : N}
    {except : Option L} {m : Msg N K V D} (hp : Passable G s n except m)
    (hgone : ∀ p ∈ flight, p ∈ s.flight ∨ reaches (raise s.held n m) (G.target p).1 p.msg.key p.msg.ver = true) :
    Covers G (s.spread G n except m).held (s.spread G n except m).flight := by
  intro n' hn' l hl k v d hheld
  rcases raise_eq_some hheld with hheld | ⟨rfl, rfl, hx⟩
  · rcases h n' hn' l hl k v d hheld with hr | ⟨p, hpm, rfl, rfl, rfl, hv⟩
    · exact .inl (reaches_raise hr)
    · rcases hgone p hpm with hpm' | hr
      · exact .inr ⟨p, List.mem_append_left _ hpm', rfl, rfl, rfl, hv⟩
      · exact .inl (reaches_of_le hr hv)
  · -- What it just took in goes to every neighbour that has not had it.
    rw [Prod.mk.injEq] at hx
    have hshort := length_lt_limit hp.nodup hp.within hp.member hp.new
    rcases mem_outgoing_or hshort hp.back hl with hfar | ⟨p, hpm, hs, hlink, hk, hv⟩
    · rw [hx.1]
      exact .inl (reaches_raise (hp.passed _ hfar))
    · exact .inr ⟨p, List.mem_append_right _ hpm, hs, hlink, hk, by rw [hv, hx.1]⟩

/-- The invariant of every run. -/
structure Good (G : Graph N L) (s : State N L K V D) : Prop where
  sound : Sound G s
  covers : Covers G s.held s.flight
  kept : Kept G s

omit [DecidableEq N] [DecidableEq L] [DecidableEq K] in
theorem good_init : Good G (State.init : State N L K V D) where
  sound :=
    { legal := by simp [State.init]
      known := by simp [State.init]
      passed := by simp [State.init]
      logged := by simp [State.init]
      counted := by simp [State.init]
      once := by simp [State.init]
      held_sent := by simp [State.init]
      unique := by simp [State.init] }
  covers := by simp [Covers, State.init]
  kept := by simp [Kept, State.init]

theorem Good.publish {s : State N L K V D} (h : Good G s) {n : N} {k : K} {v : V} {d : D} {loud : Bool}
    (ha : s.Allowed G (.publish n k v d loud)) : Good G (s.next G (.publish n k v d loud)) := by
  obtain ⟨hn, hfresh, hquiet⟩ := ha
  let s' : State N L K V D := { s with sent := (k, v, d) :: s.sent }
  have hsound : Sound G s' :=
    { legal := h.sound.legal
      known := fun p hp => List.mem_cons_of_mem _ (h.sound.known p hp)
      passed := h.sound.passed
      logged := h.sound.logged
      counted := h.sound.counted
      once := h.sound.once
      held_sent := fun n k v d hheld => List.mem_cons_of_mem _ (h.sound.held_sent n k v d hheld)
      unique := by
        intro k' v' d₁ d₂ h₁ h₂
        rcases List.mem_cons.mp h₁ with h₁ | h₁
        · cases h₁
          rcases List.mem_cons.mp h₂ with h₂ | h₂
          · cases h₂
            rfl
          · exact absurd rfl (hfresh _ h₂)
        · rcases List.mem_cons.mp h₂ with h₂ | h₂
          · cases h₂
            exact absurd rfl (hfresh _ h₁)
          · exact h.sound.unique k' v' d₁ d₂ h₁ h₂ }
  cases loud with
  | false =>
    refine ⟨hsound, h.covers, ?_⟩
    intro k' v' d' hsent
    rcases List.mem_cons.mp hsent with hsent | hsent
    · cases hsent
      exact ⟨n, hn, hquiet rfl⟩
    · exact h.kept k' v' d' hsent
  | true =>
    have hp : Passable G s' n none { key := k, ver := v, data := d, path := [] } :=
      { member := hn
        new := List.not_mem_nil
        nodup := List.nodup_nil
        within := by simp
        passed := by simp
        known := List.mem_cons_self
        fresh := fun p hp _ heq => hfresh _ (h.sound.known p hp) heq
        back := by simp }
    refine ⟨hsound.spread hp, Covers.spread (s := s') h.covers hp fun p hp => .inl hp, ?_⟩
    intro k' v' d' hsent
    rcases List.mem_cons.mp hsent with hsent | hsent
    · cases hsent
      exact ⟨n, hn, reaches_raise_self⟩
    · obtain ⟨n', hn', hr⟩ := h.kept k' v' d' hsent
      exact ⟨n', hn', reaches_raise hr⟩

theorem Good.deliver {s : State N L K V D} (h : Good G s) (i : ℕ) : Good G (s.next G (.deliver i)) := by
  simp only [State.next]
  split
  · exact h
  · next p hi =>
    obtain ⟨hlt, rfl⟩ := List.getElem?_eq_some_iff.mp hi
    let p := s.flight[i]
    let s' : State N L K V D := { s with flight := s.flight.eraseIdx i, delivered := s.delivered + 1 }
    have hmem : p ∈ s.log := h.sound.logged p (List.getElem_mem hlt)
    have hlegal := h.sound.legal p hmem
    have hstays : ∀ q ∈ s.flight, q ∈ s'.flight ∨ q = p := by
      intro q hq
      rcases List.mem_iff_getElem.mp hq with ⟨j, hj, rfl⟩
      by_cases hij : j = i
      · subst hij
        exact .inr rfl
      · exact .inl (List.mem_eraseIdx_iff_getElem.mpr ⟨j, hj, hij, rfl⟩)
    have hsound : Sound G s' :=
      { legal := h.sound.legal
        known := h.sound.known
        passed := h.sound.passed
        logged := fun q hq => h.sound.logged q (List.mem_of_mem_eraseIdx hq)
        counted := by
          have := h.sound.counted
          simp only [s', List.length_eraseIdx_of_lt hlt]
          omega
        once := h.sound.once
        held_sent := h.sound.held_sent
        unique := h.sound.unique }
    change Good G (s'.receive G p)
    unfold State.receive
    split
    · next hdrop =>
      -- The node has the record already: it held it once, or holds one as new.
      have hr : reaches s.held (G.target p).1 p.msg.key p.msg.ver = true :=
        hdrop.elim (fun hpath => h.sound.passed p hmem _ hpath) id
      refine ⟨hsound, h.covers.shrink fun q hq => ?_, h.kept⟩
      rcases hstays q hq with hq | rfl
      · exact .inl hq
      · exact .inr hr
    · next htake =>
      rw [not_or] at htake
      have hback : (G.far (G.target p).1 (G.target p).2).1 = p.sender := by
        rw [Graph.target, G.far_far _ hlegal.member _ hlegal.link]
      have hhead : p.sender ∈ p.msg.path := List.mem_of_mem_head? hlegal.head
      have hp : Passable G s' (G.target p).1 (some (G.target p).2) p.msg :=
        { member := G.far_mem _ hlegal.member _ hlegal.link
          new := htake.1
          nodup := hlegal.nodup
          within := hlegal.within
          passed := h.sound.passed p hmem
          known := h.sound.known p hmem
          fresh := by
            -- Whatever it passed on it has held, and it does not hold this.
            intro q hq hsender heq
            rw [Prod.mk.injEq] at heq
            have hr := h.sound.passed q hq q.sender (List.mem_of_mem_head? (h.sound.legal q hq).head)
            rw [hsender, heq.1, heq.2] at hr
            exact htake.2 hr
          back := by
            rintro l hl
            rw [← Option.some.inj hl, hback]
            exact hhead }
      refine ⟨hsound.spread hp, Covers.spread (s := s') h.covers hp fun q hq => ?_, ?_⟩
      · rcases hstays q hq with hq | rfl
        · exact .inl hq
        · exact .inr reaches_raise_self
      · intro k v d hsent
        obtain ⟨n, hn, hr⟩ := h.kept k v d hsent
        exact ⟨n, hn, reaches_raise hr⟩

theorem Good.next {s : State N L K V D} (h : Good G s) {e : Event N K V D} (ha : s.Allowed G e) :
    Good G (s.next G e) := by
  cases e with
  | publish n k v d loud => exact h.publish ha
  | deliver i => exact h.deliver i

end Invariants

section Results

variable {N L K V D : Type} [DecidableEq N] [DecidableEq L] [DecidableEq K] [LinearOrder V] {G : Graph N L}
  {s : State N L K V D}

/-- Only so much crosses the links: once nothing new is published the flood ends. -/
theorem Good.length_log_le (h : Good G s) :
    s.log.length ≤ (∑ n ∈ G.members, (G.links n).length) * s.sent.length := by
  let ends : Finset ((_ : N) × L) := G.members.sigma fun n => (G.links n).toFinset
  let crossings : Finset ((N × L) × K × V) :=
    (ends.image fun e => (e.1, e.2)) ×ˢ (s.sent.map fun x => (x.1, x.2.1)).toFinset
  have hsub : (s.log.map Parcel.crossing).toFinset ⊆ crossings := by
    intro c hc
    obtain ⟨p, hp, rfl⟩ := List.mem_map.mp (List.mem_toFinset.mp hc)
    have hlegal := h.sound.legal p hp
    refine Finset.mem_product.mpr ⟨Finset.mem_image.mpr ⟨⟨p.sender, p.link⟩, ?_, rfl⟩, ?_⟩
    · exact Finset.mem_sigma.mpr ⟨hlegal.member, List.mem_toFinset.mpr hlegal.link⟩
    · exact List.mem_toFinset.mpr (List.mem_map.mpr ⟨_, h.sound.known p hp, rfl⟩)
  calc s.log.length = (s.log.map Parcel.crossing).toFinset.card := by
        rw [List.toFinset_card_of_nodup h.sound.once, List.length_map]
    _ ≤ crossings.card := Finset.card_le_card hsub
    _ ≤ ends.card * s.sent.length := by
        rw [Finset.card_product]
        refine Nat.mul_le_mul Finset.card_image_le ((List.toFinset_card_le _).trans ?_)
        rw [List.length_map]
    _ = (∑ n ∈ G.members, (G.links n).length) * s.sent.length := by
        rw [Finset.card_sigma]
        congr 1
        exact Finset.sum_congr rfl fun n _ => List.toFinset_card_of_nodup (G.nodup_links n)

omit [DecidableEq N] [DecidableEq L] [DecidableEq K] in
/-- Once nothing is in flight, a record reaches every node joined to one it reached. -/
theorem Good.reaches_of_joined (h : Good G s) (hquiet : s.flight = []) {k : K} {v : V} {m n : N}
    (hr : reaches s.held m k v = true)
    (hj : Relation.ReflTransGen (fun a b => a ∈ G.members ∧ ∃ l ∈ G.links a, (G.far a l).1 = b) m n) :
    reaches s.held n k v = true := by
  induction hj with
  | refl => exact hr
  | @tail a b _ hstep ih =>
    obtain ⟨ha, l, hl, rfl⟩ := hstep
    obtain ⟨x, hx, hv⟩ := reaches_iff.mp ih
    rcases h.covers a ha l hl k x.1 x.2 hx with hr | ⟨p, hp, -⟩
    · exact reaches_of_le hr hv
    · rw [hquiet] at hp
      exact absurd hp List.not_mem_nil

omit [DecidableEq N] [DecidableEq L] [DecidableEq K] in
/-- Once nothing is in flight, every node holds the newest record published of each key. -/
theorem Good.newest (h : Good G s) (hconn : G.Connected) (hquiet : s.flight = []) {k : K} {v : V} {d : D}
    (hsent : (k, v, d) ∈ s.sent) (hmax : ∀ v' d', (k, v', d') ∈ s.sent → v' ≤ v) {n : N} (hn : n ∈ G.members) :
    s.held n k = some (v, d) := by
  obtain ⟨m, hm, hr⟩ := h.kept k v d hsent
  obtain ⟨⟨w, d'⟩, hx, hv⟩ := reaches_iff.mp (h.reaches_of_joined hquiet hr (hconn m hm n hn))
  have hw : (k, w, d') ∈ s.sent := h.sound.held_sent n k w d' hx
  have heq : w = v := le_antisymm (hmax w d' hw) hv
  subst heq
  rw [hx, h.sound.unique k w d d' hsent hw]

end Results

end BrewServer.Flood
