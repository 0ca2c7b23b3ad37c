import Mathlib.Data.List.Chain
import Mathlib.Logic.Relation
import Mathlib.Order.Defs.PartialOrder

/-!
# Path-vector routing at rest

Every node holds at most one route to a destination: its own, or one that a neighbour
offers, with the neighbour in front of the path. A node offers its route to the neighbours
that are not on it, unless the path is too long to grow. Where every node has chosen among
the offers as they are, the routes of a connected graph lead to one origin.
-/

namespace BrewServer.PathVector

/-- What the origin stamped a route with, and the nodes from the next hop to the origin. -/
structure Route (N R : Type) where
  stamp : R
  path : List N

variable {N R ρ : Type}

/-- Where the route that `n` holds over `path` leads. -/
def origin (n : N) (path : List N) : N := path.getLast?.getD n

theorem origin_cons (n m : N) (path : List N) : origin n (m :: path) = origin m path := by
  rw [origin, List.getLast?_cons, Option.getD_some, origin]

def nextHop (held : N → Option (Route N R)) (n : N) : Option N := (held n).bind (·.path.head?)

/-- The node `k` hops on from `n`. -/
def follow (hop : N → Option N) (k : ℕ) (n : N) : Option N := (fun here => here.bind hop)^[k] (some n)

theorem follow_succ {hop : N → Option N} {n m : N} (k : ℕ) (h : hop n = some m) :
    follow hop (k + 1) n = follow hop k m := by
  rw [follow, Function.iterate_succ_apply, Option.bind_some, h, follow]

/-- A neighbour of `n` offers it the route. -/
def Offered (adj : N → N → Prop) (limit : ℕ) (held : N → Option (Route N R)) (n : N) (r : Route N R) : Prop :=
  ∃ m path, adj m n ∧ held m = some ⟨r.stamp, path⟩ ∧ n ∉ path ∧ path.length < limit ∧ r.path = m :: path

/-- What `n` may hold: its own route unless a higher one is offered, and else one from the
origin of the highest. -/
inductive Chooses [LE ρ] (adj : N → N → Prop) (limit : ℕ) (rank : R × N → ρ) (held : N → Option (Route N R)) (n : N) :
    Option (Route N R) → Prop
  | own (stamp : R)
      (highest : ∀ o, Offered adj limit held n o → rank (o.stamp, origin n o.path) ≤ rank (stamp, n)) :
      Chooses adj limit rank held n (some ⟨stamp, []⟩)
  | taken (r top : Route N R) (offered : Offered adj limit held n r) (topOffered : Offered adj limit held n top)
      (highest : ∀ o, Offered adj limit held n o →
        rank (o.stamp, origin n o.path) ≤ rank (top.stamp, origin n top.path))
      (same : origin n r.path = origin n top.path) :
      Chooses adj limit rank held n (some r)
  | unreachable (nothing : ∀ o, ¬ Offered adj limit held n o) : Chooses adj limit rank held n none

/-- Every node of `nodes` has chosen among the offers as they are. -/
structure AtRest [LE ρ] (nodes : Set N) (adj : N → N → Prop) (limit : ℕ) (rank : R × N → ρ)
    (held : N → Option (Route N R)) : Prop where
  within : ∀ m n, adj m n → m ∈ nodes
  symm : ∀ m n, adj m n → adj n m
  irrefl : ∀ n, ¬ adj n n
  chooses : ∀ n ∈ nodes, Chooses adj limit rank held n (held n)

/-- What a route at rest is: a simple path to a node with that route as its own, each node
on the way with the rest of it. -/
structure Traced (nodes : Set N) (adj : N → N → Prop) (held : N → Option (Route N R)) (n : N) (r : Route N R) : Prop where
  chain : (n :: r.path).IsChain adj
  nodup : (n :: r.path).Nodup
  within : origin n r.path ∈ nodes
  home : held (origin n r.path) = some ⟨r.stamp, []⟩
  along : ∀ m ∈ r.path, ∃ path, held m = some ⟨r.stamp, path⟩ ∧ origin m path = origin n r.path
  leads : follow (nextHop held) r.path.length n = some (origin n r.path)

section Rest

variable [PartialOrder ρ] {nodes : Set N} {adj : N → N → Prop} {limit : ℕ} {rank : R × N → ρ}
  {held : N → Option (Route N R)}

/-- A route over another node is the one that node offers. -/
theorem AtRest.offered (h : AtRest nodes adj limit rank held) {n m : N} (hn : n ∈ nodes) {stamp : R} {path : List N}
    (hheld : held n = some ⟨stamp, m :: path⟩) : adj m n ∧ held m = some ⟨stamp, path⟩ ∧ n ∉ path := by
  have hchooses := h.chooses n hn
  rw [hheld] at hchooses
  cases hchooses with
  | taken _ top offered =>
    obtain ⟨m', path', hadj, hm, hnot, -, heq⟩ := offered
    rw [List.cons_eq_cons] at heq
    obtain ⟨rfl, rfl⟩ := heq
    exact ⟨hadj, hm, hnot⟩

theorem AtRest.traced (h : AtRest nodes adj limit rank held) {n : N} (hn : n ∈ nodes) {stamp : R} {path : List N}
    (hheld : held n = some ⟨stamp, path⟩) : Traced nodes adj held n ⟨stamp, path⟩ := by
  induction path generalizing n with
  | nil =>
    exact
      { chain := List.isChain_singleton n
        nodup := List.pairwise_singleton _ n
        within := hn
        home := hheld
        along := fun m hm => absurd hm List.not_mem_nil
        leads := rfl }
  | cons m path ih =>
    obtain ⟨hadj, hm, hnot⟩ := h.offered hn hheld
    have hrest := ih (h.within m n hadj) hm
    have hne : n ≠ m := by
      rintro rfl
      exact h.irrefl n hadj
    refine
      { chain := List.isChain_cons_cons.mpr ⟨h.symm m n hadj, hrest.chain⟩
        nodup := List.nodup_cons.mpr ⟨fun hmem => (List.mem_cons.mp hmem).elim hne hnot, hrest.nodup⟩
        within := ?_
        home := ?_
        along := fun k hk => ?_
        leads := ?_ }
    · rw [origin_cons]
      exact hrest.within
    · rw [origin_cons]
      exact hrest.home
    · rw [origin_cons]
      rcases List.mem_cons.mp hk with rfl | hk
      · exact ⟨path, hm, rfl⟩
      · exact hrest.along k hk
    · have hhop : nextHop held n = some m := by
        rw [nextHop, hheld]
        rfl
      rw [origin_cons, List.length_cons, follow_succ _ hhop]
      exact hrest.leads

/-- An offer leads where a route of the neighbour does. -/
theorem AtRest.home_of_offered (h : AtRest nodes adj limit rank held) {n : N} {r : Route N R}
    (hr : Offered adj limit held n r) : held (origin n r.path) = some ⟨r.stamp, []⟩ := by
  obtain ⟨m, path, hadj, hm, -, -, heq⟩ := hr
  rw [heq, origin_cons]
  exact (h.traced (h.within m n hadj) hm).home

/-- Neighbours hold routes no lower than each other's. -/
theorem AtRest.spread (h : AtRest nodes adj limit rank held)
    (hshort : ∀ n path, (n :: path).IsChain adj → (n :: path).Nodup → path.length < limit) {m n : N} (hadj : adj m n)
    {r : Route N R} (hm : held m = some r) :
    ∃ g, held n = some g ∧ rank (r.stamp, origin m r.path) ≤ rank (g.stamp, origin n g.path) := by
  have htraced := h.traced (h.within m n hadj) hm
  by_cases hon : n ∈ r.path
  · -- the route runs over `n`, which holds the rest of it
    obtain ⟨path, hn, horigin⟩ := htraced.along n hon
    exact ⟨_, hn, le_of_eq (by rw [horigin])⟩
  · have hoffered : Offered adj limit held n ⟨r.stamp, m :: r.path⟩ :=
      ⟨m, r.path, hadj, hm, hon, hshort m r.path htraced.chain htraced.nodup, rfl⟩
    have hn : n ∈ nodes := h.within n m (h.symm m n hadj)
    have hchooses := h.chooses n hn
    cases hheld : held n with
    | none =>
      rw [hheld] at hchooses
      cases hchooses with
      | unreachable nothing => exact absurd hoffered (nothing _)
    | some g =>
      rw [hheld] at hchooses
      refine ⟨g, rfl, ?_⟩
      cases hchooses with
      | own stamp highest =>
        have hle := highest _ hoffered
        rw [origin_cons] at hle
        exact hle
      | taken _ top offered topOffered highest same =>
        have hle := highest _ hoffered
        rw [origin_cons] at hle
        -- both come from one origin, which stamped its route once
        have hhome := h.home_of_offered offered
        rw [same, h.home_of_offered topOffered, Option.some.injEq, Route.mk.injEq] at hhome
        rw [same, ← hhome.1]
        exact hle

theorem AtRest.le_of_joined (h : AtRest nodes adj limit rank held)
    (hshort : ∀ n path, (n :: path).IsChain adj → (n :: path).Nodup → path.length < limit) {m n : N}
    (hjoined : Relation.ReflTransGen adj m n) {r : Route N R} (hm : held m = some r) :
    ∃ g, held n = some g ∧ rank (r.stamp, origin m r.path) ≤ rank (g.stamp, origin n g.path) := by
  induction hjoined with
  | refl => exact ⟨r, hm, le_refl _⟩
  | tail _ hadj ih =>
    obtain ⟨g, hg, hle⟩ := ih
    obtain ⟨g', hg', hle'⟩ := h.spread hshort hadj hg
    exact ⟨g', hg', hle.trans hle'⟩

/-- Joined nodes hold routes from one origin, with one stamp. -/
theorem AtRest.same_of_joined (h : AtRest nodes adj limit rank held) (hrank : Function.Injective rank)
    (hshort : ∀ n path, (n :: path).IsChain adj → (n :: path).Nodup → path.length < limit) {m n : N}
    (hjoined : Relation.ReflTransGen adj m n) {r : Route N R} (hm : held m = some r) :
    ∃ g, held n = some g ∧ g.stamp = r.stamp ∧ origin n g.path = origin m r.path := by
  obtain ⟨g, hg, hle⟩ := h.le_of_joined hshort hjoined hm
  have hback : Relation.ReflTransGen adj n m := by
    have : Std.Symm adj := ⟨h.symm⟩
    exact Std.Symm.symm m n hjoined
  obtain ⟨r', hr', hle'⟩ := h.le_of_joined hshort hback hg
  rw [hm, Option.some.injEq] at hr'
  subst hr'
  have heq := hrank (le_antisymm hle hle')
  rw [Prod.mk.injEq] at heq
  exact ⟨g, hg, heq.1.symm, heq.2.symm⟩

/-- In a connected graph no node holds a route, or all hold routes from one origin, and
the next hops lead there. -/
theorem AtRest.agreement (h : AtRest nodes adj limit rank held) (hrank : Function.Injective rank)
    (hshort : ∀ n path, (n :: path).IsChain adj → (n :: path).Nodup → path.length < limit)
    (hconn : ∀ m ∈ nodes, ∀ n ∈ nodes, Relation.ReflTransGen adj m n) :
    (∀ n ∈ nodes, held n = none) ∨
      ∃ o ∈ nodes, ∃ stamp, held o = some ⟨stamp, []⟩ ∧
        ∀ n ∈ nodes, ∃ path, held n = some ⟨stamp, path⟩ ∧ origin n path = o ∧
          follow (nextHop held) path.length n = some o := by
  by_cases hnone : ∀ n ∈ nodes, held n = none
  · exact .inl hnone
  · refine .inr ?_
    push Not at hnone
    obtain ⟨m, hm, hsome⟩ := hnone
    obtain ⟨r, hr⟩ := Option.ne_none_iff_exists'.mp hsome
    have htraced := h.traced hm hr
    have hall : ∀ n ∈ nodes, ∃ path, held n = some ⟨r.stamp, path⟩ ∧ origin n path = origin m r.path ∧
        follow (nextHop held) path.length n = some (origin m r.path) := by
      intro n hn
      obtain ⟨⟨stamp, path⟩, hg, hstamp, horigin⟩ := h.same_of_joined hrank hshort (hconn m hm n hn) hr
      subst hstamp
      refine ⟨path, hg, horigin, ?_⟩
      rw [← horigin]
      exact (h.traced hn hg).leads
    exact ⟨origin m r.path, htraced.within, r.stamp, htraced.home, hall⟩

end Rest

end BrewServer.PathVector
