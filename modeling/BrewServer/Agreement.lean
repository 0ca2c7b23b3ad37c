import BrewServer.Federation
import BrewServer.Fedroute.Selection
import BrewServer.Lib.PathVector
import Mathlib.Data.List.Perm.Subperm

/-!
# Agreement at rest

Once no route and no withdrawal is on its way, the servers of a connected federation agree
on where an ISSI is registered, and following their next hops leads there. A federation at
rest is path-vector routing at rest, as `Lib.PathVector` has it.
-/

namespace BrewServer

open Protocol Fedroute Router

namespace Federation

/-- A link between two servers is up at both of its ends. -/
def Joined (W : Wiring) (f : Federation) (m n : UInt64) : Prop :=
  ∃ l k, W.far m l = some (n, k) ∧ l ∈ (f.server m).inner.fed.links ∧ k ∈ (f.server n).inner.fed.links

def Connected (W : Wiring) (f : Federation) : Prop :=
  ∀ m ∈ W.servers, ∀ n ∈ W.servers, Relation.ReflTransGen (f.Joined W) m n

/-- Every simple path is shorter than the longest an advert may have. -/
def Short (W : Wiring) (f : Federation) : Prop :=
  ∀ n path, (n :: path).IsChain (f.Joined W) → (n :: path).Nodup → path.length < maxPath

/-- No route and no withdrawal is on its way. -/
def Quiescent (f : Federation) : Prop :=
  ∀ n link, ∀ raw ∈ f.inFlight n link,
    raw.head? = some classFederation → raw[1]? ≠ some fedRoute ∧ raw[1]? ≠ some fedWithdraw

/-- The entry of `issi` at server `n` is a local registration of clock `reg`. -/
def Registered (f : Federation) (issi : UInt32) (n reg : UInt64) : Prop :=
  ∃ sub, (f.server n).inner.subscribers[issi]? = some sub ∧ sub.clientId ∉ (f.server n).inner.fed.links ∧
    sub.route.reg = reg

/-- The server at the far end of the link that the entry of `issi` leads over. -/
def nextHop (W : Wiring) (f : Federation) (issi : UInt32) (n : UInt64) : Option UInt64 :=
  ((f.server n).inner.subscribers[issi]?).bind fun sub => (W.far n sub.clientId).map Prod.fst

/-- No server has a route to `issi`, or every server has one to the server with the newest
local registration, where the next hops lead. -/
def Agreed (W : Wiring) (f : Federation) (issi : UInt32) : Prop :=
  (∀ n ∈ W.servers, (f.server n).inner.subscribers[issi]? = none) ∨
    ∃ o ∈ W.servers, ∃ reg, f.Registered issi o reg ∧
      (∀ n ∈ W.servers, ∀ reg', f.Registered issi n reg' → rank (reg', n) ≤ rank (reg, o)) ∧
      ∀ n ∈ W.servers, ∃ sub, (f.server n).inner.subscribers[issi]? = some sub ∧
        PathVector.origin n sub.route.path = o ∧ ∃ hops, PathVector.follow (f.nextHop W issi) hops n = some o

/-- The routes that the servers hold to `issi`. -/
def held (f : Federation) (issi : UInt32) (n : UInt64) : Option (PathVector.Route UInt64 UInt64) :=
  ((f.server n).inner.subscribers[issi]?).map fun sub => ⟨sub.route.reg, sub.route.path⟩

section Rest

variable {W : Wiring} {cfg : UInt64 → Config} {f : Federation} {issi : UInt32} {n m : UInt64} {l k : ClientId}

/-- With no route on its way, the offers of a link are what the far end's entries offer it. -/
theorem Sound.offer_eq (h : Sound W cfg f) (hquiet : f.Quiescent) (hfar : W.far m l = some (n, k))
    (hup : l ∈ (f.server m).inner.fed.links) :
    (f.server n).inner.offer issi k = offeredTo m l n ((f.server m).inner.subscribers[issi]?) := by
  have hlink : (f.server m).inner.fed.links[l]? = some n := (h.wired m).link hfar hup
  have hmirrored := (h.link m l n k hfar).mirrored hlink issi
  rw [(BrewServer.sound_of_reach (h.reach m)).selfId] at hmirrored
  have hkept : replay (fedEffect m) (fun issi => (f.server n).inner.offer issi k) (f.inFlight n k) issi =
      (f.server n).inner.offer issi k := by
    refine replay_of_ne fun raw hraw k' g he => ?_
    rw [fedEffect_of_other (hquiet n k raw hraw)] at he
    cases he
  rw [← hmirrored, hkept]

/-- What neighbours offer is what is stored. -/
theorem Sound.offered_iff (h : Sound W cfg f) (hquiet : f.Quiescent) (r : PathVector.Route UInt64 UInt64) :
    PathVector.Offered (f.Joined W) maxPath (f.held issi) n r ↔
      ∃ link a, (f.server n).inner.offer issi link = some a ∧ a.reg = r.stamp ∧ a.path = r.path := by
  constructor
  · rintro ⟨m, path, ⟨l, k, hfar, hl, hk⟩, hm, hnot, hshort, hpath⟩
    obtain ⟨e, he, hroute⟩ := Option.map_eq_some_iff.mp hm
    rw [PathVector.Route.mk.injEq] at hroute
    obtain ⟨hreg, rfl⟩ := hroute
    have hs := BrewServer.sound_of_reach (h.reach m)
    have hne : e.clientId ≠ l := by
      intro hel
      obtain ⟨-, hfrom, -⟩ := (hs.routed.entry issi e he).away n (by rw [hel, (h.wired m).link hfar hl])
      exact hnot (List.mem_of_head? hfrom.head)
    refine ⟨k, { reg := e.route.reg, path := m :: e.route.path, groups := sorted e.groups },
      (h.offer_eq hquiet hfar hl).trans ?_, hreg, hpath.symm⟩
    rw [he, offeredTo, Option.bind_some, if_pos ⟨hne, hnot, hshort⟩]
  · rintro ⟨k, a, ha, hreg, hpath⟩
    have hs := BrewServer.sound_of_reach (h.reach n)
    obtain ⟨m, hm, -⟩ := hs.routed.offer issi k a ha
    obtain ⟨l, hfar⟩ := (h.wired n).far k m hm
    have hfar' := W.far_far hfar
    have hup : l ∈ (f.server m).inner.fed.links := by
      by_contra hno
      rw [((h.link m l n k hfar').idle (Std.ExtTreeMap.getElem?_eq_none hno)).2] at ha
      cases ha
    rw [h.offer_eq hquiet hfar' hup] at ha
    obtain ⟨e, he, hoffer⟩ := Option.bind_eq_some_iff.mp ha
    split at hoffer
    · next hc =>
      cases hoffer
      refine ⟨m, e.route.path, ⟨l, k, hfar', hup, FinMap.mem_of_getElem? hm⟩, ?_, hc.2.1, hc.2.2, hpath.symm⟩
      rw [held, he, Option.map_some, ← hreg]
    · cases hoffer

/-- The key of an offer is its stamp and its origin. -/
theorem offerKey_eq {a : Advert} (hpath : a.path ≠ []) : offerKey a = some (a.reg, PathVector.origin n a.path) := by
  obtain ⟨origin, hlast, hkey⟩ := offerKey_of_ne_nil hpath
  rw [hkey, PathVector.origin, hlast, Option.getD_some]

theorem Sound.path_ne_nil (h : Sound W cfg f) {a : Advert} (ha : (f.server n).inner.offer issi l = some a) :
    a.path ≠ [] := by
  obtain ⟨m, -, hfrom, -⟩ := (BrewServer.sound_of_reach (h.reach n)).routed.offer issi l a ha
  exact List.ne_nil_of_length_pos hfrom.pos

/-- What bounds the keys of the offers stored bounds what neighbours offer. -/
theorem Sound.offered_le (h : Sound W cfg f) (hquiet : f.Quiescent) {key : UInt64 × UInt64}
    (hle : ∀ l a key', (f.server n).inner.offer issi l = some a → offerKey a = some key' → rank key' ≤ rank key)
    (o : PathVector.Route UInt64 UInt64) (ho : PathVector.Offered (f.Joined W) maxPath (f.held issi) n o) :
    rank (o.stamp, PathVector.origin n o.path) ≤ rank key := by
  obtain ⟨l, a, ha, hreg, hpath⟩ := (h.offered_iff hquiet o).mp ho
  rw [← hreg, ← hpath]
  exact hle l a _ ha (offerKey_eq (h.path_ne_nil ha))

/-- Where the clock has not run out, a server has chosen among the offers as they are. -/
theorem Sound.chooses (h : Sound W cfg f) (hquiet : f.Quiescent) (hclock : (f.server n).inner.fed.clock ≠ u64Max) :
    PathVector.Chooses (f.Joined W) maxPath rank (f.held issi) n (f.held issi n) := by
  have hs := BrewServer.sound_of_reach (h.reach n)
  have hselected : Selected (f.server n).inner issi := (settled_of_reach (h.reach n)).selected hclock issi
  have hselects : Selects (f.server n).inner.fed.selfId
      ((localEntry (f.server n).inner issi).map (·.route.reg)) (f.server n).inner.fed.links
      (fun l => (f.server n).inner.offer issi l) (choice (f.server n).inner issi) :=
    (selectFrom_eq_iff ((f.server n).inner.fed.ribIn[issi]?) (fun l a => h.path_ne_nil) (.refl _) _).mp rfl
  have hheld : f.held issi n = (chosen (f.server n).inner issi).map fun sub => ⟨sub.route.reg, sub.route.path⟩ := by
    rw [held, hselected]
  rw [hs.selfId] at hselects
  generalize hc : choice (f.server n).inner issi = c at hselects
  cases hselects with
  | «local» reg registered newest =>
    obtain ⟨sub, hsub, rfl⟩ := Option.map_eq_some_iff.mp registered
    have hentry : (f.server n).inner.subscribers[issi]? = some sub := by
      rw [hselected, chosen_of_local hc, hsub]
    have hhome : sub.clientId ∉ (f.server n).inner.fed.links := by
      intro hl
      rw [localEntry_of_away hentry hl] at hsub
      cases hsub
    rw [hheld, chosen_of_local hc, hsub, Option.map_some, (hs.routed.entry issi sub hentry).home hhome]
    exact .own _ (h.offered_le hquiet newest)
  | remote link a key newest newer offered origin nearest =>
    rw [hheld, chosen_of_remote hc, offered, Option.map_some, Option.map_some]
    obtain ⟨l, top, htop, hkey⟩ := newest.offered
    have hlast : key = (top.reg, PathVector.origin n top.path) :=
      Option.some.inj (hkey.symm.trans (offerKey_eq (h.path_ne_nil htop)))
    refine .taken _ ⟨top.reg, top.path⟩ ((h.offered_iff hquiet _).mpr ⟨link, a, offered, rfl, rfl⟩)
      ((h.offered_iff hquiet _).mpr ⟨l, top, htop, rfl, rfl⟩) ?_ ?_
    · rw [← hlast]
      exact h.offered_le hquiet newest.greatest
    · change PathVector.origin n a.path = PathVector.origin n top.path
      rw [PathVector.origin, origin, Option.getD_some, hlast]
  | unreachable unregistered none =>
    rw [hheld, chosen_of_unreachable hc]
    refine .unreachable fun o ho => ?_
    obtain ⟨l, a, ha, -⟩ := (h.offered_iff hquiet o).mp ho
    rw [none] at ha
    cases ha

theorem Sound.atRest (h : Sound W cfg f) (hquiet : f.Quiescent)
    (hclock : ∀ n ∈ W.servers, (f.server n).inner.fed.clock ≠ u64Max) :
    PathVector.AtRest {n | n ∈ W.servers} (f.Joined W) maxPath rank (f.held issi) where
  within := by
    rintro m n ⟨l, k, hfar, -⟩
    exact W.far_mem (W.far_far hfar)
  symm := by
    rintro m n ⟨l, k, hfar, hl, hk⟩
    exact ⟨k, l, W.far_far hfar, hk, hl⟩
  irrefl := by
    rintro n ⟨l, k, hfar, -⟩
    exact W.far_ne hfar rfl
  chooses n hn := h.chooses hquiet (hclock n hn)

/-- The link an entry leads over goes to the first server of its path. -/
theorem Sound.nextHop_eq (h : Sound W cfg f) : f.nextHop W issi = PathVector.nextHop (f.held issi) := by
  funext n
  have hs := BrewServer.sound_of_reach (h.reach n)
  rw [nextHop, PathVector.nextHop, held]
  cases hsub : (f.server n).inner.subscribers[issi]? with
  | none => rfl
  | some sub =>
    have hentry := hs.routed.entry issi sub hsub
    rw [Option.bind_some, Option.map_some, Option.bind_some]
    cases hl : (f.server n).inner.fed.links[sub.clientId]? with
    | some m =>
      obtain ⟨k, hfar⟩ := (h.wired n).far sub.clientId m hl
      rw [hfar, (hentry.away m hl).2.1.head]
      rfl
    | none =>
      have hhome : sub.clientId ∉ (f.server n).inner.fed.links := by
        intro hm
        obtain ⟨m, hm'⟩ := FinMap.mem_iff.mp hm
        rw [hl] at hm'
        cases hm'
      rw [hentry.home hhome]
      cases hfar : W.far n sub.clientId with
      | none => rfl
      | some e =>
        rw [(h.wired n).up sub.clientId e.2 e.1 hfar hentry.session] at hl
        cases hl

/-- A registration is a route that leads nowhere else. -/
theorem Sound.registered_iff (h : Sound W cfg f) {reg : UInt64} :
    f.Registered issi n reg ↔ f.held issi n = some ⟨reg, []⟩ := by
  have hs := BrewServer.sound_of_reach (h.reach n)
  constructor
  · rintro ⟨sub, hsub, hhome, rfl⟩
    rw [held, hsub, Option.map_some, (hs.routed.entry issi sub hsub).home hhome]
  · intro hheld
    obtain ⟨sub, hsub, hroute⟩ := Option.map_eq_some_iff.mp hheld
    rw [PathVector.Route.mk.injEq] at hroute
    refine ⟨sub, hsub, fun hl => ?_, hroute.1⟩
    obtain ⟨m, hm⟩ := FinMap.mem_iff.mp hl
    have hhead := ((hs.routed.entry issi sub hsub).away m hm).2.1.head
    rw [hroute.2] at hhead
    cases hhead

end Rest

/-- Once no route and no withdrawal is on its way in a connected federation whose clocks
are in step and have not run out, no server has a route to an ISSI, or every server's names
the one with the newest local registration, and the next hops lead there. -/
theorem agreement_of_reach {W : Wiring} {cfg : UInt64 → Config} {f : Federation}
    (h : Reach start (Allowed W) (next W cfg) f) (hconn : f.Connected W) (hshort : f.Short W)
    (hclock : ∀ n ∈ W.servers, (f.server n).inner.fed.clock ≠ u64Max) (hquiet : f.Quiescent) (issi : UInt32) :
    f.Agreed W issi := by
  have hs := sound_of_reach h
  have hrest : PathVector.AtRest {n | n ∈ W.servers} (f.Joined W) maxPath rank (f.held issi) := hs.atRest hquiet hclock
  rcases hrest.agreement rank_injective hshort hconn with hnone | ⟨o, ho, reg, hown, hall⟩
  · exact .inl fun n hn => Option.map_eq_none_iff.mp (hnone n hn)
  · refine .inr ⟨o, ho, reg, hs.registered_iff.mpr hown, fun n hn reg' hreg => ?_, fun n hn => ?_⟩
    · -- a server with a registration is the origin of its own route
      obtain ⟨path, hheld, horigin, -⟩ := hall n hn
      rw [hs.registered_iff.mp hreg, Option.some.injEq, PathVector.Route.mk.injEq] at hheld
      obtain ⟨rfl, rfl⟩ := hheld
      obtain rfl : n = o := horigin
      exact le_refl _
    · obtain ⟨path, hheld, horigin, hfollow⟩ := hall n hn
      obtain ⟨sub, hsub, hroute⟩ := Option.map_eq_some_iff.mp hheld
      rw [PathVector.Route.mk.injEq] at hroute
      refine ⟨sub, hsub, by rw [hroute.2, horigin], path.length, ?_⟩
      rw [hs.nextHop_eq]
      exact hfollow

theorem mem_servers_of_chain {W : Wiring} {f : Federation} {n m : UInt64} {path : List UInt64}
    (h : (n :: m :: path).IsChain (f.Joined W)) : ∀ k ∈ n :: m :: path, k ∈ W.servers := by
  induction path generalizing n m with
  | nil =>
    obtain ⟨⟨l, k, hfar, -⟩, -⟩ := List.isChain_cons_cons.mp h
    intro x hx
    rcases List.mem_cons.mp hx with rfl | hx
    · exact W.far_mem (W.far_far hfar)
    · rw [List.mem_singleton.mp hx]
      exact W.far_mem hfar
  | cons p path ih =>
    obtain ⟨⟨l, k, hfar, -⟩, hrest⟩ := List.isChain_cons_cons.mp h
    intro x hx
    rcases List.mem_cons.mp hx with rfl | hx
    · exact W.far_mem (W.far_far hfar)
    · exact ih hrest x hx

/-- In a federation no larger than the longest path, every simple path is short enough. -/
theorem short_of_length {W : Wiring} {f : Federation} (h : W.servers.length ≤ maxPath) : f.Short W := by
  intro n path hchain hnodup
  cases path with
  | nil => decide
  | cons m path =>
    have hlength : (n :: m :: path).length ≤ W.servers.length :=
      (hnodup.subperm fun k hk => mem_servers_of_chain hchain k hk).length_le
    rw [List.length_cons] at hlength
    exact Nat.lt_of_lt_of_le (Nat.lt_of_succ_le hlength) h

/-! ### Full meshes -/

/-- The connection to server `n`. -/
def linkTo (n : UInt64) : ClientId := BitVec.ofNat 128 n.toNat

theorem linkTo_injective : Function.Injective linkTo := by
  intro m n h
  have hval := congrArg BitVec.toNat h
  rw [linkTo, linkTo, BitVec.toNat_ofNat, BitVec.toNat_ofNat] at hval
  have hm := m.toNat_lt
  have hn := n.toNat_lt
  exact UInt64.toNat_inj.mp (by omega)

def meshFar (servers : List UInt64) (n : UInt64) (l : ClientId) : Option (UInt64 × ClientId) :=
  if n ∈ servers then (servers.find? fun m => decide (m ≠ n ∧ linkTo m = l)).map fun m => (m, linkTo n) else none

theorem meshFar_eq_some {servers : List UInt64} {n m : UInt64} {l k : ClientId} :
    meshFar servers n l = some (m, k) ↔ n ∈ servers ∧ m ∈ servers ∧ m ≠ n ∧ l = linkTo m ∧ k = linkTo n := by
  unfold meshFar
  constructor
  · intro h
    split at h
    · next hn =>
      obtain ⟨m', hm', heq⟩ := Option.map_eq_some_iff.mp h
      rw [Prod.mk.injEq] at heq
      obtain ⟨rfl, rfl⟩ := heq
      have hfound := List.find?_some hm'
      rw [decide_eq_true_eq] at hfound
      exact ⟨hn, List.mem_of_find?_eq_some hm', hfound.1, hfound.2.symm, rfl⟩
    · cases h
  · rintro ⟨hn, hm, hne, rfl, rfl⟩
    rw [if_pos hn]
    cases hfind : servers.find? fun m' => decide (m' ≠ n ∧ linkTo m' = linkTo m) with
    | none =>
      rw [List.find?_eq_none] at hfind
      exact absurd (decide_eq_true ⟨hne, rfl⟩) (hfind m hm)
    | some m' =>
      have hfound := List.find?_some hfind
      rw [decide_eq_true_eq] at hfound
      rw [Option.map_some, linkTo_injective hfound.2]

/-- Servers each linked to all the others. -/
def mesh (servers : List UInt64) : Wiring where
  servers := servers
  far := meshFar servers
  far_far h := by
    obtain ⟨hn, hm, hne, rfl, rfl⟩ := meshFar_eq_some.mp h
    exact meshFar_eq_some.mpr ⟨hm, hn, hne.symm, rfl, rfl⟩
  far_mem h := (meshFar_eq_some.mp h).2.1
  far_ne h := (meshFar_eq_some.mp h).2.2.1

section Mesh

variable {servers : List UInt64} {cfg : UInt64 → Config} {f : Federation}

/-- A mesh whose links are up is connected. -/
theorem connected_mesh (h : ∀ m ∈ servers, ∀ n ∈ servers, m ≠ n → linkTo n ∈ (f.server m).inner.fed.links) :
    f.Connected (mesh servers) := by
  intro m hm n hn
  by_cases hmn : m = n
  · rw [hmn]
  · refine .single ⟨linkTo n, linkTo m, meshFar_eq_some.mpr ⟨hm, hn, Ne.symm hmn, rfl, rfl⟩, h m hm n hn hmn, ?_⟩
    exact h n hn m hm (Ne.symm hmn)

theorem quiescent_mesh (h : Reach start (Allowed (mesh servers)) (next (mesh servers) cfg) f)
    (hempty : ∀ m ∈ servers, ∀ n ∈ servers, f.inFlight m (linkTo n) = []) : f.Quiescent := by
  intro n l raw hraw
  cases hfar : (mesh servers).far n l with
  | none =>
    rw [(sound_of_reach h).unlinked n l hfar] at hraw
    cases hraw
  | some e =>
    obtain ⟨hn, hm, -, rfl, -⟩ := meshFar_eq_some.mp hfar
    rw [hempty n hn e.1 hm] at hraw
    cases hraw

end Mesh

/-- The link from server `n` to server `m` comes up at `n`. -/
def linkUp (n m : UInt64) : Action := .event n (.connect (linkTo m) (.accepted .peer) (some m) false)

/-- A Basestation connects. -/
def basestation (n : UInt64) : Action := .event n (.connect 100 (.accepted .basestation) none false)

/-- ISSI 7 registers at server `n`, which reads the time `nowMs`. -/
def registers (n nowMs : UInt64) : Action :=
  .event n (.packet (.plain nowMs) 100 (buildSubscriberMessage subRegister 7 []))

/-- Messages arrive at the first server of each pair from the second. -/
def arrivals (nowMs : UInt64) (pairs : List (UInt64 × UInt64)) : List Action :=
  pairs.map fun p => .deliver p.1 (linkTo p.2) (.plain nowMs)

/-- ISSI 7 registers at server 5 of three and then at server 9. -/
def roaming : List Action :=
  [linkUp 5 9, linkUp 9 5, linkUp 5 12, linkUp 12 5, linkUp 9 12, linkUp 12 9, basestation 5, basestation 9,
    registers 5 1000] ++
  arrivals 1001 [(5, 9), (5, 12), (9, 5), (9, 5), (5, 9), (9, 12), (12, 5), (12, 5), (5, 12), (9, 12), (12, 9), (12, 9)] ++
  [registers 9 2000] ++ arrivals 2001 [(5, 9), (9, 5), (12, 5), (5, 12), (9, 12), (12, 9), (5, 12), (9, 12)]

def roamed : Federation := roaming.foldl (next (mesh [5, 9, 12]) fun _ => {}) start

theorem reach_roamed : Reach start (Allowed (mesh [5, 9, 12])) (next (mesh [5, 9, 12]) fun _ => {}) roamed :=
  Reach.of_list roaming .init (by decide +kernel)

theorem agreement_roamed : roamed.Agreed (mesh [5, 9, 12]) 7 :=
  agreement_of_reach reach_roamed (connected_mesh (by decide +kernel)) (short_of_length (by decide)) (by decide +kernel)
    (quiescent_mesh reach_roamed (by decide +kernel)) 7

/-- ISSI 7 registers at two servers whose clocks have run out. -/
def ending : List Action :=
  [linkUp 5 9, linkUp 9 5, basestation 5, basestation 9] ++ arrivals u64Max [(5, 9), (9, 5)] ++
  [registers 9 u64Max] ++ arrivals u64Max [(5, 9)] ++ [registers 5 u64Max] ++ arrivals u64Max [(9, 5), (9, 5)]

def ended : Federation := ending.foldl (next (mesh [5, 9]) fun _ => {}) start

/-- A registration at the largest clock is no newer than one already heard of: server 5
keeps its own, server 9 that with the greater id. -/
theorem no_agreement_ended :
    Reach start (Allowed (mesh [5, 9])) (next (mesh [5, 9]) fun _ => {}) ended ∧ ended.Connected (mesh [5, 9]) ∧
      ended.Short (mesh [5, 9]) ∧ ended.Quiescent ∧ ¬ ended.Agreed (mesh [5, 9]) 7 := by
  have hreach : Reach start (Allowed (mesh [5, 9])) (next (mesh [5, 9]) fun _ => {}) ended :=
    Reach.of_list ending .init (by decide +kernel)
  have hfive : (ended.held 7 5).map (·.path) = some [] := by decide +kernel
  have hnine : (ended.held 7 9).map (·.path) = some [] := by decide +kernel
  refine ⟨hreach, connected_mesh (by decide +kernel), short_of_length (by decide), quiescent_mesh hreach (by decide +kernel), ?_⟩
  have horigin : ∀ n o, (ended.held 7 n).map (·.path) = some [] →
      (∃ sub, (ended.server n).inner.subscribers[(7 : UInt32)]? = some sub ∧
        PathVector.origin n sub.route.path = o ∧
        ∃ hops, PathVector.follow (ended.nextHop (mesh [5, 9]) 7) hops n = some o) → n = o := by
    rintro n o hpath ⟨sub, hsub, horigin, -⟩
    rw [held, hsub, Option.map_some, Option.map_some, Option.some.injEq] at hpath
    change sub.route.path = [] at hpath
    rw [hpath] at horigin
    exact horigin
  rintro (hnone | ⟨o, -, reg, -, -, hall⟩)
  · rw [held, hnone 5 (by decide)] at hfive
    cases hfive
  · have hfirst : 5 = o := horigin 5 o hfive (hall 5 (by decide))
    have hsecond : 9 = o := horigin 9 o hnine (hall 9 (by decide))
    exact absurd (hfirst.trans hsecond.symm) (by decide)

end Federation

end BrewServer
