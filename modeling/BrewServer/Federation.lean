import BrewServer.LinkOffers

/-!
# A federation of loop-safe servers

Servers joined by loop-safe peer links. Each is the model's own and runs as a single
server does; what it queues to a link reaches the server at the far end, in order. Taking
in all that is on its way over a link would leave the far server with the offers that the
effective table makes that link now.
-/

namespace BrewServer

open Protocol Fedroute Router

/-- How peer links join the servers: `far n l` is the other end of the link that server
`n` calls `l`. -/
structure Wiring where
  servers : List UInt64
  far : UInt64 → ClientId → Option (UInt64 × ClientId)
  far_far : ∀ {n m : UInt64} {l k : ClientId}, far n l = some (m, k) → far m k = some (n, l)
  far_mem : ∀ {n m : UInt64} {l k : ClientId}, far n l = some (m, k) → m ∈ servers
  far_ne : ∀ {n m : UInt64} {l k : ClientId}, far n l = some (m, k) → m ≠ n

/-- A link of the federation comes up with the server at its far end, and stays up. -/
def Wiring.Admits (W : Wiring) (n : UInt64) : Event → Prop
  | .connect id _ neighbour _ => neighbour = (W.far n id).map Prod.fst
  | .disconnect id => W.far n id = none
  | _ => True

instance (W : Wiring) (n : UInt64) (ev : Event) : Decidable (W.Admits n ev) :=
  match ev with
  | .connect id _ neighbour _ => inferInstanceAs (Decidable (neighbour = (W.far n id).map Prod.fst))
  | .disconnect id => inferInstanceAs (Decidable (W.far n id = none))
  | .packet .. | .alarm _ | .sweep _ | .smsDeliver .. | .advertiseBts .. | .advertiseEmergency .. | .sipPrivate ..
  | .sipGroup .. | .sipEnd _ => isTrue trivial

/-- What comes over a link of the federation was sent by the server at its far end. -/
def Wiring.Local (W : Wiring) (n : UInt64) : Event → Prop
  | .packet _ source _ => W.far n source = none
  | _ => True

instance (W : Wiring) (n : UInt64) (ev : Event) : Decidable (W.Local n ev) :=
  match ev with
  | .packet _ source _ => inferInstanceAs (Decidable (W.far n source = none))
  | .connect .. | .disconnect _ | .alarm _ | .sweep _ | .smsDeliver .. | .advertiseBts .. | .advertiseEmergency ..
  | .sipPrivate .. | .sipGroup .. | .sipEnd _ => isTrue trivial

structure Federation where
  server : UInt64 → AppState
  /-- The messages on their way to an end of a link, the first to arrive first. -/
  inFlight : UInt64 → ClientId → List Bytes

namespace Federation

inductive Action
  /-- Anything that happens to a server but a message of a peer link. -/
  | event (n : UInt64) (ev : Event)
  /-- The first message on its way to a link of server `n` arrives. -/
  | deliver (n : UInt64) (link : ClientId) (env : Env)

def start : Federation := { server := AppState.start, inFlight := fun _ _ => [] }

/-- Server `n` handles an event, and what it queues to its links that are up is on its way. -/
def handle (W : Wiring) (cfg : UInt64 → Config) (f : Federation) (n : UInt64) (ev : Event) : Federation where
  server := Function.update f.server n ((f.server n).next (cfg n) ev)
  inFlight m k := f.inFlight m k ++
    match W.far m k with
    | some (n', l) =>
      if n' = n ∧ l ∈ ((f.server n).next (cfg n) ev).inner.fed.links then ((f.server n).sent (cfg n) ev).on l else []
    | none => []

/-- A message has arrived. -/
def taken (f : Federation) (n : UInt64) (link : ClientId) : Federation :=
  { f with inFlight := fun m k => if m = n ∧ k = link then (f.inFlight m k).tail else f.inFlight m k }

def next (W : Wiring) (cfg : UInt64 → Config) (f : Federation) : Action → Federation
  | .event n ev => f.handle W cfg n ev
  | .deliver n link env =>
    match f.inFlight n link with
    | [] => f
    | raw :: _ => (f.taken n link).handle W cfg n (.packet env link raw)

/-- What holds of every server is decided by looking at the servers, not at every id. -/
scoped instance (priority := 2000) decidableForallServers {servers : List UInt64} {p : UInt64 → Prop} [DecidablePred p] :
    Decidable (∀ n ∈ servers, p n) :=
  List.decidableBAll p servers

/-- No registration clock is over a day ahead of a clock that reads `nowMs`. -/
def InStep (W : Wiring) (f : Federation) (nowMs : UInt64) : Prop :=
  ∀ m ∈ W.servers, (f.server m).inner.fed.clock ≤ satAdd nowMs maxFutureMs

instance (W : Wiring) (f : Federation) (nowMs : UInt64) : Decidable (f.InStep W nowMs) :=
  inferInstanceAs (Decidable (∀ m ∈ W.servers, _))

def Allowed (W : Wiring) (f : Federation) : Action → Prop
  | .event n ev => n ∈ W.servers ∧ W.Admits n ev ∧ W.Local n ev ∧ ev.Allowed (f.server n)
  | .deliver n link env =>
    match f.inFlight n link with
    | [] => False
    | raw :: _ => f.InStep W env.nowMs ∧ (Event.packet env link raw).Allowed (f.server n)

instance (W : Wiring) (f : Federation) (action : Action) : Decidable (f.Allowed W action) := by
  cases action with
  | event n ev => exact inferInstanceAs (Decidable (_ ∧ _))
  | deliver n link env =>
    unfold Allowed
    dsimp only
    split <;> infer_instance

end Federation

section Link

variable {W : Wiring} {cfg : Config} {n m : UInt64} {l k : ClientId} {a b : AppState} {msgs : List Bytes} {ev : Event}

theorem links_disconnect {id : ClientId} (hb : Bridged a) (hok : (Event.disconnect id).Allowed a) :
    (a.next cfg (.disconnect id)).inner.fed.links[id]? = none := by
  obtain ⟨more, hran⟩ : ∃ more, Ran cfg a (.disconnect id) (cleanupClient a.inner id).inner
      (cleanupClient a.inner id).sends more := ran_routed hb hok trivial
  rw [hran.aside.table.links, (passive_cleanupClient a.inner id).routes.links, registers_dropRegistrations.links]
  exact FinMap.getElem?_erase.trans (if_pos rfl)

/-- The links of a server are those of the federation. -/
structure WiredTo (W : Wiring) (n : UInt64) (a : AppState) : Prop where
  far : ∀ (l : ClientId) (m : UInt64), a.inner.fed.links[l]? = some m → ∃ k, W.far n l = some (m, k)
  up : ∀ (l k : ClientId) (m : UInt64), W.far n l = some (m, k) → (a.inner.session l).isSome = true →
    a.inner.fed.links[l]? = some m

theorem WiredTo.link (h : WiredTo W n a) (hfar : W.far n l = some (m, k)) (hup : l ∈ a.inner.fed.links) :
    a.inner.fed.links[l]? = some m := by
  obtain ⟨m', hm'⟩ := FinMap.mem_iff.mp hup
  obtain ⟨k', hk'⟩ := h.far l m' hm'
  rw [hfar, Option.some.injEq, Prod.mk.injEq] at hk'
  rw [hm', hk'.1]

theorem WiredTo.next (h : WiredTo W n a) (hs : Sound n a) (hok : ev.Allowed a) (hadmits : W.Admits n ev) :
    WiredTo W n (a.next cfg ev) := by
  have hkept : ∀ l, (∀ client neighbour console, ev ≠ .connect l client neighbour console) → ev ≠ .disconnect l →
      (a.next cfg ev).inner.session l = a.inner.session l ∧
        (a.next cfg ev).inner.fed.links[l]? = a.inner.fed.links[l]? := fun l => sameLink_next hs.bridged hok
  have hopened : ∀ l client neighbour console, ev = .connect l client neighbour console →
      (a.next cfg ev).inner.fed.links[l]? = (W.far n l).map Prod.fst := by
    rintro l client neighbour console rfl
    rw [next_connect]
    change (openSession a.inner l client neighbour console).1.fed.links[l]? = _
    rw [openSession_links, if_pos rfl, links_of_not_mem hs.routed hok.1, Option.or_none]
    exact hadmits
  constructor
  · intro l m hl
    by_cases hopen : ∃ client neighbour console, ev = .connect l client neighbour console
    · obtain ⟨client, neighbour, console, hev⟩ := hopen
      rw [hopened l client neighbour console hev] at hl
      obtain ⟨⟨m', k⟩, hfar, rfl⟩ := Option.map_eq_some_iff.mp hl
      exact ⟨k, hfar⟩
    · by_cases hclose : ev = .disconnect l
      · subst hclose
        rw [links_disconnect hs.bridged hok] at hl
        cases hl
      · rw [(hkept l (fun client neighbour console he => hopen ⟨client, neighbour, console, he⟩) hclose).2] at hl
        exact h.far l m hl
  · intro l k m hfar hsession
    by_cases hopen : ∃ client neighbour console, ev = .connect l client neighbour console
    · obtain ⟨client, neighbour, console, hev⟩ := hopen
      rw [hopened l client neighbour console hev, hfar]
      rfl
    · have hclose : ev ≠ .disconnect l := by
        rintro rfl
        rw [show W.far n l = none from hadmits] at hfar
        cases hfar
      obtain ⟨hs', hl'⟩ := hkept l (fun client neighbour console he => hopen ⟨client, neighbour, console, he⟩) hclose
      rw [hs'] at hsession
      rw [hl']
      exact h.up l k m hfar hsession

/-- The server at a link's near end is in state `a`, the one at its far end in state `b`, and
`msgs` are on their way. -/
structure Coherent (n : UInt64) (l : ClientId) (m : UInt64) (k : ClientId) (a b : AppState) (msgs : List Bytes) : Prop where
  /-- Once all has arrived, the far server's offers are what the near one's entries offer. -/
  mirrored : a.inner.fed.links[l]? = some m →
    Mirrored a.inner l m (replay (fedEffect n) (fun issi => b.inner.offer issi k) msgs)
  idle : a.inner.fed.links[l]? = none → msgs = [] ∧ ∀ issi, b.inner.offer issi k = none
  carried : ∀ raw ∈ msgs, ∀ issi adv, raw.head? = some classFederation →
    parse raw n = some (.ok (.route issi adv)) → m ∉ adv.path ∧ adv.reg ≤ a.inner.fed.clock

/-- The near server handles an event. -/
theorem Coherent.sent (h : Coherent n l m k a b msgs) (hfar : W.far n l = some (m, k))
    (hr : Reach (AppState.start n) (fun a ev => ev.Allowed a) (AppState.next cfg) a) (hw : WiredTo W n a)
    (hok : ev.Allowed a) (hadmits : W.Admits n ev) :
    Coherent n l m k (a.next cfg ev) b
      (msgs ++ if l ∈ (a.next cfg ev).inner.fed.links then (a.sent cfg ev).on l else []) := by
  have hs := sound_of_reach hr
  have hwired : WiredTo W n (a.next cfg ev) := hw.next hs hok hadmits
  have hclock : a.inner.fed.clock ≤ (a.next cfg ev).inner.fed.clock := (stamps_next hs.bridged hs.routed hok).clock
  have hclose : ev ≠ .disconnect l := by
    rintro rfl
    rw [show W.far n l = none from hadmits] at hfar
    cases hfar
  have hold : ∀ raw ∈ msgs, ∀ issi adv, raw.head? = some classFederation →
      parse raw n = some (.ok (.route issi adv)) → m ∉ adv.path ∧ adv.reg ≤ (a.next cfg ev).inner.fed.clock := by
    intro raw hraw issi adv hfed hparse
    obtain ⟨hnot, hle⟩ := h.carried raw hraw issi adv hfed hparse
    exact ⟨hnot, UInt64.le_trans hle hclock⟩
  by_cases hup : l ∈ (a.next cfg ev).inner.fed.links
  · rw [if_pos hup]
    have hlink : (a.next cfg ev).inner.fed.links[l]? = some m := hwired.link hfar hup
    refine ⟨fun _ => ?_, fun hnone => ?_, fun raw hraw issi adv hfed hparse => ?_⟩
    · by_cases hopen : ∃ client neighbour console, ev = .connect l client neighbour console
      · obtain ⟨client, neighbour, console, rfl⟩ := hopen
        have hneighbour : neighbour = some m := by
          rw [show neighbour = (W.far n l).map Prod.fst from hadmits, hfar]
          rfl
        subst hneighbour
        obtain ⟨hmsgs, hoffers⟩ := h.idle (links_of_not_mem hs.routed hok.1)
        rw [hmsgs, List.nil_append, show (fun issi => b.inner.offer issi k) = fun _ => none from funext hoffers]
        exact (LinkUp.of_connect hr hok).mirrored
      · have hkept : (a.next cfg ev).inner.fed.links[l]? = a.inner.fed.links[l]? :=
          (sameLink_next hs.bridged hok (fun client neighbour console he => hopen ⟨client, neighbour, console, he⟩)
            hclose).2
        rw [hkept] at hlink
        rw [replay_append]
        exact ((h.mirrored hlink).next hs (quietHeld_of_reach hr) hlink hok hclose).2
    · rw [hlink] at hnone
      cases hnone
    · rcases List.mem_append.mp hraw with hraw | hraw
      · exact hold raw hraw issi adv hfed hparse
      · exact route_of_sent hr hok hlink hraw hfed hparse
  · rw [if_neg hup, List.append_nil]
    have hnone : (a.next cfg ev).inner.fed.links[l]? = none := Std.ExtTreeMap.getElem?_eq_none hup
    refine ⟨fun hlink => ?_, fun _ => h.idle ?_, hold⟩
    · rw [hnone] at hlink
      cases hlink
    · cases hl : a.inner.fed.links[l]? with
      | none => rfl
      | some m' =>
        have hsession : (a.inner.session l).isSome = true := by
          rw [(hs.routed.link l m' hl).1]
          rfl
        rw [(sameLink_next hs.bridged hok (ne_connect_of_session hok hsession) hclose).2, hl] at hnone
        cases hnone

/-- The far server handles an event of another connection. -/
theorem Coherent.apart (h : Coherent n l m k a b msgs) (hb : Bridged b) (hok : ev.Allowed b)
    (hother : ∀ env raw, ev ≠ .packet env k raw) (hclose : ev ≠ .disconnect k) :
    Coherent n l m k a (b.next cfg ev) msgs := by
  have hkept : (fun issi => (b.next cfg ev).inner.offer issi k) = fun issi => b.inner.offer issi k :=
    funext fun issi => offer_next hb hok hother hclose
  refine ⟨?_, fun hnone => ⟨(h.idle hnone).1, fun issi => ?_⟩, h.carried⟩
  · rw [hkept]
    exact h.mirrored
  · rw [offer_next hb hok hother hclose]
    exact (h.idle hnone).2 issi

/-- The first message arrives at the far server. -/
theorem Coherent.received {env : Env} {raw : Bytes} (h : Coherent n l m k a b (raw :: msgs)) (hb : Sound m b)
    (hup : b.inner.fed.links[k]? = some n) (hok : (Event.packet env k raw).Allowed b)
    (hclock : a.inner.fed.clock ≤ satAdd env.nowMs maxFutureMs) :
    Coherent n l m k a (b.next cfg (.packet env k raw)) msgs := by
  have hfits : ∀ issi adv, raw.head? = some classFederation → parse raw n = some (.ok (.route issi adv)) →
      b.inner.fed.selfId ∉ adv.path ∧ tooNew env.nowMs adv = false := by
    intro issi adv hfed hparse
    obtain ⟨hnot, hle⟩ := h.carried raw List.mem_cons_self issi adv hfed hparse
    rw [hb.selfId]
    refine ⟨hnot, decide_eq_false ?_⟩
    rw [UInt64.not_lt]
    exact UInt64.le_trans hle hclock
  refine ⟨fun hlink => ?_, fun hnone => ?_, fun raw' hraw => h.carried raw' (List.mem_cons_of_mem raw hraw)⟩
  · rw [offers_next hb.bridged hok hup hfits]
    exact h.mirrored hlink
  · exact absurd (h.idle hnone).1 (List.cons_ne_nil _ _)

end Link

namespace Federation

variable {W : Wiring} {cfg : UInt64 → Config} {f f' : Federation} {n : UInt64} {ev : Event}

/-- What holds of a federation in every state it reaches. -/
structure Sound (W : Wiring) (cfg : UInt64 → Config) (f : Federation) : Prop where
  reach : ∀ n, Reach (AppState.start n) (fun a ev => ev.Allowed a) (AppState.next (cfg n)) (f.server n)
  wired : ∀ n, WiredTo W n (f.server n)
  link : ∀ n l m k, W.far n l = some (m, k) → Coherent n l m k (f.server n) (f.server m) (f.inFlight m k)
  unlinked : ∀ n l, W.far n l = none → f.inFlight n l = []

theorem server_handle_self : (f.handle W cfg n ev).server n = (f.server n).next (cfg n) ev := Function.update_self ..

theorem server_handle_ne {m : UInt64} (h : m ≠ n) : (f.handle W cfg n ev).server m = f.server m :=
  Function.update_of_ne h ..

theorem inFlight_handle {m n' : UInt64} {k l : ClientId} (hfar : W.far m k = some (n', l)) :
    (f.handle W cfg n ev).inFlight m k = f.inFlight m k ++
      if n' = n ∧ l ∈ ((f.server n).next (cfg n) ev).inner.fed.links then ((f.server n).sent (cfg n) ev).on l
      else [] := by
  rw [handle]
  dsimp only
  rw [hfar]

/-- Server `n` handles an event, which leaves it in step with what the links still bring it. -/
theorem Sound.handle (h : Sound W cfg f) (hserver : f'.server = f.server)
    (hflight : ∀ m k, m ≠ n → f'.inFlight m k = f.inFlight m k) (hok : ev.Allowed (f.server n))
    (hadmits : W.Admits n ev)
    (harrived : ∀ k m l, W.far n k = some (m, l) →
      Coherent m l n k (f.server m) ((f.server n).next (cfg n) ev) (f'.inFlight n k))
    (hunlinked : ∀ k, W.far n k = none → f'.inFlight n k = []) : Sound W cfg (f'.handle W cfg n ev) := by
  have hself : (f'.handle W cfg n ev).server n = (f.server n).next (cfg n) ev := by rw [server_handle_self, hserver]
  have hother : ∀ m, m ≠ n → (f'.handle W cfg n ev).server m = f.server m := fun m hm => by
    rw [server_handle_ne hm, hserver]
  refine ⟨fun m => ?_, fun m => ?_, fun m l m' k hfar => ?_, fun m l hfar => ?_⟩
  · by_cases hm : m = n
    · subst hm
      rw [hself]
      exact .step (h.reach m) hok
    · rw [hother m hm]
      exact h.reach m
  · by_cases hm : m = n
    · subst hm
      rw [hself]
      exact (h.wired m).next (sound_of_reach (h.reach m)) hok hadmits
    · rw [hother m hm]
      exact h.wired m
  · rw [inFlight_handle (W.far_far hfar), hserver]
    by_cases hm : m = n
    · subst hm
      have hne : m' ≠ m := W.far_ne hfar
      rw [hself, hother m' hne, hflight m' k hne]
      have hsent := (h.link m l m' k hfar).sent hfar (h.reach m) (h.wired m) hok hadmits
      simp only [true_and]
      exact hsent
    · rw [if_neg fun hc => hm hc.1, List.append_nil, hother m hm]
      by_cases hm' : m' = n
      · subst hm'
        rw [hself]
        exact harrived k m l (W.far_far hfar)
      · rw [hother m' hm', hflight m' k hm']
        exact h.link m l m' k hfar
  · have hflight' : (f'.handle W cfg n ev).inFlight m l = f'.inFlight m l := by
      rw [Federation.handle]
      dsimp only
      rw [hfar, List.append_nil]
    rw [hflight']
    by_cases hm : m = n
    · subst hm
      exact hunlinked l hfar
    · rw [hflight m l hm]
      exact h.unlinked m l hfar

theorem Sound.event (h : Sound W cfg f) (hadmits : W.Admits n ev) (hlocal : W.Local n ev)
    (hok : ev.Allowed (f.server n)) : Sound W cfg (f.next W cfg (.event n ev)) := by
  refine h.handle rfl (fun _ _ _ => rfl) hok hadmits (fun k m l hfar => ?_) fun k hfar => h.unlinked n k hfar
  have hlink := h.link m l n k (W.far_far hfar)
  refine hlink.apart (sound_of_reach (h.reach n)).bridged hok ?_ ?_
  · rintro env raw rfl
    rw [show W.far n k = none from hlocal] at hfar
    cases hfar
  · rintro rfl
    rw [show W.far n k = none from hadmits] at hfar
    cases hfar

theorem taken_ne {m : UInt64} {k link : ClientId} (h : ¬ (m = n ∧ k = link)) :
    (f.taken n link).inFlight m k = f.inFlight m k := if_neg h

theorem Sound.deliver {link : ClientId} {env : Env} (h : Sound W cfg f) (hok : f.Allowed W (.deliver n link env)) :
    Sound W cfg (f.next W cfg (.deliver n link env)) := by
  unfold Federation.Allowed at hok
  unfold Federation.next
  dsimp only at hok ⊢
  split at hok
  · exact hok.elim
  · next raw rest hflight =>
    obtain ⟨hstep, hpacket⟩ := hok
    have hsound := sound_of_reach (h.reach n)
    refine h.handle rfl (fun m k hm => taken_ne fun hc => hm hc.1) hpacket trivial (fun k m l hfar => ?_) fun k hfar => ?_
    · have hlink := h.link m l n k (W.far_far hfar)
      by_cases hk : k = link
      · subst hk
        have htail : (f.taken n k).inFlight n k = rest := by
          rw [taken]
          dsimp only
          rw [if_pos ⟨rfl, rfl⟩, hflight, List.tail_cons]
        rw [hflight] at hlink
        rw [htail]
        exact hlink.received hsound ((h.wired n).up k l m hfar (WellRouted.session_of_allowed hpacket)) hpacket
          (hstep m (W.far_mem hfar))
      · rw [taken_ne fun hc => hk hc.2]
        refine hlink.apart hsound.bridged hpacket (fun env' raw' he => ?_) fun he => by cases he
        cases he
        exact hk rfl
    · have hne : k ≠ link := by
        rintro rfl
        rw [h.unlinked n k hfar] at hflight
        cases hflight
      rw [taken_ne fun hc => hne hc.2]
      exact h.unlinked n k hfar

theorem sound_start : Sound W cfg start := by
  have hlinks : ∀ (n : UInt64) (l : ClientId), (AppState.start n).inner.fed.links[l]? = none :=
    fun n l => Std.ExtTreeMap.getElem?_empty
  refine ⟨fun n => .init, fun n => ⟨fun l m hl => ?_, fun l k m hfar hsession => ?_⟩, fun n l m k hfar => ?_,
    fun n l _ => rfl⟩
  · change (AppState.start n).inner.fed.links[l]? = some m at hl
    rw [hlinks] at hl
    cases hl
  · change ((AppState.start n).inner.session l).isSome = true at hsession
    rw [session_of_not_mem Std.ExtTreeMap.not_mem_empty] at hsession
    cases hsession
  · refine ⟨fun hl => ?_, fun _ => ⟨rfl, fun issi => ?_⟩, fun raw hraw => absurd hraw List.not_mem_nil⟩
    · change (AppState.start n).inner.fed.links[l]? = some m at hl
      rw [hlinks] at hl
      cases hl
    · change ((∅ : FinMap UInt32 (FinMap ClientId Advert))[issi]?).bind _ = none
      rw [Std.ExtTreeMap.getElem?_empty]
      rfl

theorem sound_of_reach (h : Reach start (Allowed W) (next W cfg) f) : Sound W cfg f := by
  refine h.invariant sound_start fun f action hs hok => ?_
  cases action with
  | event n ev => exact hs.event hok.2.1 hok.2.2.1 hok.2.2.2
  | deliver n link env => exact hs.deliver hok

end Federation

end BrewServer
