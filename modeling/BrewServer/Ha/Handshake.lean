import BrewServer.Ha.Election
import BrewServer.Ha.Serve
import BrewServer.Lib.Transition

/-!
# The replication handshake

A node dials with a nonce, the listener of a node answers with its own and a tag over both,
and the first answers with a tag over both in turn. The listener answers in any role, and
looks at its own only when it lets the other in; no tag names a node. The nodes share one
secret. Somebody between them may hold messages back, repeat them, change them, take them to
either node and open connections of his own; he cannot make a tag on a text that no node has
put one on.
-/

namespace BrewServer.Ha.Handshake

open Storage

/-! ## Tags -/

def macPrefix : Bytes := utf8Bytes "brew-ha-repl/"

def serverLabel : Bytes := utf8Bytes "server"

def clientLabel : Bytes := utf8Bytes "client"

/-- The text a tag is on. -/
def macText (label : Bytes) (a b : Nonce) : Bytes := macPrefix ++ label ++ a.1 ++ b.1

/-- `hmac` signs under the secret of the pair. -/
def mac (hmac : Bytes → Bytes) (label : Bytes) (a b : Nonce) : Bytes := hmac (macText label a b)

def verify (hmac : Bytes → Bytes) (label : Bytes) (a b : Nonce) (tag : Bytes) : Bool := tag == hmac (macText label a b)

theorem macText_inj {l l' : Bytes} {a b a' b' : Nonce} (hl : l.length = l'.length) (h : macText l a b = macText l' a' b') :
    l = l' ∧ a = a' ∧ b = b' := by
  have ha : a.1.length = a'.1.length := a.2.trans a'.2.symm
  unfold macText at h
  rw [List.append_assoc, List.append_assoc, List.append_assoc, List.append_assoc] at h
  obtain ⟨hlabel, hrest⟩ := List.append_inj (List.append_cancel_left h) hl
  obtain ⟨hfst, hsnd⟩ := List.append_inj hrest ha
  exact ⟨hlabel, Subtype.ext hfst, Subtype.ext hsnd⟩

theorem macText_server_ne_client (a b a' b' : Nonce) : macText serverLabel a b ≠ macText clientLabel a' b' :=
  fun h => absurd (macText_inj (by decide +kernel) h).1 (by decide +kernel)

/-! ## The two sides -/

/-- What the Standby asks for. -/
structure Ask where
  historyFrom : Option UInt64
  wantSms : Bool
  deriving DecidableEq

/-- Where a connection stands in `serve`. -/
inductive Serve
  | hello
  | auth (client server : Nonce) (ask : Ask)
  | serving (client server : Nonce) (ask : Ask)
  | ended
  deriving DecidableEq

/-- Where a connection stands in `pull`. -/
inductive Pull
  | challenge (client : Nonce)
  | pulling (client server : Nonce)
  | ended
  deriving DecidableEq

/-- A connection of a node. -/
abbrev Session := Side × ℕ

/-- A session that has seen both nonces. -/
structure Pairing where
  session : Session
  client : Nonce
  server : Nonce
  deriving DecidableEq

/-- The two nodes and their connections. The logs hold what every connection did. -/
structure World where
  role : Side → Role
  serves : PairMap Side ℕ Serve
  pulls : PairMap Side ℕ Pull
  nonces : List Nonce
  /-- The texts the nodes have put a tag on. -/
  signed : List Bytes
  challenged : List Pairing
  confirmed : List Pairing
  admitted : List Pairing

/-- A node changes its role, or a connection takes a step. What arrives is any message, or
none when reading fails. -/
inductive Event
  | role (n : Side) (role : Role)
  | accept (i : Session)
  | dial (j : Session) (nonce : Nonce)
  | serve (i : Session) (msg : Option Msg) (drawn : Nonce)
  | pull (j : Session) (msg : Option Msg)

section Steps

variable (hmac : Bytes → Bytes)

namespace World

def start : World :=
  { role := fun _ => .init, serves := ∅, pulls := ∅, nonces := [], signed := [], challenged := [], confirmed := [], admitted := [] }

/-- The listener's side of a connection. -/
def serve (w : World) (i : Session) (msg : Option Msg) (drawn : Nonce) : World :=
  match w.serves[i]?, msg with
  | some .hello, some (.hello _ nonce historyFrom wantSms) =>
    { w with
      serves := w.serves.insert i (.auth nonce drawn ⟨historyFrom, wantSms⟩)
      nonces := drawn :: w.nonces
      signed := macText serverLabel nonce drawn :: w.signed
      challenged := ⟨i, nonce, drawn⟩ :: w.challenged }
  | some (.auth client server ask), some (.auth tag) =>
    if verify hmac clientLabel server client tag ∧ w.role i.1 = .active then
      { w with serves := w.serves.insert i (.serving client server ask), admitted := ⟨i, client, server⟩ :: w.admitted }
    else { w with serves := w.serves.insert i .ended }
  | some (.serving _ _ _), _ => if w.role i.1 = .active then w else { w with serves := w.serves.insert i .ended }
  | some _, _ => { w with serves := w.serves.insert i .ended }
  | none, _ => w

/-- The messages a Standby goes on with once it pulls. -/
def streamed : Option Msg → Bool
  | some (.history _ _ _) | some (.sms _) | some .caughtUp | some .ping => true
  | _ => false

/-- The Standby's side of a connection. -/
def pull (w : World) (j : Session) (msg : Option Msg) : World :=
  match w.pulls[j]?, msg with
  | some (.challenge client), some (.challenge server tag) =>
    if verify hmac serverLabel client server tag then
      { w with
        pulls := w.pulls.insert j (.pulling client server)
        signed := macText clientLabel server client :: w.signed
        confirmed := ⟨j, client, server⟩ :: w.confirmed }
    else { w with pulls := w.pulls.insert j .ended }
  | some (.pulling _ _), msg =>
    if w.role j.1 = .standby ∧ streamed msg then w else { w with pulls := w.pulls.insert j .ended }
  | some _, _ => { w with pulls := w.pulls.insert j .ended }
  | none, _ => w

def next (w : World) : Event → World
  | .role n role => { w with role := Function.update w.role n role }
  | .accept i => { w with serves := w.serves.insert i .hello }
  | .dial j nonce => { w with pulls := w.pulls.insert j (.challenge nonce), nonces := nonce :: w.nonces }
  | .serve i msg drawn => w.serve hmac i msg drawn
  | .pull j msg => w.pull hmac j msg

/-- The text and the tag that a connection compares. -/
def compared (w : World) : Event → Option (Bytes × Bytes)
  | .serve i (some (.auth tag)) _ =>
    match w.serves[i]? with
    | some (.auth client server _) => some (macText clientLabel server client, tag)
    | _ => none
  | .pull j (some (.challenge server tag)) =>
    match w.pulls[j]? with
    | some (.challenge client) => some (macText serverLabel client server, tag)
    | _ => none
  | _ => none

def New (w : World) : Event → Prop
  | .role _ _ => True
  | .accept i => w.serves[i]? = none
  | .dial j nonce => w.pulls[j]? = none ∧ nonce ∉ w.nonces
  | .serve _ _ drawn => drawn ∉ w.nonces
  | .pull _ _ => True

/-- Connections and nonces are new, and no tag is forged. -/
def Allowed (w : World) (e : Event) : Prop := w.New e ∧ ∀ c ∈ w.compared e, c.2 = hmac c.1 → c.1 ∈ w.signed

instance (w : World) (e : Event) : Decidable (w.New e) :=
  match e with
  | .role _ _ => inferInstanceAs (Decidable True)
  | .accept i => inferInstanceAs (Decidable (w.serves[i]? = none))
  | .dial j nonce => inferInstanceAs (Decidable (w.pulls[j]? = none ∧ nonce ∉ w.nonces))
  | .serve _ _ drawn => inferInstanceAs (Decidable (drawn ∉ w.nonces))
  | .pull _ _ => inferInstanceAs (Decidable True)

instance (w : World) (e : Event) : Decidable (w.Allowed hmac e) :=
  inferInstanceAs (Decidable (w.New e ∧ ∀ c ∈ w.compared e, c.2 = hmac c.1 → c.1 ∈ w.signed))

end World

end Steps

/-! ## Agreement -/

def Pairing.Matches (p q : Pairing) : Prop := q.client = p.client ∧ q.server = p.server

/-- Every session of the first log has one partner in the second, and its partner no other. -/
def Partnered (ps qs : List Pairing) : Prop :=
  (∀ p ∈ ps, ∃! q, q ∈ qs ∧ p.Matches q) ∧
    ∀ p ∈ ps, ∀ p' ∈ ps, ∀ q ∈ qs, ∀ q' ∈ qs, p.Matches q → p'.Matches q' → q.session = q'.session → p = p'

namespace World

/-- Who is let in has been dialled by a node, and who is pulled from has answered to it. -/
structure Agreed (w : World) : Prop where
  admits : Partnered w.admitted w.confirmed
  confirms : Partnered w.confirmed w.challenged
  serving : ∀ (i : Session) client server ask,
    w.serves[i]? = some (.serving client server ask) → ⟨i, client, server⟩ ∈ w.admitted
  pulling : ∀ (j : Session) client server, w.pulls[j]? = some (.pulling client server) → ⟨j, client, server⟩ ∈ w.confirmed

/-- What the logs and the connections say of each other. -/
structure Sound (w : World) : Prop where
  signed : ∀ t ∈ w.signed, (∃ p ∈ w.challenged, t = macText serverLabel p.client p.server) ∨
    ∃ p ∈ w.confirmed, t = macText clientLabel p.server p.client
  challenged_alone : ∀ p ∈ w.challenged, ∀ q ∈ w.challenged, p.session = q.session ∨ p.server = q.server → p = q
  confirmed_alone : ∀ p ∈ w.confirmed, ∀ q ∈ w.confirmed, p.session = q.session ∨ p.client = q.client → p = q
  admitted_challenged : ∀ p ∈ w.admitted, p ∈ w.challenged
  admitted_confirmed : ∀ p ∈ w.admitted, ∃ q ∈ w.confirmed, p.Matches q
  confirmed_challenged : ∀ q ∈ w.confirmed, ∃ c ∈ w.challenged, q.Matches c
  challenged_drawn : ∀ p ∈ w.challenged, p.server ∈ w.nonces
  confirmed_drawn : ∀ p ∈ w.confirmed, p.client ∈ w.nonces
  waiting_drawn : ∀ (j : Session) client, w.pulls[j]? = some (.challenge client) → client ∈ w.nonces
  waiting_alone : ∀ (j j' : Session) client, w.pulls[j]? = some (.challenge client) → w.pulls[j']? = some (.challenge client) → j = j'
  waiting_open : ∀ (j : Session) client, w.pulls[j]? = some (.challenge client) →
    ∀ p ∈ w.confirmed, p.session ≠ j ∧ p.client ≠ client
  undialled : ∀ j : Session, w.pulls[j]? = none → ∀ p ∈ w.confirmed, p.session ≠ j
  unheard : ∀ i : Session, w.serves[i]? = none ∨ w.serves[i]? = some .hello → ∀ p ∈ w.challenged, p.session ≠ i
  challenge : ∀ (i : Session) client server ask, w.serves[i]? = some (.auth client server ask) → ⟨i, client, server⟩ ∈ w.challenged
  serving : ∀ (i : Session) client server ask, w.serves[i]? = some (.serving client server ask) → ⟨i, client, server⟩ ∈ w.admitted
  pulling : ∀ (j : Session) client server, w.pulls[j]? = some (.pulling client server) → ⟨j, client, server⟩ ∈ w.confirmed

variable {hmac : Bytes → Bytes} {w : World}

theorem sound_start : start.Sound where
  signed t ht := absurd ht List.not_mem_nil
  challenged_alone p hp := absurd hp List.not_mem_nil
  confirmed_alone p hp := absurd hp List.not_mem_nil
  admitted_challenged p hp := absurd hp List.not_mem_nil
  admitted_confirmed p hp := absurd hp List.not_mem_nil
  confirmed_challenged p hp := absurd hp List.not_mem_nil
  challenged_drawn p hp := absurd hp List.not_mem_nil
  confirmed_drawn p hp := absurd hp List.not_mem_nil
  waiting_drawn j client h := by simp [start] at h
  waiting_alone j j' client h := by simp [start] at h
  waiting_open j client h := by simp [start] at h
  undialled j _ p hp := absurd hp List.not_mem_nil
  unheard i _ p hp := absurd hp List.not_mem_nil
  challenge i client server ask h := by simp [start] at h
  serving i client server ask h := by simp [start] at h
  pulling j client server h := by simp [start] at h

/-- The role of a node is on no connection. -/
theorem Sound.changeRole (h : w.Sound) (role : Side → Role) : Sound { w with role } :=
  { h with }

/-- The listener takes a connection. -/
theorem Sound.accept (h : w.Sound) {i : Session} (hi : w.serves[i]? = none) : Sound { w with serves := w.serves.insert i .hello } where
  signed := h.signed
  challenged_alone := h.challenged_alone
  confirmed_alone := h.confirmed_alone
  admitted_challenged := h.admitted_challenged
  admitted_confirmed := h.admitted_confirmed
  confirmed_challenged := h.confirmed_challenged
  challenged_drawn := h.challenged_drawn
  confirmed_drawn := h.confirmed_drawn
  waiting_drawn := h.waiting_drawn
  waiting_alone := h.waiting_alone
  waiting_open := h.waiting_open
  undialled := h.undialled
  pulling := h.pulling
  unheard k hk := by
    rw [FinMap.getElem?_insert] at hk
    by_cases hki : i = k
    · exact hki ▸ h.unheard i (.inl hi)
    · rw [if_neg hki] at hk
      exact h.unheard k hk
  challenge k client server ask hk := h.challenge k client server ask (FinMap.getElem?_of_insert hk nofun)
  serving k client server ask hk := h.serving k client server ask (FinMap.getElem?_of_insert hk nofun)

/-- A connection of a listener ends. -/
theorem Sound.serveEnded (h : w.Sound) {i : Session} : Sound { w with serves := w.serves.insert i .ended } where
  signed := h.signed
  challenged_alone := h.challenged_alone
  confirmed_alone := h.confirmed_alone
  admitted_challenged := h.admitted_challenged
  admitted_confirmed := h.admitted_confirmed
  confirmed_challenged := h.confirmed_challenged
  challenged_drawn := h.challenged_drawn
  confirmed_drawn := h.confirmed_drawn
  waiting_drawn := h.waiting_drawn
  waiting_alone := h.waiting_alone
  waiting_open := h.waiting_open
  undialled := h.undialled
  pulling := h.pulling
  unheard k hk := by
    rw [FinMap.getElem?_insert] at hk
    split at hk
    · simp at hk
    · exact h.unheard k hk
  challenge k client server ask hk := h.challenge k client server ask (FinMap.getElem?_of_insert hk nofun)
  serving k client server ask hk := h.serving k client server ask (FinMap.getElem?_of_insert hk nofun)

/-- A connection that was dialled ends. -/
theorem Sound.pullEnded (h : w.Sound) {j : Session} : Sound { w with pulls := w.pulls.insert j .ended } where
  signed := h.signed
  challenged_alone := h.challenged_alone
  confirmed_alone := h.confirmed_alone
  admitted_challenged := h.admitted_challenged
  admitted_confirmed := h.admitted_confirmed
  confirmed_challenged := h.confirmed_challenged
  challenged_drawn := h.challenged_drawn
  confirmed_drawn := h.confirmed_drawn
  unheard := h.unheard
  challenge := h.challenge
  serving := h.serving
  waiting_drawn k client hk := h.waiting_drawn k client (FinMap.getElem?_of_insert hk nofun)
  waiting_alone k k' client hk hk' :=
    h.waiting_alone k k' client (FinMap.getElem?_of_insert hk nofun) (FinMap.getElem?_of_insert hk' nofun)
  waiting_open k client hk := h.waiting_open k client (FinMap.getElem?_of_insert hk nofun)
  undialled k hk := h.undialled k (FinMap.getElem?_of_insert_eq_none hk)
  pulling k client server hk := h.pulling k client server (FinMap.getElem?_of_insert hk nofun)

/-- A node dials with a new nonce. -/
theorem Sound.dial (h : w.Sound) {j : Session} {nonce : Nonce} (hj : w.pulls[j]? = none) (hnew : nonce ∉ w.nonces) :
    Sound { w with pulls := w.pulls.insert j (.challenge nonce), nonces := nonce :: w.nonces } where
  signed := h.signed
  challenged_alone := h.challenged_alone
  confirmed_alone := h.confirmed_alone
  admitted_challenged := h.admitted_challenged
  admitted_confirmed := h.admitted_confirmed
  confirmed_challenged := h.confirmed_challenged
  unheard := h.unheard
  challenge := h.challenge
  serving := h.serving
  challenged_drawn p hp := List.mem_cons_of_mem _ (h.challenged_drawn p hp)
  confirmed_drawn p hp := List.mem_cons_of_mem _ (h.confirmed_drawn p hp)
  waiting_drawn k client hk := by
    rw [FinMap.getElem?_insert] at hk
    split at hk
    · cases hk
      exact List.mem_cons_self
    · exact List.mem_cons_of_mem _ (h.waiting_drawn k client hk)
  waiting_alone k k' client hk hk' := by
    -- Nobody else waits with a nonce that is new.
    have hold : ∀ m : Session, w.pulls[m]? = some (.challenge nonce) → False := fun m hm => hnew (h.waiting_drawn m nonce hm)
    rw [FinMap.getElem?_insert] at hk hk'
    split at hk
    · cases hk
      split at hk'
      · rename_i hjk hjk'
        exact hjk.symm.trans hjk'
      · exact (hold k' hk').elim
    · split at hk'
      · cases hk'
        exact (hold k hk).elim
      · exact h.waiting_alone k k' client hk hk'
  waiting_open k client hk := by
    rw [FinMap.getElem?_insert] at hk
    split at hk
    · rename_i hjk
      cases hk
      subst hjk
      exact fun p hp => ⟨h.undialled j hj p hp, fun heq => hnew (heq ▸ h.confirmed_drawn p hp)⟩
    · exact h.waiting_open k client hk
  undialled k hk := h.undialled k (FinMap.getElem?_of_insert_eq_none hk)
  pulling k client server hk := h.pulling k client server (FinMap.getElem?_of_insert hk nofun)

/-- A listener answers a Hello with a challenge. -/
theorem Sound.answer (h : w.Sound) {i : Session} {nonce drawn : Nonce} {ask : Ask} (hi : w.serves[i]? = some .hello)
    (hnew : drawn ∉ w.nonces) :
    Sound { w with
      serves := w.serves.insert i (.auth nonce drawn ask)
      nonces := drawn :: w.nonces
      signed := macText serverLabel nonce drawn :: w.signed
      challenged := ⟨i, nonce, drawn⟩ :: w.challenged } where
  confirmed_alone := h.confirmed_alone
  admitted_confirmed := h.admitted_confirmed
  waiting_alone := h.waiting_alone
  waiting_open := h.waiting_open
  undialled := h.undialled
  pulling := h.pulling
  signed t ht := by
    rcases List.mem_cons.mp ht with rfl | ht
    · exact .inl ⟨_, List.mem_cons_self, rfl⟩
    · refine (h.signed t ht).imp ?_ id
      rintro ⟨p, hp, rfl⟩
      exact ⟨p, List.mem_cons_of_mem _ hp, rfl⟩
  challenged_alone := by
    have hnone := h.unheard i (.inr hi)
    have hfresh : ∀ p ∈ w.challenged, ¬ (i = p.session ∨ drawn = p.server) := by
      rintro p hp (heq | heq)
      · exact hnone p hp heq.symm
      · exact hnew (heq ▸ h.challenged_drawn p hp)
    intro p hp q hq heq
    rcases List.mem_cons.mp hp with rfl | hp
    · rcases List.mem_cons.mp hq with rfl | hq
      · rfl
      · exact (hfresh q hq heq).elim
    · rcases List.mem_cons.mp hq with rfl | hq
      · exact (hfresh p hp (heq.imp Eq.symm Eq.symm)).elim
      · exact h.challenged_alone p hp q hq heq
  admitted_challenged p hp := List.mem_cons_of_mem _ (h.admitted_challenged p hp)
  confirmed_challenged q hq := by
    obtain ⟨c, hc, hm⟩ := h.confirmed_challenged q hq
    exact ⟨c, List.mem_cons_of_mem _ hc, hm⟩
  challenged_drawn p hp := by
    rcases List.mem_cons.mp hp with rfl | hp
    · exact List.mem_cons_self
    · exact List.mem_cons_of_mem _ (h.challenged_drawn p hp)
  confirmed_drawn p hp := List.mem_cons_of_mem _ (h.confirmed_drawn p hp)
  waiting_drawn j client hj := List.mem_cons_of_mem _ (h.waiting_drawn j client hj)
  unheard k hk p hp := by
    rw [FinMap.getElem?_insert] at hk
    split at hk
    · simp at hk
    · rename_i hne
      rcases List.mem_cons.mp hp with rfl | hp
      · exact hne
      · exact h.unheard k hk p hp
  challenge k client server ask' hk := by
    rw [FinMap.getElem?_insert] at hk
    split at hk
    · rename_i hik
      cases hk
      subst hik
      exact List.mem_cons_self
    · exact List.mem_cons_of_mem _ (h.challenge k client server ask' hk)
  serving k client server ask' hk := h.serving k client server ask' (FinMap.getElem?_of_insert hk nofun)

/-- A tag on the text of a challenge is on a challenge that was sent. -/
theorem Sound.challenge_sent (h : w.Sound) {client server : Nonce} (ht : macText serverLabel client server ∈ w.signed) :
    ∃ c ∈ w.challenged, c.client = client ∧ c.server = server := by
  rcases h.signed _ ht with ⟨c, hc, heq⟩ | ⟨p, _, heq⟩
  · obtain ⟨_, ha, hb⟩ := macText_inj rfl heq
    exact ⟨c, hc, ha.symm, hb.symm⟩
  · exact (macText_server_ne_client _ _ _ _ heq).elim

/-- A tag on the text of an answer is on the answer of one who took the challenge. -/
theorem Sound.answer_sent (h : w.Sound) {client server : Nonce} (ht : macText clientLabel server client ∈ w.signed) :
    ∃ q ∈ w.confirmed, q.client = client ∧ q.server = server := by
  rcases h.signed _ ht with ⟨p, _, heq⟩ | ⟨q, hq, heq⟩
  · exact (macText_server_ne_client _ _ _ _ heq.symm).elim
  · obtain ⟨_, ha, hb⟩ := macText_inj rfl heq
    exact ⟨q, hq, hb.symm, ha.symm⟩

/-- A node takes a challenge. -/
theorem Sound.confirm (h : w.Sound) {j : Session} {client server : Nonce} (hj : w.pulls[j]? = some (.challenge client))
    (ht : macText serverLabel client server ∈ w.signed) :
    Sound { w with
      pulls := w.pulls.insert j (.pulling client server)
      signed := macText clientLabel server client :: w.signed
      confirmed := ⟨j, client, server⟩ :: w.confirmed } where
  challenged_alone := h.challenged_alone
  admitted_challenged := h.admitted_challenged
  challenged_drawn := h.challenged_drawn
  unheard := h.unheard
  challenge := h.challenge
  serving := h.serving
  signed t ht := by
    rcases List.mem_cons.mp ht with rfl | ht
    · exact .inr ⟨_, List.mem_cons_self, rfl⟩
    · refine (h.signed t ht).imp id ?_
      rintro ⟨p, hp, rfl⟩
      exact ⟨p, List.mem_cons_of_mem _ hp, rfl⟩
  confirmed_alone := by
    have hfresh : ∀ p ∈ w.confirmed, ¬ (j = p.session ∨ client = p.client) := by
      rintro p hp (heq | heq)
      · exact (h.waiting_open j client hj p hp).1 heq.symm
      · exact (h.waiting_open j client hj p hp).2 heq.symm
    intro p hp q hq heq
    rcases List.mem_cons.mp hp with rfl | hp
    · rcases List.mem_cons.mp hq with rfl | hq
      · rfl
      · exact (hfresh q hq heq).elim
    · rcases List.mem_cons.mp hq with rfl | hq
      · exact (hfresh p hp (heq.imp Eq.symm Eq.symm)).elim
      · exact h.confirmed_alone p hp q hq heq
  admitted_confirmed p hp := by
    obtain ⟨q, hq, hm⟩ := h.admitted_confirmed p hp
    exact ⟨q, List.mem_cons_of_mem _ hq, hm⟩
  confirmed_challenged q hq := by
    rcases List.mem_cons.mp hq with rfl | hq
    · exact h.challenge_sent ht
    · exact h.confirmed_challenged q hq
  confirmed_drawn p hp := by
    rcases List.mem_cons.mp hp with rfl | hp
    · exact h.waiting_drawn j client hj
    · exact h.confirmed_drawn p hp
  waiting_drawn k client' hk := h.waiting_drawn k client' (FinMap.getElem?_of_insert hk nofun)
  waiting_alone k k' client' hk hk' :=
    h.waiting_alone k k' client' (FinMap.getElem?_of_insert hk nofun) (FinMap.getElem?_of_insert hk' nofun)
  waiting_open k client' hk p hp := by
    rw [FinMap.getElem?_insert] at hk
    split at hk
    · cases hk
    · rename_i hne
      rcases List.mem_cons.mp hp with rfl | hp
      · exact ⟨hne, fun heq : client = client' => hne (h.waiting_alone j k client hj (by rw [heq]; exact hk))⟩
      · exact h.waiting_open k client' hk p hp
  undialled k hk p hp := by
    rw [FinMap.getElem?_insert] at hk
    split at hk
    · cases hk
    · rename_i hne
      rcases List.mem_cons.mp hp with rfl | hp
      · exact hne
      · exact h.undialled k hk p hp
  pulling k client' server' hk := by
    rw [FinMap.getElem?_insert] at hk
    split at hk
    · rename_i hjk
      cases hk
      subst hjk
      exact List.mem_cons_self
    · exact List.mem_cons_of_mem _ (h.pulling k client' server' hk)

/-- A listener lets the other in. -/
theorem Sound.admit (h : w.Sound) {i : Session} {client server : Nonce} {ask : Ask}
    (hi : w.serves[i]? = some (.auth client server ask)) (ht : macText clientLabel server client ∈ w.signed) :
    Sound { w with
      serves := w.serves.insert i (.serving client server ask)
      admitted := ⟨i, client, server⟩ :: w.admitted } where
  signed := h.signed
  challenged_alone := h.challenged_alone
  confirmed_alone := h.confirmed_alone
  confirmed_challenged := h.confirmed_challenged
  challenged_drawn := h.challenged_drawn
  confirmed_drawn := h.confirmed_drawn
  waiting_drawn := h.waiting_drawn
  waiting_alone := h.waiting_alone
  waiting_open := h.waiting_open
  undialled := h.undialled
  pulling := h.pulling
  admitted_challenged p hp := by
    rcases List.mem_cons.mp hp with rfl | hp
    · exact h.challenge i client server ask hi
    · exact h.admitted_challenged p hp
  admitted_confirmed p hp := by
    rcases List.mem_cons.mp hp with rfl | hp
    · exact h.answer_sent ht
    · exact h.admitted_confirmed p hp
  unheard k hk := by
    rw [FinMap.getElem?_insert] at hk
    split at hk
    · simp at hk
    · exact h.unheard k hk
  challenge k client' server' ask' hk := h.challenge k client' server' ask' (FinMap.getElem?_of_insert hk nofun)
  serving k client' server' ask' hk := by
    rw [FinMap.getElem?_insert] at hk
    split at hk
    · rename_i hik
      cases hk
      subst hik
      exact List.mem_cons_self
    · exact List.mem_cons_of_mem _ (h.serving k client' server' ask' hk)

/-- What a listener can do: challenge, let in, end or stay. -/
theorem Sound.serve (h : w.Sound) {i : Session} {msg : Option Msg} {drawn : Nonce}
    (hok : w.Allowed hmac (.serve i msg drawn)) : (w.serve hmac i msg drawn).Sound := by
  obtain ⟨hnew, hforge⟩ := hok
  unfold World.serve
  split
  · next nonce historyFrom wantSms hi => exact h.answer hi hnew
  · next client server ask tag hi =>
    split
    · next hv =>
      refine h.admit hi (hforge (macText clientLabel server client, tag) ?_ (beq_iff_eq.mp hv.1))
      simp only [compared, hi, Option.mem_def]
    · exact h.serveEnded
  · split
    · exact h
    · exact h.serveEnded
  · exact h.serveEnded
  · exact h

/-- What a node that dialled can do: take a challenge, end or stay. -/
theorem Sound.pull (h : w.Sound) {j : Session} {msg : Option Msg} (hok : w.Allowed hmac (.pull j msg)) :
    (w.pull hmac j msg).Sound := by
  have hforge := hok.2
  unfold World.pull
  split
  · next client server tag hj =>
    split
    · next hv =>
      refine h.confirm hj (hforge (macText serverLabel client server, tag) ?_ (beq_iff_eq.mp hv))
      simp only [compared, hj, Option.mem_def]
    · exact h.pullEnded
  · split
    · exact h
    · exact h.pullEnded
  · exact h.pullEnded
  · exact h

theorem Sound.next (h : w.Sound) {e : Event} (hok : w.Allowed hmac e) : (w.next hmac e).Sound := by
  cases e with
  | role n role => exact h.changeRole _
  | accept i => exact h.accept hok.1
  | dial j nonce => exact h.dial hok.1.1 hok.1.2
  | serve i msg drawn => exact h.serve hok
  | pull j msg => exact h.pull hok

/-- Only a node that is Active lets another in. -/
theorem active_of_admitted {e : Event} {p : Pairing} (h : p ∈ (w.next hmac e).admitted) :
    p ∈ w.admitted ∨ w.role p.session.1 = .active := by
  cases e with
  | role n role => exact .inl h
  | accept i => exact .inl h
  | dial j nonce => exact .inl h
  | serve i msg drawn =>
    unfold World.next World.serve at h
    dsimp only at h
    split at h
    · exact .inl h
    · split at h
      · next hv =>
        rcases List.mem_cons.mp h with rfl | h
        · exact .inr hv.2
        · exact .inl h
      · exact .inl h
    · split at h
      · exact .inl h
      · exact .inl h
    · exact .inl h
    · exact .inl h
  | pull j msg =>
    unfold World.next World.pull at h
    dsimp only at h
    split at h
    · split at h
      · exact .inl h
      · exact .inl h
    · split at h
      · exact .inl h
      · exact .inl h
    · exact .inl h
    · exact .inl h

/-- The logs pair off. -/
theorem Sound.agreed (h : w.Sound) : w.Agreed where
  serving := h.serving
  pulling := h.pulling
  admits := by
    refine ⟨fun p hp => ?_, fun p hp p' hp' q hq q' hq' hm hm' hs => ?_⟩
    · obtain ⟨q, hq, hm⟩ := h.admitted_confirmed p hp
      refine ⟨q, ⟨hq, hm⟩, fun q' hq' => ?_⟩
      exact h.confirmed_alone q' hq'.1 q hq (.inr (hq'.2.1.trans hm.1.symm))
    · have hqq : q = q' := h.confirmed_alone q hq q' hq' (.inl hs)
      subst hqq
      exact h.challenged_alone p (h.admitted_challenged p hp) p' (h.admitted_challenged p' hp')
        (.inr (hm.2.symm.trans hm'.2))
  confirms := by
    refine ⟨fun q hq => ?_, fun q hq q' hq' c hc c' hc' hm hm' hs => ?_⟩
    · obtain ⟨c, hc, hm⟩ := h.confirmed_challenged q hq
      refine ⟨c, ⟨hc, hm⟩, fun c' hc' => ?_⟩
      exact h.challenged_alone c' hc'.1 c hc (.inr (hc'.2.2.trans hm.2.symm))
    · have hcc : c = c' := h.challenged_alone c hc c' hc' (.inl hs)
      subst hcc
      exact h.confirmed_alone q hq q' hq' (.inr (hm.1.symm.trans hm'.1))

end World

/-- Whatever comes between the nodes, each connection that a node lets in belongs to one
connection that took its challenge, each that a node pulls over to one that sent the
challenge, and no two share a partner. A node is Active when it lets another in; a challenge
is sent in any role, and its partner may be a connection of the same node. -/
theorem agreed_of_reach (hmac : Bytes → Bytes) {w : World}
    (h : Reach World.start (World.Allowed hmac) (World.next hmac) w) :
    w.Agreed ∧ ∀ e, ∀ p ∈ (w.next hmac e).admitted, p ∈ w.admitted ∨ w.role p.session.1 = .active :=
  ⟨(h.invariant World.sound_start fun _ _ hs hok => hs.next hok).agreed, fun _ _ => World.active_of_admitted⟩

/-! A Hello is repeated to a second connection, and the answer to the first tried on it.
Another is taken back to the node it came from. -/

/-- Stands for the keyed hash of the pair: tells the texts of this run apart. -/
def tagOf (text : Bytes) : Bytes := text.reverse.take 32

def nonceOf (b : UInt8) : Nonce := ⟨List.replicate 16 b, List.length_replicate⟩

def west (nonce : Nonce) : Option Msg := some (.hello ⟨"west", by decide⟩ nonce (some 40) true)

def challengeOf (client server : Nonce) : Option Msg := some (.challenge server (mac tagOf serverLabel client server))

def answerOf (client server : Nonce) : Option Msg := some (.auth (mac tagOf clientLabel server client))

def repeatedHello : List Event :=
  [.role .a .active, .role .b .standby, .dial (.b, 0) (nonceOf 1), .accept (.a, 0), .accept (.a, 1),
    .serve (.a, 0) (west (nonceOf 1)) (nonceOf 2), .serve (.a, 1) (west (nonceOf 1)) (nonceOf 3),
    .pull (.b, 0) (challengeOf (nonceOf 1) (nonceOf 2)),
    .serve (.a, 1) (answerOf (nonceOf 1) (nonceOf 2)) (nonceOf 4),
    .serve (.a, 0) (answerOf (nonceOf 1) (nonceOf 2)) (nonceOf 5), .pull (.b, 0) (some .caughtUp)]

/-- Node b takes the challenge of its own listener, which lets nobody in while it is Standby. -/
def reflectedHello : List Event :=
  [.dial (.b, 1) (nonceOf 6), .accept (.b, 2), .serve (.b, 2) (west (nonceOf 6)) (nonceOf 7),
    .pull (.b, 1) (challengeOf (nonceOf 6) (nonceOf 7)),
    .serve (.b, 2) (answerOf (nonceOf 6) (nonceOf 7)) (nonceOf 8)]

def afterRepeat : World := (repeatedHello ++ reflectedHello).foldl (World.next tagOf) World.start

theorem agreed_after_repeat :
    (afterRepeat.admitted = [⟨(.a, 0), nonceOf 1, nonceOf 2⟩] ∧
      ⟨(.b, 1), nonceOf 6, nonceOf 7⟩ ∈ afterRepeat.confirmed ∧ ⟨(.b, 2), nonceOf 6, nonceOf 7⟩ ∈ afterRepeat.challenged) ∧
      afterRepeat.Agreed :=
  ⟨by decide +kernel, (agreed_of_reach tagOf (by
    unfold afterRepeat
    exact Reach.of_list (repeatedHello ++ reflectedHello) .init (by decide +kernel))).1⟩

end BrewServer.Ha.Handshake
