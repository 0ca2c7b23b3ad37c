import Mathlib.Data.List.Infix
import BrewServer.State
import BrewServer.Lib.SingleUse
import BrewServer.Lib.Transition

/-!
# Digest nonces and session tokens

A request of the discovery endpoint is let in with a nonce and is handed a
session token, a request of the session endpoint is let in with that token. Each
is looked up in one section of the lock and removed in a later one, and requests
run side by side.
-/

namespace BrewServer.Auth

open Protocol (ConnVersion)

structure AuthConfig where
  enabled : Bool
  realm : String
  users : FinMap String String
  sessionTtlSeconds : Nat

/-- What the discovery GET announced for the connection to come. -/
structure Session where
  issuedAt : Nat
  mode : ClientMode
  version : Option ConnVersion
  username : Option String

/-- A GET of the discovery endpoint. -/
structure Discovery where
  /-- Whether its `X-Brew-Version` is one this server implements, or absent. -/
  versionOk : Bool
  seedVersion : Option ConnVersion
  mode : ClientMode
  path : String
  /-- The parameters of its Digest `Authorization` header. -/
  digest : Option (FinMap String String)

/-- A request of a session URL. -/
structure Upgrade where
  token : String
  isUpgrade : Bool
  /-- Whether the federation headers and the WebSocket handshake are accepted. -/
  handshake : Bool

inductive Request
  | discovery (req : Discovery)
  | session (req : Upgrade)

/-- Where a running request stands: what it does in its next section of the lock. -/
inductive Task
  | discovering (req : Discovery)
  | verifying (req : Discovery)
  /-- Its response was right; its nonce is still to be removed. -/
  | matched (req : Discovery) (username nonce : String)
  /-- Authenticated; its token is still to be issued. -/
  | granted (req : Discovery) (username : String)
  /-- It is answered with a challenge. -/
  | refused
  | opening (req : Upgrade)
  | looking (req : Upgrade)
  /-- Its token was there and is still to be removed. -/
  | valid (req : Upgrade)

/-- The tables, the running requests and what they were let in with so far. -/
structure World where
  digestNonces : FinMap String Nat := ∅
  authSessions : FinMap String Session := ∅
  tasks : FinMap Nat Task := ∅
  /-- Every nonce and token handed out. -/
  issued : List String := []
  authenticated : List String := []
  admitted : List String := []

/-! ## The Digest response -/

def maxBrewUsernameDigits : Nat := 7

def isValidBrewUsername (username : String) : Bool :=
  !username.isEmpty && username.utf8ByteSize ≤ maxBrewUsernameDigits && username.toList.all Char.isDigit

structure Credentials where
  username : String
  password : String
  nonce : String

/-- What a Digest header is checked against, before its nonce is looked up. -/
def credentials (cfg : AuthConfig) (p : FinMap String String) : Option Credentials := do
  let username ← p["username"]?
  if isValidBrewUsername username then
    let password ← cfg.users[username]?
    let nonce ← p["nonce"]?
    return { username, password, nonce }
  else none

def join (parts : List String) : String := String.intercalate ":" parts

/-- The response a client that knows the password computes. -/
def expectedResponse (md5Hex : String → String) (method uri : String) (p : FinMap String String) (realm : String)
    (c : Credentials) : String :=
  let ha1 := md5Hex (join [c.username, realm, c.password])
  let ha2 := md5Hex (join [method, uri])
  let field (name : String) : String := (p[name]?).getD ""
  if "auth".toList <:+: (field "qop").toList then
    md5Hex (join [ha1, c.nonce, field "nc", field "cnonce", "auth", ha2])
  else md5Hex (join [ha1, c.nonce, ha2])

def eqIgnoreAsciiCase (a b : String) : Bool := a.toList.map Char.toLower == b.toList.map Char.toLower

/-- Whether realm, path and response are right. -/
def matchesDigest (md5Hex : String → String) (cfg : AuthConfig) (method path : String) (p : FinMap String String)
    (c : Credentials) : Bool :=
  let field (name : String) : String := (p[name]?).getD ""
  field "realm" == cfg.realm && field "uri" == path &&
    (p["response"]?).any fun received =>
      eqIgnoreAsciiCase (expectedResponse md5Hex method (field "uri") p (field "realm") c) received

/-! ## Sections of the lock -/

def nonceTtl : Nat := 120 * 10 ^ 9

namespace World

/-- `purge_ephemeral`, as far as it concerns these tables. -/
def purge (cfg : AuthConfig) (now : Nat) (w : World) : World :=
  { w with
    digestNonces := w.digestNonces.filter fun _ at_ => now - at_ < nonceTtl
    authSessions := w.authSessions.filter fun _ e => now - e.issuedAt < max cfg.sessionTtlSeconds 1 * 10 ^ 9 }

def become (w : World) (id : Nat) (task : Task) : World := { w with tasks := w.tasks.insert id task }

/-- The request is answered. -/
def finish (w : World) (id : Nat) : World := { w with tasks := w.tasks.erase id }

/-- The credentials of a request whose nonce is there and whose response is right. -/
def verified (md5Hex : String → String) (cfg : AuthConfig) (w : World) (req : Discovery) : Option Credentials := do
  let p ← req.digest
  let c ← credentials cfg p
  if c.nonce ∈ w.digestNonces ∧ matchesDigest md5Hex cfg "GET" req.path p c then return c else none

/-- Whether the session endpoint lets a request go on to its upgrade. -/
def validates (w : World) (req : Upgrade) : Bool := decide (req.token ∈ w.authSessions) && req.isUpgrade

/-- The next section of a request; `fresh` is the UUID it makes, if it makes one. -/
def lockSection (md5Hex : String → String) (cfg : AuthConfig) (w : World) (id now : Nat) (fresh : String) : Task → World
  | .discovering req =>
    -- Without `[auth]` the endpoint uses neither table.
    if !req.versionOk || !cfg.enabled then (w.purge cfg now).finish id
    else (w.purge cfg now).become id (.verifying req)
  | .verifying req =>
    match w.verified md5Hex cfg req with
    | some c => w.become id (.matched req c.username c.nonce)
    | none => w.become id .refused
  | .matched req username nonce =>
    { w.become id (.granted req username) with
      digestNonces := w.digestNonces.erase nonce
      authenticated := nonce :: w.authenticated }
  | .granted req username =>
    { w.finish id with
      authSessions := w.authSessions.insert fresh
        { issuedAt := now, mode := req.mode, version := req.seedVersion, username := some username }
      issued := fresh :: w.issued }
  | .refused =>
    { w.finish id with digestNonces := w.digestNonces.insert fresh now, issued := fresh :: w.issued }
  | .opening req =>
    if !cfg.enabled then (w.purge cfg now).finish id else (w.purge cfg now).become id (.looking req)
  | .looking req => if w.validates req then w.become id (.valid req) else w.finish id
  | .valid req =>
    -- The removal's own result is not looked at.
    { w.finish id with
      authSessions := w.authSessions.erase req.token
      admitted := if req.handshake then req.token :: w.admitted else w.admitted }

end World

inductive Turn
  | arrive (id : Nat) (req : Request)
  | run (id now : Nat) (fresh : String)
  /-- A packet of a connection purges too. -/
  | purge (now : Nat)

def Request.task : Request → Task
  | .discovery req => .discovering req
  | .session req => .opening req

def World.next (md5Hex : String → String) (cfg : AuthConfig) (w : World) : Turn → World
  | .arrive id req => w.become id req.task
  | .run id now fresh =>
    match w.tasks[id]? with
    | some task => w.lockSection md5Hex cfg id now fresh task
    | none => w
  | .purge now => w.purge cfg now

/-- A request is new, and so is each UUID that is made. -/
def Turn.Allowed (w : World) : Turn → Prop
  | .arrive id _ => id ∉ w.tasks
  | .run _ _ fresh => fresh ∉ w.issued
  | .purge _ => True

instance (w : World) (t : Turn) : Decidable (t.Allowed w) :=
  match t with
  | .arrive id _ => inferInstanceAs (Decidable (id ∉ w.tasks))
  | .run _ _ fresh => inferInstanceAs (Decidable (fresh ∉ w.issued))
  | .purge _ => isTrue trivial

/-- The nonce a request has been checked on and has not yet removed. -/
def Task.nonce? : Task → Option String
  | .matched _ _ nonce => some nonce
  | _ => none

/-- The token a request has been checked on and not yet removed, if it will get its
connection. -/
def Task.token? : Task → Option String
  | .valid req => if req.handshake then some req.token else none
  | _ => none

/-- What a request goes on to hold is held by no other request. -/
def World.Free (md5Hex : String → String) (cfg : AuthConfig) (w : World) : Task → Prop
  | .verifying req =>
    ∀ c ∈ w.verified md5Hex cfg req, ∀ e ∈ w.tasks.toList, e.2.nonce? ≠ some c.nonce
  | .looking req =>
    w.validates req = true → req.handshake = true → ∀ e ∈ w.tasks.toList, e.2.token? ≠ some req.token
  | _ => True

instance (md5Hex : String → String) (cfg : AuthConfig) (w : World) (task : Task) :
    Decidable (w.Free md5Hex cfg task) :=
  match task with
  | .verifying req =>
    @Option.decidableForallMem _ _ (fun c : Credentials =>
      @List.decidableBAll _ _ (fun e : Nat × Task => inferInstanceAs (Decidable (e.2.nonce? ≠ some c.nonce)))
        w.tasks.toList) (w.verified md5Hex cfg req)
  | .looking req =>
    have : Decidable (∀ e ∈ w.tasks.toList, e.2.token? ≠ some req.token) :=
      @List.decidableBAll _ _ (fun e : Nat × Task => inferInstanceAs (Decidable (e.2.token? ≠ some req.token)))
        w.tasks.toList
    inferInstanceAs (Decidable (w.validates req = true → req.handshake = true →
      ∀ e ∈ w.tasks.toList, e.2.token? ≠ some req.token))
  | .discovering _ | .matched .. | .granted .. | .refused | .opening _ | .valid _ => isTrue trivial

/-- No request passes its check on a nonce or a token while another one stands
between that check and the removal. -/
def Turn.Alone (md5Hex : String → String) (cfg : AuthConfig) (w : World) : Turn → Prop
  | .run id _ _ => ∀ task ∈ w.tasks[id]?, w.Free md5Hex cfg task
  | _ => True

instance (md5Hex : String → String) (cfg : AuthConfig) (w : World) (t : Turn) : Decidable (t.Alone md5Hex cfg w) :=
  match t with
  | .run id _ _ =>
    @Option.decidableForallMem _ _ (fun task : Task => inferInstanceAs (Decidable (w.Free md5Hex cfg task)))
      w.tasks[id]?
  | .arrive .. | .purge _ => isTrue trivial

/-! ## Each is used once -/

namespace World

variable {md5Hex : String → String} {cfg : AuthConfig} {w : World} {t : Turn} {id : Nat}

/-- The nonces, as keys that are used once. -/
def nonceKeys (w : World) : SingleUse Nat String where
  issued k := k ∈ w.issued
  present k := k ∈ w.digestNonces
  holds i k := ∃ task, w.tasks[i]? = some task ∧ task.nonce? = some k
  used := w.authenticated

/-- The tokens, as keys that are used once. -/
def tokenKeys (w : World) : SingleUse Nat String where
  issued k := k ∈ w.issued
  present k := k ∈ w.authSessions
  holds i k := ∃ task, w.tasks[i]? = some task ∧ task.token? = some k
  used := w.admitted

/-- What the requests hold once one of them has moved on. -/
theorem holds_become {f : Task → Option String} {task : Task} {i : Nat} {k : String}
    (h : ∃ t, (w.become id task).tasks[i]? = some t ∧ f t = some k) :
    (i = id ∧ f task = some k) ∨ (i ≠ id ∧ ∃ t, w.tasks[i]? = some t ∧ f t = some k) := by
  obtain ⟨t, ht, hk⟩ := h
  rw [become, FinMap.getElem?_insert] at ht
  split at ht
  · next hid =>
    obtain rfl : task = t := Option.some.inj ht
    exact .inl ⟨hid.symm, hk⟩
  · next hid => exact .inr ⟨Ne.symm hid, t, ht, hk⟩

theorem holds_finish {f : Task → Option String} {i : Nat} {k : String}
    (h : ∃ t, (w.finish id).tasks[i]? = some t ∧ f t = some k) :
    i ≠ id ∧ ∃ t, w.tasks[i]? = some t ∧ f t = some k := by
  obtain ⟨t, ht, hk⟩ := h
  rw [finish, FinMap.getElem?_erase] at ht
  split at ht
  · cases ht
  · next hid => exact ⟨Ne.symm hid, t, ht, hk⟩

theorem mem_of_filter {K V : Type} {cmp : K → K → Ordering} [Std.TransCmp cmp] [Std.LawfulEqCmp cmp]
    {m : Std.ExtTreeMap K V cmp} {p : K → V → Bool} {k : K} (h : k ∈ m.filter p) : k ∈ m := by
  obtain ⟨v, hv⟩ := FinMap.mem_iff.mp h
  exact FinMap.mem_of_getElem? (FinMap.getElem?_filter.mp hv).1

/-- A request that goes on and holds nothing. -/
theorem moves_become {task : Task} (hn : task.nonce? = none) (ht : task.token? = none) :
    w.nonceKeys.Moves (w.become id task).nonceKeys ∧ w.tokenKeys.Moves (w.become id task).tokenKeys := by
  constructor
  · refine .lose (fun _ => Iff.rfl) (fun _ h => h) (fun i k h => ?_) rfl
    rcases holds_become h with ⟨-, hk⟩ | ⟨-, h⟩
    · rw [hn] at hk
      cases hk
    · exact h
  · refine .lose (fun _ => Iff.rfl) (fun _ h => h) (fun i k h => ?_) rfl
    rcases holds_become h with ⟨-, hk⟩ | ⟨-, h⟩
    · rw [ht] at hk
      cases hk
    · exact h

theorem moves_finish :
    w.nonceKeys.Moves (w.finish id).nonceKeys ∧ w.tokenKeys.Moves (w.finish id).tokenKeys :=
  ⟨.lose (fun _ => Iff.rfl) (fun _ h => h) (fun _ _ h => (holds_finish h).2) rfl,
    .lose (fun _ => Iff.rfl) (fun _ h => h) (fun _ _ h => (holds_finish h).2) rfl⟩

theorem moves_purge (now : Nat) :
    w.nonceKeys.Moves (w.purge cfg now).nonceKeys ∧ w.tokenKeys.Moves (w.purge cfg now).tokenKeys :=
  ⟨.lose (fun _ => Iff.rfl) (fun _ h => mem_of_filter h) (fun _ _ h => h) rfl,
    .lose (fun _ => Iff.rfl) (fun _ h => mem_of_filter h) (fun _ _ h => h) rfl⟩

/-- Each table is good for one use of its keys. -/
def Sound (w : World) : Prop := w.nonceKeys.Sound ∧ w.tokenKeys.Sound

theorem Sound.moves {w' : World} (h : w.Sound)
    (hm : w.nonceKeys.Moves w'.nonceKeys ∧ w.tokenKeys.Moves w'.tokenKeys) : w'.Sound :=
  ⟨h.1.step hm.1, h.2.step hm.2⟩

theorem sound_empty : ({} : World).Sound := by
  have hnone (i : Nat) (f : Task → Option String) (k : String) :
      ¬ ∃ task, ({} : World).tasks[i]? = some task ∧ f task = some k := by
    rintro ⟨task, htask, -⟩
    rw [show ({} : World).tasks[i]? = none from Std.ExtTreeMap.getElem?_empty] at htask
    cases htask
  constructor
  · exact ⟨fun k hk => absurd hk Std.ExtTreeMap.not_mem_empty, fun i k hk => absurd hk (hnone i _ k),
      fun k hk => absurd hk List.not_mem_nil, fun i _ k hk => absurd hk (hnone i _ k),
      fun k hk => absurd hk List.not_mem_nil, List.nodup_nil⟩
  · exact ⟨fun k hk => absurd hk Std.ExtTreeMap.not_mem_empty, fun i k hk => absurd hk (hnone i _ k),
      fun k hk => absurd hk List.not_mem_nil, fun i _ k hk => absurd hk (hnone i _ k),
      fun k hk => absurd hk List.not_mem_nil, List.nodup_nil⟩

theorem verified_spec {req : Discovery} {c : Credentials} (h : w.verified md5Hex cfg req = some c) :
    c.nonce ∈ w.digestNonces := by
  simp only [verified, Option.bind_eq_bind, Option.bind_eq_some_iff] at h
  obtain ⟨p, -, c', -, h⟩ := h
  split at h
  · next hc =>
    obtain rfl : c' = c := by simpa using h
    exact hc.1
  · cases h

/-- Nobody holds a key that no task stands on. -/
theorem free_of_tasks {f : Task → Option String} {key : String} (h : ∀ e ∈ w.tasks.toList, f e.2 ≠ some key)
    (i : Nat) : ¬ ∃ task, w.tasks[i]? = some task ∧ f task = some key := by
  rintro ⟨task, htask, hkey⟩
  exact h (i, task) (FinMap.mem_toList.mpr htask) hkey

/-- The check of a nonce. -/
theorem moves_matched {req : Discovery} {c : Credentials} (h : w.verified md5Hex cfg req = some c)
    (hfree : ∀ e ∈ w.tasks.toList, e.2.nonce? ≠ some c.nonce) :
    let w' := w.become id (.matched req c.username c.nonce)
    w.nonceKeys.Moves w'.nonceKeys ∧ w.tokenKeys.Moves w'.tokenKeys := by
  constructor
  · refine .pass id c.nonce (verified_spec h) (free_of_tasks hfree) (fun _ => Iff.rfl) (fun _ h => h)
      (fun i k hk => ?_) rfl
    rcases holds_become hk with ⟨hi, hk⟩ | ⟨-, hk⟩
    · exact .inr ⟨hi, (Option.some.inj hk).symm⟩
    · exact .inl hk
  · refine .lose (fun _ => Iff.rfl) (fun _ h => h) (fun i k hk => ?_) rfl
    rcases holds_become hk with ⟨-, hk⟩ | ⟨-, hk⟩
    · cases hk
    · exact hk

/-- The check of a token. -/
theorem moves_valid {req : Upgrade} (h : w.validates req = true)
    (hfree : req.handshake = true → ∀ e ∈ w.tasks.toList, e.2.token? ≠ some req.token) :
    let w' := w.become id (.valid req)
    w.nonceKeys.Moves w'.nonceKeys ∧ w.tokenKeys.Moves w'.tokenKeys := by
  constructor
  · refine .lose (fun _ => Iff.rfl) (fun _ h => h) (fun i k hk => ?_) rfl
    rcases holds_become hk with ⟨-, hk⟩ | ⟨-, hk⟩
    · cases hk
    · exact hk
  · by_cases hs : req.handshake = true
    · have hthere : req.token ∈ w.authSessions := of_decide_eq_true (Bool.and_eq_true_iff.mp h).1
      refine .pass id req.token hthere (free_of_tasks (hfree hs)) (fun _ => Iff.rfl) (fun _ h => h)
        (fun i k hk => ?_) rfl
      rcases holds_become hk with ⟨hi, hk⟩ | ⟨-, hk⟩
      · rw [Task.token?, if_pos hs] at hk
        exact .inr ⟨hi, (Option.some.inj hk).symm⟩
      · exact .inl hk
    · exact (moves_become rfl (by rw [Task.token?, if_neg hs])).2

variable {now : Nat} {fresh : String}

/-- A nonce is removed and its request is authenticated. -/
theorem moves_granted {req : Discovery} {username nonce : String}
    (htask : w.tasks[id]? = some (.matched req username nonce)) :
    let w' := w.lockSection md5Hex cfg id now fresh (.matched req username nonce)
    w.nonceKeys.Moves w'.nonceKeys ∧ w.tokenKeys.Moves w'.tokenKeys := by
  constructor
  · refine .use id nonce ⟨_, htask, rfl⟩ (fun _ => Iff.rfl) (fun k hk => ?_) (fun i k hk => ?_) rfl
    · obtain ⟨hne, hk⟩ := FinMap.mem_erase.mp hk
      exact ⟨hk, hne.symm⟩
    · rcases holds_become hk with ⟨-, hk⟩ | ⟨hi, hk⟩
      · cases hk
      · exact ⟨hk, hi⟩
  · have hgranted : (Task.granted req username).nonce? = none ∧ (Task.granted req username).token? = none := ⟨rfl, rfl⟩
    exact (moves_become hgranted.1 hgranted.2).2

/-- A token is removed and its request is let in. -/
theorem moves_admitted {req : Upgrade} (htask : w.tasks[id]? = some (.valid req)) :
    let w' := w.lockSection md5Hex cfg id now fresh (.valid req)
    w.nonceKeys.Moves w'.nonceKeys ∧ w.tokenKeys.Moves w'.tokenKeys := by
  refine ⟨moves_finish.1, ?_⟩
  by_cases hs : req.handshake = true
  · refine .use id req.token ⟨_, htask, if_pos hs⟩ (fun _ => Iff.rfl) (fun k hk => ?_)
      (fun i k hk => ?_) (if_pos hs)
    · obtain ⟨hne, hk⟩ := FinMap.mem_erase.mp hk
      exact ⟨hk, hne.symm⟩
    · obtain ⟨hi, hk⟩ := holds_finish hk
      exact ⟨hk, hi⟩
  · exact .lose (fun _ => Iff.rfl) (fun _ hk => (FinMap.mem_erase.mp hk).2) (fun _ _ hk => (holds_finish hk).2)
      (if_neg hs)

/-- A token or a nonce is handed out. -/
theorem moves_issued (hfresh : fresh ∉ w.issued) {req : Discovery} {username : String} :
    let w' := w.lockSection md5Hex cfg id now fresh (.granted req username)
    w.nonceKeys.Moves w'.nonceKeys ∧ w.tokenKeys.Moves w'.tokenKeys := by
  have hissued (k : String) : k ∈ fresh :: w.issued ↔ k ∈ w.issued ∨ k = fresh := by
    rw [List.mem_cons, or_comm]
  constructor
  · exact .issue fresh hfresh hissued (fun _ hk => .inl hk) (fun _ _ hk => (holds_finish hk).2) rfl
  · exact .issue fresh hfresh hissued (fun _ hk => (FinMap.mem_insert.mp hk).symm.imp_right Eq.symm)
      (fun _ _ hk => (holds_finish hk).2) rfl

theorem moves_challenged (hfresh : fresh ∉ w.issued) :
    let w' := w.lockSection md5Hex cfg id now fresh .refused
    w.nonceKeys.Moves w'.nonceKeys ∧ w.tokenKeys.Moves w'.tokenKeys := by
  have hissued (k : String) : k ∈ fresh :: w.issued ↔ k ∈ w.issued ∨ k = fresh := by
    rw [List.mem_cons, or_comm]
  constructor
  · exact .issue fresh hfresh hissued (fun _ hk => (FinMap.mem_insert.mp hk).symm.imp_right Eq.symm)
      (fun _ _ hk => (holds_finish hk).2) rfl
  · exact .issue fresh hfresh hissued (fun _ hk => .inl hk) (fun _ _ hk => (holds_finish hk).2) rfl

/-- One section of the lock. -/
theorem Sound.lockSection {task : Task} (h : w.Sound) (htask : w.tasks[id]? = some task) (hfresh : fresh ∉ w.issued)
    (hfree : w.Free md5Hex cfg task) : (w.lockSection md5Hex cfg id now fresh task).Sound := by
  cases task with
  | discovering req =>
    rw [World.lockSection]
    split
    · exact (h.moves (moves_purge now)).moves moves_finish
    · exact (h.moves (moves_purge now)).moves (moves_become rfl rfl)
  | verifying req =>
    rw [World.lockSection]
    split
    · next c hc => exact h.moves (moves_matched hc (hfree c hc))
    · exact h.moves (moves_become rfl rfl)
  | matched req username nonce => exact h.moves (moves_granted htask)
  | granted req username => exact h.moves (moves_issued hfresh)
  | refused => exact h.moves (moves_challenged hfresh)
  | opening req =>
    rw [World.lockSection]
    split
    · exact (h.moves (moves_purge now)).moves moves_finish
    · exact (h.moves (moves_purge now)).moves (moves_become rfl rfl)
  | looking req =>
    rw [World.lockSection]
    split
    · next hv => exact h.moves (moves_valid hv (hfree hv))
    · exact h.moves moves_finish
  | valid req => exact h.moves (moves_admitted htask)

theorem Sound.next (h : w.Sound) (hallowed : t.Allowed w) (halone : t.Alone md5Hex cfg w) :
    (w.next md5Hex cfg t).Sound := by
  cases t with
  | arrive id req =>
    cases req with
    | discovery req => exact h.moves (moves_become rfl rfl)
    | session req => exact h.moves (moves_become rfl rfl)
  | run id now fresh =>
    rw [World.next]
    split
    · next task htask => exact h.lockSection htask hallowed (halone task htask)
    · exact h
  | purge now => exact h.moves (moves_purge now)

end World

/-- As long as no request passes its check on a nonce or token that another one
has passed and not removed yet, every nonce authenticates at most one request and
every token admits at most one connection. -/
theorem single_use_of_reach {md5Hex : String → String} {cfg : AuthConfig} {w : World}
    (h : Reach {} (fun w t => t.Allowed w ∧ t.Alone md5Hex cfg w) (World.next md5Hex cfg) w) :
    w.authenticated.Nodup ∧ w.admitted.Nodup := by
  have hsound : w.Sound := h.invariant World.sound_empty fun w t hw hok => hw.next hok.1 hok.2
  exact ⟨hsound.1.nodup, hsound.2.nodup⟩

/-- The sums of one login; nothing else is hashed in the runs below. -/
def loginSums (input : String) : String :=
  if input = "1234567:brew:secret" then "7d453c5d2b7e7581047b556c8d0cb9d8"
  else if input = "GET:/brew" then "beb6309f4b7d5ab2a33ecf5e89c4ad3f"
  else if input = "7d453c5d2b7e7581047b556c8d0cb9d8:n1:beb6309f4b7d5ab2a33ecf5e89c4ad3f" then
    "71f89534f7a025f38063218099058805"
  else "d41d8cd98f00b204e9800998ecf8427e"

def loginConfig : AuthConfig where
  enabled := true
  realm := "brew"
  users := (∅ : FinMap String String).insert "1234567" "secret"
  sessionTtlSeconds := 300

/-- One request is challenged, the next one answers and gets the token `t1`. -/
def login : List Turn :=
  let digest := [("username", "1234567"), ("realm", "brew"), ("nonce", "n1"), ("uri", "/brew"),
    ("response", "71f89534f7a025f38063218099058805")].foldl (fun m e => m.insert e.1 e.2) (∅ : FinMap String String)
  let request : Discovery :=
    { versionOk := true, seedVersion := none, mode := .basestation, path := "/brew", digest := none }
  [.arrive 0 (.discovery request), .run 0 0 "x", .run 0 0 "x", .run 0 0 "n1",
    .arrive 1 (.discovery { request with digest := some digest }),
    .run 1 1 "x", .run 1 1 "x", .run 1 1 "x", .run 1 1 "t1"]

def session (id : Nat) : List Turn :=
  [.arrive id (.session { token := "t1", isUpgrade := true, handshake := true }), .run id 2 "x"]

/-- A login and two upgrades one after the other: the second is refused. -/
theorem single_use_of_login :
    let es := login ++ session 2 ++ [.run 2 2 "x", .run 2 2 "x"] ++ session 3 ++ [.run 3 2 "x", .run 3 2 "x"]
    let w := es.foldl (World.next loginSums loginConfig) {}
    w.authenticated = ["n1"] ∧ w.admitted = ["t1"] ∧ w.authenticated.Nodup ∧ w.admitted.Nodup :=
  ⟨by decide +kernel, by decide +kernel, single_use_of_reach (.of_list _ .init (by decide +kernel))⟩

/-- Two upgrades of one session URL side by side. -/
theorem token_admitted_twice :
    ¬ ∀ w, Reach {} (fun w t => t.Allowed w) (World.next loginSums loginConfig) w →
      w.authenticated.Nodup ∧ w.admitted.Nodup := by
  intro h
  have hrun : Reach {} (fun w t => Turn.Allowed w t) (World.next loginSums loginConfig) _ :=
    .of_list (login ++ session 2 ++ session 3 ++ [.run 2 2 "x", .run 3 2 "x", .run 2 2 "x", .run 3 2 "x"]) .init
      (by decide +kernel)
  have hnodup := (h _ hrun).2
  revert hnodup
  decide +kernel

end BrewServer.Auth
