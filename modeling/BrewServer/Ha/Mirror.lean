import BrewServer.Ha.Election
import BrewServer.Ha.Stream
import BrewServer.Lib.Transition
import BrewServer.Store.Replication

/-!
# Keeping the Standby's log

Either node may record, serve and pull, change its role, lose its connection and be
started anew, at any moment. The Standby takes the Active node's log over a connection
that delivers in order until it breaks, and goes on from the offset in its cursor file. A
record is written to a log whole or not at all: no write fails, and a process that ends does
so between two records.
-/

namespace BrewServer.Ha.Mirror

open Frames Storage Sms

/-- Where `serve` is in its loop. -/
inductive Phase
  | role
  | log
  | rest
  deriving DecidableEq

/-- A connection of a Standby to its peer. -/
structure Link where
  /-- The variables of `serve`. -/
  conn : Connection
  phase : Phase := .role
  sent : Bool := false
  serving : Bool := true
  /-- What has been sent and not been received. -/
  wire : List Msg := []
  /-- `pull` has seen that it is Standby, and waits for a message. -/
  waiting : Bool := false
  /-- The variable of `pull`. -/
  cursor : UInt64
  /-- What the log held when `serve` had read it all, before it said so. -/
  had : List StoredRecord := []

/-- The two nodes. A connection stands under the node that pulls. -/
structure World (B : Bincode) where
  role : Side → Role
  store : Side → Option Store
  queue : Side → SmsFile
  smsEnabled : Side → Bool
  revision : Side → UInt64
  /-- The cursor file. -/
  historyOffset : Side → UInt64
  synced : Side → Bool
  link : Side → Option Link
  /-- What each node put in its log itself. -/
  recorded : Side → List B.Stored
  /-- What each node was told that it has. -/
  vouched : Side → List StoredRecord

inductive Event (B : Bincode)
  | record (n : Side) (r : B.Stored)
  | role (n : Side) (role : Role)
  | queue (n : Side) (queue : SmsFile)
  | dial (n : Side)
  /-- A step of the peer's `serve`. -/
  | serve (n : Side) (pingDue : Bool)
  | serveEnd (n : Side)
  | check (n : Side)
  /-- The next message arrives; the cursor file may fail to be written. -/
  | receive (n : Side) (saved : Bool)
  | pullEnd (n : Side)
  /-- The process ends, also between two records of a batch, and starts again. -/
  | restart (n : Side) (taken : ℕ)

namespace World

variable {B : Bincode}

/-- The records of a node's log. -/
def logged (w : World B) (n : Side) : List StoredRecord :=
  match w.store n with
  | some s => Storage.replay B s.file
  | none => []

def active (w : World B) (n : Side) : Active :=
  { store := w.store n, sms := w.queue n, smsEnabled := w.smsEnabled n, revision := w.revision n }

def setLink (w : World B) (n : Side) (l : Option Link) : World B := { w with link := Function.update w.link n l }

def setStore (w : World B) (n : Side) (s : Store) : World B := { w with store := Function.update w.store n (some s) }

/-- `pull` returns, whichever way. -/
def hangUp (w : World B) (n : Side) : World B :=
  { w.setLink n none with synced := Function.update w.synced n false }

def record (w : World B) (n : Side) (r : B.Stored) : World B :=
  match w.store n with
  | some s =>
    { w.setStore n (s.append B r.1) with recorded := Function.update w.recorded n (w.recorded n ++ [r]) }
  | none => w

def dial (w : World B) (n : Side) : World B :=
  if w.role n = .standby ∧ w.role n.peer = .active ∧ (w.link n).isNone then
    w.setLink n (some
      { conn :=
          { wantSms := w.smsEnabled n
            offset := if (w.store n).isSome then some (w.historyOffset n).toNat else none }
        cursor := w.historyOffset n })
  else w

/-- One step of the loop of `serve` at `m`. -/
def stepServe (w : World B) (m : Side) (l : Link) (pingDue : Bool) : Link :=
  match l.phase with
  | .role => if w.role m = .active then { l with phase := .log, sent := false } else { l with serving := false }
  | .log =>
    match w.store m, l.conn.offset with
    | some s, some off =>
      let (start, frames, stop) := s.readFrames off historyChunk
      if frames = [] then
        { l with
          phase := .rest
          conn := { l.conn with offset := some stop }
          had := if l.conn.caughtUp then l.had else w.logged m }
      else
        { l with
          wire := l.wire ++ [.history (UInt64.ofNat start) (UInt64.ofNat stop) frames]
          conn := { l.conn with offset := some stop }
          sent := true }
    | _, _ => { l with phase := .rest }
  | .rest =>
    let (msgs, conn) := round { w.active m with store := none } l.conn (!l.sent && pingDue)
    { l with phase := .role, wire := l.wire ++ msgs, conn }

def serve (w : World B) (n : Side) (pingDue : Bool) : World B :=
  match w.link n with
  | some l => if l.serving then w.setLink n (some (w.stepServe n.peer l pingDue)) else w
  | none => w

def check (w : World B) (n : Side) : World B :=
  match w.link n with
  | some l =>
    if l.waiting then w
    else if w.role n = .standby then w.setLink n (some { l with waiting := true })
    else w.hangUp n
  | none => w

/-- What `pull` does with a message. -/
def handle (parse : Bytes → Option SmsFile) (w : World B) (n : Side) (l : Link) (saved : Bool) : Msg → World B
  | .history _ stop frames =>
    match w.store n with
    | some s =>
      { (w.setStore n (s.ingest B (splitFrames frames).1)).setLink n (some { l with cursor := stop }) with
        historyOffset := if saved then Function.update w.historyOffset n stop else w.historyOffset }
    | none => w.setLink n (some l)
  | .sms json =>
    match parse json with
    | some queue =>
      { w.setLink n (some l) with
        queue := Function.update w.queue n queue
        revision := Function.update w.revision n (w.revision n + 1) }
    | none => w.setLink n (some l)
  | .caughtUp =>
    { w.setLink n (some l) with
      synced := Function.update w.synced n true
      vouched := Function.update w.vouched n (w.vouched n ++ l.had) }
  | .ping => w.setLink n (some l)
  | _ => w.hangUp n

def receive (parse : Bytes → Option SmsFile) (w : World B) (n : Side) (saved : Bool) : World B :=
  match w.link n with
  | some l =>
    if l.waiting then
      match l.wire with
      | m :: ms =>
        if m.encode.length ≤ maxFrame then w.handle parse n { l with wire := ms, waiting := false } saved m
        else w.hangUp n
      | [] => w
    else w
  | none => w

/-- The bodies of the batch that is being taken. -/
def batch (w : World B) (n : Side) : List Bytes :=
  match w.link n with
  | some { waiting := true, wire := .history _ _ frames :: _, .. } => (splitFrames frames).1
  | _ => []

def restart (w : World B) (n : Side) (taken : ℕ) : World B :=
  { w.hangUp n with
    role := Function.update w.role n .init
    store := Function.update w.store n
      ((w.store n).map fun s => Store.open (s.ingest B ((w.batch n).take taken)).file)
    revision := Function.update w.revision n 1
    link := Function.update (Function.update w.link n none) n.peer
      ((w.link n.peer).map fun l => { l with serving := false }) }

def next (parse : Bytes → Option SmsFile) (w : World B) : Event B → World B
  | .record n r => w.record n r
  | .role n role => { w with role := Function.update w.role n role }
  | .queue n queue =>
    { w with
      queue := Function.update w.queue n queue
      revision := Function.update w.revision n (w.revision n + 1) }
  | .dial n => w.dial n
  | .serve n pingDue => w.serve n pingDue
  | .serveEnd n => w.setLink n ((w.link n).map fun l => { l with serving := false })
  | .check n => w.check n
  | .receive n saved => w.receive parse n saved
  | .pullEnd n => w.hangUp n
  | .restart n taken => w.restart n taken

/-- Offsets into the logs are 64 bits wide. -/
def Allowed (w : World B) (_ : Event B) : Prop := ∀ n, ∀ s ∈ w.store n, s.file.length < 2 ^ 64

instance (w : World B) (e : Event B) : Decidable (w.Allowed e) :=
  decidable_of_iff ((∀ s ∈ w.store .a, s.file.length < 2 ^ 64) ∧ ∀ s ∈ w.store .b, s.file.length < 2 ^ 64)
    ⟨fun h n => by cases n; exacts [h.1, h.2], fun h => ⟨h .a, h .b⟩⟩

/-- Two nodes with the logs they have. -/
def start (smsEnabled : Side → Bool) (logs : Side → Option (List B.Stored)) : World B :=
  { role := fun _ => .init
    store := fun n => (logs n).map fun rs => Store.open (log B rs)
    queue := fun _ => {}
    smsEnabled
    revision := fun _ => 1
    historyOffset := fun _ => 0
    synced := fun _ => false
    link := fun _ => none
    recorded := fun n => (logs n).getD []
    vouched := fun _ => [] }


/-! ## An undisturbed round -/

section Round

variable {w : World B} {m : Side} {s : Store} {bodies : List Bytes} {rest : Bytes} {off : ℕ}

/-- The log is read to its end, a batch a step. -/
theorem steps_histories (hs : w.store m = some s) (pingDue : Bool) (hb : Framable bodies) (hr : ¬ HasFrame rest) (fuel : ℕ)
    (hdrop : s.file.drop (startOf s off) = frames bodies ++ rest) (hfuel : bodies.length < fuel) (l : Link)
    (hphase : l.phase = .log) (hoff : l.conn.offset = some off) :
    ∃ k had, (fun l => w.stepServe m l pingDue)^[k] l =
      { l with
        phase := .rest
        wire := l.wire ++ (histories s fuel off).1
        conn := { l.conn with offset := some (histories s fuel off).2 }
        sent := l.sent || !(histories s fuel off).1.isEmpty
        had } := by
  induction fuel generalizing off bodies l with
  | zero => exact absurd hfuel (Nat.not_lt_zero _)
  | succ fuel ih =>
    obtain ⟨zs, ws, hsplit, hne, hread, -⟩ := readFrames_frames hb hr hdrop (show 4 ≤ historyChunk by decide)
    have hstep (l : Link) (hphase : l.phase = .log) (hoff : l.conn.offset = some off) : w.stepServe m l pingDue =
        if frames zs = [] then
          { l with
            phase := .rest
            conn := { l.conn with offset := some (startOf s off + (frames zs).length) }
            had := if l.conn.caughtUp then l.had else w.logged m }
        else
          { l with
            wire := l.wire ++ [.history (UInt64.ofNat (startOf s off))
              (UInt64.ofNat (startOf s off + (frames zs).length)) (frames zs)]
            conn := { l.conn with offset := some (startOf s off + (frames zs).length) }
            sent := true } := by
      unfold stepServe
      rw [hphase, hs, hoff]
      dsimp only
      rw [hread]
    rw [histories, hread]
    dsimp only
    by_cases hz : frames zs = []
    · refine ⟨1, if l.conn.caughtUp then l.had else w.logged m, ?_⟩
      rw [Function.iterate_one, hstep l hphase hoff, if_pos hz, if_pos hz, List.append_nil, List.isEmpty_nil,
        Bool.not_true, Bool.or_false]
    · obtain ⟨hstart, hrest⟩ := startOf_add hdrop hsplit
      have hpos : 0 < zs.length := List.length_pos_iff.mpr fun hc => hz (by rw [hc, frames_nil])
      have hws : Framable ws := fun b hbw => hb b (hsplit ▸ List.mem_append_right _ hbw)
      have hlen : ws.length < fuel := by
        rw [hsplit, List.length_append] at hfuel
        omega
      obtain ⟨k, had, hk⟩ := ih hws (by rw [hstart]; exact hrest) hlen (w.stepServe m l pingDue)
        (by rw [hstep l hphase hoff, if_neg hz]; exact hphase) (by rw [hstep l hphase hoff, if_neg hz])
      refine ⟨k + 1, had, ?_⟩
      rw [Function.iterate_succ_apply, hk, hstep l hphase hoff, if_neg hz, if_neg hz, List.append_assoc,
        List.singleton_append, List.isEmpty_cons, Bool.not_false, Bool.true_or, Bool.or_true]

/-- A round is what it sends of the log, and the rest. -/
theorem round_log (a : Active) (c : Connection) (pingDue : Bool) :
    round a c pingDue =
      ((sendLog a c).1 ++ (round { a with store := none } { c with offset := (sendLog a c).2 }
          ((sendLog a c).1.isEmpty && pingDue)).1,
        (round { a with store := none } { c with offset := (sendLog a c).2 } ((sendLog a c).1.isEmpty && pingDue)).2) := by
  obtain ⟨msgs, offset, hlog⟩ : ∃ msgs offset, sendLog a c = (msgs, offset) := ⟨_, _, rfl⟩
  have hnone : sendLog { a with store := none } { c with offset := offset } = ([], offset) := rfl
  have hdue : smsDue { a with store := none } { c with offset := offset } = smsDue a c := rfl
  unfold round
  rw [hlog]
  dsimp only
  rw [hnone, hdue]
  cases msgs with
  | nil => rfl
  | cons m ms =>
    simp only [List.cons_append, List.isEmpty_cons, Bool.false_and, Bool.false_eq_true, if_false, Bool.and_false,
      List.nil_append, List.append_assoc]

/-- With nothing in between, the steps of `serve` are its round. -/
theorem steps_round (w : World B) (m : Side) (pingDue : Bool) (l : Link) (hphase : l.phase = .log) (hsent : l.sent = false) :
    ∃ k had, (fun l => w.stepServe m l pingDue)^[k] l =
      { l with
        phase := .role
        wire := l.wire ++ (round (w.active m) l.conn pingDue).1
        conn := (round (w.active m) l.conn pingDue).2
        sent := !(sendLog (w.active m) l.conn).1.isEmpty
        had } := by
  obtain ⟨k, had, hk⟩ : ∃ k had, (fun l => w.stepServe m l pingDue)^[k] l =
      { l with
        phase := .rest
        wire := l.wire ++ (sendLog (w.active m) l.conn).1
        conn := { l.conn with offset := (sendLog (w.active m) l.conn).2 }
        sent := !(sendLog (w.active m) l.conn).1.isEmpty
        had } := by
    cases hs : w.store m with
    | none =>
      have hlog : sendLog (w.active m) l.conn = ([], l.conn.offset) := by
        unfold sendLog active
        rw [hs]
      refine ⟨1, l.had, ?_⟩
      rw [Function.iterate_one, hlog, List.append_nil]
      unfold stepServe
      rw [hphase, hs, hsent]
      rfl
    | some s =>
      cases hoff : l.conn.offset with
      | none =>
        have hlog : sendLog (w.active m) l.conn = ([], none) := by
          unfold sendLog active
          rw [hs, hoff]
        have hstep : w.stepServe m l pingDue = { l with phase := .rest } := by
          unfold stepServe
          rw [hphase, hs, hoff]
        have hconn : { l.conn with offset := none } = l.conn := by rw [← hoff]
        refine ⟨1, l.had, ?_⟩
        rw [Function.iterate_one, hlog, List.append_nil, hstep, hsent, hconn]
        rfl
      | some off =>
        obtain ⟨bodies, rest, hb, hr, hdrop⟩ := exists_frames (s.file.drop (startOf s off))
        have hlen : bodies.length < s.file.length + 1 := by
          have hmany := length_le_frames bodies
          have hfile := congrArg List.length hdrop
          rw [List.length_drop, List.length_append] at hfile
          omega
        obtain ⟨k, had, hk⟩ := steps_histories hs pingDue hb hr (s.file.length + 1) hdrop hlen l hphase hoff
        refine ⟨k, had, ?_⟩
        have hlog : sendLog (w.active m) l.conn = (histories s (s.file.length + 1) off).map id some := by
          unfold sendLog active
          rw [hs, hoff]
        rw [hk, hlog, hsent]
        rfl
  refine ⟨k + 1, had, ?_⟩
  rw [Function.iterate_succ_apply', hk, round_log]
  unfold stepServe
  dsimp only
  rw [Bool.not_not, List.append_assoc]

end Round

/-! ## What holds throughout -/

/-- The logs of the two nodes keep up with each other. -/
structure Mirrored (w : World B) : Prop where
  /-- A node keeps what it recorded itself, -/
  own : ∀ n, ∀ r ∈ w.recorded n, r.1 ∈ w.logged n
  /-- holds nothing that neither node recorded, -/
  known : ∀ n, ∀ r ∈ w.logged n, ∃ m, ∃ r' ∈ w.recorded m, r'.1 = r
  /-- takes nothing from its peer that it has, -/
  once : ∀ n r, (w.logged n).count r.1 ≤ (w.recorded n).count r + 1
  /-- keeps what its peer's log held when it was told that it has it all, -/
  vouched : ∀ n, ∀ r ∈ w.vouched n, r ∈ w.logged n
  /-- and says that it is in sync only when it was told so on the connection it has. -/
  synced : ∀ n, w.synced n = true → ∃ l, w.link n = some l ∧ l.conn.caughtUp = true ∧ ∀ r ∈ l.had, r ∈ w.vouched n
  /-- What `serve` has read of the log, and what is not on the way, is in the Standby's log. -/
  drained : ∀ n l s, w.link n = some l → l.wire = [] → w.store n.peer = some s → l.conn.offset = some s.file.length →
    ∀ r ∈ w.logged n.peer, r ∈ w.logged n

/-- The messages on the way carry the records from `pre` to `post`, and say that all is
there only behind what was held then. -/
def Carries (had : List StoredRecord) : List B.Stored → List Msg → List B.Stored → Prop
  | pre, [], post => pre = post
  | pre, .history _ stop frames :: ms, post =>
    ∃ zs, frames = log B zs ∧ stop = UInt64.ofNat (log B (pre ++ zs)).length ∧ Carries had (pre ++ zs) ms post
  | pre, .caughtUp :: ms, post => (∀ r ∈ had, r ∈ pre.map Subtype.val) ∧ Carries had pre ms post
  | pre, _ :: ms, post => Carries had pre ms post

/-- An offset into a log, up to which it has been copied. -/
def Copied (source target : List B.Stored) (offset : UInt64) : Prop :=
  ∃ xs ys, source = xs ++ ys ∧ offset = UInt64.ofNat (log B xs).length ∧ ∀ r ∈ xs, r ∈ target

/-- A connection between two logs. -/
structure Streams (source target : List B.Stored) (l : Link) : Prop where
  parts : ∃ pre post tail, source = post ++ tail ∧ l.cursor = UInt64.ofNat (log B pre).length ∧
    (∀ r ∈ pre, r ∈ target) ∧ Carries l.had pre l.wire post ∧ (∀ off ∈ l.conn.offset, off = (log B post).length) ∧
    (l.conn.offset = none → post = []) ∧ (l.conn.caughtUp = false → ∀ r ∈ l.had, r ∈ post.map Subtype.val)
  unsaid : l.conn.caughtUp = false → Msg.caughtUp ∉ l.wire

structure Sound (w : World B) (logs : Side → List B.Stored) : Prop where
  holds : ∀ n, ∀ s ∈ w.store n, Holds s (logs n)
  bare : ∀ n, w.store n = none → logs n = []
  unasked : ∀ n, w.store n = none → ∀ l ∈ w.link n, l.conn.offset = none
  own : ∀ n, ∀ r ∈ w.recorded n, r ∈ logs n
  known : ∀ n, ∀ r ∈ logs n, ∃ m, r ∈ w.recorded m
  once : ∀ n r, (logs n).count r ≤ (w.recorded n).count r + 1
  vouched : ∀ n, ∀ r ∈ w.vouched n, r ∈ (logs n).map Subtype.val
  offset : ∀ n, Copied (logs n.peer) (logs n) (w.historyOffset n)
  link : ∀ n, ∀ l ∈ w.link n, Streams (logs n.peer) (logs n) l
  synced : ∀ n, w.synced n = true → ∃ l, w.link n = some l ∧ l.conn.caughtUp = true ∧ ∀ r ∈ l.had, r ∈ w.vouched n

section Sound

variable {w : World B} {logs : Side → List B.Stored} {n m : Side} {had : List StoredRecord} {source target pre mid post : List B.Stored}
  {l : Link} {ms ms' : List Msg}

theorem Carries.append (h : Carries had pre ms mid) (h' : Carries had mid ms' post) : Carries had pre (ms ++ ms') post := by
  induction ms generalizing pre with
  | nil =>
    have he : pre = mid := h
    exact he ▸ h'
  | cons m ms ih =>
    cases m with
    | history start stop frames =>
      obtain ⟨zs, hf, hs, h⟩ := h
      exact ⟨zs, hf, hs, ih h⟩
    | caughtUp => exact ⟨h.1, ih h.2⟩
    | hello | challenge | auth | sms | ping => exact @ih pre h

/-- Nothing is said about what was held before it is. -/
theorem Carries.congr {had' : List StoredRecord} (h : Carries had pre ms post) (hm : Msg.caughtUp ∉ ms) :
    Carries had' pre ms post := by
  induction ms generalizing pre with
  | nil => exact h
  | cons m ms ih =>
    have hms := fun hc => hm (List.mem_cons_of_mem m hc)
    cases m with
    | history start stop frames =>
      obtain ⟨zs, hf, hs, h⟩ := h
      exact ⟨zs, hf, hs, ih h hms⟩
    | caughtUp => exact absurd List.mem_cons_self hm
    | hello | challenge | auth | sms | ping => exact @ih pre h hms

theorem Copied.mono {offset : UInt64} (h : Copied source target offset) (more more' : List B.Stored) :
    Copied (source ++ more) (target ++ more') offset := by
  obtain ⟨xs, ys, rfl, ho, hxs⟩ := h
  exact ⟨xs, ys ++ more, List.append_assoc _ _ _, ho, fun r hr => List.mem_append_left _ (hxs r hr)⟩

theorem Streams.mono (h : Streams source target l) (more more' : List B.Stored) :
    Streams (source ++ more) (target ++ more') l := by
  obtain ⟨pre, post, tail, rfl, hc, hpre, hrest⟩ := h.parts
  refine ⟨⟨pre, post, tail ++ more, List.append_assoc _ _ _, hc, ?_, hrest⟩, h.unsaid⟩
  exact fun r hr => List.mem_append_left _ (hpre r hr)

/-- The records that are taken next come from the log. -/
theorem Carries.prefix (h : Carries had pre ms post) : ∃ zs, post = pre ++ zs := by
  induction ms generalizing pre with
  | nil => exact ⟨[], (List.append_nil pre).symm ▸ (show pre = post from h).symm⟩
  | cons m ms ih =>
    cases m with
    | history start stop frames =>
      obtain ⟨zs, -, -, h⟩ := h
      obtain ⟨ys, hy⟩ := ih h
      exact ⟨zs ++ ys, hy.trans (List.append_assoc _ _ _)⟩
    | caughtUp => exact ih h.2
    | hello | challenge | auth | sms | ping => exact @ih pre h

theorem Streams.taken (h : Streams source target l) {first stop : UInt64} {frames : Bytes}
    (hw : l.wire = .history first stop frames :: ms) :
    ∃ zs, frames = log B zs ∧ (∀ r ∈ zs, r ∈ source) ∧
      ∀ target', (∀ r ∈ target, r ∈ target') → (∀ r ∈ zs, r ∈ target') →
        Streams source target' { l with wire := ms, waiting := false, cursor := stop } ∧ Copied source target' stop := by
  obtain ⟨pre, post, tail, hsource, -, hpre, hcarries, hoff, hnone, hhad⟩ := h.parts
  rw [hw] at hcarries
  obtain ⟨zs, hf, hstop, hrest⟩ := hcarries
  obtain ⟨ys, hys⟩ := hrest.prefix
  refine ⟨zs, hf, fun r hr => ?_, fun target' ht hz => ⟨⟨⟨pre ++ zs, post, tail, hsource, hstop, ?_, hrest, hoff, hnone, hhad⟩,
    fun hc hm => ?_⟩, pre ++ zs, ys ++ tail, ?_, hstop, ?_⟩⟩
  · rw [hsource, hys]
    exact List.mem_append_left _ (List.mem_append_left _ (List.mem_append_right _ hr))
  · exact fun r hr => (List.mem_append.mp hr).elim (fun hr => ht r (hpre r hr)) (hz r)
  · exact h.unsaid hc (hw ▸ List.mem_cons_of_mem _ hm)
  · rw [hsource, hys, List.append_assoc]
  · exact fun r hr => (List.mem_append.mp hr).elim (fun hr => ht r (hpre r hr)) (hz r)

theorem Streams.told (h : Streams source target l) (hw : l.wire = .caughtUp :: ms) :
    l.conn.caughtUp = true ∧ (∀ r ∈ l.had, r ∈ target.map Subtype.val) ∧
      Streams source target { l with wire := ms, waiting := false } := by
  obtain ⟨pre, post, tail, hsource, hc, hpre, hcarries, hrest⟩ := h.parts
  rw [hw] at hcarries
  have hsaid : l.conn.caughtUp = true := by
    by_contra hc
    exact h.unsaid (Bool.eq_false_iff.mpr hc) (hw ▸ List.mem_cons_self)
  refine ⟨hsaid, fun r hr => ?_, ⟨pre, post, tail, hsource, hc, hpre, hcarries.2, hrest⟩, fun hc => ?_⟩
  · obtain ⟨r', hr', rfl⟩ := List.mem_map.mp (hcarries.1 r hr)
    exact List.mem_map_of_mem (hpre r' hr')
  · exact absurd hsaid (Bool.eq_false_iff.mp hc)

/-- A message that says nothing of the log. -/
theorem Streams.skipped (h : Streams source target l) {m : Msg} (hw : l.wire = m :: ms)
    (hm : (∃ json, m = .sms json) ∨ m = .ping) : Streams source target { l with wire := ms, waiting := false } := by
  obtain ⟨pre, post, tail, hsource, hc, hpre, hcarries, hrest⟩ := h.parts
  refine ⟨⟨pre, post, tail, hsource, hc, hpre, ?_, hrest⟩, fun hc hm => h.unsaid hc (hw ▸ List.mem_cons_of_mem _ hm)⟩
  rw [hw] at hcarries
  obtain ⟨json, rfl⟩ | rfl := hm
  · exact hcarries
  · exact hcarries

theorem carries_quiet (hms : ∀ m ∈ ms, (∃ json, m = .sms json) ∨ m = .ping) : Carries had pre ms pre := by
  induction ms with
  | nil => exact rfl
  | cons m ms ih =>
    have hrest := ih fun m' hm => hms m' (List.mem_cons_of_mem _ hm)
    obtain ⟨json, rfl⟩ | rfl := hms m List.mem_cons_self
    · exact hrest
    · exact hrest

/-- What a round sends without the log. -/
theorem round_rest (a : Active) (c : Connection) (pingDue : Bool) :
    ∃ quiet : List Msg, (∀ m ∈ quiet, (∃ json, m = .sms json) ∨ m = .ping) ∧
      (round { a with store := none } c pingDue).1 = quiet ++ (if c.caughtUp then [] else [.caughtUp]) ∧
      (round { a with store := none } c pingDue).2.offset = c.offset ∧
      (round { a with store := none } c pingDue).2.caughtUp = true := by
  have hlog : sendLog { a with store := none } c = ([], c.offset) := rfl
  obtain ⟨quiet, hquiet⟩ : ∃ quiet : List Msg, quiet = if smsDue { a with store := none } c then [Msg.sms a.sms.export] else [] :=
    ⟨_, rfl⟩
  have hsms : ∀ m ∈ quiet, (∃ json, m = .sms json) ∨ m = .ping := by
    intro m hm
    rw [hquiet] at hm
    split at hm
    · exact .inl ⟨_, List.mem_singleton.mp hm⟩
    · exact absurd hm List.not_mem_nil
  obtain ⟨last, hlast⟩ : ∃ last : List Msg, last = if c.caughtUp then [] else [.caughtUp] := ⟨_, rfl⟩
  unfold round
  rw [hlog]
  dsimp only
  rw [List.nil_append, ← hquiet, ← hlast]
  split
  · next hping =>
    rw [Bool.and_eq_true, List.isEmpty_iff, List.append_eq_nil_iff] at hping
    refine ⟨[.ping], fun m hm => .inr (List.mem_singleton.mp hm), ?_, rfl, rfl⟩
    rw [hping.1.2]
    rfl
  · exact ⟨quiet, hsms, rfl, rfl, rfl⟩

theorem logged_eq (h : Sound w logs) (n : Side) : w.logged n = (logs n).map Subtype.val := by
  unfold logged
  cases hs : w.store n with
  | none => rw [h.bare n hs]; rfl
  | some s =>
    dsimp only
    rw [(h.holds n s hs).file, replay_log]

/-- A step of `serve` on a log. -/
theorem Streams.serve (h : Streams source target l) (hstore : ∀ s ∈ w.store m, Holds s source)
    (hlogged : w.logged m = source.map Subtype.val) (pingDue : Bool) :
    Streams source target (w.stepServe m l pingDue) := by
  obtain ⟨pre, post, tail, hsource, hc, hpre, hcarries, hoff, hnone, hhad⟩ := h.parts
  unfold stepServe
  split
  · split
    · exact ⟨h.parts, h.unsaid⟩
    · exact ⟨h.parts, h.unsaid⟩
  · split
    · next s off hs ho =>
      have hfile : s.file = log B (post ++ tail) := hsource ▸ (hstore s hs).file
      obtain ⟨zs, ws, htail, hprogress, hread⟩ := readFrames_log hfile (show 4 ≤ historyChunk by decide)
      rw [hoff off ho, hread]
      dsimp only
      by_cases hz : zs = []
      · subst hz
        have hws : tail = [] := by
          by_contra hne
          exact hprogress hne rfl
        rw [if_pos (show log B [] = [] from rfl), List.append_nil]
        refine ⟨⟨pre, post, tail, hsource, hc, hpre, ?_, fun _ ho => (Option.some.inj ho).symm, fun ho => absurd ho (Option.some_ne_none _), ?_⟩,
          h.unsaid⟩
        · cases hsaid : l.conn.caughtUp with
          | true => exact hcarries
          | false => exact hcarries.congr (h.unsaid hsaid)
        · intro hsaid r hr
          have hsaid : l.conn.caughtUp = false := hsaid
          dsimp only at hr
          rw [hsaid, if_neg Bool.false_ne_true, hlogged, hsource, hws, List.append_nil] at hr
          exact hr
      · have hne : log B zs ≠ [] := frames_ne_nil fun hc => hz (List.map_eq_nil_iff.mp hc)
        rw [if_neg hne]
        refine ⟨⟨pre, post ++ zs, ws, ?_, hc, hpre, hcarries.append ⟨zs, rfl, rfl, rfl⟩,
          fun _ ho => (Option.some.inj ho).symm, fun ho => absurd ho (Option.some_ne_none _),
          fun hsaid r hr => ?_⟩, fun hsaid hm => ?_⟩
        · rw [hsource, htail, List.append_assoc]
        · rw [List.map_append]
          exact List.mem_append_left _ (hhad hsaid r hr)
        · rcases List.mem_append.mp hm with hm | hm
          · exact h.unsaid hsaid hm
          · cases List.mem_singleton.mp hm
    · exact ⟨h.parts, h.unsaid⟩
  · obtain ⟨quiet, hquiet, hmsgs, hoffset, hsaid⟩ := round_rest (w.active m) l.conn (!l.sent && pingDue)
    dsimp only
    rw [hmsgs]
    refine ⟨⟨pre, post, tail, hsource, hc, hpre, ?_, ?_, ?_, ?_⟩, ?_⟩
    · refine hcarries.append ((carries_quiet hquiet).append ?_)
      cases hc : l.conn.caughtUp with
      | true => exact rfl
      | false => exact ⟨hhad hc, rfl⟩
    · rw [hoffset]
      exact hoff
    · rw [hoffset]
      exact hnone
    · exact fun hc => absurd hsaid (Bool.eq_false_iff.mp hc)
    · exact fun hc => absurd hsaid (Bool.eq_false_iff.mp hc)

/-- What was held then is not changed once it has been said. -/
theorem stepServe_said (hc : l.conn.caughtUp = true) (pingDue : Bool) :
    (w.stepServe m l pingDue).conn.caughtUp = true ∧ (w.stepServe m l pingDue).had = l.had := by
  unfold stepServe
  split
  · split
    · exact ⟨hc, rfl⟩
    · exact ⟨hc, rfl⟩
  · split
    · dsimp only
      split
      · exact ⟨hc, rfl⟩
      · exact ⟨hc, rfl⟩
    · exact ⟨hc, rfl⟩
  · obtain ⟨-, -, -, -, hsaid⟩ := round_rest (w.active m) l.conn (!l.sent && pingDue)
    exact ⟨hsaid, rfl⟩

theorem stepServe_unasked (ho : l.conn.offset = none) (pingDue : Bool) : (w.stepServe m l pingDue).conn.offset = none := by
  unfold stepServe
  split
  · split
    · exact ho
    · exact ho
  · split
    · next hoff =>
      rw [ho] at hoff
      cases hoff
    · exact ho
  · obtain ⟨-, -, -, hoffset, -⟩ := round_rest (w.active m) l.conn (!l.sent && pingDue)
    exact hoffset.trans ho

/-! ### Steps -/

variable {s s' : Store} {new : List B.Stored} {parse : Bytes → Option SmsFile}

/-- A node's log grows. -/
theorem Sound.grow (h : Sound w logs) (hs : w.store n = some s) (hnew : Holds s' (logs n ++ new)) {recorded : Side → List B.Stored}
    (hown : ∀ m, ∀ r ∈ recorded m, r ∈ w.recorded m ∨ m = n ∧ r ∈ new) (hkept : ∀ m, ∀ r ∈ w.recorded m, r ∈ recorded m)
    (hknown : ∀ r ∈ new, ∃ m, r ∈ recorded m) (hcount : ∀ m r, (w.recorded m).count r ≤ (recorded m).count r)
    (honce : ∀ r, (logs n ++ new).count r ≤ (recorded n).count r + 1) :
    Sound { w.setStore n s' with recorded } (fun k => logs k ++ if k = n then new else []) where
  holds k t ht := by
    change Function.update w.store n (some s') k = some t at ht
    by_cases hk : k = n
    · subst hk
      rw [Function.update_self] at ht
      cases ht
      rw [if_pos rfl]
      exact hnew
    · rw [Function.update_of_ne hk] at ht
      rw [if_neg hk, List.append_nil]
      exact h.holds k t ht
  bare k hk := by
    change Function.update w.store n (some s') k = none at hk
    by_cases hkn : k = n
    · subst hkn
      rw [Function.update_self] at hk
      cases hk
    · rw [Function.update_of_ne hkn] at hk
      rw [if_neg hkn, List.append_nil]
      exact h.bare k hk
  unasked k hk := by
    change Function.update w.store n (some s') k = none at hk
    by_cases hkn : k = n
    · subst hkn
      rw [Function.update_self] at hk
      cases hk
    · rw [Function.update_of_ne hkn] at hk
      exact h.unasked k hk
  own k r hr := by
    rcases hown k r hr with hold | ⟨hk, hin⟩
    · exact List.mem_append_left _ (h.own k r hold)
    · rw [if_pos hk]
      exact List.mem_append_right _ hin
  known k r hr := by
    rcases List.mem_append.mp hr with hr | hr
    · obtain ⟨m, hm⟩ := h.known k r hr
      exact ⟨m, hkept m r hm⟩
    · split at hr
      · exact hknown r hr
      · exact absurd hr List.not_mem_nil
  once k r := by
    by_cases hk : k = n
    · subst hk
      rw [if_pos rfl]
      exact honce r
    · rw [if_neg hk, List.append_nil]
      exact (h.once k r).trans (Nat.add_le_add_right (hcount k r) 1)
  vouched k r hr := by
    rw [List.map_append]
    exact List.mem_append_left _ (h.vouched k r hr)
  offset k := (h.offset k).mono _ _
  link k l hl := (h.link k l hl).mono _ _
  synced := h.synced

/-- A node puts a record in its log. -/
theorem Sound.record (h : Sound w logs) (n : Side) (r : B.Stored) : ∃ logs', Sound (w.record n r) logs' := by
  unfold World.record
  split
  · next s hs =>
    refine ⟨_, h.grow hs ((h.holds n s hs).append r) (fun m r' hr' => ?_) (fun m r' hr' => ?_) (fun r' hr' => ⟨n, ?_⟩)
      (fun m r' => ?_) (fun r' => ?_)⟩
    · by_cases hm : m = n
      · subst hm
        rw [Function.update_self, List.mem_append] at hr'
        exact hr'.imp_right fun hr' => ⟨rfl, hr'⟩
      · rw [Function.update_of_ne hm] at hr'
        exact .inl hr'
    · by_cases hm : m = n
      · subst hm
        rw [Function.update_self]
        exact List.mem_append_left _ hr'
      · rw [Function.update_of_ne hm]
        exact hr'
    · rw [Function.update_self]
      exact List.mem_append_right _ hr'
    · by_cases hm : m = n
      · subst hm
        rw [Function.update_self, List.count_append]
        omega
      · rw [Function.update_of_ne hm]
    · have := h.once n r'
      rw [Function.update_self, List.count_append, List.count_append]
      omega
  · exact ⟨logs, h⟩

/-- The peer's records that a node does not hold are added to its log. -/
theorem Sound.ingest (h : Sound w logs) (hs : w.store n = some s) {zs : List B.Stored} (hzs : ∀ r ∈ zs, r ∈ logs n.peer)
    (hnew : Holds s' (logs n ++ missing (logs n) zs)) :
    Sound (w.setStore n s') (fun k => logs k ++ if k = n then missing (logs n) zs else []) := by
  refine h.grow hs hnew (fun m r hr => .inl hr) (fun m r hr => hr) (fun r hr => h.known n.peer r (hzs r (mem_missing.mp hr).1))
    (fun m r => le_refl _) (fun r => ?_)
  have hone := h.once n r
  rw [List.count_append]
  by_cases hr : r ∈ missing (logs n) zs
  · rw [List.count_eq_zero_of_not_mem (mem_missing.mp hr).2, List.count_eq_one_of_mem nodup_missing hr]
    omega
  · rw [List.count_eq_zero_of_not_mem hr]
    omega

/-- Every record of a log was recorded by one of the nodes. -/
theorem Sound.free (h : Sound w logs) (hfree : CollisionFree (bodies (w.recorded .a ++ w.recorded .b))) {rs : List B.Stored}
    (hrs : ∀ r ∈ rs, ∃ k, r ∈ logs k) : CollisionFree (bodies rs) := by
  refine hfree.of_subset fun r hr => ?_
  obtain ⟨k, hk⟩ := hrs r hr
  obtain ⟨m, hm⟩ := h.known k r hk
  cases m with
  | a => exact List.mem_append_left _ hm
  | b => exact List.mem_append_right _ hm

theorem Sound.relink (h : Sound w logs) {l' : Link} (hl : Streams (logs n.peer) (logs n) l')
    (hnone : w.store n = none → l'.conn.offset = none)
    (hsaid : w.synced n = true → l'.conn.caughtUp = true ∧ ∀ r ∈ l'.had, r ∈ w.vouched n) :
    Sound (w.setLink n (some l')) logs :=
  { h with
    link := fun k l hk => by
      change Function.update w.link n (some l') k = some l at hk
      by_cases hkn : k = n
      · subst hkn
        rw [Function.update_self] at hk
        cases hk
        exact hl
      · rw [Function.update_of_ne hkn] at hk
        exact h.link k l hk
    unasked := fun k hs l hk => by
      change Function.update w.link n (some l') k = some l at hk
      by_cases hkn : k = n
      · subst hkn
        rw [Function.update_self] at hk
        cases hk
        exact hnone hs
      · rw [Function.update_of_ne hkn] at hk
        exact h.unasked k hs l hk
    synced := fun k hk => by
      by_cases hkn : k = n
      · subst hkn
        exact ⟨l', Function.update_self _ _ _, hsaid hk⟩
      · obtain ⟨l, hl, hrest⟩ := h.synced k hk
        exact ⟨l, (Function.update_of_ne hkn _ _).trans hl, hrest⟩ }

theorem Sound.hangUp (h : Sound w logs) (n : Side) : Sound (w.hangUp n) logs :=
  { h with
    link := fun k l hk => by
      change Function.update w.link n none k = some l at hk
      by_cases hkn : k = n
      · subst hkn
        rw [Function.update_self] at hk
        cases hk
      · rw [Function.update_of_ne hkn] at hk
        exact h.link k l hk
    unasked := fun k hs l hk => by
      change Function.update w.link n none k = some l at hk
      by_cases hkn : k = n
      · subst hkn
        rw [Function.update_self] at hk
        cases hk
      · rw [Function.update_of_ne hkn] at hk
        exact h.unasked k hs l hk
    synced := fun k hk => by
      change Function.update w.synced n false k = true at hk
      by_cases hkn : k = n
      · subst hkn
        rw [Function.update_self] at hk
        cases hk
      · rw [Function.update_of_ne hkn] at hk
        obtain ⟨l, hl, hrest⟩ := h.synced k hk
        exact ⟨l, (Function.update_of_ne hkn _ _).trans hl, hrest⟩ }

/-- What a connection has said stays said when the link is replaced by one that agrees. -/
theorem Sound.said (h : Sound w logs) (hl : w.link n = some l) (hs : w.synced n = true) :
    l.conn.caughtUp = true ∧ ∀ r ∈ l.had, r ∈ w.vouched n := by
  obtain ⟨l', hl', hsaid⟩ := h.synced n hs
  cases hl.symm.trans hl'
  exact hsaid

/-- Offsets into the logs fit 64 bits. -/
theorem Sound.size (h : Sound w logs) (hsmall : ∀ n, ∀ s ∈ w.store n, s.file.length < 2 ^ 64) (n : Side) :
    (log B (logs n)).length < 2 ^ 64 := by
  cases hs : w.store n with
  | none =>
    rw [h.bare n hs]
    exact Nat.two_pow_pos 64
  | some s =>
    rw [← (h.holds n s hs).file]
    exact hsmall n s hs

theorem Sound.dial (h : Sound w logs) (hsmall : ∀ n, ∀ s ∈ w.store n, s.file.length < 2 ^ 64) (n : Side) :
    Sound (w.dial n) logs := by
  unfold World.dial
  split
  · next hguard =>
    refine h.relink ?_ (fun hs => ?_) fun hs => ?_
    · obtain ⟨xs, ys, hsource, ho, hxs⟩ := h.offset n
      have hlen : (log B xs).length < 2 ^ 64 := by
        have := h.size hsmall n.peer
        rw [hsource, log_append, List.length_append] at this
        omega
      refine ⟨⟨xs, xs, ys, hsource, ho, hxs, rfl, fun off hoff => ?_, fun hnone => ?_, fun _ r hr => absurd hr List.not_mem_nil⟩,
        fun _ hm => absurd hm List.not_mem_nil⟩
      · dsimp only at hoff
        split at hoff
        · cases hoff
          rw [ho, UInt64.toNat_ofNat', Nat.mod_eq_of_lt hlen]
        · cases hoff
      · dsimp only at hnone
        split at hnone
        · cases hnone
        · next hs =>
          have hbare := h.bare n (Option.not_isSome_iff_eq_none.mp hs)
          rw [List.eq_nil_iff_forall_not_mem]
          intro r hr
          have := hxs r hr
          rw [hbare] at this
          exact List.not_mem_nil this
    · dsimp only
      rw [hs]
      rfl
    · obtain ⟨l, hl, -⟩ := h.synced n hs
      rw [hl] at hguard
      cases hguard.2.2
  · exact h

theorem Sound.serve (h : Sound w logs) (n : Side) (pingDue : Bool) : Sound (w.serve n pingDue) logs := by
  unfold World.serve
  split
  · next l hl =>
    split
    · refine h.relink ((h.link n l hl).serve (h.holds n.peer) (logged_eq h n.peer) pingDue)
        (fun hs => stepServe_unasked (h.unasked n hs l hl) pingDue) fun hs => ?_
      obtain ⟨hsaid, hhad⟩ := h.said hl hs
      obtain ⟨hsaid', hsame⟩ := stepServe_said (w := w) (m := n.peer) hsaid pingDue
      exact ⟨hsaid', hsame ▸ hhad⟩
    · exact h
  · exact h

theorem Sound.check (h : Sound w logs) (n : Side) : Sound (w.check n) logs := by
  unfold World.check
  split
  · next l hl =>
    split
    · exact h
    · split
      · have hsaid := h.said hl
        exact h.relink ⟨(h.link n l hl).parts, (h.link n l hl).unsaid⟩ (fun hs => h.unasked n hs l hl) hsaid
      · exact h.hangUp n
  · exact h

/-- A message is taken. -/
theorem Sound.handle (h : Sound w logs) (hfree : CollisionFree (bodies (w.recorded .a ++ w.recorded .b))) (hl : w.link n = some l)
    {m : Msg} (hw : l.wire = m :: ms) (saved : Bool) :
    ∃ logs', Sound (w.handle parse n { l with wire := ms, waiting := false } saved m) logs' := by
  have hstreams := h.link n l hl
  have hsaid := h.said hl
  have hnone : w.store n = none → l.conn.offset = none := fun hs => h.unasked n hs l hl
  cases m with
  | hello | challenge | auth => exact ⟨logs, h.hangUp n⟩
  | ping => exact ⟨logs, h.relink (hstreams.skipped hw (.inr rfl)) hnone hsaid⟩
  | sms json =>
    have hskip := h.relink (hstreams.skipped hw (.inl ⟨json, rfl⟩)) hnone hsaid
    unfold World.handle
    dsimp only
    split
    · exact ⟨logs, { hskip with }⟩
    · exact ⟨logs, hskip⟩
  | caughtUp =>
    obtain ⟨htrue, hhad, hnext⟩ := hstreams.told hw
    have hlink := h.relink hnext hnone hsaid
    refine ⟨logs, { hlink with vouched := fun k r hr => ?_, synced := fun k hk => ?_ }⟩
    · change r ∈ Function.update w.vouched n (w.vouched n ++ l.had) k at hr
      by_cases hkn : k = n
      · subst hkn
        rw [Function.update_self, List.mem_append] at hr
        exact hr.elim (h.vouched k r) (hhad r)
      · rw [Function.update_of_ne hkn] at hr
        exact h.vouched k r hr
    · by_cases hkn : k = n
      · subst hkn
        refine ⟨_, Function.update_self _ _ _, htrue, fun r hr => ?_⟩
        change r ∈ Function.update w.vouched k (w.vouched k ++ l.had) k
        rw [Function.update_self]
        exact List.mem_append_right _ hr
      · change Function.update w.synced n true k = true at hk
        rw [Function.update_of_ne hkn] at hk
        obtain ⟨l', hl', hsaid', hhad'⟩ := hlink.synced k hk
        refine ⟨l', hl', hsaid', fun r hr => ?_⟩
        change r ∈ Function.update w.vouched n (w.vouched n ++ l.had) k
        rw [Function.update_of_ne hkn]
        exact hhad' r hr
  | history first stop frames =>
    obtain ⟨zs, rfl, hzs, hnext⟩ := hstreams.taken hw
    unfold World.handle
    dsimp only
    split
    · next s hs =>
      have hall : CollisionFree (bodies (logs n ++ zs)) := h.free hfree fun r hr =>
        (List.mem_append.mp hr).elim (fun hr => ⟨n, hr⟩) fun hr => ⟨n.peer, hzs r hr⟩
      have hbodies : (splitFrames (log B zs)).1 = bodies zs := by rw [log, splitFrames_all (framable_stored zs)]; rfl
      have hgrown := h.ingest hs hzs ((h.holds n s hs).ingest hall)
      rw [hbodies]
      have hpeer : ¬ n.peer = n := by cases n <;> decide
      obtain ⟨hstream, hcopied⟩ := hnext (logs n ++ missing (logs n) zs) (fun r hr => List.mem_append_left _ hr) fun r hr => by
        by_cases hin : r ∈ logs n
        · exact List.mem_append_left _ hin
        · exact List.mem_append_right _ (mem_missing.mpr ⟨hr, hin⟩)
      have hlink : Sound ((w.setStore n (s.ingest B (bodies zs))).setLink n
          (some { l with wire := ms, waiting := false, cursor := stop }))
          (fun k => logs k ++ if k = n then missing (logs n) zs else []) := by
        refine hgrown.relink ?_ (fun hs => ?_) hsaid
        · rw [if_neg hpeer, if_pos rfl, List.append_nil]
          exact hstream
        · exact absurd ((Function.update_self _ _ _).symm.trans hs) (Option.some_ne_none _)
      refine ⟨_, { hlink with offset := fun k => ?_ }⟩
      cases saved with
      | false => exact hlink.offset k
      | true =>
        by_cases hkn : k = n
        · subst hkn
          change Copied _ _ (Function.update w.historyOffset k stop k)
          rw [Function.update_self, if_neg hpeer, if_pos rfl, List.append_nil]
          exact hcopied
        · change Copied _ _ (Function.update w.historyOffset n stop k)
          rw [Function.update_of_ne hkn]
          exact hlink.offset k
    · next hs =>
      -- Nothing was asked for, and the batch is empty.
      refine ⟨logs, h.relink ?_ hnone hsaid⟩
      obtain ⟨pre, post, tail, hsource, hc, hpre, hcarries, hoff, hempty, hhad⟩ := hstreams.parts
      rw [hw] at hcarries
      obtain ⟨ys, -, -, hrest⟩ := hcarries
      obtain ⟨vs, hvs⟩ := hrest.prefix
      have hys : ys = [] := by
        rw [hempty (hnone hs)] at hvs
        exact (List.append_eq_nil_iff.mp (List.append_eq_nil_iff.mp hvs.symm).1).2
      rw [hys, List.append_nil] at hrest
      exact ⟨⟨pre, post, tail, hsource, hc, hpre, hrest, hoff, hempty, hhad⟩,
        fun hc hm => hstreams.unsaid hc (hw ▸ List.mem_cons_of_mem _ hm)⟩

theorem Sound.receive (h : Sound w logs) (hfree : CollisionFree (bodies (w.recorded .a ++ w.recorded .b))) (n : Side)
    (saved : Bool) : ∃ logs', Sound (w.receive parse n saved) logs' := by
  unfold World.receive
  split
  · next l hl =>
    split
    · split
      · next m ms hw =>
        split
        · exact h.handle hfree hl hw saved
        · exact ⟨logs, h.hangUp n⟩
      · exact ⟨logs, h⟩
    · exact ⟨logs, h⟩
  · exact ⟨logs, h⟩

theorem Sound.serveEnd (h : Sound w logs) (n : Side) :
    Sound (w.setLink n ((w.link n).map fun l => { l with serving := false })) logs := by
  cases hl : w.link n with
  | none =>
    have hsame : w.setLink n none = w := by
      unfold setLink
      rw [← hl, Function.update_eq_self]
    rw [Option.map_none, hsame]
    exact h
  | some l =>
    have hsaid := h.said hl
    exact h.relink ⟨(h.link n l hl).parts, (h.link n l hl).unsaid⟩ (fun hs => h.unasked n hs l hl) hsaid

/-- A batch is some of the peer's records. -/
theorem batch_eq (h : Sound w logs) (n : Side) (taken : ℕ) :
    ∃ zs : List B.Stored, (w.batch n).take taken = bodies zs ∧ ∀ r ∈ zs, r ∈ logs n.peer := by
  unfold batch
  split
  · next conn phase sent serving first stop frames ms cursor had hl =>
    obtain ⟨zs, rfl, hzs, -⟩ := (h.link n _ hl).taken rfl
    refine ⟨zs.take taken, ?_, fun r hr => hzs r (List.mem_of_mem_take hr)⟩
    rw [log, splitFrames_all (framable_stored zs), bodies, List.map_take]
  · exact ⟨[], List.take_nil, fun r hr => absurd hr List.not_mem_nil⟩

theorem Sound.restart (h : Sound w logs) (hfree : CollisionFree (bodies (w.recorded .a ++ w.recorded .b))) (n : Side)
    (taken : ℕ) : ∃ logs', Sound (w.restart n taken) logs' := by
  have hpeer : n.peer ≠ n := by cases n <;> decide
  have hends {w' : World B} {logs' : Side → List B.Stored} (h' : Sound w' logs') (hl : w'.link = w.link) :
      Sound ((w'.hangUp n).setLink n.peer ((w.link n.peer).map fun l => { l with serving := false })) logs' := by
    have hend := (h'.hangUp n).serveEnd n.peer
    have hlink : (w'.hangUp n).link n.peer = w.link n.peer := (Function.update_of_ne hpeer _ _).trans (congrFun hl _)
    rw [hlink] at hend
    exact hend
  unfold World.restart
  cases hs : w.store n with
  | none =>
    rw [Option.map_none, ← hs, Function.update_eq_self]
    exact ⟨logs, { hends h rfl with }⟩
  | some s =>
    obtain ⟨zs, hzs, hfrom⟩ := batch_eq h n taken
    have hall : CollisionFree (bodies (logs n ++ zs)) := h.free hfree fun r hr =>
      (List.mem_append.mp hr).elim (fun hr => ⟨n, hr⟩) fun hr => ⟨n.peer, hfrom r hr⟩
    have hnew := (h.holds n s hs).ingest hall
    have hopen : Holds (Store.open (s.ingest B (bodies zs)).file) (logs n ++ missing (logs n) zs) := by
      rw [hnew.file]
      exact holds_open _
    rw [Option.map_some, hzs]
    exact ⟨_, { hends (h.ingest hs hfrom hopen) rfl with }⟩

theorem Sound.next (h : Sound w logs) (hfree : CollisionFree (bodies (w.recorded .a ++ w.recorded .b)))
    {e : Event B} (hok : w.Allowed e) : ∃ logs', Sound (w.next parse e) logs' := by
  cases e with
  | record n r => exact h.record n r
  | role n role => exact ⟨logs, { h with }⟩
  | queue n queue => exact ⟨logs, { h with }⟩
  | dial n => exact ⟨logs, h.dial hok n⟩
  | serve n pingDue => exact ⟨logs, h.serve n pingDue⟩
  | serveEnd n => exact ⟨logs, h.serveEnd n⟩
  | check n => exact ⟨logs, h.check n⟩
  | receive n saved => exact h.receive hfree n saved
  | pullEnd n => exact ⟨logs, h.hangUp n⟩
  | restart n taken => exact h.restart hfree n taken

theorem recorded_handle (w : World B) (n : Side) (l : Link) (saved : Bool) (m : Msg) :
    (w.handle parse n l saved m).recorded = w.recorded := by
  cases m with
  | hello | challenge | auth | caughtUp | ping => rfl
  | history first stop frames =>
    unfold World.handle
    dsimp only
    split
    · rfl
    · rfl
  | sms json =>
    unfold World.handle
    dsimp only
    split
    · rfl
    · rfl

/-- Only a node's own records are counted as recorded. -/
theorem recorded_next (w : World B) {e : Event B} (he : ∀ n r, e ≠ .record n r) : (w.next parse e).recorded = w.recorded := by
  cases e with
  | record n r => exact absurd rfl (he n r)
  | role | queue | serveEnd | pullEnd | restart => rfl
  | dial n =>
    change (w.dial n).recorded = _
    unfold World.dial
    split
    · rfl
    · rfl
  | serve n pingDue =>
    change (w.serve n pingDue).recorded = _
    unfold World.serve
    split
    · split
      · rfl
      · rfl
    · rfl
  | check n =>
    change (w.check n).recorded = _
    unfold World.check
    split
    · split
      · rfl
      · split
        · rfl
        · rfl
    · rfl
  | receive n saved =>
    change (w.receive parse n saved).recorded = _
    unfold World.receive
    split
    · split
      · split
        · split
          · exact recorded_handle w n _ saved _
          · rfl
        · rfl
      · rfl
    · rfl

/-- Nothing that was recorded is forgotten. -/
theorem recorded_grows (w : World B) (e : Event B) (n : Side) : w.recorded n <+: (w.next parse e).recorded n := by
  by_cases he : ∀ m r, e ≠ .record m r
  · rw [recorded_next w he]
  · push Not at he
    obtain ⟨m, r, rfl⟩ := he
    change w.recorded n <+: (w.record m r).recorded n
    unfold World.record
    split
    · change w.recorded n <+: Function.update w.recorded m (w.recorded m ++ [r]) n
      by_cases hn : n = m
      · subst hn
        rw [Function.update_self]
        exact List.prefix_append _ _
      · rw [Function.update_of_ne hn]
    · exact List.prefix_refl _

theorem sound_start (smsEnabled : Side → Bool) (rs : Side → Option (List B.Stored)) :
    Sound (start smsEnabled rs) (fun n => (rs n).getD []) where
  holds n s hs := by
    obtain ⟨xs, hxs, rfl⟩ := Option.map_eq_some_iff.mp hs
    rw [hxs]
    exact holds_open xs
  bare n hs := by rw [Option.map_eq_none_iff.mp hs]; rfl
  unasked n _ l hl := by cases hl
  own n r hr := hr
  known n r hr := ⟨n, hr⟩
  once n r := Nat.le_succ _
  vouched n r hr := absurd hr List.not_mem_nil
  offset n := ⟨[], _, rfl, rfl, fun r hr => absurd hr List.not_mem_nil⟩
  link n l hl := by cases hl
  synced n hs := by cases hs

theorem Sound.mirrored (h : Sound w logs) : Mirrored w where
  own n r hr := by
    rw [logged_eq h]
    exact List.mem_map_of_mem (h.own n r hr)
  known n r hr := by
    rw [logged_eq h] at hr
    obtain ⟨r', hr', rfl⟩ := List.mem_map.mp hr
    obtain ⟨m, hm⟩ := h.known n r' hr'
    exact ⟨m, r', hm, rfl⟩
  once n r := by
    rw [logged_eq h, List.count_map_of_injective _ _ Subtype.val_injective]
    exact h.once n r
  vouched n r hr := by
    rw [logged_eq h]
    exact h.vouched n r hr
  synced := h.synced
  drained n l s hl hw hs ho r hr := by
    rw [logged_eq h] at hr ⊢
    obtain ⟨pre, post, tail, hsource, -, hpre, hcarries, hoff, -, -⟩ := (h.link n l hl).parts
    rw [hw] at hcarries
    have hsame : pre = post := hcarries
    have hlen := hoff _ ho
    rw [(h.holds n.peer s hs).file, hsource, log_append, List.length_append] at hlen
    have htail : tail = [] := by
      by_contra hne
      have hlog : log B tail ≠ [] := frames_ne_nil fun hc => hne (List.map_eq_nil_iff.mp hc)
      have hpos := List.length_pos_iff.mpr hlog
      omega
    obtain ⟨r', hr', rfl⟩ := List.mem_map.mp hr
    rw [hsource, htail, List.append_nil, ← hsame] at hr'
    exact List.mem_map_of_mem (hpre r' hr')

end Sound

/-- Whatever happens to the nodes, their connections and their processes, the logs keep up. -/
theorem mirrored_of_reach {parse : Bytes → Option SmsFile} {smsEnabled : Side → Bool} {rs : Side → Option (List B.Stored)}
    {w : World B} (h : Reach (start smsEnabled rs) Allowed (next parse) w)
    (hfree : CollisionFree (bodies (w.recorded .a ++ w.recorded .b))) : Mirrored w := by
  have hsound : ∃ logs, Sound w logs := by
    induction h with
    | init => exact ⟨_, sound_start smsEnabled rs⟩
    | step hr hok ih =>
      rename_i w e
      have hbefore : CollisionFree (bodies (w.recorded .a ++ w.recorded .b)) := hfree.of_subset fun r hr => by
        rcases List.mem_append.mp hr with hr | hr
        · exact List.mem_append_left _ ((recorded_grows w e .a).subset hr)
        · exact List.mem_append_right _ ((recorded_grows w e .b).subset hr)
      obtain ⟨logs, hlogs⟩ := ih hbefore
      exact hlogs.next hbefore hok
  obtain ⟨logs, hlogs⟩ := hsound
  exact hlogs.mirrored

/-- The Standby crashes in the middle of a batch, and takes the log again. -/
def crashed : List (Event Layout.bincode) :=
  [.role .a .active, .role .b .standby, .record .a (reportOf 1), .record .a (reportOf 2), .dial .b, .serve .b false,
    .serve .b false, .check .b, .restart .b 1, .role .b .standby, .dial .b, .serve .b false, .serve .b false,
    .serve .b false, .record .a (reportOf 4), .serve .b false, .check .b, .receive .b true, .check .b, .receive .b true,
    .check .b, .receive .b true]

/-- The nodes, with a record that only the Standby has. -/
def pair : World Layout.bincode := start (fun _ => true) fun n => some (if n = .b then [reportOf 3] else [])

theorem mirrored_crashed :
    (crashed.foldl (next fun _ => none) pair).synced .b = true ∧
      (crashed.foldl (next fun _ => none) pair).logged .b = [.sdsReport 3, .sdsReport 1, .sdsReport 2] ∧
      Mirrored (crashed.foldl (next fun _ => none) pair) := by
  have hfree : CollisionFree (bodies ((crashed.foldl (next fun _ => none) pair).recorded .a ++
      (crashed.foldl (next fun _ => none) pair).recorded .b)) := by decide +kernel
  have hrun : Reach pair Allowed (next fun _ => none) (crashed.foldl (next fun _ => none) pair) :=
    Reach.of_list crashed .init (by decide +kernel)
  exact ⟨by decide +kernel, by decide +kernel, mirrored_of_reach hrun hfree⟩

end World

end BrewServer.Ha.Mirror
