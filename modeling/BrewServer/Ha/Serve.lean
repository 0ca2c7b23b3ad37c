import BrewServer.Sms.Export
import BrewServer.Store.Log

/-!
# The replication connection

The active node streams its log and its SMS queue as framed messages. The
sender frames whatever it has; the receiver refuses a frame over a fixed size.
-/

namespace BrewServer.Ha

open Frames Storage Sms

abbrev Nonce := { bs : Bytes // bs.length = 16 }

inductive Msg
  | hello (node : Text) (nonce : Nonce) (historyFrom : Option UInt64) (wantSms : Bool)
  | challenge (nonce : Nonce) (mac : Bytes)
  | auth (mac : Bytes)
  /-- Complete log frames covering bytes `start` to `stop` of the log. -/
  | history (start stop : UInt64) (frames : Bytes)
  | sms (json : Bytes)
  | caughtUp
  | ping

def maxFrame : ℕ := 16 <<< 20

def historyChunk : ℕ := 256 <<< 10

/-! ## Framing -/

namespace Msg

def vec (bs : Bytes) : Bytes := toLe 8 bs.length ++ bs

/-- `bincode::serialize`. -/
def encode : Msg → Bytes
  | .hello node nonce historyFrom wantSms =>
    toLe 4 0 ++ (Layout.text.encode node ++ (nonce.1 ++ ((Codec.option Layout.u64).encode historyFrom ++
      Codec.bool.encode wantSms)))
  | .challenge nonce mac => toLe 4 1 ++ (nonce.1 ++ vec mac)
  | .auth mac => toLe 4 2 ++ vec mac
  | .history start stop frames => toLe 4 3 ++ (Layout.u64.encode start ++ (Layout.u64.encode stop ++ vec frames))
  | .sms json => toLe 4 4 ++ vec json
  | .caughtUp => toLe 4 5
  | .ping => toLe 4 6

def payload (tag : ℕ) (bs : Bytes) : Option Msg :=
  match tag with
  | 0 => ((Layout.text.pair ((Codec.fixed 16).pair ((Codec.option Layout.u64).pair .bool))).read bs).map
      fun p => .hello p.1 p.2.1 p.2.2.1 p.2.2.2
  | 1 => (((Codec.fixed 16).pair (.counted 8)).read bs).map fun p => .challenge p.1 p.2.1
  | 2 => ((Codec.counted 8).read bs).map fun mac => .auth mac.1
  | 3 => ((Layout.u64.pair (Layout.u64.pair (.counted 8))).read bs).map fun p => .history p.1 p.2.1 p.2.2.1
  | 4 => ((Codec.counted 8).read bs).map fun json => .sms json.1
  | 5 => some .caughtUp
  | 6 => some .ping
  | _ => none

/-- `bincode::deserialize`. -/
def decode (body : Bytes) : Option Msg := ((Codec.nat 4).decode body).bind fun r => payload r.1.1 r.2

end Msg

def send (m : Msg) : Bytes := frame m.encode

/-- One message off the stream; `none` is its error. -/
def recv (stream : Bytes) : Option (Msg × Bytes) :=
  if stream.length < 4 then none
  else
    let len := frameLength stream
    if maxFrame < len then none
    else if (stream.drop 4).length < len then none
    else (Msg.decode ((stream.drop 4).take len)).map fun m => (m, stream.drop (4 + len))

/-- The message is within the limit, and the other side takes it off the stream. -/
def Accepted (m : Msg) : Prop := m.encode.length ≤ maxFrame ∧ ∀ rest : Bytes, recv (send m ++ rest) = some (m, rest)

theorem Msg.decode_tag (k : ℕ) (hk : k < 256 ^ 4) (rest : Bytes) : Msg.decode (toLe 4 k ++ rest) = Msg.payload k rest := by
  have hread : (Codec.nat 4).decode (toLe 4 k ++ rest) = some (⟨k, hk⟩, rest) :=
    (Codec.nat 4).decode_encode ⟨k, hk⟩ rest
  rw [Msg.decode, hread]
  rfl

theorem Msg.length_vec_lt {bs : Bytes} (h : (Msg.vec bs).length ≤ maxFrame) : bs.length < 256 ^ 8 := by
  have hmax : maxFrame < 256 ^ 8 := by decide
  rw [Msg.vec, List.length_append] at h
  omega

/-- A byte string is read behind its count. -/
theorem Msg.read_vec {bs : Bytes} (h : bs.length < 256 ^ 8) : (Codec.counted 8).read (Msg.vec bs) = some ⟨bs, h⟩ :=
  (Codec.counted 8).read_encode ⟨bs, h⟩

theorem Msg.decode_encode {m : Msg} (h : m.encode.length ≤ maxFrame) : Msg.decode m.encode = some m := by
  cases m with
  | hello node nonce historyFrom wantSms =>
    have hread := (Layout.text.pair ((Codec.fixed 16).pair ((Codec.option Layout.u64).pair .bool))).read_encode
      (node, nonce, historyFrom, wantSms)
    rw [Codec.encode_pair, Codec.encode_pair, Codec.encode_pair, Codec.encode_fixed] at hread
    rw [Msg.encode, Msg.decode_tag 0 (by decide), Msg.payload, hread]
    rfl
  | challenge nonce mac =>
    rw [Msg.encode, List.length_append, List.length_append] at h
    have hread := ((Codec.fixed 16).pair (.counted 8)).read_encode (nonce, ⟨mac, Msg.length_vec_lt (by omega)⟩)
    rw [Codec.encode_pair, Codec.encode_fixed, Codec.encode_counted] at hread
    rw [Msg.encode, Msg.decode_tag 1 (by decide), Msg.payload, Msg.vec, hread]
    rfl
  | auth mac =>
    rw [Msg.encode, List.length_append] at h
    rw [Msg.encode, Msg.decode_tag 2 (by decide), Msg.payload, Msg.read_vec (Msg.length_vec_lt (by omega))]
    rfl
  | history start stop frames =>
    rw [Msg.encode, List.length_append, List.length_append, List.length_append] at h
    have hread := (Layout.u64.pair (Layout.u64.pair (.counted 8))).read_encode
      (start, stop, ⟨frames, Msg.length_vec_lt (by omega)⟩)
    rw [Codec.encode_pair, Codec.encode_pair, Codec.encode_counted] at hread
    rw [Msg.encode, Msg.decode_tag 3 (by decide), Msg.payload, Msg.vec, hread]
    rfl
  | sms json =>
    rw [Msg.encode, List.length_append] at h
    rw [Msg.encode, Msg.decode_tag 4 (by decide), Msg.payload, Msg.read_vec (Msg.length_vec_lt (by omega))]
    rfl
  | caughtUp =>
    have h5 := Msg.decode_tag 5 (by decide) []
    rw [List.append_nil] at h5
    exact h5
  | ping =>
    have h6 := Msg.decode_tag 6 (by decide) []
    rw [List.append_nil] at h6
    exact h6

/-- Everything within the limit is accepted. -/
theorem accepted_iff_length {m : Msg} : Accepted m ↔ m.encode.length ≤ maxFrame := by
  refine ⟨fun h => h.1, fun h => ⟨h, fun rest => ?_⟩⟩
  have hmax : maxFrame < 256 ^ 4 := by decide
  have hlen : frameLength (frame m.encode ++ rest) = m.encode.length := frameLength_frame (by omega) rest
  have hdrop : (frame m.encode ++ rest).drop 4 = m.encode ++ rest := by
    rw [frame, List.append_assoc, List.drop_left' (length_toLe 4 _)]
  have hrest : (frame m.encode ++ rest).drop (4 + m.encode.length) = rest := by
    rw [← length_frame, List.drop_left]
  unfold recv send
  rw [if_neg (by rw [List.length_append, length_frame]; omega)]
  dsimp only
  rw [hlen, if_neg (by omega), hdrop, if_neg (by rw [List.length_append]; omega), List.take_left, m.decode_encode h,
    hrest]
  rfl

/-! ## The serving loop -/

/-- What the active node has to send. -/
structure Active where
  store : Option Store
  sms : SmsFile
  smsEnabled : Bool
  revision : UInt64

/-- The variables of the loop. -/
structure Connection where
  wantSms : Bool
  /-- How far the log was sent, if the standby wants it. -/
  offset : Option ℕ
  smsRev : UInt64 := 0
  caughtUp : Bool := false

/-- The log from an offset in batches, and where they end. -/
def histories (s : Store) : ℕ → ℕ → List Msg × ℕ
  | 0, off => ([], off)
  | fuel + 1, off =>
    let (start, frames, stop) := s.readFrames off historyChunk
    if frames = [] then ([], stop)
    else
      let rest := histories s fuel stop
      (.history (UInt64.ofNat start) (UInt64.ofNat stop) frames :: rest.1, rest.2)

/-- The log's part of a round, and the offset it leaves. -/
def sendLog (a : Active) (c : Connection) : List Msg × Option ℕ :=
  match a.store, c.offset with
  | some s, some off => (histories s (s.file.length + 1) off).map id some
  | _, offset => ([], offset)

def smsDue (a : Active) (c : Connection) : Bool := c.wantSms && a.smsEnabled && a.revision ≠ c.smsRev

/-- What one round sends, and what it leaves. -/
def round (a : Active) (c : Connection) (pingDue : Bool) : List Msg × Connection :=
  let (log, offset) := sendLog a c
  let sms := if smsDue a c then [Msg.sms a.sms.export] else []
  let sent := log ++ sms ++ if c.caughtUp then [] else [.caughtUp]
  (if sent.isEmpty && pingDue then [.ping] else sent,
    { c with offset, smsRev := if smsDue a c then a.revision else c.smsRev, caughtUp := true })

/-- The records of the log from the offset on, and the queue where it is due, are
small enough. -/
structure Fits (a : Active) (c : Connection) : Prop where
  log : ∀ s ∈ a.store, ∀ off ∈ c.offset, ∀ body ∈ (splitFrames (s.file.drop (startOf s off))).1,
    body.length + 32 ≤ maxFrame
  sms : smsDue a c = true → a.sms.exportSize + 12 ≤ maxFrame

/-! ### Reading the log -/

section Read

variable {s : Store} {off : ℕ} {bodies : List Bytes} {rest : Bytes}

/-- Where a read ended, the next one starts. -/
theorem startOf_add (hdrop : s.file.drop (startOf s off) = frames bodies ++ rest) {zs ws : List Bytes}
    (hsplit : bodies = zs ++ ws) :
    startOf s (startOf s off + (frames zs).length) = startOf s off + (frames zs).length ∧
      s.file.drop (startOf s off + (frames zs).length) = frames ws ++ rest := by
  have hle := @startOf_le s off
  have hlen := congrArg List.length hdrop
  rw [List.length_drop, hsplit, frames_append, List.append_assoc, List.length_append] at hlen
  refine ⟨if_neg (by omega), ?_⟩
  rw [← List.drop_drop, hdrop, hsplit, frames_append, List.append_assoc, List.drop_left]

theorem length_encode_history (start stop : UInt64) (bs : Bytes) :
    (Msg.history start stop bs).encode.length = 28 + bs.length := by
  have hu (x : UInt64) : (Layout.u64.encode x).length = 8 := length_toLe 8 _
  rw [Msg.encode, Msg.vec, List.length_append, List.length_append, List.length_append, List.length_append, hu, hu,
    length_toLe, length_toLe]
  omega

/-- A batch is small enough exactly when each of its records is. -/
theorem accepted_history {zs : List Bytes} (hne : zs ≠ []) (hsize : (frames zs).length ≤ historyChunk ∨ ∃ z, zs = [z])
    (start stop : UInt64) :
    Accepted (.history start stop (frames zs)) ↔ ∀ body ∈ zs, body.length + 32 ≤ maxFrame := by
  have hmax : historyChunk + 32 ≤ maxFrame := by decide
  rw [accepted_iff_length, length_encode_history]
  rcases hsize with hle | ⟨z, rfl⟩
  · refine ⟨fun _ body hbody => ?_, fun _ => by omega⟩
    have hpart := (List.sublist_flatten_of_mem (List.mem_map_of_mem (f := frame) hbody)).length_le
    rw [← List.flatMap_def, length_frame] at hpart
    have hall : (frames zs).length = (zs.flatMap frame).length := rfl
    omega
  · rw [frames_cons, frames_nil, List.append_nil, length_frame]
    constructor
    · intro h body hbody
      rw [List.mem_singleton.mp hbody]
      omega
    · intro h
      have hz := h z List.mem_cons_self
      omega

/-- What the loop sends of the log. -/
theorem accepted_histories (fuel : ℕ) (hb : Framable bodies) (hr : ¬ HasFrame rest)
    (hdrop : s.file.drop (startOf s off) = frames bodies ++ rest) (hfuel : bodies.length < fuel) :
    (∀ m ∈ (histories s fuel off).1, Accepted m) ↔ ∀ body ∈ bodies, body.length + 32 ≤ maxFrame := by
  induction fuel generalizing off bodies with
  | zero => exact absurd hfuel (Nat.not_lt_zero _)
  | succ fuel ih =>
    obtain ⟨zs, ws, hsplit, hne, hread, hsize⟩ := readFrames_frames hb hr hdrop (show 4 ≤ historyChunk by decide)
    rw [histories, hread]
    dsimp only
    by_cases hz : zs = []
    · have hnil : bodies = [] := by
        by_contra hb
        exact hne hb hz
      rw [hz, hnil, if_pos frames_nil]
      exact ⟨fun _ body hbody => absurd hbody List.not_mem_nil, fun _ m hm => absurd hm List.not_mem_nil⟩
    · have hframes : frames zs ≠ [] := by
        obtain ⟨z, zs, rfl⟩ := List.exists_cons_of_ne_nil hz
        intro hnil
        have hlen := congrArg List.length hnil
        rw [frames_cons, List.length_append, length_frame, List.length_nil] at hlen
        omega
      obtain ⟨hstart, hrest⟩ := startOf_add hdrop hsplit
      have hpos := List.length_pos_iff.mpr hz
      have hws : Framable ws := fun b hbw => hb b (hsplit ▸ List.mem_append_right _ hbw)
      have hnext := @ih (startOf s off + (frames zs).length) ws hws (by rw [hstart]; exact hrest)
        (by rw [hsplit, List.length_append] at hfuel; omega)
      rw [if_neg hframes, List.forall_mem_cons, hnext, accepted_history hz hsize, hsplit, List.forall_mem_append]

end Read

theorem accepted_sms (d : SmsFile) : Accepted (.sms d.export) ↔ d.exportSize + 12 ≤ maxFrame := by
  rw [accepted_iff_length, Msg.encode, Msg.vec, List.length_append, List.length_append, length_toLe, length_toLe,
    length_export]
  omega

theorem accepted_of_small {m : Msg} (h : m.encode.length ≤ 60) : Accepted m :=
  accepted_iff_length.mpr (h.trans (by decide))

/-- A ping stands for a round that sends nothing. -/
theorem accepted_or_ping (sent : List Msg) (pingDue : Bool) :
    (∀ m ∈ if sent.isEmpty && pingDue then [Msg.ping] else sent, Accepted m) ↔ ∀ m ∈ sent, Accepted m := by
  split
  · next hping =>
    rw [List.isEmpty_iff.mp (Bool.and_eq_true_iff.mp hping).1, List.forall_mem_singleton]
    exact ⟨fun _ m hm => absurd hm List.not_mem_nil, fun _ => accepted_of_small (by decide)⟩
  · exact Iff.rfl

theorem accepted_challenge (nonce : Nonce) (mac : { bs : Bytes // bs.length = 32 }) :
    Accepted (.challenge nonce mac.1) := by
  refine accepted_of_small (le_of_eq ?_)
  rw [Msg.encode, Msg.vec, List.length_append, List.length_append, List.length_append, length_toLe, length_toLe,
    nonce.2, mac.2]

theorem accepted_sendLog (a : Active) (c : Connection) :
    (∀ m ∈ (sendLog a c).1, Accepted m) ↔ ∀ s ∈ a.store, ∀ off ∈ c.offset,
      ∀ body ∈ (splitFrames (s.file.drop (startOf s off))).1, body.length + 32 ≤ maxFrame := by
  unfold sendLog
  split
  · next s off hs hoff =>
    obtain ⟨bodies, rest, hb, hr, hdrop⟩ := exists_frames (s.file.drop (startOf s off))
    have hsplit : (splitFrames (s.file.drop (startOf s off))).1 = bodies := by
      rw [hdrop, splitFrames_frames hb, splitFrames_none hr, List.append_nil]
    have hfuel : bodies.length < s.file.length + 1 := by
      have hlen := congrArg List.length hdrop
      have hmany := length_le_frames bodies
      rw [List.length_drop, List.length_append] at hlen
      omega
    rw [hs, hoff]
    simp only [Option.mem_def, Option.some.injEq, forall_eq', hsplit]
    exact accepted_histories _ hb hr hdrop hfuel
  · next hnot =>
    refine ⟨fun _ s hs off hoff => ?_, fun _ m hm => absurd hm List.not_mem_nil⟩
    exact absurd hoff (hnot s off hs)

/-- Exactly when the records of the log and the queue are small enough is each
message of a connection's round within the limit and accepted. -/
theorem round_accepted_iff (a : Active) (c : Connection) (pingDue : Bool) (nonce : Nonce)
    (mac : { bs : Bytes // bs.length = 32 }) :
    (∀ m ∈ .challenge nonce mac.1 :: (round a c pingDue).1, Accepted m) ↔ Fits a c := by
  have hcaught : ∀ m ∈ (if c.caughtUp then [] else [Msg.caughtUp]), Accepted m := fun m hm => by
    split at hm
    · cases hm
    · rw [List.mem_singleton.mp hm]
      exact accepted_of_small (by decide)
  have hsms : (∀ m ∈ (if smsDue a c then [Msg.sms a.sms.export] else []), Accepted m) ↔
      (smsDue a c = true → a.sms.exportSize + 12 ≤ maxFrame) := by
    split
    · next hdue => rw [List.forall_mem_singleton, accepted_sms]; exact ⟨fun h _ => h, fun h => h hdue⟩
    · next hdue => exact ⟨fun _ h => absurd h hdue, fun _ m hm => absurd hm List.not_mem_nil⟩
  have hsent : (∀ m ∈ (round a c pingDue).1, Accepted m) ↔
      ∀ m ∈ (sendLog a c).1 ++ (if smsDue a c then [Msg.sms a.sms.export] else []) ++
        if c.caughtUp then [] else [Msg.caughtUp], Accepted m := by
    rcases hlog : sendLog a c with ⟨log, offset⟩
    rw [round, hlog]
    exact accepted_or_ping _ pingDue
  rw [List.forall_mem_cons, hsent, List.forall_mem_append, List.forall_mem_append, accepted_sendLog, hsms]
  exact ⟨fun h => ⟨h.2.1.1, h.2.1.2⟩, fun h => ⟨accepted_challenge nonce mac, ⟨h.log, h.sms⟩, hcaught⟩⟩

/-- The first message of a queue is stored as it is. -/
theorem store_first {data : Bytes} {pid : UInt8} (hpid : data.head? = some pid) (hallowed : pid ∉ [(0x0a : UInt8)])
    (hlen : 1 ≤ data.length) (id : Uuid) (source destination : UInt32) (now : UInt64) :
    ∃ m : StoredSms, m.data = data ∧
      (SmsFile.store {} {} id source destination 8 data now).1 = { messages := [m] } := by
  unfold SmsFile.store
  rw [if_neg (by decide), hpid]
  dsimp only
  have hbits : ((8 : UInt16).toNat + 7) / 8 = 1 := by decide
  rw [if_neg hallowed, hbits, if_neg (Nat.not_lt.mpr hlen), List.find?_nil]
  dsimp only
  rw [List.countP_nil, List.length_nil, if_neg (by decide)]
  exact ⟨_, rfl, rfl⟩

/-- One message of eight megabytes is stored, and the queue cannot be sent. -/
theorem round_refused :
    ¬ ∀ (ops : List Op) (c : Connection) (m : Msg),
      m ∈ (round { store := none, sms := ops.foldl (SmsFile.apply {}) {}, smsEnabled := true, revision := 2 } c false).1 →
        Accepted m := by
  intro h
  obtain ⟨data, hdata⟩ : ∃ data : Bytes, data = List.replicate (2 ^ 23) 0x83 := ⟨_, rfl⟩
  have hlen : data.length = 2 ^ 23 := by rw [hdata, List.length_replicate]
  have hpid : data.head? = some 0x83 := by rw [hdata, List.head?_replicate, if_neg (by decide)]
  obtain ⟨m, hm, hqueue⟩ := store_first hpid (by decide) (by omega) 1#128 1001 1002 0
  have hsize : m.size ≤ SmsFile.exportSize { messages := [m] } := by
    unfold SmsFile.exportSize
    simp only [List.map_cons, List.map_nil, List.sum_cons, List.sum_nil]
    omega
  have haccepted := h [.store 1#128 1001 1002 8 data 0] { wantSms := true, offset := none }
    (.sms (SmsFile.export { messages := [m] })) (by
      rw [List.foldl_cons, List.foldl_nil, SmsFile.apply, hqueue]
      exact List.mem_cons_self)
  have hlong := two_mul_length_le_size m
  have hmax : maxFrame = 2 ^ 24 := by decide
  rw [accepted_sms, hmax] at haccepted
  rw [hm, hlen] at hlong
  omega

end BrewServer.Ha
