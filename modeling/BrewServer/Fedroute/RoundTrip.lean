import BrewServer.Fedroute.AdvertWire

/-!
# The federation codec

What is built is parsed back, and anything at all is parsed: to a message whose path, if
it carries one, is one the neighbour could have sent, or to an error.
-/

namespace BrewServer.Fedroute

open Protocol

namespace FedMessage

/-- The bytes of a message that tells something. -/
def build? : FedMessage → Option Bytes
  | .withdraw issi => some (buildWithdraw issi)
  | .route issi a => some (buildRoute issi a.reg a.path a.groups)
  | .prune id sourceIssi => some (buildPrune id sourceIssi)
  | .bts a => some (buildBts a)
  | .msPos a => some (buildMsPos a)
  | .emergency a => some (buildEmergency a)
  | .btsHello _ => none
  | .unknown _ => none

/-- A message with its texts cut. -/
def clipped : FedMessage → FedMessage
  | .bts a => .bts { a with key := clipText a.key, name := clipText a.name }
  | .msPos a => .msPos { a with station := clipText a.station }
  | .emergency a => .emergency { a with bts := clipText a.bts }
  | m => m

end FedMessage

/-- A called party of zero stands for none. -/
def NonZeroDest : FedMessage → Prop
  | .emergency a => a.dest ≠ some 0
  | _ => True

theorem wireDest_of_ne_zero {dest : Option UInt32} (h : dest ≠ some 0) : wireDest dest = dest := by
  cases dest with
  | none => rfl
  | some d =>
    have hd : d ≠ 0 := fun hz => h (congrArg some hz)
    rw [wireDest, Option.getD_some, if_pos hd]

theorem parse_build {m : FedMessage} {raw : Bytes} {nbrId : UInt64} (hbuild : m.build? = some raw)
    (hpath : ∀ path, m.path? = some path → PathFrom nbrId path) (hdest : NonZeroDest m) :
    parse raw nbrId = some (.ok m.clipped) := by
  cases m with
  | withdraw issi =>
    cases hbuild
    exact parse_buildWithdraw issi nbrId
  | route issi a =>
    cases hbuild
    exact parse_buildRoute issi a.reg a.groups (hpath a.path rfl)
  | prune id sourceIssi =>
    cases hbuild
    exact parse_buildPrune id sourceIssi nbrId
  | bts a =>
    cases hbuild
    exact parse_buildBts a (hpath a.path rfl)
  | msPos a =>
    cases hbuild
    exact parse_buildMsPos a (hpath a.path rfl)
  | emergency a =>
    cases hbuild
    rw [parse_buildEmergency a (hpath a.path rfl), wireDest_of_ne_zero hdest]
    rfl
  | btsHello version => cases hbuild
  | unknown msgType => cases hbuild

/-! ## Every byte string -/

/-- A text is cut at the last character boundary that leaves at most `maxBtsText` bytes. -/
theorem clip_spec (s : String) :
    ∃ n, clip s = (utf8Bytes s).take n ∧ n ≤ maxBtsText ∧ isCharBoundary (utf8Bytes s) n = true ∧
      ∀ j, j ≤ maxBtsText → j ≤ (utf8Bytes s).length → isCharBoundary (utf8Bytes s) j = true → j ≤ n := by
  obtain ⟨hle, hb⟩ := boundaryBefore_spec (utf8Bytes s) (min (utf8Bytes s).length maxBtsText)
  refine ⟨_, rfl, hle.trans (Nat.min_le_right _ _), hb, fun j hj hlen hbj => ?_⟩
  exact le_boundaryBefore (Nat.le_min.mpr ⟨hlen, hj⟩) hbj

/-- What is built of a message is parsed back by the neighbour it starts at, its texts cut;
and the parser reads any bytes at all without leaving them, and accepts no path that its
neighbour could not have sent. -/
theorem parse_inverts_build :
    (∀ (m : FedMessage) (raw : Bytes) (nbrId : UInt64), m.build? = some raw →
      (∀ path, m.path? = some path → PathFrom nbrId path) → NonZeroDest m → parse raw nbrId = some (.ok m.clipped)) ∧
    (∀ s : String, utf8Bytes (clipText s) = clip s ∧
      ∃ n, clip s = (utf8Bytes s).take n ∧ n ≤ maxBtsText ∧ isCharBoundary (utf8Bytes s) n = true ∧
        ∀ j, j ≤ maxBtsText → j ≤ (utf8Bytes s).length → isCharBoundary (utf8Bytes s) j = true → j ≤ n) ∧
    ∀ (raw : Bytes) (nbrId : UInt64), ∃ r, parse raw nbrId = some r ∧
      ∀ m path, r = .ok m → m.path? = some path → PathFrom nbrId path := by
  refine ⟨fun m raw nbrId => parse_build, fun s => ⟨utf8Bytes_clipText s, clip_spec s⟩, fun raw nbrId => ?_⟩
  obtain ⟨r, hr, hok⟩ := parse_settles raw nbrId
  exact ⟨r, hr, fun m path hm => (hok m hm).2 path⟩

theorem parse_build_emergency :
    parse (buildEmergency { issi := 4013, dest := some 91, bts := "Hill", active := true, seq := 7, path := [3, 5] }) 3 =
      some (.ok (.emergency { issi := 4013, dest := some 91, bts := "Hill", active := true, seq := 7, path := [3, 5] })) := by
  have h := parse_inverts_build.1
    (.emergency { issi := 4013, dest := some 91, bts := "Hill", active := true, seq := 7, path := [3, 5] }) _ 3 rfl
    (fun path hpath => by
      cases hpath
      exact { head := rfl, nodup := by decide, short := by decide })
    (by
      intro h
      cases h)
  rw [h, FedMessage.clipped, clipText_of_short (by decide +kernel)]

end BrewServer.Fedroute
