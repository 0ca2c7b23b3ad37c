import BrewServer.Lib.LeBytes

/-!
# G.711 companding

Mu-law and A-law, one byte a sample.
-/

namespace BrewServer.G711

def ulawBias : ℕ := 0x84
def ulawClip : ℕ := 32635

/-- Upper bound (inclusive) of each of the 8 mu-law segments, on the bias-added magnitude. -/
def ulawSegEnd : List ℕ := [0xff, 0x1ff, 0x3ff, 0x7ff, 0xfff, 0x1fff, 0x3fff, 0x7fff]

/-- The first segment that holds a value. -/
def search (val : ℕ) (table : List ℕ) : ℕ := table.findIdx fun segEnd => decide (val ≤ segEnd)

def ulawEncode (pcm : Int16) : UInt8 :=
  let sign : UInt8 := if pcm.toInt < 0 then 0x80 else 0
  let sample := min pcm.toInt.natAbs ulawClip + ulawBias
  let exponent := search sample ulawSegEnd
  let mantissa := (sample >>> (exponent + 3)) &&& 0x0f
  ~~~(sign ||| (UInt8.ofNat exponent <<< 4) ||| UInt8.ofNat mantissa)

def ulawDecode (code : UInt8) : Int16 :=
  let byte := ~~~code
  let sign := byte &&& 0x80
  let exponent := ((byte >>> 4) &&& 0x07).toNat
  let mantissa := (byte &&& 0x0f).toNat
  let sample := (((mantissa <<< 3) + ulawBias) <<< exponent) - ulawBias
  if sign ≠ 0 then Int16.ofInt (-sample) else Int16.ofInt sample

/-- Upper bound (inclusive) of each of the 8 A-law segments, on the (magnitude >> 3) value. -/
def alawSegEnd : List ℕ := [0x1f, 0x3f, 0x7f, 0xff, 0x1ff, 0x3ff, 0x7ff, 0xfff]

def alawEncode (pcm : Int16) : UInt8 :=
  let shifted := pcm.toInt / 8
  let mask : UInt8 := if 0 ≤ shifted then 0xd5 else 0x55
  let sample := if 0 ≤ shifted then shifted.toNat else (-shifted - 1).toNat
  let seg := search sample alawSegEnd
  if 8 ≤ seg then 0x7f ^^^ mask
  else
    let mantissa := (if seg < 2 then sample >>> 1 else sample >>> seg) &&& 0x0f
    ((UInt8.ofNat seg <<< 4) ||| UInt8.ofNat mantissa) ^^^ mask

def alawDecode (code : UInt8) : Int16 :=
  let byte := code ^^^ 0x55
  let sign := byte &&& 0x80
  let seg := ((byte &&& 0x70) >>> 4).toNat
  let mantissa := (byte &&& 0x0f).toNat
  let sample := if seg = 0 then (mantissa <<< 4) + 8 else ((mantissa <<< 4) + 0x108) <<< (seg - 1)
  if sign = 0 then Int16.ofInt (-sample) else Int16.ofInt sample

end BrewServer.G711
