import Mathlib.Data.List.Basic
import Mathlib.Data.Int.Basic

/-! G.711 A-law (`src/g711.h`). A C `int` that never leaves its range is a `Nat` or an `Int`; an `int16_t`
    is an `Int16`, so that storing back to one wraps. -/

namespace AudioMeet.G711Alaw

/-- The `switch (seg)` of `decodeSample`. -/
def segmentLevel (seg t : Nat) : Nat :=
  match seg with
  | 0 => t + 8
  | 1 => t + 0x108
  | seg => (t + 0x108) <<< (seg - 1)

/-- Decodes a single A-law byte to a 16-bit signed PCM sample. -/
def decodeSample (alaw : UInt8) : Int16 :=
  let alaw := alaw ^^^ 0x55
  let t := (alaw &&& 0x0F).toNat <<< 4
  let seg := ((alaw &&& 0x70) >>> 4).toNat
  let t := segmentLevel seg t
  Int16.ofInt (if alaw &&& 0x80 ≠ 0 then (t : Int) else -(t : Int))

/-- `seg_end` of `encodeSample`. -/
def seg_end : List Int := [0xFF, 0x1FF, 0x3FF, 0x7FF, 0xFFF, 0x1FFF, 0x3FFF, 0x7FFF]

/-- `for (seg = 1; seg < 8; seg++) if (low_level_pcm <= seg_end[seg]) break;` -/
def segment (low_level_pcm : Int) : Nat :=
  ((List.range' 1 7).find? fun seg => decide (low_level_pcm ≤ seg_end.getD seg 0)).getD 8

/-- Encodes a 16-bit signed PCM sample to an A-law byte. -/
def encodeSample (pcm : Int16) : UInt8 :=
  let sign := ((pcm.toUInt16 &&& 0x8000) >>> 8).toNat
  -- `pcm = -pcm` stores an `int` back to an `int16_t`: -(-32768) is -32768 again.
  let pcm := if sign ≠ 0 then -pcm else pcm
  let pcm := if pcm > 32635 then 32635 else pcm
  let low_level_pcm := pcm.toInt
  let seg := if low_level_pcm ≥ 256 then segment low_level_pcm else 0
  let low_level_pcm := if low_level_pcm ≥ 256 then low_level_pcm >>> (seg + 3) else low_level_pcm >>> (4 : Nat)
  -- `& 0x0F` of a two's complement `int` is its remainder by 16, also below zero.
  let alaw := UInt8.ofNat (sign ||| (seg <<< 4) ||| (low_level_pcm % 16).toNat)
  alaw ^^^ 0x55

/-- The loop of `decodeBuffer` and `encodeBuffer`: `dst[i] = f(src[i])` for `i < count`; nothing when it
    leaves one of the buffers. -/
def storeEach {α β : Type} (f : α → β) (src : List α) (dst : List β) : Nat → Option (List β)
  | 0 => some dst
  | i + 1 => do
    let dst ← storeEach f src dst i
    let x ← src[i]?
    if i < dst.length then some (dst.set i (f x)) else none

def decodeBuffer (src : List UInt8) (dst : List Int16) (count : Nat) : Option (List Int16) :=
  storeEach decodeSample src dst count

def encodeBuffer (src : List Int16) (dst : List UInt8) (count : Nat) : Option (List UInt8) :=
  storeEach encodeSample src dst count

end AudioMeet.G711Alaw
