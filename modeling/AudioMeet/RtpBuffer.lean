import AudioMeet.Lib.Traced
import AudioMeet.RtpPacket

/-! `RtpPacket::parse` on a pointer and a length, with the types of the source: each read, and each length that it
    computes as an `int` or a `size_t`, is recorded. -/

namespace AudioMeet.RtpPacket
open Lib Traced

inductive Access
  /-- `data[i]` -/
  | read (i : UInt64)
  /-- a length computed as an `int`: the value that it should have -/
  | int (value : Int)
  /-- a length computed as a `size_t` -/
  | size (value : Int)
  /-- `count` bytes from `data + first` on are copied -/
  | copy (first count : UInt64)
deriving DecidableEq

abbrev Reader := Traced Access

namespace Reader

def read (data : UInt64 → UInt8) (i : UInt64) : Reader UInt8 := record (.read i) (data i)

/-- On `int`, where an overflow has no meaning. -/
def intAdd (a b : Int) : Reader Int := record (.int (a + b)) (a + b)

def intMul (a b : Int) : Reader Int := record (.int (a * b)) (a * b)

/-- On `size_t`, which wraps. -/
def sizeAdd (a b : UInt64) : Reader UInt64 := record (.size (a.toNat + b.toNat)) (a + b)

def sizeSub (a b : UInt64) : Reader UInt64 := record (.size (a.toNat - b.toNat)) (a - b)

/-- `payload.assign(data + first, data + first + count)` -/
def assign (data : UInt64 → UInt8) (first count : UInt64) : Reader Bytes := do
  let _ ← sizeAdd first count
  record (.copy first count) ((List.range count.toNat).map fun k => data (first + UInt64.ofNat k))

end Reader

open Reader

def headerLenAt (data : UInt64 → UInt8) (len : UInt64) (extension : Bool) (cc : UInt8) : Reader UInt64 := do
  let csrc ← intMul cc.toNat 4
  let header_len := UInt64.ofInt (← intAdd 12 csrc)
  if len < header_len then stop
  else
    let header_len ←
      if extension then
        let room ← sizeAdd header_len 4
        if len < room then stop
        else do
          let hi ← read data (← sizeAdd header_len 2)
          let lo ← read data (← sizeAdd header_len 3)
          let ext_len := ofBe16 hi lo
          let words ← intMul ext_len.toNat 4
          sizeAdd header_len (UInt64.ofInt (← intAdd 4 words))
      else pure header_len
    if len < header_len then stop else pure header_len

def payloadLenAt (data : UInt64 → UInt8) (len : UInt64) (padding : Bool) (header_len : UInt64) : Reader UInt64 := do
  let payload_len ← sizeSub len header_len
  if padding && decide (payload_len > 0) then do
    let pad_count ← read data (← sizeSub len 1)
    if pad_count.toUInt64 > payload_len then stop else sizeSub payload_len pad_count.toUInt64
  else pure payload_len

/-- `parse(data, len)`: the bytes behind the pointer `data` are those of the buffer only up to `len`. -/
def parseAt (data : UInt64 → UInt8) (len : UInt64) : Reader RtpPacket := do
  if len < 12 then stop
  else
    let b0 ← read data 0
    let version := (b0 >>> 6) &&& 0x03
    if version ≠ 2 then stop
    else
      let padding := decide (b0 &&& 0x20 ≠ 0)
      let extension := decide (b0 &&& 0x10 ≠ 0)
      let cc := b0 &&& 0x0F
      let b1 ← read data 1
      let sequence := ofBe16 (← read data 2) (← read data 3)
      let timestamp := ofBe32 (← read data 4) (← read data 5) (← read data 6) (← read data 7)
      let ssrc := ofBe32 (← read data 8) (← read data 9) (← read data 10) (← read data 11)
      let header_len ← headerLenAt data len extension cc
      let payload_len ← payloadLenAt data len padding header_len
      let payload ← assign data header_len payload_len
      pure
        { version, padding, extension, sequence, timestamp, ssrc, payload
          marker := decide (b1 &&& 0x80 ≠ 0)
          payload_type := b1 &&& 0x7F }

end AudioMeet.RtpPacket
