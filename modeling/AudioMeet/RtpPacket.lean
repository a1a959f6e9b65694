import AudioMeet.Lib.Bytes

/-! The RTP packet builder and parser (`src/rtp_packet.h`, `src/rtp_packet.cpp`). -/

namespace AudioMeet
open Lib

structure RtpPacket where
  version : UInt8 := 2
  padding : Bool := false
  extension : Bool := false
  marker : Bool := false
  payload_type : UInt8 := 8
  sequence : UInt16 := 0
  timestamp : UInt32 := 0
  ssrc : UInt32 := 0
  payload : Bytes := []
deriving DecidableEq, Repr

namespace RtpPacket

/-- Fixed header, no CSRC, no extension, then the payload. -/
def serialize (p : RtpPacket) : Bytes :=
  -- Byte 0: V=2, P, X, CC=0
  let b0 := (p.version &&& 0x03) <<< 6
  let b0 := if p.padding then b0 ||| 0x20 else b0
  let b0 := if p.extension then b0 ||| 0x10 else b0
  -- Byte 1: M, PT
  let b1 := p.payload_type &&& 0x7F
  let b1 := if p.marker then b1 ||| 0x80 else b1
  [b0, b1] ++ be16 p.sequence ++ be32 p.timestamp ++ be32 p.ssrc ++ p.payload

/-- How `parse` ends without a packet. It rejects malformed input; the other two are what no input may
    lead to: a read past the buffer, and a length that wraps below zero. -/
inductive Stop
  | malformed
  | outOfBounds (i : Nat)
  | wraps
deriving DecidableEq, Repr

/-- `data[i]` -/
def readAt (data : Bytes) (i : Nat) : Except Stop UInt8 :=
  match data[i]? with
  | some b => .ok b
  | none => .error (.outOfBounds i)

/-- `a - b` on `size_t` -/
def subLen (a b : Nat) : Except Stop Nat := if b ≤ a then .ok (a - b) else .error .wraps

/-- The range `[start, start + len)` of the buffer. -/
def slice (data : Bytes) (start len : Nat) : Except Stop Bytes :=
  if start + len ≤ data.length then .ok ((data.drop start).take len) else .error (.outOfBounds (start + len))

/-- Where the header ends: 12 bytes, the CSRC words, and the extension where there is one. -/
def headerLen (data : Bytes) (extension : Bool) (cc : UInt8) : Except Stop Nat := do
  let header_len := 12 + cc.toNat * 4
  if data.length < header_len then .error .malformed
  else
    let header_len ←
      if extension then
        if data.length < header_len + 4 then .error .malformed
        else do
          let hi ← readAt data (header_len + 2)
          let lo ← readAt data (header_len + 3)
          let ext_len := (ofBe16 hi lo).toNat
          .ok (header_len + (4 + ext_len * 4))
      else .ok header_len
    if data.length < header_len then .error .malformed else .ok header_len

/-- The payload's length: what follows the header less the padding, which the last byte counts. -/
def payloadLen (data : Bytes) (padding : Bool) (header_len : Nat) : Except Stop Nat := do
  let payload_len ← subLen data.length header_len
  if padding && decide (payload_len > 0) then do
    let last ← subLen data.length 1
    let pad_count ← readAt data last
    if pad_count.toNat > payload_len then .error .malformed else subLen payload_len pad_count.toNat
  else .ok payload_len

/-- Parses a packet from `data.length` bytes. -/
def parse (data : Bytes) : Except Stop RtpPacket := do
  if data.length < 12 then .error .malformed
  else
    let b0 ← readAt data 0
    let version := (b0 >>> 6) &&& 0x03
    if version ≠ 2 then .error .malformed
    else
      let padding := decide (b0 &&& 0x20 ≠ 0)
      let extension := decide (b0 &&& 0x10 ≠ 0)
      let cc := b0 &&& 0x0F
      let b1 ← readAt data 1
      let sequence := ofBe16 (← readAt data 2) (← readAt data 3)
      let timestamp := ofBe32 (← readAt data 4) (← readAt data 5) (← readAt data 6) (← readAt data 7)
      let ssrc := ofBe32 (← readAt data 8) (← readAt data 9) (← readAt data 10) (← readAt data 11)
      let header_len ← headerLen data extension cc
      let payload_len ← payloadLen data padding header_len
      let payload ← slice data header_len payload_len
      .ok
        { version, padding, extension, sequence, timestamp, ssrc, payload
          marker := decide (b1 &&& 0x80 ≠ 0)
          payload_type := b1 &&& 0x7F }

end RtpPacket
end AudioMeet
