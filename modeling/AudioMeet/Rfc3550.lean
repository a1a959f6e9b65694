import AudioMeet.Lib.Bytes

/-! The packet format of RFC 3550, as a grammar: what a packet is made of, and how it is written. -/

namespace AudioMeet.Rfc3550
open Lib

/-- A header extension: 16 bits that its profile defines, and its words. -/
structure Extension where
  profile : UInt16
  words : List UInt32
  length_words : words.length ≤ 65535

/-- The profile's bits, the number of words, the words. -/
def Extension.encode (e : Extension) : Bytes :=
  be16 e.profile ++ be16 (UInt16.ofNat e.words.length) ++ e.words.flatMap be32

/-- A padding block: any bytes, and the byte that counts them and itself. -/
structure Padding where
  filler : Bytes
  length_filler : filler.length < 255

def Padding.encode (p : Padding) : Bytes := p.filler ++ [UInt8.ofNat (p.filler.length + 1)]

/-- All that comes before the payload. -/
structure Header where
  marker : Bool
  payload_type : UInt8
  sequence : UInt16
  timestamp : UInt32
  ssrc : UInt32
  csrc : List UInt32
  extension : Option Extension
  payload_type_lt : payload_type < 128
  length_csrc : csrc.length ≤ 15

/-- Version 2, the P bit, the X bit, and the number of CSRC words. -/
def Header.firstByte (h : Header) (padding : Bool) : UInt8 :=
  UInt8.ofNat (128 + padding.toNat * 32 + h.extension.isSome.toNat * 16 + h.csrc.length)

/-- The marker and the payload type. -/
def Header.secondByte (h : Header) : UInt8 := UInt8.ofNat (h.marker.toNat * 128 + h.payload_type.toNat)

/-- The header extension, where there is one. -/
def Header.extensionBytes (h : Header) : Bytes := h.extension.elim [] Extension.encode

def Header.encode (h : Header) (padding : Bool) : Bytes :=
  [h.firstByte padding, h.secondByte] ++ be16 h.sequence ++ be32 h.timestamp ++ be32 h.ssrc ++
    h.csrc.flatMap be32 ++ h.extensionBytes

structure Packet extends Header where
  payload : Bytes
  padding : Option Padding

/-- The P bit is set if and only if there is a padding block. -/
def Packet.encode (p : Packet) : Bytes :=
  p.toHeader.encode p.padding.isSome ++ p.payload ++ p.padding.elim [] Padding.encode

end AudioMeet.Rfc3550
