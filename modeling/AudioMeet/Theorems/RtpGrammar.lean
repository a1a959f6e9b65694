import AudioMeet.Rfc3550
import AudioMeet.Theorems.RtpPacket

/-! `RtpPacket::parse` against the grammar of RFC 3550: it reads back every packet, and every buffer that it
    accepts is a packet, but for buffers with the P bit whose padding is missing or counts no byte. -/

namespace AudioMeet

/-- The packet that `RtpPacket::parse` is to make of one of the grammar. -/
def Rfc3550.Header.packet (h : Rfc3550.Header) (padding : Bool) (payload : Lib.Bytes) : RtpPacket where
  version := 2
  padding := padding
  extension := h.extension.isSome
  marker := h.marker
  payload_type := h.payload_type
  sequence := h.sequence
  timestamp := h.timestamp
  ssrc := h.ssrc
  payload := payload

def Rfc3550.Packet.packet (p : Rfc3550.Packet) : RtpPacket := p.toHeader.packet p.padding.isSome p.payload

namespace RtpPacket
open Lib Rfc3550

/-! ### The first two bytes -/

theorem toNat_version (b : UInt8) : ((b >>> 6) &&& 0x03).toNat = b.toNat / 64 := by
  have hb := b.toNat_lt
  rw [toNat_and_mask (k := 2) _ rfl, UInt8.toNat_shiftRight]
  change b.toNat >>> 6 % 4 = _
  rw [Nat.shiftRight_eq_div_pow]
  omega

theorem version_iff (b : UInt8) : (b >>> 6) &&& 0x03 = 2 ↔ b.toNat / 64 = 2 := by
  rw [← UInt8.toNat_inj, toNat_version]
  rfl

/-- The bits of a first byte of version 2. -/
theorem firstByte_bits {b : UInt8} (hv : (b >>> 6) &&& 0x03 = 2) : b.toNat =
    128 + (decide (b &&& 0x20 ≠ 0)).toNat * 32 + (decide (b &&& 0x10 ≠ 0)).toNat * 16 + (b &&& 0x0F).toNat := by
  rw [toNat_bit (k := 5) b rfl, toNat_bit (k := 4) b rfl, toNat_and_mask (k := 4) b rfl]
  have hver := (version_iff b).mp hv
  omega

/-- A second byte is the marker and the payload type. -/
theorem secondByte_bits (b : UInt8) : b.toNat = (decide (b &&& 0x80 ≠ 0)).toNat * 128 + (b &&& 0x7F).toNat := by
  rw [toNat_bit (k := 7) b rfl, toNat_and_mask (k := 7) b rfl]
  have hb := b.toNat_lt
  omega

section
variable (h : Header) (padding : Bool)

theorem firstByte_le : h.csrc.length ≤ 15 ∧ padding.toNat ≤ 1 ∧ h.extension.isSome.toNat ≤ 1 :=
  ⟨h.length_csrc, Bool.toNat_le padding, Bool.toNat_le h.extension.isSome⟩

theorem toNat_firstByte : (h.firstByte padding).toNat =
    128 + padding.toNat * 32 + h.extension.isSome.toNat * 16 + h.csrc.length := by
  obtain ⟨hc, hp, hx⟩ := firstByte_le h padding
  have hlt : 128 + padding.toNat * 32 + h.extension.isSome.toNat * 16 + h.csrc.length < 256 := by omega
  exact UInt8.toNat_ofNat_of_lt' hlt

theorem firstByte_version : (h.firstByte padding >>> 6) &&& 0x03 = 2 := by
  obtain ⟨hc, hp, hx⟩ := firstByte_le h padding
  rw [version_iff, toNat_firstByte]
  omega

theorem firstByte_fields : decide (h.firstByte padding &&& 0x20 ≠ 0) = padding ∧
    decide (h.firstByte padding &&& 0x10 ≠ 0) = h.extension.isSome ∧
    (h.firstByte padding &&& 0x0F).toNat = h.csrc.length := by
  obtain ⟨hc, hp, hx⟩ := firstByte_le h padding
  refine ⟨bit_inj ?_, bit_inj ?_, ?_⟩
  · rw [toNat_bit (k := 5) _ rfl, toNat_firstByte]
    omega
  · rw [toNat_bit (k := 4) _ rfl, toNat_firstByte]
    omega
  · rw [toNat_and_mask (k := 4) _ rfl, toNat_firstByte]
    omega

theorem secondByte_le : h.marker.toNat ≤ 1 ∧ h.payload_type.toNat < 128 :=
  ⟨Bool.toNat_le h.marker, UInt8.lt_iff_toNat_lt.mp h.payload_type_lt⟩

theorem toNat_second : h.secondByte.toNat = h.marker.toNat * 128 + h.payload_type.toNat := by
  obtain ⟨hm, hpt⟩ := secondByte_le h
  have hlt : h.marker.toNat * 128 + h.payload_type.toNat < 256 := by omega
  exact UInt8.toNat_ofNat_of_lt' hlt

theorem secondByte_fields : decide (h.secondByte &&& 0x80 ≠ 0) = h.marker ∧ h.secondByte &&& 0x7F = h.payload_type := by
  obtain ⟨hm, hpt⟩ := secondByte_le h
  refine ⟨bit_inj ?_, UInt8.toNat_inj.mp ?_⟩
  · rw [toNat_bit (k := 7) _ rfl, toNat_second]
    omega
  · rw [toNat_and_mask (k := 7) _ rfl, toNat_second]
    omega

end

/-! ### Headers -/

/-- The fixed header and the CSRC words. -/
def upToCsrc (h : Header) (padding : Bool) : Bytes :=
  [h.firstByte padding, h.secondByte] ++ be16 h.sequence ++ be32 h.timestamp ++ be32 h.ssrc ++ h.csrc.flatMap be32

theorem encode_eq (h : Header) (padding : Bool) : h.encode padding = upToCsrc h padding ++ h.extensionBytes := rfl

theorem length_upToCsrc (h : Header) (padding : Bool) :
    (upToCsrc h padding).length = 12 + (h.firstByte padding &&& 0x0F).toNat * 4 := by
  rw [(firstByte_fields h padding).2.2]
  simp [upToCsrc]
  omega

theorem length_extension (e : Extension) : e.encode.length = 4 + e.words.length * 4 := by
  simp only [Extension.encode, List.length_append, length_be16, length_flatMap_be32]

theorem toNat_words (e : Extension) : (UInt16.ofNat e.words.length).toNat = e.words.length :=
  UInt16.toNat_ofNat_of_lt' (Nat.lt_succ_of_le e.length_words)

/-- The code finds the end of every header. -/
theorem headerLen_encode (h : Header) (padding : Bool) (rest : Bytes) :
    headerLen (h.encode padding ++ rest) h.extension.isSome (h.firstByte padding &&& 0x0F) =
      .ok (h.encode padding).length := by
  have hfront := length_upToCsrc h padding
  rw [encode_eq, Header.extensionBytes]
  cases h.extension with
  | none => simpa using headerLen_plain hfront
  | some e =>
    have hlen : (ofBe16 (UInt16.ofNat e.words.length >>> 8).toUInt8 (UInt16.ofNat e.words.length &&& 0xFF).toUInt8).toNat =
        e.words.length := by rw [ofBe16_be16, toNat_words]
    have hext := headerLen_extension hfront (e.profile >>> 8).toUInt8 (e.profile &&& 0xFF).toUInt8
      (UInt16.ofNat e.words.length >>> 8).toUInt8 (UInt16.ofNat e.words.length &&& 0xFF).toUInt8
      (e.words.flatMap be32 ++ rest)
    rw [hlen, if_neg (by simp)] at hext
    rw [List.length_append, Option.elim_some, length_extension, ← hext, List.append_assoc]
    simp [Extension.encode, be16]

/-- A header and what follows it. -/
theorem parse_header (h : Header) (padding : Bool) (rest : Bytes) :
    parse (h.encode padding ++ rest) =
      (payloadOf (h.encode padding ++ rest) padding (h.encode padding).length).map (h.packet padding) := by
  obtain ⟨hp, hx, -⟩ := firstByte_fields h padding
  obtain ⟨hm, ht⟩ := secondByte_fields h
  have hlen := headerLen_encode h padding rest
  have hparse := parse_twelve (firstByte_version h padding) (show h.encode padding ++ rest = _ from rfl)
  rw [hparse, hp, hx, hlen, ok_bind, hm, ht, ofBe16_be16, ofBe32_be32, ofBe32_be32]
  cases payloadOf (h.encode padding ++ rest) padding (h.encode padding).length <;> rfl

/-- Headers are told from what follows them. -/
theorem header_unique {h h' : Header} {padding padding' : Bool} {rest rest' : Bytes}
    (heq : h.encode padding ++ rest = h'.encode padding' ++ rest') : padding = padding' ∧ rest = rest' := by
  have hfirst : h.firstByte padding = h'.firstByte padding' := by
    simpa [Header.encode] using congrArg List.head? heq
  obtain ⟨hp, hx, -⟩ := firstByte_fields h padding
  obtain ⟨hp', hx', -⟩ := firstByte_fields h' padding'
  have hlen := headerLen_encode h padding rest
  have hlen' := headerLen_encode h' padding' rest'
  rw [heq, ← hx, hfirst, hx', hlen'] at hlen
  refine ⟨?_, (List.append_inj heq (Except.ok.inj hlen).symm).2⟩
  rw [← hp, hfirst, hp']

/-- Version-2 bytes, as many words as they announce, and an extension if they announce one make a header. -/
theorem exists_header {b0 : UInt8} (b1 s1 s0 t3 t2 t1 t0 r3 r2 r1 r0 : UInt8) {words : List UInt32}
    (extension : Option Extension) (hv : (b0 >>> 6) &&& 0x03 = 2) (hcc : words.length = (b0 &&& 0x0F).toNat)
    (hx : extension.isSome = decide (b0 &&& 0x10 ≠ 0)) :
    ∃ h : Header, h.encode (decide (b0 &&& 0x20 ≠ 0)) = [b0, b1, s1, s0, t3, t2, t1, t0, r3, r2, r1, r0] ++
      words.flatMap be32 ++ extension.elim [] Extension.encode := by
  have hfirst := firstByte_bits hv
  have hsecond := secondByte_bits b1
  have hb1 := toNat_and_mask (k := 7) b1 (m := 0x7F) rfl
  have hb0 := toNat_and_mask (k := 4) b0 (m := 0x0F) rfl
  rw [← hcc, ← hx] at hfirst
  let h : Header :=
    { marker := decide (b1 &&& 0x80 ≠ 0), payload_type := b1 &&& 0x7F, sequence := ofBe16 s1 s0
      timestamp := ofBe32 t3 t2 t1 t0, ssrc := ofBe32 r3 r2 r1 r0, csrc := words, extension
      payload_type_lt := UInt8.lt_iff_toNat_lt.mpr (by rw [hb1]; exact Nat.mod_lt _ (by decide))
      length_csrc := by omega }
  have h0 : h.firstByte (decide (b0 &&& 0x20 ≠ 0)) = b0 := by
    rw [Header.firstByte, ← hfirst, UInt8.ofNat_toNat]
  have h1 : h.secondByte = b1 := by
    rw [Header.secondByte, ← hsecond, UInt8.ofNat_toNat]
  refine ⟨h, ?_⟩
  rw [Header.encode, h0, h1, be16_ofBe16, be32_ofBe32, be32_ofBe32]
  rfl

/-- Behind the CSRC words there is the extension that the X bit announces, or the buffer is rejected. -/
theorem extension_or_malformed {front tail : Bytes} {cc : UInt8} (x : Bool) (hfront : front.length = 12 + cc.toNat * 4) :
    (∃ (e : Option Extension) (rest : Bytes), e.isSome = x ∧ tail = e.elim [] Extension.encode ++ rest) ∨
      headerLen (front ++ tail) x cc = .error .malformed := by
  cases x with
  | false => exact Or.inl ⟨none, tail, rfl, rfl⟩
  | true =>
    by_cases h4 : tail.length < 4
    · exact Or.inr (headerLen_noRoom hfront h4)
    obtain ⟨p1, p0, l1, l0, rest, rfl⟩ := exists_four (Nat.not_lt.mp h4)
    by_cases hroom : rest.length < (ofBe16 l1 l0).toNat * 4
    · refine Or.inr ?_
      rw [headerLen_extension hfront, if_pos hroom]
    have htake : (rest.take ((ofBe16 l1 l0).toNat * 4)).length = (ofBe16 l1 l0).toNat * 4 :=
      List.length_take_of_le (Nat.not_lt.mp hroom)
    obtain ⟨words, hcount, hwords⟩ := exists_words (ofBe16 l1 l0).toNat htake
    have hle : words.length ≤ 65535 := by
      have := (ofBe16 l1 l0).toNat_lt
      omega
    refine Or.inl ⟨some ⟨ofBe16 p1 p0, words, hle⟩, rest.drop ((ofBe16 l1 l0).toNat * 4), rfl, ?_⟩
    show _ = be16 (ofBe16 p1 p0) ++ be16 (UInt16.ofNat words.length) ++ words.flatMap be32 ++ _
    rw [hcount, UInt16.ofNat_toNat, be16_ofBe16, be16_ofBe16, ← hwords]
    simp

/-- A buffer begins with a header, or it is rejected as malformed. -/
theorem header_or_malformed (data : Bytes) :
    (∃ (h : Header) (padding : Bool) (rest : Bytes), data = h.encode padding ++ rest) ∨
      parse data = .error .malformed := by
  by_cases hlen : data.length < 12
  · exact Or.inr (if_pos hlen)
  have hfour : 4 ≤ data.length := by omega
  obtain ⟨b0, b1, s1, s0, after, hdata⟩ := exists_four hfour
  have hafter : 8 ≤ after.length := by simpa [hdata] using Nat.not_lt.mp hlen
  obtain ⟨t3, t2, t1, t0, after', rfl⟩ := exists_four (le_trans (Nat.le_add_left 4 4) hafter)
  have hafter' : 4 ≤ after'.length := by simpa using hafter
  obtain ⟨r3, r2, r1, r0, rest, rfl⟩ := exists_four hafter'
  by_cases hv : (b0 >>> 6) &&& 0x03 = 2
  swap
  · refine Or.inr ?_
    have hb0 : data[0]? = some b0 := by simp [hdata]
    rw [parse, if_neg hlen, readAt_eq hb0, ok_bind, if_pos hv]
  have hparse := parse_twelve hv hdata
  by_cases hroom : rest.length < (b0 &&& 0x0F).toNat * 4
  · refine Or.inr ?_
    rw [hparse, headerLen_short (by simp only [hdata, List.length_cons]; omega)]
    rfl
  -- The CSRC words, and what is behind them.
  have htake : (rest.take ((b0 &&& 0x0F).toNat * 4)).length = (b0 &&& 0x0F).toNat * 4 :=
    List.length_take_of_le (Nat.not_lt.mp hroom)
  obtain ⟨words, hcc, hwords⟩ := exists_words (b0 &&& 0x0F).toNat htake
  obtain ⟨tail, hrest⟩ : ∃ tail, rest = words.flatMap be32 ++ tail :=
    ⟨_, hwords ▸ (List.take_append_drop ((b0 &&& 0x0F).toNat * 4) rest).symm⟩
  generalize hfront : [b0, b1, s1, s0, t3, t2, t1, t0, r3, r2, r1, r0] ++ words.flatMap be32 = front
  have hsplit : data = front ++ tail := by
    rw [hdata, ← hfront, hrest]
    simp
  have hlen : front.length = 12 + (b0 &&& 0x0F).toNat * 4 := by
    rw [← hfront, ← hcc, List.length_append, length_flatMap_be32]
    rfl
  rcases extension_or_malformed (decide (b0 &&& 0x10 ≠ 0)) hlen with ⟨e, rest, hx, htail⟩ | hbad
  · obtain ⟨h, henc⟩ := exists_header b1 s1 s0 t3 t2 t1 t0 r3 r2 r1 r0 e hv hcc hx
    refine Or.inl ⟨h, decide (b0 &&& 0x20 ≠ 0), rest, ?_⟩
    rw [henc, hfront, List.append_assoc, ← htail, hsplit]
  · refine Or.inr ?_
    rw [hparse, hsplit, hbad]
    rfl

/-! ### Packets -/

theorem toNat_count (p : Padding) : (UInt8.ofNat (p.filler.length + 1)).toNat = p.filler.length + 1 :=
  UInt8.toNat_ofNat_of_lt' (Nat.succ_lt_succ p.length_filler)

theorem parse_of_encode (p : Packet) : parse p.encode = .ok p.packet := by
  rw [Packet.encode, List.append_assoc, parse_header]
  cases hp : p.padding with
  | none =>
    rw [Option.isSome_none, Option.elim_none, payloadOf_all (Or.inl rfl)]
    simp [Packet.packet, hp, Except.map]
  | some pad =>
    have hlen : p.payload.length + pad.filler.length + 1 - (pad.filler.length + 1) = p.payload.length := by omega
    rw [Option.elim_some, Padding.encode, ← List.append_assoc p.payload, Option.isSome_some, payloadOf_padding,
      toNat_count, List.length_append, if_neg (by omega), hlen]
    simp [Packet.packet, hp, Except.map]

/-- `parse` reads back every packet of the grammar: its fields, and the payload without the CSRC words, the
    extension and the padding. -/
theorem parse_encode (p : Packet) : parse p.encode = .ok
    { version := 2, padding := p.padding.isSome, extension := p.extension.isSome, marker := p.marker
      payload_type := p.payload_type, sequence := p.sequence, timestamp := p.timestamp, ssrc := p.ssrc
      payload := p.payload } :=
  parse_of_encode p

/-- The buffer is a packet of the grammar and is read as that packet, or it is rejected. -/
def ReadExactly (data : Bytes) : Prop :=
  (∃ p : Packet, data = p.encode ∧ parse data = .ok p.packet) ∨ parse data = .error .malformed

/-- The P bit is set, and after the header there is no padding: nothing follows it, or the last byte is 0. -/
def Unpadded (data : Bytes) : Prop :=
  ∃ (h : Header) (rest : Bytes), data = h.encode true ++ rest ∧ (rest = [] ∨ rest.getLast? = some 0)

/-- All of an unpadded buffer after its header is taken for payload. -/
theorem parse_unpadded (h : Header) {rest : Bytes} (hrest : rest = [] ∨ rest.getLast? = some 0) :
    parse (h.encode true ++ rest) = .ok (h.packet true rest) := by
  rw [parse_header]
  rcases hrest with rfl | hlast
  · rw [payloadOf_all (Or.inr rfl)]
    rfl
  · obtain ⟨init, rfl⟩ := List.getLast?_eq_some_iff.mp hlast
    rw [payloadOf_padding, UInt8.toNat_zero, if_neg (Nat.not_lt_zero _), List.take_of_length_le (by simp)]
    rfl

theorem not_readExactly {data : Bytes} (h : Unpadded data) : ¬ ReadExactly data := by
  obtain ⟨hd, rest, rfl, hrest⟩ := h
  rintro (⟨p, heq, -⟩ | hbad)
  · rw [Packet.encode, List.append_assoc] at heq
    obtain ⟨hpad, rfl⟩ := header_unique heq
    obtain ⟨pad, hp⟩ := Option.isSome_iff_exists.mp hpad.symm
    rw [hp, Option.elim_some, Padding.encode, ← List.append_assoc] at hrest
    rcases hrest with hnil | hlast
    · simp at hnil
    · rw [List.getLast?_append_of_ne_nil _ (by simp), List.getLast?_singleton, Option.some.injEq, ← UInt8.toNat_inj,
        toNat_count] at hlast
      exact absurd hlast (Nat.succ_ne_zero _)
  · rw [parse_unpadded hd hrest] at hbad
    cases hbad

/-- A header with the P bit and bytes after it of which the last is not 0. -/
theorem readExactly_padding (h : Header) {rest : Bytes} {n : UInt8} (hn : n ≠ 0) :
    ReadExactly (h.encode true ++ (rest ++ [n])) := by
  by_cases hroom : rest.length + 1 < n.toNat
  · refine Or.inr ?_
    rw [parse_header, payloadOf_padding, if_pos hroom]
    rfl
  · have hpos : 0 < n.toNat := Nat.pos_of_ne_zero fun h0 => hn (UInt8.toNat_inj.mp h0)
    have hlt := n.toNat_lt
    have hfill : (rest.drop (rest.length + 1 - n.toNat)).length = n.toNat - 1 := by
      rw [List.length_drop]
      omega
    let p : Packet :=
      { h with
        payload := rest.take (rest.length + 1 - n.toNat)
        padding := some ⟨rest.drop (rest.length + 1 - n.toNat), by omega⟩ }
    have henc : p.encode = h.encode true ++ (rest ++ [n]) := by
      show h.encode true ++ rest.take (rest.length + 1 - n.toNat) ++
        (rest.drop (rest.length + 1 - n.toNat) ++ [UInt8.ofNat ((rest.drop (rest.length + 1 - n.toNat)).length + 1)]) = _
      rw [hfill, Nat.sub_add_cancel hpos, UInt8.ofNat_toNat, List.append_assoc, ← List.append_assoc (rest.take _),
        List.take_append_drop]
    exact Or.inl ⟨p, henc.symm, henc ▸ parse_of_encode p⟩

theorem readExactly_of_padded {data : Bytes} (h : ¬ Unpadded data) : ReadExactly data := by
  rcases header_or_malformed data with ⟨hd, padding, rest, rfl⟩ | hbad
  · cases padding with
    | false =>
      let p : Packet := { hd with payload := rest, padding := none }
      have henc : p.encode = hd.encode false ++ rest := List.append_nil _
      exact Or.inl ⟨p, henc.symm, henc ▸ parse_of_encode p⟩
    | true =>
      rcases List.eq_nil_or_concat rest with rfl | ⟨rest, n, rfl⟩
      · exact absurd ⟨hd, [], rfl, Or.inl rfl⟩ h
      · rw [List.concat_eq_append] at h ⊢
        refine readExactly_padding hd fun hn => h ⟨hd, _, rfl, Or.inr ?_⟩
        rw [hn, List.getLast?_concat]
  · exact Or.inr hbad

/-- `parse` accepts the packets of the grammar and nothing else, but for the unpadded buffers. -/
theorem read_exactly_iff (data : Bytes) : ReadExactly data ↔ ¬ Unpadded data :=
  ⟨fun h hno => not_readExactly hno h, readExactly_of_padded⟩

/-- A header whose P bit announces padding, and nothing after it. -/
theorem accepts_unpadded : ¬ ∀ data, ReadExactly data := by
  intro hall
  let h : Header :=
    { marker := false, payload_type := 8, sequence := 0, timestamp := 0, ssrc := 0, csrc := [], extension := none
      payload_type_lt := by decide, length_csrc := by decide }
  have hdata : [0xA0, 0x08, 0, 0, 0, 0, 0, 0, 0, 0, 0, 0] = h.encode true ++ [] := by decide
  exact not_readExactly ⟨h, [], hdata, Or.inl rfl⟩ (hall [0xA0, 0x08, 0, 0, 0, 0, 0, 0, 0, 0, 0, 0])

/-! ### The plain format -/

/-- The P, X and CC bits of the first byte are zero. -/
def Plain (data : Bytes) : Prop := ∃ b0, data.head? = some b0 ∧ b0 &&& 0x3F = 0

/-- Such a first byte announces no CSRC words, no extension and no padding. -/
theorem plain_header {h : Header} {padding : Bool} {rest : Bytes} (hplain : Plain (h.encode padding ++ rest)) :
    padding = false ∧ h.extension = none ∧ h.csrc = [] := by
  obtain ⟨b0, hhead, hzero⟩ := hplain
  obtain rfl : h.firstByte padding = b0 := by simpa [Header.encode] using hhead
  have hmod := toNat_and_mask (k := 6) (h.firstByte padding) (m := 0x3F) rfl
  obtain ⟨hc, hp, hx⟩ := firstByte_le h padding
  rw [hzero, toNat_firstByte, UInt8.toNat_zero] at hmod
  have hext : h.extension.isSome.toNat = 0 := by omega
  refine ⟨Bool.toNat_eq_zero.mp (by omega), ?_, List.length_eq_zero_iff.mp (by omega)⟩
  exact Option.isNone_iff_eq_none.mp (by simpa using Bool.toNat_eq_zero.mp hext)

/-- `serialize` writes the grammar's encoding of a packet of the plain format. -/
theorem serialize_packet {h : Header} (hx : h.extension = none) (hc : h.csrc = []) (payload : Bytes) :
    (h.packet false payload).serialize = h.encode false ++ payload := by
  have hfirst : h.firstByte false = 0x80 := by
    rw [Header.firstByte, hx, hc]
    rfl
  have hsecond : secondByte (h.packet false payload) = h.secondByte := by
    rw [← UInt8.toNat_inj, toNat_second, toNat_secondByte h.payload_type_lt]
    show (if h.marker = true then h.payload_type.toNat + 128 else h.payload_type.toNat) = _
    cases h.marker with
    | false => simp
    | true => simp [Nat.add_comm]
  rw [serialize_plain rfl rfl (by simp [Header.packet, hx]), hsecond, Header.encode, hfirst, Header.extensionBytes, hx, hc]
  simp [Header.packet]

/-- `serialize` and `parse` are inverse to each other on the plain format. -/
theorem serialize_parse_inverse :
    (∀ p : RtpPacket, p.version = 2 → p.payload_type < 128 → p.padding = false → p.extension = false →
      parse p.serialize = .ok p) ∧
    ∀ (data : Bytes) (p : RtpPacket), parse data = .ok p → Plain data → p.serialize = data := by
  refine ⟨fun p hv hpt hp hx => parse_serialize hv hp hx hpt, fun data p hparse hplain => ?_⟩
  rcases header_or_malformed data with ⟨h, padding, rest, rfl⟩ | hbad
  · obtain ⟨rfl, hx, hc⟩ := plain_header hplain
    rw [parse_header, payloadOf_all (Or.inl rfl)] at hparse
    rw [← Except.ok.inj hparse, serialize_packet hx hc]
  · rw [hbad] at hparse
    cases hparse

theorem serialize_parse_inverse_marked :
    parse (serialize { marker := true, payload := [1, 2] }) = .ok { marker := true, payload := [1, 2] } ∧
    serialize { payload := [7] } = [0x80, 8, 0, 0, 0, 0, 0, 0, 0, 0, 0, 0, 7] :=
  ⟨serialize_parse_inverse.1 { marker := true, payload := [1, 2] } rfl (by decide) rfl rfl,
    serialize_parse_inverse.2 [0x80, 8, 0, 0, 0, 0, 0, 0, 0, 0, 0, 0, 7] { payload := [7] } (by decide)
      ⟨0x80, rfl, by decide⟩⟩

end RtpPacket
end AudioMeet
