import AudioMeet.RtpPacket

/-! RTP packets of the plain format (no padding, extension or CSRC words) read back as they were written. -/

namespace AudioMeet.RtpPacket
open Lib

@[simp] theorem ok_bind {α β : Type} (x : α) (f : α → Except Stop β) : (Except.ok x >>= f) = f x := rfl

theorem length_serialize (p : RtpPacket) : p.serialize.length = 12 + p.payload.length := by
  simp [serialize]
  omega

/-- The first byte of a packet of the plain format. -/
theorem firstByte_plain {v : UInt8} (hv : v = 2) : (v &&& 0x03) <<< 6 = 0x80 := by
  subst hv
  decide

/-- The second byte holds the marker in its top bit and the payload type below it. -/
def secondByte (p : RtpPacket) : UInt8 :=
  if p.marker then (p.payload_type &&& 0x7F) ||| 0x80 else p.payload_type &&& 0x7F

theorem toNat_secondByte {p : RtpPacket} (h : p.payload_type < 128) :
    (secondByte p).toNat = if p.marker then p.payload_type.toNat + 128 else p.payload_type.toNat := by
  have hlt : p.payload_type.toNat < 128 := UInt8.lt_iff_toNat_lt.mp h
  have hmask : (p.payload_type &&& 0x7F).toNat = p.payload_type.toNat := by
    rw [toNat_and_mask (k := 7) _ rfl]
    exact Nat.mod_eq_of_lt hlt
  unfold secondByte
  split
  · rw [UInt8.toNat_or, hmask, Nat.or_comm]
    change 2 ^ 7 * 1 ||| _ = _
    rw [← Nat.two_pow_add_eq_or_of_lt hlt]
    omega
  · exact hmask

theorem secondByte_type {p : RtpPacket} (h : p.payload_type < 128) : secondByte p &&& 0x7F = p.payload_type := by
  have hlt : p.payload_type.toNat < 128 := UInt8.lt_iff_toNat_lt.mp h
  rw [← UInt8.toNat_inj, toNat_and_mask (k := 7) _ rfl, toNat_secondByte h]
  split <;> omega

theorem secondByte_marker {p : RtpPacket} (h : p.payload_type < 128) :
    decide (secondByte p &&& 0x80 ≠ 0) = p.marker := by
  have hlt : p.payload_type.toNat < 128 := UInt8.lt_iff_toNat_lt.mp h
  have hbit := and_bit_ne_zero (k := 7) (secondByte p) (m := 0x80) rfl
  rw [toNat_secondByte h] at hbit
  rw [Bool.eq_iff_iff, decide_eq_true_iff, hbit]
  split <;> simp [*] <;> omega

theorem serialize_plain {p : RtpPacket} (hv : p.version = 2) (hp : p.padding = false) (hx : p.extension = false) :
    p.serialize = 0x80 :: secondByte p :: (be16 p.sequence ++ be32 p.timestamp ++ be32 p.ssrc ++ p.payload) := by
  simp [serialize, firstByte_plain hv, hp, hx, secondByte]

theorem readAt_eq {data : Bytes} {i : Nat} {b : UInt8} (h : data[i]? = some b) : readAt data i = .ok b := by
  rw [readAt, h]

/-! ### What `parse` comes to -/

/-- The payload, once the header's length is known. -/
def payloadOf (data : Bytes) (padding : Bool) (header_len : Nat) : Except Stop Bytes := do
  let payload_len ← payloadLen data padding header_len
  slice data header_len payload_len

/-- A buffer that holds the 12 bytes of a version-2 header. -/
theorem parse_twelve {b0 b1 s1 s0 t3 t2 t1 t0 r3 r2 r1 r0 : UInt8} {rest data : Bytes} (hv : (b0 >>> 6) &&& 0x03 = 2)
    (hdata : data = b0 :: b1 :: s1 :: s0 :: t3 :: t2 :: t1 :: t0 :: r3 :: r2 :: r1 :: r0 :: rest) :
    parse data = (do
      let header_len ← headerLen data (decide (b0 &&& 0x10 ≠ 0)) (b0 &&& 0x0F)
      let payload ← payloadOf data (decide (b0 &&& 0x20 ≠ 0)) header_len
      .ok
        { version := 2, padding := decide (b0 &&& 0x20 ≠ 0), extension := decide (b0 &&& 0x10 ≠ 0)
          marker := decide (b1 &&& 0x80 ≠ 0), payload_type := b1 &&& 0x7F, sequence := ofBe16 s1 s0
          timestamp := ofBe32 t3 t2 t1 t0, ssrc := ofBe32 r3 r2 r1 r0, payload }) := by
  have hlen : ¬ data.length < 12 := by
    simp only [hdata, List.length_cons]
    omega
  have r : ∀ i b, data[i]? = some b → readAt data i = .ok b := fun _ _ => readAt_eq
  simp only [parse, r 0 b0 (by simp [hdata]), r 1 b1 (by simp [hdata]), r 2 s1 (by simp [hdata]),
    r 3 s0 (by simp [hdata]), r 4 t3 (by simp [hdata]), r 5 t2 (by simp [hdata]), r 6 t1 (by simp [hdata]),
    r 7 t0 (by simp [hdata]), r 8 r3 (by simp [hdata]), r 9 r2 (by simp [hdata]), r 10 r1 (by simp [hdata]),
    r 11 r0 (by simp [hdata]), ok_bind, if_neg hlen, hv, ne_eq, not_true, if_false, payloadOf, bind_assoc]

theorem headerLen_short {data : Bytes} {x : Bool} {cc : UInt8} (h : data.length < 12 + cc.toNat * 4) :
    headerLen data x cc = .error .malformed := if_pos h

section
variable {front rest : Bytes} {cc : UInt8} (hfront : front.length = 12 + cc.toNat * 4)
include hfront

/-- Without an extension, the header ends after the CSRC words. -/
theorem headerLen_plain : headerLen (front ++ rest) false cc = .ok front.length := by
  have h : ¬ (front ++ rest).length < 12 + cc.toNat * 4 := by
    rw [List.length_append]
    omega
  rw [headerLen, if_neg h, if_neg Bool.false_ne_true, ok_bind]
  simp only [if_neg h, hfront]

theorem headerLen_noRoom (h : rest.length < 4) : headerLen (front ++ rest) true cc = .error .malformed := by
  have hcsrc : ¬ (front ++ rest).length < 12 + cc.toNat * 4 := by
    rw [List.length_append]
    omega
  have hext : (front ++ rest).length < 12 + cc.toNat * 4 + 4 := by
    rw [List.length_append]
    omega
  rw [headerLen, if_neg hcsrc, if_pos rfl, if_pos hext]
  rfl

/-- An extension ends after the words that it announces. -/
theorem headerLen_extension (p1 p0 l1 l0 : UInt8) (rest : Bytes) : headerLen (front ++ p1 :: p0 :: l1 :: l0 :: rest) true cc =
    if rest.length < (ofBe16 l1 l0).toNat * 4 then .error .malformed
    else .ok (front.length + (4 + (ofBe16 l1 l0).toNat * 4)) := by
  generalize hdata : front ++ p1 :: p0 :: l1 :: l0 :: rest = data
  have hlen : data.length = front.length + 4 + rest.length := by
    rw [← hdata]
    simp only [List.length_append, List.length_cons]
    omega
  have hhi : readAt data (front.length + 2) = .ok l1 := readAt_eq (by simp [← hdata])
  have hlo : readAt data (front.length + 3) = .ok l0 := readAt_eq (by simp [← hdata])
  rw [headerLen, ← hfront, if_neg (by omega), if_pos rfl, if_neg (by omega), hhi, hlo]
  simp only [ok_bind]
  by_cases h : rest.length < (ofBe16 l1 l0).toNat * 4
  · rw [if_pos h, if_pos (by omega)]
  · rw [if_neg h, if_neg (by omega)]

end

/-- Without padding, all that follows the header is payload; so it is when nothing follows. -/
theorem payloadOf_all {front rest : Bytes} {padding : Bool} (h : padding = false ∨ rest = []) :
    payloadOf (front ++ rest) padding front.length = .ok rest := by
  have hlen : payloadLen (front ++ rest) padding front.length = .ok rest.length := by
    rcases h with rfl | rfl <;> simp [payloadLen, subLen]
  simp [payloadOf, hlen, slice]

/-- With padding, the last byte tells how much of what follows the header is not payload. -/
theorem payloadOf_padding {front rest : Bytes} {n : UInt8} : payloadOf (front ++ (rest ++ [n])) true front.length =
    if rest.length + 1 < n.toNat then .error .malformed else .ok ((rest ++ [n]).take (rest.length + 1 - n.toNat)) := by
  have hlast : readAt (front ++ (rest ++ [n])) (front.length + (rest.length + 1) - 1) = .ok n := by
    refine readAt_eq ?_
    rw [show front.length + (rest.length + 1) - 1 = front.length + rest.length by omega]
    simp
  have hlen : (front ++ (rest ++ [n])).length = front.length + (rest.length + 1) := by simp
  simp only [payloadOf, payloadLen, subLen, hlen, Nat.le_add_right, if_true, ok_bind, Nat.add_sub_cancel_left]
  simp only [gt_iff_lt, Nat.zero_lt_succ, decide_true, Bool.and_self, if_true,
    if_pos (show 1 ≤ front.length + (rest.length + 1) by omega), ok_bind, hlast]
  by_cases h : rest.length + 1 < n.toNat
  · rw [if_pos h, if_pos h]
    rfl
  · rw [if_neg h, if_neg h, if_pos (by omega), ok_bind, slice, if_pos (by omega)]
    simp

/-- A packet whose first byte is `0x80` has a header of 12 bytes, and all that follows is payload. -/
theorem parse_plain {b1 s1 s0 t3 t2 t1 t0 r3 r2 r1 r0 : UInt8} {payload : Bytes} :
    parse (0x80 :: b1 :: s1 :: s0 :: t3 :: t2 :: t1 :: t0 :: r3 :: r2 :: r1 :: r0 :: payload) =
      .ok { marker := decide (b1 &&& 0x80 ≠ 0), payload_type := b1 &&& 0x7F, sequence := ofBe16 s1 s0
            timestamp := ofBe32 t3 t2 t1 t0, ssrc := ofBe32 r3 r2 r1 r0, payload } := by
  have hp : decide ((0x80 : UInt8) &&& 0x20 ≠ 0) = false := by decide
  have hx : decide ((0x80 : UInt8) &&& 0x10 ≠ 0) = false := by decide
  generalize hfront : [0x80, b1, s1, s0, t3, t2, t1, t0, r3, r2, r1, r0] = front
  have hlen : front.length = 12 + ((0x80 : UInt8) &&& 0x0F).toNat * 4 := by rw [← hfront]; rfl
  have hdata : front ++ payload = 0x80 :: b1 :: s1 :: s0 :: t3 :: t2 :: t1 :: t0 :: r3 :: r2 :: r1 :: r0 :: payload := by
    rw [← hfront]
    rfl
  rw [← hdata, parse_twelve (by decide) hdata, hp, hx, headerLen_plain hlen, ok_bind, payloadOf_all (Or.inl rfl), ok_bind]

/-- `parse` reads back what `serialize` writes of a packet of the plain format. -/
theorem parse_serialize {p : RtpPacket} (hv : p.version = 2) (hp : p.padding = false) (hx : p.extension = false)
    (hpt : p.payload_type < 128) : parse p.serialize = .ok p := by
  rw [serialize_plain hv hp hx]
  simp only [be16, be32, List.cons_append, List.nil_append]
  rw [parse_plain, secondByte_type hpt, secondByte_marker hpt, ofBe16_be16, ofBe32_be32, ofBe32_be32]
  rw [← hv, ← hp]
  cases p
  simp_all

end AudioMeet.RtpPacket
