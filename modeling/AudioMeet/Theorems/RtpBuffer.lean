import AudioMeet.RtpBuffer
import AudioMeet.Theorems.RtpPacket

/-! `parse` on a pointer and a length stays within its buffer, and comes to what `parse` comes to on the bytes of the
    buffer. -/

namespace AudioMeet.RtpPacket
open Lib Traced Reader

/-- The first `len` bytes behind `data`. -/
def bufferOf (data : UInt64 → UInt8) (len : UInt64) : Bytes :=
  (List.range len.toNat).map fun i => data (UInt64.ofNat i)

/-- A read is of the buffer; a length fits its type and is not negative; a range that is copied lies in the buffer. -/
def Access.InBounds (len : UInt64) : Access → Prop
  | .read i => i < len
  | .int value => 0 ≤ value ∧ value < 2 ^ 31
  | .size value => 0 ≤ value ∧ value < 2 ^ 64
  | .copy first count => first.toNat + count.toNat ≤ len.toNat

/-! ### Machine words -/

theorem toNat_ofInt {v : Int} (h : 0 ≤ v ∧ v < 2 ^ 64) : (UInt64.ofInt v).toNat = v.toNat := by
  rw [UInt64.ofInt, UInt64.toNat_ofNat', Int.emod_eq_of_lt h.1 h.2]
  omega

theorem toNat_sizeAdd {a b : UInt64} (h : a.toNat + b.toNat < 2 ^ 64) : (a + b).toNat = a.toNat + b.toNat := by
  rw [UInt64.toNat_add]
  exact Nat.mod_eq_of_lt h

theorem toNat_sizeSub {a b : UInt64} (h : b.toNat ≤ a.toNat) : (a - b).toNat = a.toNat - b.toNat :=
  UInt64.toNat_sub_of_le a b (UInt64.le_iff_toNat_le.mpr h)

section
variable {data : UInt64 → UInt8} {len : UInt64} {α β : Type} {R : α → β → Prop}

@[simp] theorem length_bufferOf (data : UInt64 → UInt8) (len : UInt64) : (bufferOf data len).length = len.toNat := by
  simp [bufferOf]

theorem readAt_bufferOf {i : UInt64} {j : Nat} (hij : i.toNat = j) (h : j < len.toNat) :
    readAt (bufferOf data len) j = .ok (data i) := by
  subst hij
  refine readAt_eq ?_
  simp [bufferOf, h]

theorem slice_bufferOf {first count : UInt64} (h : first.toNat + count.toNat ≤ len.toNat) :
    slice (bufferOf data len) first.toNat count.toNat =
      .ok ((List.range count.toNat).map fun k => data (first + UInt64.ofNat k)) := by
  rw [slice, length_bufferOf, if_pos h]
  refine congrArg Except.ok (List.ext_getElem (by simp; omega) fun k hk hk' => ?_)
  simp [bufferOf]

/-! ### The parts of `parse` -/

/-- The relation in which `parse` on a pointer stands to `parse`. -/
abbrev Parses (len : UInt64) (R : α → β → Prop) : Reader α → Except Stop β → Prop :=
  Follows (Access.InBounds len) .malformed R

theorem read_parses {i : UInt64} {j : Nat} {f : UInt8 → Reader α} {g : UInt8 → Except Stop β} (hij : i.toNat = j)
    (h : j < len.toNat) (hf : Parses len R (f (data i)) (g (data i))) :
    Parses len R (read data i >>= f) (readAt (bufferOf data len) j >>= g) := by
  rw [readAt_bufferOf hij h]
  exact .step (UInt64.lt_iff_toNat_lt.mpr (hij ▸ h)) hf

theorem subLen_parses {a b : UInt64} {m n : Nat} {f : UInt64 → Reader α} {g : Nat → Except Stop β} (ha : a.toNat = m)
    (hb : b.toNat = n) (h : n ≤ m) (hf : (a - b).toNat = m - n → Parses len R (f (a - b)) (g (m - n))) :
    Parses len R (sizeSub a b >>= f) (subLen m n >>= g) := by
  subst ha hb
  have := a.toNat_lt
  rw [subLen, if_pos h]
  refine .step ⟨?_, ?_⟩ (hf (toNat_sizeSub h)) <;> omega

theorem sizeAdd_parses {a b : UInt64} {m n : Nat} {f : UInt64 → Reader α} {y : Except Stop β} (ha : a.toNat = m)
    (hb : b.toNat = n) (h : m + n < 2 ^ 64) (hf : (a + b).toNat = m + n → Parses len R (f (a + b)) y) :
    Parses len R (sizeAdd a b >>= f) y := by
  subst ha hb
  refine .step ⟨?_, ?_⟩ (hf (toNat_sizeAdd h)) <;> omega

/-- A length of the form `a + n * 4`. -/
theorem words_parses {f : Int → Reader α} {y : Except Stop β} (a n : Nat) (h : a + n * 4 < 2 ^ 31)
    (hf : (UInt64.ofInt (a + n * 4)).toNat = a + n * 4 → Parses len R (f (a + n * 4)) y) :
    Parses len R (intMul n 4 >>= fun words => intAdd a words >>= f) y := by
  refine .step ⟨?_, ?_⟩ (.step ⟨?_, ?_⟩ (hf ?_))
  case refine_5 =>
    rw [toNat_ofInt ⟨by omega, by omega⟩]
    omega
  all_goals omega

theorem headerLenAt_parses (extension : Bool) (cc : UInt8) :
    Parses len (fun a b => a.toNat = b ∧ b ≤ len.toNat) (headerLenAt data len extension cc)
      (headerLen (bufferOf data len) extension cc) := by
  have hcc := cc.toNat_lt
  unfold headerLenAt headerLen
  simp only [length_bufferOf]
  refine words_parses 12 cc.toNat (by omega) fun hfixed => ?_
  generalize UInt64.ofInt ((12 : Nat) + (cc.toNat : Int) * 4) = header_len at hfixed ⊢
  generalize hn : 12 + cc.toNat * 4 = n at hfixed ⊢
  -- the test at the end
  have hend : ∀ {a : UInt64} {b : Nat}, a.toNat = b → Parses len (fun a b => a.toNat = b ∧ b ≤ len.toNat)
      (if len < a then stop else Pure.pure a) (if len.toNat < b then .error .malformed else .ok b) := fun hab =>
    .ite (by rw [UInt64.lt_iff_toNat_lt, hab]) (fun _ _ => .stop) fun _ hb => .pure ⟨hab, Nat.not_lt.mp hb⟩
  refine .ite (by rw [UInt64.lt_iff_toNat_lt, hfixed]) (fun _ _ => .stop) fun _ hcsrc => .ite Iff.rfl (fun _ _ => ?_) fun _ _ => ?_
  · -- the extension
    refine sizeAdd_parses hfixed rfl (show n + 4 < 2 ^ 64 by omega) fun hroom => ?_
    refine .ite (by rw [UInt64.lt_iff_toNat_lt, hroom]; rfl) (fun _ _ => .stop) fun _ hlen4 => ?_
    refine sizeAdd_parses hfixed rfl (show n + 2 < 2 ^ 64 by omega) fun hhi => read_parses hhi (by omega) ?_
    refine sizeAdd_parses hfixed rfl (show n + 3 < 2 ^ 64 by omega) fun hlo => read_parses hlo (by omega) ?_
    generalize ofBe16 (data (header_len + 2)) (data (header_len + 3)) = ext_len
    have hext := ext_len.toNat_lt
    refine words_parses 4 ext_len.toNat (by omega) fun hwords => ?_
    exact sizeAdd_parses hfixed hwords (by omega) hend
  · exact hend hfixed

theorem payloadLenAt_parses (padding : Bool) {header_len : UInt64} {n : Nat} (hn : header_len.toNat = n)
    (hle : n ≤ len.toNat) :
    Parses len (fun a b => a.toNat = b ∧ n + b ≤ len.toNat) (payloadLenAt data len padding header_len)
      (payloadLen (bufferOf data len) padding n) := by
  unfold payloadLenAt payloadLen
  simp only [length_bufferOf]
  refine subLen_parses rfl hn hle fun hrest => ?_
  generalize len - header_len = payload_len at hrest ⊢
  generalize hm : len.toNat - n = m at hrest ⊢
  refine .ite ?_ (fun _ hpadded => ?_) fun _ _ => .pure ⟨hrest, by omega⟩
  · simp [UInt64.lt_iff_toNat_lt, hrest]
  · have hpos : 0 < m := by simp_all
    refine subLen_parses rfl rfl (show 1 ≤ len.toNat by omega) fun hlast => read_parses hlast (by omega) ?_
    generalize data (len - 1) = pad_count
    refine .ite (by simp [UInt64.lt_iff_toNat_lt, hrest]) (fun _ _ => .stop) fun _ hfits => ?_
    rw [subLen, if_pos (by omega)]
    have hpad : pad_count.toUInt64.toNat = pad_count.toNat := UInt8.toNat_toUInt64 pad_count
    have := payload_len.toNat_lt
    refine .last ⟨by omega, by omega⟩ ⟨?_, by omega⟩
    rw [toNat_sizeSub (by omega)]
    omega

theorem assign_parses {first count : UInt64} {m n : Nat} (hm : first.toNat = m) (hn : count.toNat = n)
    (h : m + n ≤ len.toNat) :
    Parses len (fun a b => a = b) (assign data first count) (slice (bufferOf data len) m n) := by
  subst hm hn
  have := len.toNat_lt
  rw [slice_bufferOf h]
  exact sizeAdd_parses rfl rfl (by omega) fun _ => .last h rfl

theorem parseAt_parses (data : UInt64 → UInt8) (len : UInt64) :
    Parses len (fun a b => a = b) (parseAt data len) (parse (bufferOf data len)) := by
  unfold parseAt parse
  simp only [length_bufferOf]
  refine .ite (by rw [UInt64.lt_iff_toNat_lt]; rfl) (fun _ _ => .stop) fun _ htwelve => ?_
  refine read_parses rfl (by omega) (.ite Iff.rfl (fun _ _ => .stop) fun _ _ => ?_)
  refine read_parses rfl (by omega) (read_parses rfl (by omega) (read_parses rfl (by omega) ?_))
  refine read_parses rfl (by omega) (read_parses rfl (by omega) (read_parses rfl (by omega) (read_parses rfl (by omega) ?_)))
  refine read_parses rfl (by omega) (read_parses rfl (by omega) (read_parses rfl (by omega) (read_parses rfl (by omega) ?_)))
  refine .bind (headerLenAt_parses _ _) fun header_len n ⟨hn, hle⟩ => ?_
  refine .bind (payloadLenAt_parses _ hn hle) fun payload_len m ⟨hm, hfits⟩ => ?_
  refine .bind (assign_parses hn hm hfits) fun payload payload' heq => ?_
  subst heq
  exact .pure rfl

/-- `parse` on a pointer comes to what `parse` comes to on the bytes of its buffer, which is a packet or malformed. -/
theorem parse_bufferOf (data : UInt64 → UInt8) (len : UInt64) :
    parse (bufferOf data len) = (parseAt data len).result.elim (.error .malformed) .ok := (parseAt_parses data len).ends.eq

/-! ### What is copied -/

/-- With a result, a range was copied, and it is the payload. -/
def Copies (data : UInt64 → UInt8) (x : Reader RtpPacket) : Prop :=
  ∀ p, x.result = some p → ∃ first count, .copy first count ∈ x.trace ∧
    p.payload = (List.range count.toNat).map fun k => data (first + UInt64.ofNat k)

theorem Copies.bind {x : Reader α} {f : α → Reader RtpPacket} (h : ∀ a, Copies data (f a)) : Copies data (x >>= f) := by
  intro p hp
  obtain ⟨trace, result⟩ := x
  cases result with
  | none => cases hp
  | some a =>
    obtain ⟨first, count, hmem, hpayload⟩ := h a p hp
    exact ⟨first, count, List.mem_append_right _ hmem, hpayload⟩

theorem Copies.ite {c : Prop} [Decidable c] {x : Reader RtpPacket} (h : Copies data x) :
    Copies data (if c then stop else x) := by
  split
  · nofun
  · exact h

theorem parseAt_copies (data : UInt64 → UInt8) (len : UInt64) : Copies data (parseAt data len) := by
  unfold parseAt
  refine .ite (.bind fun _ => .ite ?_)
  iterate 13 refine .bind fun _ => ?_
  rintro p hp
  obtain rfl := Option.some.inj hp
  exact ⟨_, _, List.mem_cons_of_mem _ (List.mem_cons_self), rfl⟩

end

/-- What `parse(data, len)` does with its buffer. -/
structure StaysInBounds (data : UInt64 → UInt8) (len : UInt64) : Prop where
  reads : ∀ i, .read i ∈ (parseAt data len).trace → i < len
  /-- No length that it computes is negative, or more than its type holds. -/
  ints : ∀ value, .int value ∈ (parseAt data len).trace → 0 ≤ value ∧ value < 2 ^ 31
  sizes : ∀ value, .size value ∈ (parseAt data len).trace → 0 ≤ value ∧ value < 2 ^ 64
  copies : ∀ first count, .copy first count ∈ (parseAt data len).trace → first.toNat + count.toNat ≤ len.toNat
  /-- The payload of a packet that it accepts is a range that it copied. -/
  payload : ∀ p, (parseAt data len).result = some p → ∃ header_len payload_len,
    .copy header_len payload_len ∈ (parseAt data len).trace ∧ header_len.toNat + payload_len.toNat ≤ len.toNat ∧
    p.payload = ((bufferOf data len).drop header_len.toNat).take payload_len.toNat

theorem parse_stays_in_bounds (data : UInt64 → UInt8) (len : UInt64) : StaysInBounds data len := by
  have htrace := (parseAt_parses data len).trace
  refine ⟨fun i => htrace (.read i), fun v => htrace (.int v), fun v => htrace (.size v), fun a b => htrace (.copy a b),
    fun p hp => ?_⟩
  obtain ⟨header_len, payload_len, hmem, hpayload⟩ := parseAt_copies data len p hp
  have hfits : header_len.toNat + payload_len.toNat ≤ len.toNat := htrace _ hmem
  refine ⟨header_len, payload_len, hmem, hfits, ?_⟩
  have hslice : slice (bufferOf data len) _ _ = _ := slice_bufferOf hfits
  rw [slice, length_bufferOf, if_pos hfits] at hslice
  rw [hpayload, Except.ok.inj hslice]

end AudioMeet.RtpPacket
