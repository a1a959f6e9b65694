import AudioMeet.G711
import AudioMeet.Lib.Bytes
import Mathlib.Algebra.Order.Group.Int
import Mathlib.Algebra.Order.Group.Unbundled.Abs
import Mathlib.Data.List.Forall2
import Mathlib.Tactic.IntervalCases
import Mathlib.Tactic.NormNum

/-! G.711 round trips. The encoder sets the sign bit for negative samples and the decoder takes a set
    sign bit for positive ones, so a decoded sample has the size of the encoded one and the other sign. -/

namespace AudioMeet.G711Alaw
open Lib

/-! ### Bytes as numbers -/

theorem and_0F {n : Nat} (h : n < 256) : (UInt8.ofNat n &&& 0x0F).toNat = n % 16 := by
  rw [toNat_and_mask (k := 4) _ rfl, UInt8.toNat_ofNat', Nat.mod_eq_of_lt h]
  rfl

theorem and_70_shift {n : Nat} (h : n < 256) : ((UInt8.ofNat n &&& 0x70) >>> 4).toNat = n / 16 % 8 := by
  rw [UInt8.toNat_shiftRight, UInt8.toNat_and, UInt8.toNat_ofNat', Nat.mod_eq_of_lt h]
  change (n &&& 0x70) >>> 4 = _
  rw [Nat.shiftRight_and_distrib, Nat.shiftRight_eq_div_pow]
  exact Nat.and_two_pow_sub_one_eq_mod (n / 16) 3

theorem and_80_ne_zero {n : Nat} (h : n < 256) : UInt8.ofNat n &&& 0x80 ≠ 0 ↔ 128 ≤ n := by
  rw [and_bit_ne_zero (k := 7) _ rfl, UInt8.toNat_ofNat', Nat.mod_eq_of_lt h]
  omega

theorem xor_55_xor_55 (a : UInt8) : a ^^^ 0x55 ^^^ 0x55 = a := by
  rw [UInt8.xor_assoc, UInt8.xor_self, UInt8.xor_zero]

/-! ### The decoder -/

/-- The size of the sample that segment `seg` and mantissa `m` stand for. -/
def magnitude (seg m : Nat) : Nat := segmentLevel seg (m <<< 4)

theorem magnitude_bounds {seg m : Nat} (hseg : seg < 8) (hm : m < 16) :
    8 ≤ magnitude seg m ∧ magnitude seg m ≤ 32256 := by
  interval_cases seg <;> simp only [magnitude, segmentLevel, Nat.shiftLeft_eq] <;> omega

/-- What the decoder makes of a byte whose value before the toggling of its even bits is `n`. -/
theorem decodeSample_toggled {n : Nat} (h : n < 256) :
    (decodeSample (UInt8.ofNat n ^^^ 0x55)).toInt =
      if 128 ≤ n then (magnitude (n / 16 % 8) (n % 16) : Int) else -(magnitude (n / 16 % 8) (n % 16) : Int) := by
  obtain ⟨hlo, hhi⟩ := magnitude_bounds (show n / 16 % 8 < 8 by omega) (show n % 16 < 16 by omega)
  simp only [decodeSample, xor_55_xor_55, and_0F h, and_70_shift h, and_80_ne_zero h]
  change (Int16.ofInt (if 128 ≤ n then (magnitude _ _ : Int) else -(magnitude _ _ : Int))).toInt = _
  rw [Int16.toInt_ofInt_of_le] <;> split <;> omega

/-- The levels grow with the segment, and within a segment with the mantissa. -/
theorem magnitude_lt {j k : Nat} (hjk : j < k) (hk : k < 128) :
    magnitude (j / 16 % 8) (j % 16) < magnitude (k / 16 % 8) (k % 16) := by
  have hnext : ∀ k < 127, magnitude (k / 16 % 8) (k % 16) < magnitude ((k + 1) / 16 % 8) ((k + 1) % 16) := by decide
  induction k, hjk using Nat.le_induction with
  | base => exact hnext j (by omega)
  | succ k _ ih => exact (ih (by omega)).trans (hnext k (by omega))

/-- The decoder takes no two bytes for the same sample. -/
theorem decodeSample_injective : Function.Injective decodeSample := by
  intro a b h
  have toggled : ∀ c : UInt8, ∃ n < 256, c = UInt8.ofNat n ^^^ 0x55 := fun c =>
    ⟨(c ^^^ 0x55).toNat, (c ^^^ 0x55).toNat_lt, by rw [UInt8.ofNat_toNat, xor_55_xor_55]⟩
  obtain ⟨m, hm, rfl⟩ := toggled a
  obtain ⟨n, hn, rfl⟩ := toggled b
  have heq : (decodeSample (UInt8.ofNat m ^^^ 0x55)).toInt = (decodeSample (UInt8.ofNat n ^^^ 0x55)).toInt := by rw [h]
  rw [decodeSample_toggled hm, decodeSample_toggled hn] at heq
  obtain ⟨hlm, -⟩ := magnitude_bounds (show m / 16 % 8 < 8 by omega) (show m % 16 < 16 by omega)
  obtain ⟨hln, -⟩ := magnitude_bounds (show n / 16 % 8 < 8 by omega) (show n % 16 < 16 by omega)
  have hlow : ∀ k, magnitude (k % 128 / 16 % 8) (k % 128 % 16) = magnitude (k / 16 % 8) (k % 16) := fun k => by
    rw [show k % 128 / 16 % 8 = k / 16 % 8 by omega, show k % 128 % 16 = k % 16 by omega]
  have hmod : m % 128 = n % 128 := by
    rcases Nat.lt_trichotomy (m % 128) (n % 128) with hlt | hlt | hlt
    · have := magnitude_lt hlt (by omega)
      rw [hlow, hlow] at this
      split at heq <;> split at heq <;> omega
    · exact hlt
    · have := magnitude_lt hlt (by omega)
      rw [hlow, hlow] at this
      split at heq <;> split at heq <;> omega
  have : m = n := by split at heq <;> split at heq <;> omega
  rw [this]

/-! ### The encoder -/

theorem toInt_eq_toNat (x : Int16) :
    x.toInt = if x.toUInt16.toNat < 32768 then (x.toUInt16.toNat : Int) else x.toUInt16.toNat - 65536 := by
  have h := BitVec.toInt_eq_toNat_cond x.toBitVec
  change x.toInt = if 2 * x.toUInt16.toNat < 2 ^ 16 then (x.toUInt16.toNat : Int) else x.toUInt16.toNat - (2 ^ 16 : Nat) at h
  rw [h]
  split <;> split <;> omega

theorem sign_eq (x : Int16) : ((x.toUInt16 &&& 0x8000) >>> 8).toNat = if x.toInt < 0 then 128 else 0 := by
  have hlt := x.toUInt16.toNat_lt
  have hand : x.toUInt16.toNat &&& 2 ^ 15 = 2 ^ 15 * (x.toUInt16.toNat / 2 ^ 15 % 2) := by
    rw [Nat.and_two_pow, Nat.testBit_eq_decide_div_mod_eq, Nat.mul_comm]
    rcases Nat.mod_two_eq_zero_or_one (x.toUInt16.toNat / 2 ^ 15) with h0 | h0 <;> simp only [h0] <;> rfl
  rw [UInt16.toNat_shiftRight, UInt16.toNat_and]
  change (x.toUInt16.toNat &&& 2 ^ 15) >>> 8 = _
  rw [hand, Nat.shiftRight_eq_div_pow, toInt_eq_toNat]
  split <;> split <;> omega

theorem segment_spec {v : Int} (hlo : 256 ≤ v) (hhi : v ≤ 32767) :
    1 ≤ segment v ∧ segment v < 8 ∧ 128 * 2 ^ segment v ≤ v ∧ v < 256 * 2 ^ segment v := by
  have hseg : segment v = if v ≤ 511 then 1 else if v ≤ 1023 then 2 else if v ≤ 2047 then 3 else
      if v ≤ 4095 then 4 else if v ≤ 8191 then 5 else if v ≤ 16383 then 6 else 7 := by
    simp only [segment, seg_end, List.range', List.find?, List.getD_cons_succ, List.getD_cons_zero]
    split_ifs <;> simp [*]
  rw [hseg]
  split_ifs <;> norm_num <;> omega

theorem toInt_neg_eq {x : Int16} (h : x.toInt ≠ -32768) : (-x).toInt = -x.toInt := by
  have h1 := x.le_toInt
  have h2 := x.toInt_lt
  rw [Int16.toInt_neg, Int.bmod_eq_of_le] <;> omega

/-- `pcm` after its sign was taken off and it was clipped. -/
def clipped (x : Int16) : Int16 :=
  let pcm := if x.toInt < 0 then -x else x
  if pcm > 32635 then 32635 else pcm

theorem clipped_toInt {x : Int16} (h : x.toInt ≠ -32768) : (clipped x).toInt = min |x.toInt| 32635 := by
  have hneg := toInt_neg_eq h
  have hc : (32635 : Int16).toInt = 32635 := rfl
  unfold clipped
  by_cases hx : x.toInt < 0
  · rw [if_pos hx, abs_of_neg hx]
    dsimp only
    split <;> rename_i hgt <;> rw [gt_iff_lt, Int16.lt_iff_toInt_lt, hc] at hgt <;> omega
  · rw [if_neg hx, abs_of_nonneg (by omega)]
    dsimp only
    split <;> rename_i hgt <;> rw [gt_iff_lt, Int16.lt_iff_toInt_lt, hc] at hgt <;> omega

/-- The segment and the mantissa that the encoder picks for the size `v`. -/
def segmentOf (v : Int) : Nat := if v ≥ 256 then segment v else 0

def mantissaOf (v : Int) : Nat :=
  ((if v ≥ 256 then v >>> (segmentOf v + 3) else v >>> (4 : Nat)) % 16).toNat

theorem mantissaOf_lt (v : Int) : mantissaOf v < 16 := by
  unfold mantissaOf
  omega

theorem segmentOf_lt {v : Int} (h : v ≤ 32767) : segmentOf v < 8 := by
  unfold segmentOf
  split
  · exact (segment_spec (by omega) h).2.1
  · omega

theorem clipped_le (x : Int16) : (clipped x).toInt ≤ 32767 := by
  have := (clipped x).toInt_lt
  omega

/-- What the encoder writes, before the toggling of the even bits. -/
def code (x : Int16) : Nat :=
  (if x.toInt < 0 then 128 else 0) + (16 * segmentOf (clipped x).toInt + mantissaOf (clipped x).toInt)

theorem code_lt (x : Int16) : code x < 256 := by
  have h1 := segmentOf_lt (clipped_le x)
  have h2 := mantissaOf_lt (clipped x).toInt
  unfold code
  split <;> omega

theorem encodeSample_eq (x : Int16) : encodeSample x = UInt8.ofNat (code x) ^^^ 0x55 := by
  have hseg := segmentOf_lt (clipped_le x)
  have hm := mantissaOf_lt (clipped x).toInt
  have hsign : ((if x.toInt < 0 then 128 else 0 : Nat) ≠ 0) ↔ x.toInt < 0 := by split <;> simp [*]
  have hor : ∀ s : Nat, s = 0 ∨ s = 128 →
      s ||| segmentOf (clipped x).toInt <<< 4 ||| mantissaOf (clipped x).toInt =
        s + (16 * segmentOf (clipped x).toInt + mantissaOf (clipped x).toInt) := by
    intro s hs
    have h1 := Nat.shiftLeft_add_eq_or_of_lt (i := 4) hm (segmentOf (clipped x).toInt)
    rw [Nat.or_assoc, ← h1, Nat.shiftLeft_eq]
    rcases hs with rfl | rfl
    · rw [Nat.zero_or]; omega
    · have h2 := Nat.two_pow_add_eq_or_of_lt (i := 7)
        (b := segmentOf (clipped x).toInt * 2 ^ 4 + mantissaOf (clipped x).toInt) (by omega) 1
      rw [Nat.mul_one] at h2
      change 2 ^ 7 ||| _ = _
      omega
  unfold encodeSample code
  rw [sign_eq]
  simp only [hsign]
  exact congrArg (UInt8.ofNat · ^^^ 0x55) (hor _ (by split <;> simp))

/-! ### Round trips -/

/-- A negative sample comes back positive, any other one comes back negative. -/
theorem decodeSample_encodeSample (x : Int16) :
    (decodeSample (encodeSample x)).toInt =
      if x.toInt < 0 then (magnitude (segmentOf (clipped x).toInt) (mantissaOf (clipped x).toInt) : Int)
      else -(magnitude (segmentOf (clipped x).toInt) (mantissaOf (clipped x).toInt) : Int) := by
  have hseg := segmentOf_lt (clipped_le x)
  have hm := mantissaOf_lt (clipped x).toInt
  have hs : 128 ≤ code x ↔ x.toInt < 0 := by unfold code; split <;> simp [*]; omega
  have h1 : code x / 16 % 8 = segmentOf (clipped x).toInt := by unfold code; split <;> omega
  have h2 : code x % 16 = mantissaOf (clipped x).toInt := by unfold code; split <;> omega
  rw [encodeSample_eq, decodeSample_toggled (code_lt x), h1, h2]
  simp only [hs]

/-- A size below the clip is off by at most half a quantisation step. -/
theorem magnitude_error {v : Int} (hlo : 0 ≤ v) (hhi : v ≤ 32767) :
    |(magnitude (segmentOf v) (mantissaOf v) : Int) - v| ≤ max 8 (v / 32) := by
  rw [abs_le]
  by_cases h : 256 ≤ v
  · obtain ⟨h1, h8, hle, hlt⟩ := segment_spec h hhi
    have hseg : segmentOf v = segment v := if_pos h
    have hman : mantissaOf v = (v / 2 ^ (segment v + 3) % 16).toNat := by
      rw [mantissaOf, if_pos h, hseg, Int.shiftRight_eq_div_pow]
      push_cast
      rfl
    rw [hman, hseg]
    generalize segment v = s at *
    interval_cases s <;> norm_num at hle hlt <;> simp only [magnitude, segmentLevel, Nat.shiftLeft_eq] <;>
      norm_num <;> omega
  · have hseg : segmentOf v = 0 := if_neg h
    have hman : mantissaOf v = (v / 16 % 16).toNat := by
      rw [mantissaOf, if_neg h, Int.shiftRight_eq_div_pow]
      rfl
    rw [hman, hseg]
    simp only [magnitude, segmentLevel, Nat.shiftLeft_eq]
    omega

/-- What comes back of a sample is its opposite, up to half a quantisation step. -/
theorem decodeSample_encodeSample_opposite {x : Int16} (h : x.toInt ≠ -32768) :
    |(decodeSample (encodeSample x)).toInt + x.toInt| ≤ max 8 (|x.toInt| / 32) := by
  have hlo := x.le_toInt
  have hhi := x.toInt_lt
  have habs : 0 ≤ |x.toInt| ∧ |x.toInt| ≤ 32767 ∧ (x.toInt < 0 → |x.toInt| = -x.toInt) ∧
      (¬ x.toInt < 0 → |x.toInt| = x.toInt) :=
    ⟨abs_nonneg _, abs_le.mpr (by omega), abs_of_neg, fun h => abs_of_nonneg (by omega)⟩
  have herr : abs ((magnitude (segmentOf (clipped x).toInt) (mantissaOf (clipped x).toInt) : Int) - |x.toInt|) ≤
      max 8 (|x.toInt| / 32) := by
    rw [clipped_toInt h]
    by_cases hv : |x.toInt| ≤ 32635
    · rw [min_eq_left hv]
      exact magnitude_error habs.1 habs.2.1
    · -- The clip and the sizes above it share segment 7 and mantissa 15.
      have htop : magnitude (segmentOf 32635) (mantissaOf 32635) = 32256 := by decide
      rw [min_eq_right (by omega), htop, abs_le]
      omega
  rw [decodeSample_encodeSample]
  rw [abs_le] at herr ⊢
  split <;> omega

/-- A byte that is decoded and encoded again has its sign bit flipped, and nothing else. -/
theorem encodeSample_decodeSample (a : UInt8) : encodeSample (decodeSample a) = a ^^^ 0x80 := by
  have hbytes : ∀ n < 256, encodeSample (decodeSample (UInt8.ofNat n)) = UInt8.ofNat n ^^^ 0x80 := by decide +kernel
  have ha := hbytes a.toNat a.toNat_lt
  rwa [UInt8.ofNat_toNat] at ha

theorem storeEach_eq {α β : Type} {f : α → β} {src : List α} {dst : List β} {n : Nat} (hs : n ≤ src.length)
    (hd : n ≤ dst.length) : storeEach f src dst n = some ((src.take n).map f ++ dst.drop n) := by
  induction n with
  | zero => simp [storeEach]
  | succ i ih =>
    have hsi : src[i]? = some src[i] := List.getElem?_eq_getElem hs
    have hlen : ((src.take i).map f).length = i := by simp; omega
    simp only [storeEach, ih (by omega) (by omega), hsi, Option.bind_eq_bind, Option.bind_some]
    rw [if_pos (by simp; omega), List.set_append_right _ _ (by omega), hlen, Nat.sub_self,
      List.take_succ_eq_append_getElem hs, List.drop_eq_getElem_cons hd, List.set_cons_zero, List.map_append,
      List.map_singleton, List.append_assoc, List.singleton_append]

/-- A buffer through `encodeBuffer` and `decodeBuffer`, each writing to a buffer of the same length. -/
def roundTrip (pcm : List Int16) : Option (List Int16) := do
  let alaw ← encodeBuffer pcm (List.replicate pcm.length 0) pcm.length
  decodeBuffer alaw (List.replicate pcm.length 0) pcm.length

theorem roundTrip_eq (pcm : List Int16) :
    roundTrip pcm = some (pcm.map fun x => decodeSample (encodeSample x)) := by
  simp [roundTrip, encodeBuffer, decodeBuffer, storeEach_eq, Function.comp_def, List.take_of_length_le]

/-- `y` stands for `x` up to half a quantisation step, and has its sign where that step is smaller than `x`. -/
def Close (x y : Int16) : Prop :=
  |y.toInt - x.toInt| ≤ max 8 (|x.toInt| / 32) ∧ (8 < |x.toInt| → y.toInt.sign = x.toInt.sign)

/-- The round trip keeps the length of the buffer and stays close at every sample. -/
def Faithful (pcm : List Int16) : Prop :=
  ∃ out, roundTrip pcm = some out ∧ List.Forall₂ Close pcm out

theorem close_iff {x : Int16} : Close x (decodeSample (encodeSample x)) ↔ x = 0 := by
  obtain ⟨hmag, -⟩ := magnitude_bounds (segmentOf_lt (clipped_le x)) (mantissaOf_lt (clipped x).toInt)
  constructor
  · intro ⟨herr, _⟩
    rw [decodeSample_encodeSample, abs_le] at herr
    rw [← Int16.toInt_inj]
    change x.toInt = 0
    rcases lt_trichotomy x.toInt 0 with hx | hx | hx
    · rw [if_pos hx, abs_of_neg hx] at herr
      omega
    · exact hx
    · rw [if_neg (by omega), abs_of_pos hx] at herr
      omega
  · rintro rfl
    constructor <;> decide

/-- The round trip of a buffer is faithful exactly when every sample is zero. -/
theorem faithful_iff (pcm : List Int16) : Faithful pcm ↔ ∀ x ∈ pcm, x = 0 := by
  simp only [Faithful, roundTrip_eq, Option.some.injEq, exists_eq_left', List.forall₂_map_right_iff,
    List.forall₂_same, close_iff]

/-- A buffer of one positive sample comes back negative. -/
theorem not_faithful_of_positive : ¬ Faithful [1000] := by
  rintro ⟨out, hout, hclose⟩
  rw [roundTrip_eq, Option.some.injEq] at hout
  subst hout
  rw [List.map_singleton, List.forall₂_cons, close_iff] at hclose
  exact absurd hclose.1 (by decide)

end AudioMeet.G711Alaw
