import AudioMeet.Theorems.G711

/-! Louder samples come back louder, whatever their sign, but for -32768: its negation wraps, so that it is not
    clipped and comes back as quiet as the samples below 16. -/

namespace AudioMeet.G711Alaw

/-- The size that the size `v` comes back as. -/
def restored (v : Int) : Nat := magnitude (segmentOf v) (mantissaOf v)

/-- The place of the size `v` among the 128 levels. -/
def level (v : Int) : Nat := 16 * segmentOf v + mantissaOf v

theorem level_lt {v : Int} (h : v ≤ 32767) : level v < 128 := by
  have hseg := segmentOf_lt h
  have hm := mantissaOf_lt v
  unfold level
  omega

theorem restored_eq {v : Int} (h : v ≤ 32767) : restored v = magnitude (level v / 16 % 8) (level v % 16) := by
  have hseg := segmentOf_lt h
  have hm := mantissaOf_lt v
  rw [restored, show level v / 16 % 8 = segmentOf v by unfold level; omega,
    show level v % 16 = mantissaOf v by unfold level; omega]

/-- In the segments from 1 on, the mantissa is the part of the size above the segment's start. -/
theorem level_high {v : Int} (hlo : 256 ≤ v) (hhi : v ≤ 32767) :
    (level v : Int) = 16 * segment v + (v / 2 ^ (segment v + 3) - 16) := by
  obtain ⟨h1, h8, hle, hlt⟩ := segment_spec hlo hhi
  have hseg : segmentOf v = segment v := if_pos hlo
  rw [level, mantissaOf, if_pos hlo, hseg, Int.shiftRight_eq_div_pow]
  push_cast
  generalize segment v = s at *
  interval_cases s <;> norm_num at hle hlt ⊢ <;> omega

theorem segment_mono {v w : Int} (hv : 256 ≤ v) (h : v ≤ w) (hw : w ≤ 32767) : segment v ≤ segment w := by
  obtain ⟨-, -, hle, -⟩ := segment_spec hv (h.trans hw)
  obtain ⟨-, -, -, hlt⟩ := segment_spec (hv.trans h) hw
  by_contra hno
  have hpow : (2 : Int) ^ (segment w + 1) ≤ 2 ^ segment v := pow_le_pow_right₀ (by norm_num) (by omega)
  rw [pow_succ] at hpow
  omega

theorem segmentOf_mono {v w : Int} (h : v ≤ w) (hw : w ≤ 32767) : segmentOf v ≤ segmentOf w := by
  unfold segmentOf
  by_cases hv : v ≥ 256
  · rw [if_pos hv, if_pos (show w ≥ 256 by omega)]
    exact segment_mono hv h hw
  · rw [if_neg hv]
    exact Nat.zero_le _

theorem level_mono {v w : Int} (hv : 0 ≤ v) (h : v ≤ w) (hw : w ≤ 32767) : level v ≤ level w := by
  have hmv := mantissaOf_lt v
  rcases Nat.eq_or_lt_of_le (segmentOf_mono h hw) with heq | hlt
  · by_cases hv' : 256 ≤ v
    · have hlv := level_high hv' (h.trans hw)
      have hlw := level_high (hv'.trans h) hw
      have hseg : segment v = segment w := by
        rw [segmentOf, segmentOf, if_pos (by omega), if_pos (by omega)] at heq
        exact heq
      have hdiv : v / 2 ^ (segment w + 3) ≤ w / 2 ^ (segment w + 3) := Int.ediv_le_ediv (by positivity) h
      rw [hseg] at hlv
      omega
    · have hw' : ¬ w ≥ 256 := by
        intro hge
        have h1 := (segment_spec hge hw).1
        rw [segmentOf, segmentOf, if_neg (by omega), if_pos hge] at heq
        omega
      rw [level, level, heq, mantissaOf, mantissaOf, if_neg (by omega), if_neg hw', Int.shiftRight_eq_div_pow,
        Int.shiftRight_eq_div_pow]
      push_cast
      norm_num
      omega
  · unfold level
    omega

/-- The larger size comes back no smaller. -/
theorem restored_mono {v w : Int} (hv : 0 ≤ v) (h : v ≤ w) (hw : w ≤ 32767) : restored v ≤ restored w := by
  rw [restored_eq (h.trans hw), restored_eq hw]
  rcases Nat.eq_or_lt_of_le (level_mono hv h hw) with heq | hlt
  · rw [heq]
  · exact (magnitude_lt hlt (level_lt hw)).le

/-! ### Samples -/

theorem abs_decoded (x : Int16) : |(decodeSample (encodeSample x)).toInt| = restored (clipped x).toInt := by
  rw [decodeSample_encodeSample, restored]
  split
  · exact abs_of_nonneg (Int.natCast_nonneg _)
  · rw [abs_neg]
    exact abs_of_nonneg (Int.natCast_nonneg _)

/-- -32768 passes the clip with its sign. -/
theorem restored_lowest {x : Int16} (h : x.toInt = -32768) : restored (clipped x).toInt = 8 := by
  obtain rfl : x = -32768 := Int16.toInt_inj.mp h
  decide

/-- The samples that come back as quiet as a sample can. -/
theorem restored_le_iff {x : Int16} (h : x.toInt ≠ -32768) : restored (clipped x).toInt ≤ 8 ↔ |x.toInt| < 16 := by
  rw [clipped_toInt h]
  have habs := abs_nonneg x.toInt
  constructor
  · intro hle
    by_contra hge
    have hmin : 16 ≤ min |x.toInt| 32635 := by omega
    have hmono := restored_mono (by omega) hmin (by omega)
    have h16 : restored 16 = 24 := by decide
    omega
  · intro hlt
    have hmin : 0 ≤ min |x.toInt| 32635 ∧ min |x.toInt| 32635 ≤ 15 := by omega
    have hmono := restored_mono hmin.1 hmin.2 (by omega)
    have h15 : restored 15 = 8 := by decide
    omega

/-- Of two samples the second is as loud as the first. -/
def Louder (x y : Int16) : Prop := |x.toInt| ≤ |y.toInt|

theorem louder_decoded_iff {x y : Int16} (h : Louder x y) :
    Louder (decodeSample (encodeSample x)) (decodeSample (encodeSample y)) ↔
      (y.toInt = -32768 → x.toInt = -32768 ∨ |x.toInt| < 16) := by
  unfold Louder at h ⊢
  rw [abs_decoded, abs_decoded, Int.ofNat_le]
  have hx := x.le_toInt
  have hx' := x.toInt_lt
  have hy := y.le_toInt
  have hy' := y.toInt_lt
  by_cases hlow : y.toInt = -32768
  · rw [restored_lowest hlow]
    by_cases hxlow : x.toInt = -32768
    · rw [restored_lowest hxlow]
      exact ⟨fun _ _ => Or.inl hxlow, fun _ => Nat.le_refl 8⟩
    · rw [restored_le_iff hxlow]
      exact ⟨fun hlt _ => Or.inr hlt, fun hcond => (hcond hlow).resolve_left hxlow⟩
  · have hxlow : x.toInt ≠ -32768 := by
      intro hxlow
      rw [hxlow] at h
      have habs : |y.toInt| < 32768 := abs_lt.mpr (by omega)
      simp at h
      omega
    refine ⟨fun _ hno => absurd hno hlow, fun _ => ?_⟩
    rw [clipped_toInt hxlow, clipped_toInt hlow]
    exact restored_mono (by have := abs_nonneg x.toInt; omega) (by omega) (by omega)

/-- Both buffers come back, and no sample of the second quieter than that of the first. -/
def StaysLouder (a b : List Int16) : Prop :=
  ∃ a' b', roundTrip a = some a' ∧ roundTrip b = some b' ∧ List.Forall₂ Louder a' b'

theorem staysLouder_iff_forall {a b : List Int16} : StaysLouder a b ↔
    List.Forall₂ (fun x y => Louder (decodeSample (encodeSample x)) (decodeSample (encodeSample y))) a b := by
  simp only [StaysLouder, roundTrip_eq, Option.some.injEq, exists_and_left, exists_eq_left', List.forall₂_map_left_iff,
    List.forall₂_map_right_iff]

/-- A buffer that is as loud at every sample stays so exactly if its samples of -32768 meet the same or a sample
    below 16. -/
theorem stays_louder_iff {a b : List Int16} (h : List.Forall₂ Louder a b) : StaysLouder a b ↔
    List.Forall₂ (fun x y => y.toInt = -32768 → x.toInt = -32768 ∨ |x.toInt| < 16) a b := by
  rw [staysLouder_iff_forall]
  induction h with
  | nil => simp
  | cons hxy _ ih => rw [List.forall₂_cons, List.forall₂_cons, louder_decoded_iff hxy, ih]

theorem stays_louder_pair : StaysLouder [100, -32768] [-2000, -32768] := by
  have h : List.Forall₂ Louder [100, -32768] [-2000, -32768] := by
    simp only [Louder, List.forall₂_cons, List.forall₂_nil_left_iff]
    decide
  exact (stays_louder_iff h).mpr (by simp)

/-- The loudest negative sample comes back quieter than 1000. -/
theorem lowest_collapses : ¬ ∀ a b : List Int16, List.Forall₂ Louder a b → StaysLouder a b := by
  intro hall
  have hlouder : Louder 1000 (-32768) := by unfold Louder; decide
  have h := hall [1000] [-32768] (.cons hlouder .nil)
  rw [staysLouder_iff_forall, List.forall₂_cons, louder_decoded_iff hlouder] at h
  exact absurd h.1 (by decide)

end AudioMeet.G711Alaw
