import AudioMeet.PortAllocator

/-! What a call of the port pool does to the ports in use. -/

namespace AudioMeet.PortAllocator
variable {a b : PortAllocator} {avail : UInt16 → Bool}

/-- Every port of the pool is a port number. -/
def InRange (a : PortAllocator) : Prop := 1 ≤ a.base_ ∧ a.base_ + a.count_ ≤ 65536

/-- `allocate` takes a free index of the pool, or changes nothing. -/
theorem allocate_cases {r : Option Nat} (h : a.allocate avail = (b, r)) :
    (b = a ∧ r = none) ∨
    ∃ i, i < a.count_ ∧ a.used_[i]? = some false ∧ b = a.take i ∧ r = some (a.base_ + i) := by
  unfold allocate at h
  split at h <;> simp only [Prod.mk.injEq] at h <;> obtain ⟨rfl, rfl⟩ := h
  · rename_i j hj
    have hfree := List.find?_some hj
    have hj' := List.mem_range.mp (List.mem_of_find?_eq_some hj)
    simp only [isFree, Bool.and_eq_true, beq_iff_eq] at hfree
    exact Or.inr ⟨a.probe j, Nat.mod_lt _ (by omega), hfree.1, rfl, rfl⟩
  · exact Or.inl ⟨rfl, rfl⟩

theorem isUsed_iff (p : UInt16) :
    a.isUsed p = true ↔ a.base_ ≤ p.toNat ∧ a.used_[p.toNat - a.base_]? = some true := by
  simp [isUsed]

theorem toNat_port (h : a.InRange) {i : Nat} (hi : i < a.count_) : (UInt16.ofNat (a.base_ + i)).toNat = a.base_ + i := by
  have := h.2
  exact UInt16.toNat_ofNat_of_lt' (show a.base_ + i < 65536 by omega)

theorem isUsed_port (h : a.InRange) {i : Nat} (hi : i < a.count_) :
    a.isUsed (UInt16.ofNat (a.base_ + i)) = true ↔ a.used_[i]? = some true := by
  rw [isUsed_iff, toNat_port h hi, Nat.add_sub_cancel_left]
  exact and_iff_right (Nat.le_add_right _ _)

theorem isUsed_take (h : a.InRange) {i : Nat} (hi : i < a.count_) (p : UInt16) :
    (a.take i).isUsed p = true ↔ a.isUsed p = true ∨ p = UInt16.ofNat (a.base_ + i) := by
  have hp : p = UInt16.ofNat (a.base_ + i) ↔ p.toNat = a.base_ + i := by
    rw [← UInt16.toNat_inj, toNat_port h hi]
  have hlen := a.length_used
  rw [hp, isUsed_iff, isUsed_iff]
  simp only [take, List.getElem?_set]
  by_cases hle : a.base_ ≤ p.toNat
  · by_cases heq : i = p.toNat - a.base_
    · rw [if_pos heq, if_pos (by omega)]
      constructor
      · exact fun _ => Or.inr (by omega)
      · exact fun _ => ⟨hle, rfl⟩
    · rw [if_neg heq]
      constructor
      · exact Or.inl
      · rintro (h1 | h1)
        · exact h1
        · omega
  · constructor
    · exact fun h1 => absurd h1.1 hle
    · rintro (h1 | h1)
      · exact absurd h1.1 hle
      · omega

theorem isUsed_release (p q : UInt16) : (a.release q).isUsed p = true ↔ a.isUsed p = true ∧ p ≠ q := by
  have hlen := a.length_used
  have hpq : p = q ↔ p.toNat = q.toNat := UInt16.toNat_inj.symm
  unfold release
  split
  · rename_i hout
    refine ⟨fun h => ⟨h, ?_⟩, And.left⟩
    rw [ne_eq, hpq]
    rw [isUsed_iff] at h
    have hlt := (List.getElem?_eq_some_iff.mp h.2).1
    omega
  · rename_i hin
    rw [ne_eq, hpq, isUsed_iff, isUsed_iff]
    simp only [List.getElem?_set]
    by_cases hle : a.base_ ≤ p.toNat
    · by_cases heq : q.toNat - a.base_ = p.toNat - a.base_
      · rw [if_pos heq, if_pos (by omega)]
        have : p.toNat = q.toNat := by omega
        simp [this]
      · rw [if_neg heq]
        have : p.toNat ≠ q.toNat := by omega
        simp [this]
    · simp [hle]

/-- Port 0, of a participant that does not listen, is not of the pool. -/
theorem ne_zero_of_isUsed (h : a.InRange) {p : UInt16} (hp : a.isUsed p = true) : p ≠ 0 := by
  rintro rfl
  have hle := ((isUsed_iff 0).mp hp).1
  have := h.1
  simp at hle
  omega

theorem inRange_release (h : a.InRange) (q : UInt16) : (a.release q).InRange := by
  unfold release
  split
  · exact h
  · exact h

theorem inRange_take (h : a.InRange) (i : Nat) : (a.take i).InRange := h

/-- A port that is allocated was free, is a port number, and is the only one that changes. -/
theorem allocate_some (h : a.InRange) {port : Nat} (hp : a.allocate avail = (b, some port)) :
    a.isUsed (UInt16.ofNat port) = false ∧ UInt16.ofNat port ≠ 0 ∧ b.InRange ∧
      ∀ p, b.isUsed p = true ↔ a.isUsed p = true ∨ p = UInt16.ofNat port := by
  rcases allocate_cases hp with ⟨-, hr⟩ | ⟨i, hi, hfree, rfl, hr⟩
  · cases hr
  · obtain rfl := Option.some.inj hr
    have hnat := toNat_port h hi
    refine ⟨?_, fun h0 => ?_, inRange_take h i, isUsed_take h hi⟩
    · simp only [isUsed, hnat, Nat.add_sub_cancel_left, hfree]
      simp
    · rw [h0] at hnat
      have := h.1
      simp at hnat
      omega

end AudioMeet.PortAllocator
