import Mathlib.Data.List.Basic

/-! A cursor that goes around `n` places: the search for the first place that passes a test, in cyclic
    order from the cursor, and why no place that keeps passing it is overtaken for a whole round. -/

namespace AudioMeet.Lib.Cyclic
variable {n s next i j k : Nat} {free : Nat → Bool}

/-- How many steps forward lead from place `s` to place `i`. -/
def offset (n s i : Nat) : Nat := if s ≤ i then i - s else i + n - s

/-- The first of the `n` places that passes the test, in cyclic order from `next`. -/
def scan (n next : Nat) (free : Nat → Bool) : Option Nat :=
  ((List.range n).find? fun j => free ((next + j) % n)).map fun j => (next + j) % n

/-! ### Offsets -/

theorem add_mod_cases (hs : s < n) (hj : j < n) :
    (s + j < n ∧ (s + j) % n = s + j) ∨ (n ≤ s + j ∧ (s + j) % n = s + j - n) := by
  rcases Nat.lt_or_ge (s + j) n with h | h
  · exact Or.inl ⟨h, Nat.mod_eq_of_lt h⟩
  · refine Or.inr ⟨h, ?_⟩
    rw [Nat.mod_eq_sub_mod h, Nat.mod_eq_of_lt (by omega)]

theorem offset_cases (n s i : Nat) : (s ≤ i ∧ offset n s i = i - s) ∨ (i < s ∧ offset n s i = i + n - s) := by
  unfold offset
  split
  · exact Or.inl ⟨‹_›, rfl⟩
  · exact Or.inr ⟨by omega, rfl⟩

theorem offset_lt (hs : s < n) (hi : i < n) : offset n s i < n := by
  have h := offset_cases n s i
  omega

theorem add_offset (hs : s < n) (hi : i < n) : (s + offset n s i) % n = i := by
  have h := offset_cases n s i
  have hmod := add_mod_cases hs (offset_lt hs hi)
  omega

theorem offset_add (hs : s < n) (hj : j < n) : offset n s ((s + j) % n) = j := by
  have h := offset_cases n s ((s + j) % n)
  have hmod := add_mod_cases hs hj
  omega

theorem offset_inj (hs : s < n) (hi : i < n) (hk : k < n) (h : offset n s i = offset n s k) : i = k := by
  rw [← add_offset hs hi, ← add_offset hs hk, h]

@[simp] theorem offset_self : offset n s s = 0 := by
  simp [offset]

theorem succ_lt (hi : i < n) : (i + 1) % n < n := Nat.mod_lt _ (by omega)

theorem offset_succ (hs : s < n) (hi : i < n) (h : offset n s i + 1 < n) :
    offset n s ((i + 1) % n) = offset n s i + 1 := by
  conv_lhs => rw [← add_offset hs hi, Nat.mod_add_mod, Nat.add_assoc]
  exact offset_add hs h

/-- From the place after it, a place is the last of the round. -/
theorem offset_last (hi : i < n) : offset n ((i + 1) % n) i = n - 1 := by
  have hcases := offset_cases n ((i + 1) % n) i
  rcases Nat.lt_or_ge (i + 1) n with h | h
  · have hmod := Nat.mod_eq_of_lt h
    omega
  · have hmod : (i + 1) % n = 0 := by rw [show i + 1 = n by omega, Nat.mod_self]
    omega

theorem offset_lt_last (hi : i < n) (hk : k < n) (h : k ≠ i) : offset n ((i + 1) % n) k < n - 1 := by
  have hlt := offset_lt (succ_lt hi) hk
  have hne : offset n ((i + 1) % n) k ≠ offset n ((i + 1) % n) i := fun he => h (offset_inj (succ_lt hi) hk hi he)
  rw [offset_last hi] at hne
  omega

/-- Offsets add up while they stay within one round. -/
theorem offset_trans (hs : s < n) (hj : j < n) (hk : k < n) (h : offset n s j ≤ offset n s k) :
    offset n s k = offset n s j + offset n j k := by
  have hsj := offset_cases n s j
  have hsk := offset_cases n s k
  have hjk := offset_cases n j k
  omega

theorem offset_add_of_le (hs : s < n) (hj : j < n) (hk : k < n) (h : offset n s j ≤ offset n s k)
    (hle : offset n j i ≤ offset n j k) : offset n s i = offset n s j + offset n j i := by
  have hsum := offset_trans hs hj hk h
  have hsi := offset_cases n s i
  have hsj := offset_cases n s j
  have hji := offset_cases n j i
  have hsk := offset_lt hs hk
  omega

/-! ### The search -/

theorem scan_eq_none (hn : next < n) : scan n next free = none ↔ ∀ i, i < n → free i = false := by
  rw [scan, Option.map_eq_none_iff, List.find?_range_eq_none]
  constructor
  · intro h i hi
    simpa [add_offset hn hi] using h _ (offset_lt hn hi)
  · intro h j hj
    simpa using h _ (Nat.mod_lt _ (by omega))

/-- The place found passes the test, and none that is nearer to the cursor does. -/
theorem scan_eq_some (hn : next < n) : scan n next free = some i ↔
    i < n ∧ free i = true ∧ ∀ k, k < n → free k = true → offset n next i ≤ offset n next k := by
  simp only [scan, Option.map_eq_some_iff, List.find?_range_eq_some, List.mem_range]
  constructor
  · rintro ⟨j, ⟨hfree, hj, hfirst⟩, rfl⟩
    refine ⟨Nat.mod_lt _ (by omega), hfree, fun k hk hk' => ?_⟩
    rw [offset_add hn hj]
    by_contra hlt
    have hno := hfirst (offset n next k) (by omega)
    rw [add_offset hn hk, hk'] at hno
    exact absurd hno (by decide)
  · rintro ⟨hi, hfree, hfirst⟩
    refine ⟨offset n next i, ⟨?_, offset_lt hn hi, fun j hj => ?_⟩, add_offset hn hi⟩
    · rwa [add_offset hn hi]
    · have hlt := offset_lt hn hi
      by_contra hno
      have hle := hfirst ((next + j) % n) (Nat.mod_lt _ (by omega)) (by simpa using hno)
      rw [offset_add hn (by omega)] at hle
      omega

/-! ### A round of the cursor -/

/-- Seen from `s`, the cursor has not gone past `k`. -/
def NotPast (n s k next : Nat) : Prop := next < n ∧ offset n s next ≤ offset n s k

theorem NotPast.start (hs : s < n) : NotPast n s k s := ⟨hs, by simp⟩

/-- A search that finds another place than `k`, which passes the test, finds one before `k`, and leaves
    the cursor short of it. -/
theorem NotPast.scan (h : NotPast n s k next) (hs : s < n) (hk : k < n) (hfree : free k = true)
    (hfound : scan n next free = some i) (hne : i ≠ k) :
    offset n s i < offset n s k ∧ NotPast n s k ((i + 1) % n) := by
  obtain ⟨hi, -, hfirst⟩ := (scan_eq_some h.1).mp hfound
  have hle := hfirst k hk hfree
  have hsum := offset_trans hs h.1 hk h.2
  have hadd := offset_add_of_le hs h.1 hk h.2 hle
  have hoff : offset n s i ≠ offset n s k := fun he => hne (offset_inj hs hi hk he)
  have hlast := offset_lt hs hk
  refine ⟨by omega, succ_lt hi, ?_⟩
  rw [offset_succ hs hi (by omega)]
  omega

end AudioMeet.Lib.Cyclic
