import Mathlib.Data.List.Basic

/-! Lists whose entries are updated in place, and which grow at their end; prefixes, and blocks of one size. -/

namespace AudioMeet.Lib

theorem getElem?_set_some {α : Type} {l : List α} {i j : Nat} {old new x : α} (h : l[i]? = some old) :
    (l.set i new)[j]? = some x ↔ (j = i ∧ x = new) ∨ (j ≠ i ∧ l[j]? = some x) := by
  have hi := (List.getElem?_eq_some_iff.mp h).1
  rw [List.getElem?_set]
  by_cases hji : i = j
  · subst hji
    simp [hi, eq_comm]
  · rw [if_neg hji]
    simp [Ne.symm hji]

theorem getElem?_snoc_some {α : Type} {l : List α} {j : Nat} {new x : α} :
    (l ++ [new])[j]? = some x ↔ (j = l.length ∧ x = new) ∨ l[j]? = some x := by
  rw [List.getElem?_append]
  split
  · rename_i hj
    constructor
    · exact Or.inr
    · rintro (⟨rfl, -⟩ | h)
      · exact absurd hj (Nat.lt_irrefl _)
      · exact h
  · rename_i hj
    rw [List.getElem?_eq_none (Nat.not_lt.mp hj), List.getElem?_singleton]
    constructor
    · intro h
      split at h
      · exact Or.inl ⟨by omega, (Option.some.inj h).symm⟩
      · cases h
    · rintro (⟨rfl, rfl⟩ | h)
      · simp
      · cases h

theorem getElem?_snoc_ne {α : Type} {l : List α} {j : Nat} {new : α} (h : j ≠ l.length) : (l ++ [new])[j]? = l[j]? := by
  exact Option.ext fun x => getElem?_snoc_some.trans (or_iff_right fun hnew => h hnew.1)

/-- `takeWhile` stops at an entry that `p` does not hold of. -/
theorem takeWhile_append_cons {α : Type} {p : α → Bool} {c : α} (hc : p c = false) (xs ys : List α) :
    (xs ++ c :: ys).takeWhile p = xs.takeWhile p := by
  induction xs with
  | nil => exact List.takeWhile_cons_of_neg (by simp [hc])
  | cons x xs ih => simp only [List.cons_append, List.takeWhile_cons, ih]

/-- An entry of two lists, one behind the other, is of the first or of the second. -/
theorem append_eq_append_cons {α : Type} {xs ys before after : List α} {x : α} (h : xs ++ ys = before ++ x :: after) :
    (∃ after', xs = before ++ x :: after') ∨ ∃ mid, before = xs ++ mid ∧ ys = mid ++ x :: after := by
  rcases List.append_eq_append_iff.mp h with ⟨mid, hbefore, hys⟩ | ⟨mid, hxs, hafter⟩
  · exact Or.inr ⟨mid, hbefore, hys⟩
  · cases mid with
    | nil => exact Or.inr ⟨[], by simpa using hxs.symm, hafter.symm⟩
    | cons y mid =>
      obtain ⟨rfl, -⟩ := List.cons.inj hafter
      exact Or.inl ⟨mid, hxs⟩

/-! ### Blocks -/

section Blocks
variable {α : Type} {k : Nat}

/-- The whole blocks of `k` entries. -/
def blocks (k : Nat) (l : List α) : List (List α) :=
  (List.range (l.length / k)).map fun i => (l.drop (i * k)).take k

theorem blocks_short {l : List α} (h : l.length < k) : blocks k l = [] := by
  rw [blocks, Nat.div_eq_of_lt h]
  rfl

theorem blocks_append (hk : 0 < k) {x : List α} (hx : x.length = k) (l : List α) : blocks k (x ++ l) = x :: blocks k l := by
  have hdiv : (x ++ l).length / k = l.length / k + 1 := by
    rw [List.length_append, hx, Nat.add_comm, Nat.add_div_right _ hk]
  rw [blocks, hdiv, List.range_succ_eq_map, List.map_cons, List.map_map, Nat.zero_mul, List.drop_zero,
    List.take_left' hx]
  refine congrArg _ (List.map_congr_left fun i _ => ?_)
  rw [Function.comp_apply, Nat.succ_mul, Nat.add_comm, ← List.drop_drop, List.drop_left' hx]

theorem blocks_flatten_append (hk : 0 < k) {xs : List (List α)} (hxs : ∀ x ∈ xs, x.length = k) (l : List α) :
    blocks k (xs.flatten ++ l) = xs ++ blocks k l := by
  induction xs with
  | nil => rfl
  | cons x xs ih =>
    rw [List.flatten_cons, List.append_assoc, blocks_append hk (hxs x List.mem_cons_self),
      ih fun y hy => hxs y (List.mem_cons_of_mem x hy), List.cons_append]

theorem blocks_flatten (hk : 0 < k) {xs : List (List α)} (hxs : ∀ x ∈ xs, x.length = k) : blocks k xs.flatten = xs := by
  have h := blocks_flatten_append hk hxs []
  rwa [List.append_nil, blocks_short (l := []) hk, List.append_nil] at h

/-- Of two lists of blocks, the one with fewer entries is the beginning of the other. -/
theorem blocks_prefix (hk : 0 < k) {xs ys : List (List α)} {rest : List α} (hxs : ∀ x ∈ xs, x.length = k)
    (hys : ∀ y ∈ ys, y.length = k) (h : xs.flatten ++ rest = ys.flatten) : xs <+: ys :=
  ⟨blocks k rest, by rw [← blocks_flatten_append hk hxs, h, blocks_flatten hk hys]⟩

theorem blocks_drop (i : Nat) (l : List α) : blocks k (l.drop (i * k)) = (blocks k l).drop i := by
  refine List.ext_getElem ?_ fun j hj hj' => ?_
  · simp [blocks, Nat.mul_comm i k, Nat.sub_mul_div]
  · simp [blocks, List.drop_drop, Nat.add_mul]

end Blocks

end AudioMeet.Lib
