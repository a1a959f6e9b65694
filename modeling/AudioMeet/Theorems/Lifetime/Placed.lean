import AudioMeet.Lifetime
import AudioMeet.Theorems.Live.Step

/-! Who is in the slots of the bridge: those in the map, and the one that a call has in hand. -/

namespace AudioMeet.Lifetime
open Lib

theorem update_some {slots : Nat → Option Nat} {x : Option Nat} {n slot p : Nat} :
    Function.update slots n x slot = some p ↔ (slot = n ∧ x = some p) ∨ (slot ≠ n ∧ slots slot = some p) := by
  rw [Function.update_apply]
  split <;> simp [*]

/-- What the call that has `parts_mutex_` alone is about to do. -/
inductive Hand
  | none
  /-- the participant was just made -/
  | new (part_id : Bytes) (p : Nat)
  /-- the participant is in a slot and not in the map; an add will insert it under an id -/
  | carries (part_id : Option Bytes) (p slot : Nat)
  /-- the participant is neither in a slot nor in the map -/
  | out (p : Nat)
  /-- `stop` has still to free the slots of these -/
  | freeing (rest : List Bytes)
  /-- `stop` has freed all slots -/
  | freed
  /-- `stop` has still to erase these -/
  | clearing (rest : List Bytes)

namespace Hand

def part : Hand → Option Nat
  | .new _ p | .carries _ p _ | .out p => some p
  | _ => .none

/-- The id that the call found not in the map. -/
def absent : Hand → Option Bytes
  | .new part_id _ => some part_id
  | .carries part_id _ _ => part_id
  | _ => .none

/-- The participant at this id of the map has its slot. -/
def Keeps (part_id : Bytes) : Hand → Prop
  | .freeing rest => part_id ∈ rest
  | .freed | .clearing _ => False
  | _ => True

end Hand

/-- Who is in the slots: those in the map, and the one in hand. -/
structure Placed (participants_ : Std.ExtTreeMap Bytes (Nat × Nat) compare) (slots : Nat → Option Nat) (h : Hand) : Prop where
  occupied : ∀ slot p, slots slot = some p ↔
    (∃ part_id, participants_[part_id]? = some (p, slot) ∧ h.Keeps part_id) ∨ ∃ part_id, h = .carries part_id p slot
  apart : ∀ (part_id part_id' : Bytes) (p slot slot' : Nat), participants_[part_id]? = some (p, slot) →
    participants_[part_id']? = some (p, slot') → part_id' = part_id
  free : ∀ p, h.part = some p → ∀ (part_id : Bytes) (slot : Nat), participants_[part_id]? ≠ some (p, slot)
  absent : ∀ part_id, h.absent = some part_id → participants_[part_id]? = none
  freeing : ∀ rest, h = .freeing rest → rest.Nodup
  clearing : ∀ rest, h = .clearing rest → ∀ (part_id : Bytes) (x : Nat × Nat), participants_[part_id]? = some x → part_id ∈ rest

namespace Placed
variable {participants_ : Std.ExtTreeMap Bytes (Nat × Nat) compare} {slots : Nat → Option Nat} {p : Nat} {part_id : Bytes}
  {rest : List Bytes}

/-- A new participant is given up. -/
theorem gives_up (h : Placed participants_ slots (.new part_id p)) : Placed participants_ slots (.out p) :=
  ⟨fun slot q => by simpa [Hand.Keeps] using h.occupied slot q, h.apart, h.free, nofun, nofun, nofun⟩

theorem lets_go (h : Placed participants_ slots (.out p)) : Placed participants_ slots .none :=
  ⟨fun slot q => by simpa [Hand.Keeps] using h.occupied slot q, h.apart, nofun, nofun, nofun, nofun⟩

/-- `stop` begins with all. -/
theorem begins (h : Placed participants_ slots .none) : Placed participants_ slots (.freeing participants_.keys) := by
  refine ⟨fun slot q => ?_, h.apart, nofun, nofun, ?_, nofun⟩
  · rw [h.occupied]
    simp only [Hand.Keeps, and_true, reduceCtorEq, exists_false, or_false, Std.ExtTreeMap.mem_keys]
    exact exists_congr fun part_id => ⟨fun hx => ⟨hx, Std.ExtTreeMap.mem_iff_isSome_getElem?.mpr (by rw [hx]; rfl)⟩, And.left⟩
  · rintro rest h
    obtain rfl := Hand.freeing.inj h
    exact Std.ExtTreeMap.nodup_keys

theorem frees_next (h : Placed participants_ slots (.freeing (part_id :: rest))) (hnone : participants_[part_id]? = none) :
    Placed participants_ slots (.freeing rest) := by
  refine ⟨fun slot q => ?_, h.apart, nofun, nofun, ?_, nofun⟩
  · rw [h.occupied]
    simp only [Hand.Keeps, reduceCtorEq, exists_false, or_false, List.mem_cons]
    refine exists_congr fun part_id' => and_congr_right fun hx => or_iff_right ?_
    rintro rfl
    rw [hnone] at hx
    cases hx
  · rintro _ h'
    obtain rfl := Hand.freeing.inj h'
    exact (List.nodup_cons.mp (h.freeing _ rfl)).2

theorem frees_all (h : Placed participants_ slots (.freeing [])) : Placed participants_ slots .freed :=
  ⟨fun slot q => by simpa [Hand.Keeps] using h.occupied slot q, h.apart, nofun, nofun, nofun, nofun⟩

theorem clears (h : Placed participants_ slots .freed) : Placed participants_ slots (.clearing participants_.keys) := by
  refine ⟨fun slot q => by simpa [Hand.Keeps] using h.occupied slot q, h.apart, nofun, nofun, nofun, ?_⟩
  rintro rest h' part_id x hx
  obtain rfl := Hand.clearing.inj h'
  exact Std.ExtTreeMap.mem_keys.mpr (Std.ExtTreeMap.mem_iff_isSome_getElem?.mpr (by rw [hx]; rfl))

theorem clears_next (h : Placed participants_ slots (.clearing (part_id :: rest))) (hnone : participants_[part_id]? = none) :
    Placed participants_ slots (.clearing rest) := by
  refine ⟨fun slot q => by simpa [Hand.Keeps] using h.occupied slot q, h.apart, nofun, nofun, nofun, ?_⟩
  rintro _ h' part_id' x hx
  obtain rfl := Hand.clearing.inj h'
  rcases List.mem_cons.mp (h.clearing _ rfl part_id' x hx) with rfl | hmem
  · rw [hnone] at hx
    cases hx
  · exact hmem

theorem cleared_none (h : Placed participants_ slots (.clearing [])) (part_id : Bytes) : participants_[part_id]? = none := by
  cases hx : participants_[part_id]? with
  | none => rfl
  | some x => exact absurd (h.clearing _ rfl part_id x hx) List.not_mem_nil

/-- After `stop` there is nobody. -/
theorem ends (h : Placed participants_ slots (.clearing [])) : Placed participants_ slots .none := by
  refine ⟨fun slot q => ?_, h.apart, nofun, nofun, nofun, nofun⟩
  rw [h.occupied]
  simp [Hand.Keeps, h.cleared_none]

/-! ### Participants come and go -/

theorem takes (h : Placed participants_ slots .none) (hnone : participants_[part_id]? = none)
    (hfree : ∀ (part_id : Bytes) (slot : Nat), participants_[part_id]? ≠ some (p, slot)) :
    Placed participants_ slots (.new part_id p) := by
  refine ⟨fun slot q => by simpa [Hand.Keeps] using h.occupied slot q, h.apart, ?_, ?_, nofun, nofun⟩
  · rintro _ ⟨⟩
    exact hfree
  · rintro _ ⟨⟩
    exact hnone

theorem plugs {slot : Nat} (h : Placed participants_ slots (.new part_id p)) (hslot : slots slot = none) :
    Placed participants_ (Function.update slots slot (some p)) (.carries (some part_id) p slot) := by
  refine ⟨fun n q => ?_, h.apart, h.free, h.absent, nofun, nofun⟩
  rw [update_some, h.occupied]
  simp only [Hand.Keeps, and_true, reduceCtorEq, exists_false, or_false, Hand.carries.injEq, exists_eq_left']
  constructor
  · rintro (⟨rfl, hq⟩ | ⟨-, hq⟩)
    · exact Or.inr ⟨Option.some.inj hq, rfl⟩
    · exact Or.inl hq
  · rintro (⟨i, hq⟩ | ⟨rfl, rfl⟩)
    · refine Or.inr ⟨?_, i, hq⟩
      rintro rfl
      rw [(h.occupied n q).mpr (Or.inl ⟨i, hq, trivial⟩)] at hslot
      cases hslot
    · exact Or.inl ⟨rfl, rfl⟩

theorem get_insert {slot : Nat} (h : Placed participants_ slots (.carries (some part_id) p slot)) (i : Bytes) (x : Nat × Nat) :
    (participants_.insert part_id (p, slot))[i]? = some x ↔ (i = part_id ∧ x = (p, slot)) ∨ participants_[i]? = some x := by
  have hnone : participants_[part_id]? = none := h.absent _ rfl
  rw [Std.ExtTreeMap.getElem?_insert]
  by_cases hi : i = part_id
  · simp [hi, hnone, eq_comm]
  · simp [hi, Ne.symm hi]

theorem joins {slot : Nat} (h : Placed participants_ slots (.carries (some part_id) p slot)) :
    Placed (participants_.insert part_id (p, slot)) slots .none := by
  refine ⟨fun n q => ?_, fun i i' q n n' hi hi' => ?_, nofun, nofun, nofun, nofun⟩
  · rw [h.occupied]
    simp only [Hand.Keeps, and_true, Hand.carries.injEq, reduceCtorEq, exists_false, or_false, h.get_insert, exists_or,
      Prod.mk.injEq, exists_eq_left, exists_eq_left']
    tauto
  · rw [h.get_insert] at hi hi'
    rcases hi with ⟨rfl, hx⟩ | hi <;> rcases hi' with ⟨rfl, hx'⟩ | hi'
    · rfl
    · cases hx
      exact absurd hi' (h.free _ rfl _ _)
    · cases hx'
      exact absurd hi (h.free _ rfl _ _)
    · exact h.apart i i' q n n' hi hi'

/-- What is left of the map without one id. -/
theorem get_erase {i : Bytes} {x : Nat × Nat} :
    (participants_.erase part_id)[i]? = some x ↔ i ≠ part_id ∧ participants_[i]? = some x := by
  rw [Std.ExtTreeMap.getElem?_erase]
  by_cases hi : i = part_id
  · simp [hi]
  · simp [hi, Ne.symm hi]

theorem leaves {slot : Nat} (h : Placed participants_ slots .none) (hp : participants_[part_id]? = some (p, slot)) :
    Placed (participants_.erase part_id) slots (.carries none p slot) := by
  refine ⟨fun n q => ?_, fun i i' q n n' hi hi' => ?_, ?_, nofun, nofun, nofun⟩
  · rw [h.occupied]
    simp only [Hand.Keeps, and_true, Hand.carries.injEq, reduceCtorEq, exists_false, or_false, get_erase]
    constructor
    · rintro ⟨i, hi⟩
      by_cases hne : i = part_id
      · rw [hne, hp] at hi
        cases hi
        exact Or.inr ⟨none, rfl, rfl, rfl⟩
      · exact Or.inl ⟨i, hne, hi⟩
    · rintro (⟨i, -, hi⟩ | ⟨_, -, rfl, rfl⟩)
      · exact ⟨i, hi⟩
      · exact ⟨part_id, hp⟩
  · exact h.apart i i' q n n' (get_erase.mp hi).2 (get_erase.mp hi').2
  · rintro _ ⟨⟩ i n hi
    obtain ⟨hne, hi⟩ := get_erase.mp hi
    exact hne (h.apart _ _ _ _ _ hp hi)

theorem slot_of_carries {slot : Nat} {i : Option Bytes} (h : Placed participants_ slots (.carries i p slot)) :
    slots slot = some p := (h.occupied slot p).mpr (Or.inr ⟨i, rfl⟩)

theorem unplugs {slot : Nat} (h : Placed participants_ slots (.carries none p slot)) :
    Placed participants_ (Function.update slots slot none) (.out p) := by
  refine ⟨fun n q => ?_, h.apart, h.free, nofun, nofun, nofun⟩
  rw [update_some, h.occupied]
  simp only [Hand.Keeps, and_true, Hand.carries.injEq, reduceCtorEq, exists_false, or_false, and_false, false_or]
  constructor
  · rintro ⟨hne, hq | ⟨_, -, -, rfl⟩⟩
    · exact hq
    · exact absurd rfl hne
  · rintro ⟨i, hi⟩
    refine ⟨?_, Or.inl ⟨i, hi⟩⟩
    rintro rfl
    have hq := (h.occupied n q).mpr (Or.inl ⟨i, hi, trivial⟩)
    obtain rfl := Option.some.inj (h.slot_of_carries.symm.trans hq)
    exact h.free _ rfl _ _ hi

theorem slot_of_freeing {slot : Nat} (h : Placed participants_ slots (.freeing (part_id :: rest)))
    (hp : participants_[part_id]? = some (p, slot)) : slots slot = some p :=
  (h.occupied slot p).mpr (Or.inl ⟨part_id, hp, List.mem_cons_self⟩)

theorem frees {slot : Nat} (h : Placed participants_ slots (.freeing (part_id :: rest)))
    (hp : participants_[part_id]? = some (p, slot)) :
    Placed participants_ (Function.update slots slot none) (.freeing rest) := by
  have hnodup := List.nodup_cons.mp (h.freeing _ rfl)
  refine ⟨fun n q => ?_, h.apart, nofun, nofun, ?_, nofun⟩
  · rw [update_some, h.occupied]
    simp only [Hand.Keeps, reduceCtorEq, exists_false, or_false, and_false, false_or, List.mem_cons]
    constructor
    · rintro ⟨hne, i, hi, rfl | hmem⟩
      · rw [hp] at hi
        cases hi
        exact absurd rfl hne
      · exact ⟨i, hi, hmem⟩
    · rintro ⟨i, hi, hmem⟩
      refine ⟨?_, i, hi, Or.inr hmem⟩
      rintro rfl
      have hq := (h.occupied n q).mpr (Or.inl ⟨i, hi, List.mem_cons_of_mem _ hmem⟩)
      obtain rfl := Option.some.inj ((h.slot_of_freeing hp).symm.trans hq)
      exact hnodup.1 (h.apart _ _ _ _ _ hp hi ▸ hmem)
  · rintro _ ⟨⟩
    exact hnodup.2

theorem erases (h : Placed participants_ slots (.clearing (part_id :: rest))) :
    Placed (participants_.erase part_id) slots (.clearing rest) := by
  refine ⟨fun n q => ?_, fun i i' q n n' hi hi' => ?_, nofun, nofun, nofun, ?_⟩
  · rw [h.occupied]
    simp [Hand.Keeps]
  · exact h.apart i i' q n n' (get_erase.mp hi).2 (get_erase.mp hi').2
  · rintro _ ⟨⟩ i x hi
    obtain ⟨hne, hi⟩ := get_erase.mp hi
    exact (List.mem_cons.mp (h.clearing _ rfl i x hi)).resolve_left hne

/-- `stop` has freed all slots. -/
theorem slots_none {h : Hand} (hplaced : Placed participants_ slots h) (hkeeps : ∀ part_id, ¬h.Keeps part_id)
    (slot : Nat) : slots slot = none := by
  rw [Option.eq_none_iff_forall_ne_some]
  intro p hp
  rcases (hplaced.occupied slot p).mp hp with ⟨part_id, -, hk⟩ | ⟨part_id, rfl⟩
  · exact hkeeps part_id hk
  · exact hkeeps [] trivial

/-- A participant in hand that is in no slot. -/
theorem not_in_slot (h : Placed participants_ slots (.out p)) (slot : Nat) : slots slot ≠ some p := by
  intro hp
  rcases (h.occupied slot p).mp hp with ⟨part_id, hx, -⟩ | ⟨part_id, hx⟩
  · exact h.free p rfl _ _ hx
  · cases hx

end Placed
end AudioMeet.Lifetime
