import Mathlib.Data.Finset.Insert
import Mathlib.Data.Finset.Erase
import Mathlib.Logic.Function.Basic

/-! A mutex that one thread holds alone or any number of threads share. -/

namespace AudioMeet.Lib

inductive LockMode
  | exclusive
  | shared
deriving DecidableEq

/-- Nobody shares the mutex while it has an owner. -/
structure SharedMutex (τ : Type) [DecidableEq τ] where
  owner : Option τ := none
  sharers : Finset τ := ∅
  alone : owner.isSome → sharers = ∅ := by simp

namespace SharedMutex
variable {τ : Type} [DecidableEq τ] {m m' : SharedMutex τ} {t u : τ}

abbrev unlocked : SharedMutex τ := {}

def Free (m : SharedMutex τ) : Prop := m.owner = none ∧ m.sharers = ∅

instance : Decidable m.Free := inferInstanceAs (Decidable (_ ∧ _))

/-- Nothing when the thread has to wait. -/
def lock (m : SharedMutex τ) (t : τ) : Option (SharedMutex τ) :=
  if m.Free then some { owner := some t } else none

def unlock (m : SharedMutex τ) (t : τ) : Option (SharedMutex τ) := if m.owner = some t then some {} else none

def lock_shared (m : SharedMutex τ) (t : τ) : Option (SharedMutex τ) :=
  if m.owner = none ∧ t ∉ m.sharers then some { sharers := insert t m.sharers } else none

def unlock_shared (m : SharedMutex τ) (t : τ) : Option (SharedMutex τ) :=
  if t ∈ m.sharers then some { sharers := m.sharers.erase t } else none

/-! ### Who holds the mutex -/

/-- The mutex knows how each thread holds it. -/
structure Tracks (m : SharedMutex τ) (held : τ → Option LockMode) : Prop where
  owner : ∀ t, m.owner = some t ↔ held t = some .exclusive
  sharers : ∀ t, t ∈ m.sharers ↔ held t = some .shared

/-- The mutex lets `t` go from one way of holding it to another. -/
inductive Shifts (m : SharedMutex τ) (t : τ) : Option LockMode → Option LockMode → SharedMutex τ → Prop
  | stay {mode : Option LockMode} : Shifts m t mode mode m
  | lock {m' : SharedMutex τ} : m.lock t = some m' → Shifts m t none (some .exclusive) m'
  | unlock {m' : SharedMutex τ} : m.unlock t = some m' → Shifts m t (some .exclusive) none m'
  | lock_shared {m' : SharedMutex τ} : m.lock_shared t = some m' → Shifts m t none (some .shared) m'
  | unlock_shared {m' : SharedMutex τ} : m.unlock_shared t = some m' → Shifts m t (some .shared) none m'

theorem lock_inv (h : m.lock t = some m') : m.Free ∧ m' = { owner := some t } := by
  unfold lock at h
  split at h
  · exact ⟨‹_›, (Option.some.inj h).symm⟩
  · cases h

theorem unlock_inv (h : m.unlock t = some m') : m.owner = some t ∧ m' = {} := by
  unfold unlock at h
  split at h
  · exact ⟨‹_›, (Option.some.inj h).symm⟩
  · cases h

theorem lock_shared_inv (h : m.lock_shared t = some m') :
    m.owner = none ∧ t ∉ m.sharers ∧ m' = { sharers := insert t m.sharers } := by
  unfold lock_shared at h
  split at h
  · next hg => exact ⟨hg.1, hg.2, (Option.some.inj h).symm⟩
  · cases h

theorem unlock_shared_inv (h : m.unlock_shared t = some m') :
    t ∈ m.sharers ∧ m' = { sharers := m.sharers.erase t } := by
  unfold unlock_shared at h
  split at h
  · exact ⟨‹_›, (Option.some.inj h).symm⟩
  · cases h

/-- A thread that takes the mutex finds it without an owner. -/
theorem Shifts.owner_before {mode : Option LockMode} (h : m.Shifts t none mode m') (hne : mode ≠ none) :
    m.owner = none := by
  cases h with
  | stay => exact absurd rfl hne
  | lock hl => exact (lock_inv hl).1.1
  | lock_shared hl => exact (lock_shared_inv hl).1

/-- A thread that lets the mutex go leaves it without an owner. -/
theorem Shifts.owner_after {mode : Option LockMode} (h : m.Shifts t mode none m') (hne : mode ≠ none) :
    m'.owner = none := by
  cases h with
  | stay => exact absurd rfl hne
  | unlock hl => rw [(unlock_inv hl).2]
  | unlock_shared hl => rw [(unlock_shared_inv hl).2]

/-- A thread that comes to hold the mutex alone held it before, or finds it free. -/
theorem Shifts.to_exclusive {mode : Option LockMode} (h : m.Shifts t mode (some .exclusive) m') :
    mode = some .exclusive ∨ mode = none ∧ m.owner = none := by
  cases h with
  | stay => exact Or.inl rfl
  | lock hl => exact Or.inr ⟨rfl, (lock_inv hl).1.1⟩

/-- A thread that does not hold the mutex alone, before or after, leaves its owner. -/
theorem Shifts.owner_eq {mode mode' : Option LockMode} (h : m.Shifts t mode mode' m') (hm : mode ≠ some .exclusive)
    (hm' : mode' ≠ some .exclusive) : m'.owner = m.owner := by
  cases h with
  | stay => rfl
  | lock _ => exact absurd rfl hm'
  | unlock _ => exact absurd rfl hm
  | lock_shared hl =>
    obtain ⟨hown, -, rfl⟩ := lock_shared_inv hl
    exact hown.symm
  | unlock_shared hl =>
    obtain ⟨hmem, rfl⟩ := unlock_shared_inv hl
    cases hown : m.owner with
    | none => rfl
    | some o =>
      rw [m.alone (by rw [hown]; rfl)] at hmem
      exact absurd hmem (Finset.notMem_empty t)

namespace Tracks
variable {held : τ → Option LockMode}

theorem of_free : Tracks ({} : SharedMutex τ) fun _ => none := ⟨by simp, by simp⟩

theorem held_none (h : m.Tracks held) (hm : m.Free) (t : τ) : held t = none := by
  rcases hheld : held t with _ | mode
  · rfl
  · cases mode with
    | exclusive =>
      have := (h.owner t).mpr hheld
      rw [hm.1] at this
      cases this
    | shared =>
      have := (h.sharers t).mpr hheld
      rw [hm.2] at this
      simp at this

/-- A thread that holds the mutex alone keeps every other thread out. -/
theorem excludes (h : m.Tracks held) (ht : held t = some .exclusive) (hne : u ≠ t) : held u = none := by
  have hown := (h.owner t).mpr ht
  rcases hu : held u with _ | mode
  · rfl
  · cases mode with
    | exclusive =>
      have := (h.owner u).mpr hu
      rw [hown] at this
      exact absurd (Option.some.inj this).symm hne
    | shared =>
      have := (h.sharers u).mpr hu
      rw [m.alone (by rw [hown]; rfl)] at this
      simp at this

theorem owner_of_sharer (h : m.Tracks held) (ht : held t = some .shared) : m.owner = none := by
  rcases ho : m.owner with _ | o
  · rfl
  · have := (h.sharers t).mpr ht
    rw [m.alone (by rw [ho]; rfl)] at this
    simp at this

/-- A thread that moves on keeps the record true. -/
theorem shifts (h : m.Tracks held) {mode : Option LockMode} (hs : m.Shifts t (held t) mode m') :
    m'.Tracks (Function.update held t mode) := by
  generalize hheld : held t = old at hs
  cases hs with
  | stay => rwa [← hheld, Function.update_eq_self]
  | lock hl =>
    obtain ⟨hfree, rfl⟩ := lock_inv hl
    refine ⟨fun u => ?_, fun u => ?_⟩ <;> by_cases hu : u = t
    · simp [hu]
    · simp [Function.update_of_ne hu, h.held_none hfree u, Ne.symm hu]
    · simp [hu]
    · simp [Function.update_of_ne hu, h.held_none hfree u]
  | unlock hl =>
    obtain ⟨-, rfl⟩ := unlock_inv hl
    refine ⟨fun u => ?_, fun u => ?_⟩ <;> by_cases hu : u = t
    · simp [hu]
    · simp [Function.update_of_ne hu, h.excludes hheld hu]
    · simp [hu]
    · simp [Function.update_of_ne hu, h.excludes hheld hu]
  | lock_shared hl =>
    obtain ⟨hown, -, rfl⟩ := lock_shared_inv hl
    refine ⟨fun u => ?_, fun u => ?_⟩ <;> by_cases hu : u = t
    · simp [hu]
    · simp [Function.update_of_ne hu, ← h.owner u, hown]
    · simp [hu]
    · simp [← h.sharers u, hu]
  | unlock_shared hl =>
    obtain ⟨-, rfl⟩ := unlock_shared_inv hl
    have hown := h.owner_of_sharer hheld
    refine ⟨fun u => ?_, fun u => ?_⟩ <;> by_cases hu : u = t
    · simp [hu]
    · simp [Function.update_of_ne hu, ← h.owner u, hown]
    · simp [hu]
    · simp [← h.sharers u, hu]

end Tracks
end SharedMutex
end AudioMeet.Lib
