import Mathlib.Data.List.Basic

/-! A process-wide table of descriptors. A number that was closed may be given again; a socket has one number,
    and a serial of its own that is never given again. -/

namespace AudioMeet.Lib

structure Sock (ι : Type) where
  owner : ι
  serial : Nat
deriving DecidableEq

/-- `fds` is the table, `made` counts the sockets, and `shut` lists those that were shut down. -/
structure Descriptors (ι : Type) where
  fds : Nat → Option (Sock ι) := fun _ => none
  made : Nat := 0
  shut : List (Sock ι) := []

namespace Descriptors
variable {ι : Type} {t u : Descriptors ι} {fd f : Nat} {owner : ι} {k k' : Sock ι}

/-- The socket that a number denotes; -1 denotes none. -/
def denotes (t : Descriptors ι) (fd : Option Nat) : Option (Sock ι) := fd.bind t.fds

/-- A new socket under a free number. -/
def give (t : Descriptors ι) (owner : ι) (fd : Nat) : Option (Descriptors ι × Sock ι) :=
  match t.fds fd with
  | some _ => none
  | none =>
    let k : Sock ι := ⟨owner, t.made⟩
    some ({ t with fds := fun f => if f = fd then some k else t.fds f, made := t.made + 1 }, k)

def close (t : Descriptors ι) (fd : Option Nat) : Descriptors ι :=
  { t with fds := fun f => if fd = some f then none else t.fds f }

def shutdown (t : Descriptors ι) (fd : Option Nat) : Descriptors ι :=
  match t.denotes fd with
  | some k => { t with shut := k :: t.shut }
  | none => t

/-- Every number that denotes a socket of the owner denotes it still. -/
def Keeps (owner : ι) (t u : Descriptors ι) : Prop := ∀ f k, t.fds f = some k → k.owner = owner → u.fds f = some k

theorem Keeps.refl (owner : ι) (t : Descriptors ι) : Keeps owner t t := fun _ _ h _ => h

theorem give_fds (h : t.give owner fd = some (u, k)) :
    k.owner = owner ∧ t.fds fd = none ∧ u.fds fd = some k ∧ ∀ f, f ≠ fd → u.fds f = t.fds f := by
  unfold give at h
  split at h
  · cases h
  · rename_i hfree
    obtain ⟨rfl, rfl⟩ := Prod.mk.inj (Option.some.inj h)
    exact ⟨rfl, hfree, if_pos rfl, fun f hf => if_neg hf⟩

theorem give_shut (h : t.give owner fd = some (u, k)) : u.shut = t.shut := by
  unfold give at h
  split at h
  · cases h
  · obtain ⟨rfl, -⟩ := Prod.mk.inj (Option.some.inj h)
    rfl

theorem keeps_give (h : t.give owner fd = some (u, k)) (o : ι) : Keeps o t u := by
  intro f k' hf _
  obtain ⟨-, hfree, -, hother⟩ := give_fds h
  rw [hother f fun heq => by rw [heq, hfree] at hf; cases hf]
  exact hf

theorem fds_close (t : Descriptors ι) (fd : Option Nat) (f : Nat) :
    (t.close fd).fds f = if fd = some f then none else t.fds f := rfl

theorem close_of_ne (hf : t.fds f = some k) (hne : fd ≠ f) : (t.close (some fd)).fds f = some k := by
  rw [fds_close, if_neg (by simpa using hne)]
  exact hf

/-- Closing a number of one owner leaves the others theirs. -/
theorem keeps_close {fd : Option Nat} (hown : ∀ f, fd = some f → ∃ k, t.fds f = some k ∧ k.owner = owner) {o : ι}
    (ho : o ≠ owner) : Keeps o t (t.close fd) := by
  intro f k hf hk
  rw [fds_close]
  split
  · rename_i heq
    obtain ⟨k', hk', howner⟩ := hown f heq
    rw [hf] at hk'
    obtain rfl := Option.some.inj hk'
    exact absurd (hk.symm.trans howner) ho
  · exact hf

@[simp] theorem shutdown_fds (t : Descriptors ι) (fd : Option Nat) : (t.shutdown fd).fds = t.fds := by
  unfold shutdown
  split <;> rfl

theorem shut_shutdown (t : Descriptors ι) (fd : Option Nat) : ∀ k ∈ t.shut, k ∈ (t.shutdown fd).shut := by
  unfold shutdown
  split
  · exact fun k hk => List.mem_cons_of_mem _ hk
  · exact fun _ => id

/-- What a number denotes when it is shut down is shut down. -/
theorem mem_shutdown {fd : Option Nat} (h : t.denotes fd = some k) : k ∈ (t.shutdown fd).shut := by
  simp [shutdown, h]

end Descriptors
end AudioMeet.Lib
