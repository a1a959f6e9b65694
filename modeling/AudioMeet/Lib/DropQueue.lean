import AudioMeet.Lib.Lists
import AudioMeet.Lib.Machine

/-! A bounded first-in first-out queue that drops its oldest entry to make room for a new one. Along
    every run, what entered is what left followed by what is queued, and each entry that left was
    popped, dropped from a full queue, or cleared. -/

namespace AudioMeet.Lib.DropQueue
open Machine

inductive Act (α : Type)
  | push (x : α)
  | pop
  | clear

/-- `dropped full x`: the oldest entry of `full` made room for `x`. -/
inductive Event (α : Type)
  | pushed (x : α)
  | dropped (full : List α) (x : α)
  | popped (x : α)
  | cleared (queue : List α)

/-- How an entry left the queue. -/
inductive Fate
  | popped
  | dropped
  | cleared
deriving DecidableEq

variable {α : Type}

def step (cap : Nat) (q : List α) : Act α → Option (List α × List (Event α))
  | .push x =>
    if cap ≤ q.length then some (q.tail ++ [x], [.dropped q x, .pushed x]) else some (q ++ [x], [.pushed x])
  | .pop =>
    match q with
    | [] => none
    | x :: rest => some (rest, [.popped x])
  | .clear => some ([], [.cleared q])

/-- The queue with room for `cap` entries, empty at first. -/
def machine (α : Type) (cap : Nat) : Machine (List α) (Act α) (Event α) where
  init q := q = []
  step := step cap

/-! ### The history of a run -/

def Event.entered : Event α → List α
  | .pushed x => [x]
  | _ => []

def Event.left : Event α → List (α × Fate)
  | .pushed _ => []
  | .dropped full _ => (full.take 1).map (·, .dropped)
  | .popped x => [(x, .popped)]
  | .cleared queue => queue.map (·, .cleared)

/-- What entered the queue, oldest first. -/
def entered (tr : List (Event α)) : List α := tr.flatMap Event.entered

/-- What left the queue and how, in that order. -/
def left (tr : List (Event α)) : List (α × Fate) := tr.flatMap Event.left

/-- What was popped, in that order. -/
def popped (tr : List (Event α)) : List α := ((left tr).filter (·.2 = .popped)).map Prod.fst

@[simp] theorem entered_append (tr es : List (Event α)) : entered (tr ++ es) = entered tr ++ entered es :=
  List.flatMap_append

@[simp] theorem left_append (tr es : List (Event α)) : left (tr ++ es) = left tr ++ left es :=
  List.flatMap_append

@[simp] theorem popped_append (tr es : List (Event α)) : popped (tr ++ es) = popped tr ++ popped es := by
  simp [popped]

@[simp] theorem popped_pushed (x : α) : popped [.pushed x] = [] := rfl

@[simp] theorem popped_popped (x : α) : popped [.popped x] = [x] := rfl

@[simp] theorem popped_dropped (full : List α) (x : α) : popped [.dropped full x] = [] := by
  cases full <;> rfl

@[simp] theorem popped_cleared (queue : List α) : popped [.cleared queue] = [] := by
  simp [popped, left, Event.left]

/-- What a step does: it pushes with room, pushes at the cost of the oldest entry, pops or clears. -/
theorem step_cases {cap : Nat} {q r : List α} {a : Act α} {es : List (Event α)} (h : step cap q a = some (r, es)) :
    (∃ x, q.length < cap ∧ r = q ++ [x] ∧ es = [.pushed x]) ∨
    (∃ x, cap ≤ q.length ∧ r = q.tail ++ [x] ∧ es = [.dropped q x, .pushed x]) ∨
    (∃ x, q = x :: r ∧ es = [.popped x]) ∨
    (r = [] ∧ es = [.cleared q]) := by
  cases a with
  | push x =>
    simp only [step] at h
    split at h <;> simp only [Option.some.injEq, Prod.mk.injEq] at h <;> obtain ⟨rfl, rfl⟩ := h
    · exact Or.inr (Or.inl ⟨x, by assumption, rfl, rfl⟩)
    · exact Or.inl ⟨x, by omega, rfl, rfl⟩
  | pop =>
    cases q with
    | nil => simp [step] at h
    | cons x rest =>
      simp only [step, Option.some.injEq, Prod.mk.injEq] at h
      obtain ⟨rfl, rfl⟩ := h
      exact Or.inr (Or.inr (Or.inl ⟨x, rfl, rfl⟩))
  | clear =>
    simp only [step, Option.some.injEq, Prod.mk.injEq] at h
    obtain ⟨rfl, rfl⟩ := h
    exact Or.inr (Or.inr (Or.inr ⟨rfl, rfl⟩))

section Runs
variable {cap : Nat} {ok : List α → Act α → Prop} {tr : List (Event α)} {q : List α}

/-- The queue never holds more than it has room for. -/
theorem length_le (hcap : 0 < cap) (h : (machine α cap).Run ok tr q) : q.length ≤ cap := by
  refine h.invariant (I := fun _ q => q.length ≤ cap) ?_ ?_
  · rintro q rfl
    exact Nat.zero_le _
  · intro tr q a r es hq _ hs
    rcases step_cases hs with ⟨x, hlt, rfl, -⟩ | ⟨x, hle, rfl, -⟩ | ⟨x, rfl, -⟩ | ⟨rfl, -⟩
    · simp only [List.length_append, List.length_singleton]
      omega
    · simp only [List.length_append, List.length_tail, List.length_singleton]
      omega
    · simp only [List.length_cons] at hq
      omega
    · exact Nat.zero_le _

/-- What entered is what left, followed by what is still queued. -/
theorem accounted (hcap : 0 < cap) (h : (machine α cap).Run ok tr q) : entered tr = (left tr).map Prod.fst ++ q := by
  refine h.invariant (I := fun tr q => entered tr = (left tr).map Prod.fst ++ q) ?_ ?_
  · rintro q rfl
    rfl
  · intro tr q a r es hq _ hs
    rw [entered_append, left_append, hq]
    rcases step_cases hs with ⟨x, -, rfl, rfl⟩ | ⟨x, hle, rfl, rfl⟩ | ⟨x, rfl, rfl⟩ | ⟨rfl, rfl⟩
    · simp [entered, left, Event.entered, Event.left]
    · obtain ⟨y, ys, rfl⟩ : ∃ y ys, q = y :: ys := List.exists_cons_of_length_pos (by omega)
      simp [entered, left, Event.entered, Event.left]
    · simp [entered, left, Event.entered, Event.left]
    · simp [entered, left, Event.entered, Event.left, Function.comp_def]

/-- An entry is dropped only from a full queue. -/
theorem dropped_full (hcap : 0 < cap) (h : (machine α cap).Run ok tr q) {full : List α} {x : α}
    (hd : .dropped full x ∈ tr) : full.length = cap := by
  induction h with
  | init => cases hd
  | step hr _ hs ih =>
    rcases List.mem_append.mp hd with hd | hd
    · exact ih hd
    · have hle := length_le hcap hr
      rcases step_cases hs with ⟨x, -, rfl, rfl⟩ | ⟨x, hge, rfl, rfl⟩ | ⟨x, rfl, rfl⟩ | ⟨rfl, rfl⟩ <;>
        simp at hd
      obtain ⟨rfl, -⟩ := hd
      omega

/-- A step pushes one entry at most, and that in the end. -/
theorem step_pushed {r : List α} {a : Act α} {es mid after : List (Event α)} {x : α} (h : step cap q a = some (r, es))
    (hes : es = mid ++ .pushed x :: after) : after = [] ∧ entered mid = [] := by
  rcases step_cases h with ⟨y, -, -, rfl⟩ | ⟨y, -, -, rfl⟩ | ⟨y, -, rfl⟩ | ⟨-, rfl⟩
  · rcases List.append_eq_singleton_iff.mp hes.symm with ⟨rfl, hcons⟩ | ⟨-, hcons⟩
    · exact ⟨(List.cons.inj hcons).2, rfl⟩
    · cases hcons
  · cases mid with
    | nil => cases hes
    | cons e mid =>
      obtain ⟨rfl, hes'⟩ := List.cons.inj hes
      rcases List.append_eq_singleton_iff.mp hes'.symm with ⟨rfl, hcons⟩ | ⟨-, hcons⟩
      · exact ⟨(List.cons.inj hcons).2, rfl⟩
      · cases hcons
  · rcases List.append_eq_singleton_iff.mp hes.symm with ⟨-, hcons⟩ | ⟨-, hcons⟩ <;> cases hcons
  · rcases List.append_eq_singleton_iff.mp hes.symm with ⟨-, hcons⟩ | ⟨-, hcons⟩ <;> cases hcons

/-- An entry has left once `cap` entries were popped after it came. -/
theorem length_popped_lt (hcap : 0 < cap) (h : (machine α cap).Run ok tr q) {before after : List (Event α)} {x : α}
    (hsplit : tr = before ++ .pushed x :: after) :
    (entered before).length + (popped after).length < (left tr).length + cap := by
  induction h generalizing before after x with
  | init => simp at hsplit
  | @step tr es q r a hrun hok hs ih =>
    rcases append_eq_append_cons hsplit with ⟨after', rfl⟩ | ⟨mid, rfl, hes⟩
    · obtain rfl : after = after' ++ es := by simpa using hsplit.symm
      have hpopped : (popped es).length ≤ (left es).length := by
        rw [popped, List.length_map]
        exact List.length_filter_le ..
      have hold := ih rfl
      rw [left_append, popped_append, List.length_append, List.length_append]
      omega
    · obtain ⟨rfl, hmid⟩ := step_pushed hs hes
      have hrun' := hrun.step hok hs
      have hlen := congrArg List.length (accounted hcap hrun')
      have hle := length_le hcap hrun'
      have hentered : entered (tr ++ es) = entered tr ++ [x] := by
        rw [hes, entered_append, entered_append, hmid]
        rfl
      rw [hentered, List.length_append, List.length_append, List.length_map, List.length_singleton] at hlen
      rw [entered_append, hmid, List.append_nil]
      change (entered tr).length + 0 < _
      omega

/-- What was popped is a subsequence of what entered. -/
theorem popped_sublist (hcap : 0 < cap) (h : (machine α cap).Run ok tr q) : (popped tr).Sublist (entered tr) := by
  rw [accounted hcap h]
  exact (List.filter_sublist.map _).trans (List.sublist_append_left _ _)

end Runs
end AudioMeet.Lib.DropQueue
