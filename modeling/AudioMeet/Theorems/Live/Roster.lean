import AudioMeet.Live
import Mathlib.Logic.Function.Basic

/-! What a meeting is for: who is in it, and whose microphone is muted. -/

namespace AudioMeet.Live
open Lib Machine

namespace Event

def part_id : Event → Bytes
  | .joined part_id | .muted part_id _ | .left part_id => part_id

/-- What the participant is from then on: out of the meeting, or in it with the microphone muted or not. -/
def leaves : Event → Option Bool
  | .joined _ => some false
  | .muted _ mute => some mute
  | .left _ => none

end Event

/-- For each participant in the meeting, whether it is muted. -/
abbrev Roster := Bytes → Option Bool

namespace Roster

def put (x : Roster) (e : Event) : Roster := Function.update x e.part_id e.leaves

@[simp] theorem put_joined (x : Roster) (i : Bytes) : x.put (.joined i) = Function.update x i (some false) := rfl

@[simp] theorem put_muted (x : Roster) (i : Bytes) (mute : Bool) :
    x.put (.muted i mute) = Function.update x i (some mute) := rfl

@[simp] theorem put_left (x : Roster) (i : Bytes) : x.put (.left i) = Function.update x i none := rfl

/-- Only who is out can join, and only who is in can be muted or leave. -/
def step (x : Roster) (e : Event) : Option (Roster × List Event) :=
  match e with
  | .joined part_id => if x part_id = none then some (x.put e, [e]) else none
  | .muted part_id _ | .left part_id => if x part_id = none then none else some (x.put e, [e])

def machine : Machine Roster Event Event where
  init x := x = fun _ => none
  step := step

variable {x : Roster} {i : Bytes}

theorem join (h : x i = none) : machine.Steps Any x [.joined i] (x.put (.joined i)) :=
  .single (a := .joined i) trivial (if_pos h)

theorem mute (h : x i ≠ none) (mute : Bool) : machine.Steps Any x [.muted i mute] (x.put (.muted i mute)) :=
  .single (a := .muted i mute) trivial (if_neg h)

theorem leave (h : x i ≠ none) : machine.Steps Any x [.left i] (x.put (.left i)) :=
  .single (a := .left i) trivial (if_neg h)

/-- The last that happened to a participant. -/
def last (tr : List Event) (part_id : Bytes) : Option Event := (tr.filter (·.part_id = part_id)).getLast?

/-- The roster that a history leaves. A participant is in it with `true` exactly when its last mute request
    since it was last added said `true`. -/
def after (tr : List Event) : Roster := fun part_id => (last tr part_id).bind Event.leaves

theorem after_snoc (tr : List Event) (e : Event) : after (tr ++ [e]) = (after tr).put e := by
  funext part_id
  by_cases h : part_id = e.part_id
  · subst h
    simp [after, last, put]
  · simp [after, last, put, Function.update_of_ne h, Ne.symm h]

theorem step_inv {x y : Roster} {e : Event} {es : List Event} (h : x.step e = some (y, es)) :
    es = [e] ∧ y = x.put e := by
  unfold step at h
  split at h <;> split at h <;> cases h <;> exact ⟨rfl, rfl⟩

theorem steps_eq {tr : List Event} {x y : Roster} (h : machine.Steps Any x tr y) : y = tr.foldl put x := by
  induction h with
  | refl => rfl
  | tail _ _ hs ih =>
    obtain ⟨rfl, rfl⟩ := step_inv hs
    rw [List.foldl_append, ← ih]
    rfl

theorem after_append (tr es : List Event) : after (tr ++ es) = es.foldl put (after tr) := by
  induction es generalizing tr with
  | nil => rw [List.append_nil, List.foldl_nil]
  | cons e es ih => rw [List.foldl_cons, ← after_snoc, ← ih, List.append_assoc, List.singleton_append]

end Roster
end AudioMeet.Live
