import AudioMeet.Lib.Lists
import AudioMeet.Theorems.Live.Step

/-! The two mutexes of a live meeting, and what the calls know of the map as long as they hold `parts_mutex_`. -/

namespace AudioMeet.Live
open Lib Machine

/-! ### Who holds a mutex -/

section Holds
variable {π : Type} {f : π → Option LockMode} {clock : Option LockMode} {l : List π} {k : Nat} {pc pc' : π}

/-- How the threads hold a mutex: each call as its place tells, and the clock apart. -/
def holds (f : π → Option LockMode) (clock : Option LockMode) (calls : List π) : Thread → Option LockMode
  | .clock => clock
  | .call k => calls[k]?.bind f

theorem bind_snoc {α : Type} {f : π → Option α} (h : f pc = none) (k : Nat) :
    (l ++ [pc])[k]?.bind f = l[k]?.bind f := by
  rw [List.getElem?_append]
  split
  · rfl
  · next hk =>
    rw [List.getElem?_eq_none (Nat.not_lt.mp hk), List.getElem?_singleton]
    split <;> simp [h]

theorem holds_nil : holds f none [] = fun _ => none := by
  funext u
  cases u <;> rfl

theorem holds_call (hk : l[k]? = some pc) : holds f clock l (.call k) = f pc := by
  rw [holds, hk, Option.bind_some]

theorem holds_snoc (h : f pc = none) : holds f clock (l ++ [pc]) = holds f clock l := by
  funext u
  cases u with
  | clock => rfl
  | call j => exact bind_snoc h j

theorem holds_set (hk : l[k]? = some pc) :
    holds f clock (l.set k pc') = Function.update (holds f clock l) (.call k) (f pc') := by
  funext u
  cases u with
  | clock => rfl
  | call j =>
    by_cases hj : j = k
    · subst hj
      rw [Function.update_self, holds_call ((getElem?_set_some hk).mpr (Or.inl ⟨rfl, rfl⟩))]
    · rw [Function.update_of_ne (by simpa using hj), holds, holds, List.getElem?_set_ne (Ne.symm hj)]

theorem holds_tick {clock' : Option LockMode} : holds f clock' l = Function.update (holds f clock l) .clock clock' := by
  funext u
  cases u with
  | clock => rfl
  | call j => rfl

end Holds

namespace Session
variable {B : Type} {P : Pjmedia B} {s t : Session B} {a : SessionAct} {es tr : List Event}

/-! ### Who holds the mutexes -/

def partsHeld (s : Session B) : Thread → Option LockMode := holds CallPc.parts none s.calls

def confHeld (s : Session B) : Thread → Option LockMode :=
  holds CallPc.conf (if s.ticking then some .shared else none) s.calls

theorem begin_parts (c : Call) (meet_id : Bytes) : (c.begin meet_id).parts = none := by cases c <;> rfl

theorem begin_conf (c : Call) (meet_id : Bytes) : (c.begin meet_id).conf = none := by cases c <;> rfl

/-! ### The cases of a step -/

inductive Does (P : Pjmedia B) (s : Session B) : SessionAct → Session B → List Event → Prop
  | call {c : Call} : Does P s (.call c) { s with calls := s.calls ++ [c.begin s.conference.meet_id_] } []
  | go {k : Nat} {ok : Bool} {pc pc' : CallPc} {c : Conference B} {es : List Event} :
      s.calls[k]? = some pc → s.conference.Does P (.call k) pc c pc' es →
      Does P s (.go k ok) { s with conference := c, calls := s.calls.set k pc' } es
  | tick {m : SharedMutex Thread} {ticking : Bool} :
      s.conference.conf_mutex_.Shifts .clock (s.confHeld .clock) (if ticking then some .shared else none) m →
      Does P s .tick { s with conference := { s.conference with conf_mutex_ := m }, ticking := ticking } []

theorem step_does (h : step P s a = some (t, es)) : Does P s a t es := by
  cases a with
  | call c =>
    cases h
    exact .call
  | go k ok =>
    simp only [step, Option.bind_eq_bind, Option.bind_eq_some_iff] at h
    obtain ⟨pc, hk, ⟨c, pc', es'⟩, hgo, h⟩ := h
    cases h
    exact .go hk (Conference.go_does hgo)
  | tick =>
    obtain ⟨m, hm, h⟩ := Option.map_eq_some_iff.mp h
    cases h
    refine .tick ?_
    rw [confHeld]
    cases hticking : s.ticking <;> rw [hticking] at hm
    · exact .lock_shared hm
    · exact .unlock_shared hm

/-! ### Along a run -/

/-- The mutexes know their holders, and what a call learned of the map is still so. -/
structure Locked (s : Session B) : Prop where
  parts : s.conference.parts_mutex_.Tracks s.partsHeld
  conf : s.conference.conf_mutex_.Tracks s.confHeld
  knows : ∀ (k : Nat) (pc : CallPc), s.calls[k]? = some pc → pc.Knows s.conference.slot

theorem Locked.init (h : (machine P).init s) : Locked s := by
  obtain ⟨meet_id, b, -, rfl⟩ := h
  have hfree : ∀ f : CallPc → Option LockMode, ({} : SharedMutex Thread).Tracks (holds f none []) := fun f => holds_nil ▸ SharedMutex.Tracks.of_free
  exact ⟨hfree CallPc.parts, hfree CallPc.conf, nofun⟩

theorem Locked.call (h : Locked s) (c : Call) :
    Locked { s with calls := s.calls ++ [c.begin s.conference.meet_id_] } where
  parts := by
    rw [partsHeld, holds_snoc (begin_parts c _)]
    exact h.parts
  conf := by
    rw [confHeld, holds_snoc (begin_conf c _)]
    exact h.conf
  knows k pc hk := by
    rcases getElem?_snoc_some.mp hk with ⟨-, rfl⟩ | hk
    · exact CallPc.knows_of_parts (begin_parts c _) _
    · exact h.knows k pc hk

theorem Locked.go (h : Locked s) {k : Nat} {pc pc' : CallPc} {c : Conference B} (hk : s.calls[k]? = some pc)
    (hdoes : s.conference.Does P (.call k) pc c pc' es) :
    Locked { s with conference := c, calls := s.calls.set k pc' } where
  parts := by
    rw [partsHeld, holds_set hk]
    refine h.parts.shifts ?_
    rw [partsHeld, holds_call hk]
    exact hdoes.parts
  conf := by
    rw [confHeld, holds_set hk]
    refine h.conf.shifts ?_
    rw [confHeld, holds_call hk]
    exact hdoes.conf
  knows j pcj hj := by
    rcases (getElem?_set_some hk).mp hj with ⟨-, rfl⟩ | ⟨hjk, hj⟩
    · exact hdoes.knows (h.knows k pc hk)
    · -- The map changes only under the exclusive lock, when no other call knows anything of it.
      by_cases hexcl : pc.parts = some .exclusive
      · refine CallPc.knows_of_parts ?_ _
        have := h.parts.excludes (u := .call j) ((holds_call hk).trans hexcl) (by simpa using hjk)
        rwa [partsHeld, holds_call hj] at this
      · rw [show c.slot = s.conference.slot from hdoes.slot hexcl]
        exact h.knows j pcj hj

theorem Locked.step (h : Locked s) (hdoes : Does P s a t es) : Locked t := by
  cases hdoes with
  | @call c => exact h.call c
  | go hk hdoes => exact h.go hk hdoes
  | tick hm =>
    refine ⟨h.parts, ?_, h.knows⟩
    rw [confHeld, holds_tick]
    exact h.conf.shifts hm

end Session
end AudioMeet.Live
