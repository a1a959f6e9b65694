import AudioMeet.Theorems.Live.Linearizable
import AudioMeet.Theorems.Meeting

/-! The bridge of a live meeting is that of the roster that the answers of the calls leave, whatever the order of the
    steps of the calls. -/

namespace AudioMeet.Live
open Lib Machine Linearizable

namespace Roster

/-- What a call may answer, and what it does to the roster when it answers so. -/
inductive Does : Atomic Roster Op Reply
  | added {x : Roster} {p : Participant} : x p.part_id_ = none →
      Does x (.add p) (.participant (some p)) (x.put (.joined p.part_id_))
  | refused {x : Roster} {p : Participant} : Does x (.add p) (.participant none) x
  | muted {x : Roster} {part_id : Bytes} {mute : Bool} : x part_id ≠ none →
      Does x (.set_participant_mute part_id mute) (.code 0) (x.put (.muted part_id mute))
  | absent {x : Roster} {part_id : Bytes} {mute : Bool} : x part_id = none →
      Does x (.set_participant_mute part_id mute) (.code (-1)) x
  | removed {x : Roster} {part_id : Bytes} {port : UInt16} : x part_id ≠ none →
      Does x (.remove_participant part_id) (.code port.toNat) (x.put (.left part_id))
  | missing {x : Roster} {part_id : Bytes} : x part_id = none →
      Does x (.remove_participant part_id) (.code (-1)) x
  | read {x : Roster} {q : Query} {r : Reply} : Does x (.query q) r x

/-- What an answer tells of the roster. -/
def event : Op → Reply → Option Event
  | .add p, .participant (some _) => some (.joined p.part_id_)
  | .set_participant_mute part_id mute, .code n => if n = 0 then some (.muted part_id mute) else none
  | .remove_participant part_id, .code n => if n < 0 then none else some (.left part_id)
  | _, _ => none

/-- The roster that operations with their answers leave: who was last added and not removed since, each with what the
    last mute request since then that answered 0 said. -/
def answered (ops : List (CallId × Op × Reply)) : Roster := after (ops.filterMap fun (_, op, r) => event op r)

variable {x y : Roster} {op : Op} {r : Reply} {ops : List (CallId × Op × Reply)}

theorem Does.eq_put (h : Does x op r y) : y = (event op r).toList.foldl put x := by
  cases h with
  | @removed _ _ port => simp [event, Int.not_lt.mpr (Int.natCast_nonneg port.toNat)]
  | _ => rfl

theorem answered_snoc (ops : List (CallId × Op × Reply)) (k : CallId) (op : Op) (r : Reply) :
    answered (ops ++ [(k, op, r)]) = (event op r).toList.foldl put (answered ops) := by
  rw [answered, List.filterMap_append, after_append]
  rcases h : event op r with _ | e <;> simp [answered, h]

/-- The answers of a meeting, one after the other, leave the roster. -/
theorem eq_answered (h : Legal Does (fun _ => none) ops x) : x = answered ops := by
  induction h with
  | nil => rfl
  | snoc _ hdoes ih => rw [hdoes.eq_put, ih, answered_snoc]

end Roster

/-! ### The meeting and its roster -/

/-- The roster has whom the meeting has. -/
def Lists (o : Meeting × Roster) (x : Roster) : Prop :=
  x = o.2 ∧ ∀ i, o.1.participants_.contains i = (x i).isSome

section Lists
variable {m : Meeting} {x : Roster} {p : Participant} {part_id : Bytes} {slot : Nat}

theorem Lists.insert (h : Lists (m, x) x) :
    Lists ({ m with participants_ := m.participants_.insert p.part_id_ (p, slot) }, x.put (.joined p.part_id_))
      (x.put (.joined p.part_id_)) := by
  refine ⟨rfl, fun i => ?_⟩
  have hi := h.2 i
  by_cases heq : i = p.part_id_
  · simp [heq, Std.ExtTreeMap.contains_insert]
  · simp [heq, Ne.symm heq, Std.ExtTreeMap.contains_insert, hi]

theorem Lists.erase (h : Lists (m, x) x) :
    Lists ({ m with participants_ := m.participants_.erase part_id }, x.put (.left part_id)) (x.put (.left part_id)) := by
  refine ⟨rfl, fun i => ?_⟩
  have hi := h.2 i
  by_cases heq : i = part_id
  · simp [heq, Std.ExtTreeMap.contains_erase]
  · simp [heq, Ne.symm heq, Std.ExtTreeMap.contains_erase, hi]

theorem Lists.mute {mute : Bool} (h : Lists (m, x) x) (hin : x part_id ≠ none) :
    Lists (m, x.put (.muted part_id mute)) (x.put (.muted part_id mute)) := by
  refine ⟨rfl, fun i => ?_⟩
  have hi := h.2 i
  by_cases heq : i = part_id
  · subst heq
    rw [hi, Roster.put_muted, Function.update_self, Option.isSome_some, Option.isSome_iff_ne_none]
    exact hin
  · rw [hi, Roster.put_muted, Function.update_of_ne heq]

end Lists

/-- What a meeting does at once is what its roster may do. -/
theorem Acts.does {o o' : Meeting × Roster} {x : Roster} {op : Op} {r : Reply} (hx : Lists o x) (h : Acts o op r o') :
    ∃ x', x.Does op r x' ∧ Lists o' x' := by
  obtain ⟨rfl, hin⟩ := hx
  have of_true : ∀ {i : Bytes}, o.1.participants_.contains i = true → o.2 i ≠ none := fun hi =>
    Option.isSome_iff_ne_none.mp ((hin _).symm.trans hi)
  have of_false : ∀ {i : Bytes}, o.1.participants_.contains i = false → o.2 i = none := fun hi =>
    Option.not_isSome_iff_eq_none.mp (by rw [← hin, hi]; exact Bool.false_ne_true)
  have of_none : ∀ {i : Bytes}, o.1.participants_[i]? = none → o.2 i = none := fun hi =>
    of_false (by rw [Std.ExtTreeMap.contains_eq_isSome_getElem?, hi]; rfl)
  have hlists : Lists o o.2 := ⟨rfl, hin⟩
  cases h with
  | added hadd =>
    obtain ⟨slot, -, hjoins, -⟩ := Meeting.add_joins (Prod.ext hadd rfl)
    rw [hjoins.eq]
    exact ⟨_, .added (of_none hjoins.absent), hlists.insert⟩
  | refused => exact ⟨_, .refused, hlists⟩
  | muted hfound => exact ⟨_, .muted (of_true hfound), hlists.mute (of_true hfound)⟩
  | unmuted hmissing => exact ⟨_, .absent (of_false hmissing), hlists⟩
  | removed hremoved =>
    obtain ⟨p, slot, hp, rfl, rfl⟩ := Meeting.remove_participant_eq_some hremoved
    refine ⟨_, .removed (of_true ?_), hlists.erase⟩
    rw [Std.ExtTreeMap.contains_eq_isSome_getElem?, hp]
    rfl
  | missing hmissing => exact ⟨_, .missing (of_none (Meeting.remove_participant_eq_none.mp hmissing)), hlists⟩
  | read => exact ⟨_, .read, hlists⟩

namespace Callers
variable {B : Type} {P : Pjmedia B} {s : Callers B} {tr : List CallMoment}

/-- However the calls on a meeting interleave, what they answer is what a roster may answer to the same calls in an
    order that respects time, and whenever `parts_mutex_` is free the bridge is that of the roster which these answers
    leave. -/
theorem bridge_refines_roster (hP : P.Lawful) (hrun : (machine P).Run Any tr s) :
    Linearizes Roster.Does (fun _ => none) tr (points tr) (Roster.answered (points tr)) ∧
      (s.session.conference.parts_mutex_.Free →
        Session.Refines P s.session.conference (Roster.answered (points tr))) := by
  obtain ⟨_, ⟨m, x⟩, ⟨meet_id, rfl⟩, hlin, hs⟩ := (linearizer hP).run hrun
  have hnone : Lists (Meeting.new meet_id true true true, fun _ => none) fun _ => none :=
    ⟨rfl, fun i => Std.ExtTreeMap.contains_empty⟩
  obtain ⟨y, hdoes, rfl, -⟩ := hlin.simulates (fun _ _ _ _ _ => Acts.does) hnone
  cases Roster.eq_answered hdoes.legal
  exact ⟨hdoes, hs.inv.refines⟩

/-- Two participants join and the first is muted; it leaves and joins again, and the other is muted. -/
def rejoin : List CallersAct :=
  Session.twoJoin.map .session ++
  ([SessionAct.call (.remove_participant (ascii "a"))] ++ List.replicate 7 (SessionAct.go 3 true) ++
    [SessionAct.call (.add_participant (ascii "a") 10000)] ++ List.replicate 11 (SessionAct.go 4 true) ++
    [SessionAct.call (.set_participant_mute (ascii "b") true)] ++ List.replicate 6 (SessionAct.go 5 true)).map .session

theorem bridge_refines_roster_rejoin : ∃ tr s, (machine Session.board).Run Any tr s ∧
    .returned (.call 2) (.code 0) ∈ tr ∧ .returned (.call 3) (.code 10000) ∈ tr ∧ .returned (.call 5) (.code 0) ∈ tr ∧
    Roster.answered (points tr) (ascii "a") = some false ∧ Roster.answered (points tr) (ascii "b") = some true ∧
    Linearizes Roster.Does (fun _ => none) tr (points tr) (Roster.answered (points tr)) ∧
    Session.Refines Session.board s.session.conference (Roster.answered (points tr)) := by
  obtain ⟨tr, s, hrun, hs⟩ := exists_run (machine Session.board)
    { session := { conference := { meet_id_ := [], conf_ := .new } } } rejoin
    ⟨_, ⟨[], .new, ⟨fun _ => beq_iff_eq, fun _ _ => nofun⟩, rfl⟩, rfl⟩ (meets_any ..)
    (fun r => decide ((.returned (.call 2) (.code 0) ∈ r.2 ∧ .returned (.call 3) (.code 10000) ∈ r.2 ∧
      .returned (.call 5) (.code 0) ∈ r.2 ∧ Roster.answered (points r.2) (ascii "a") = some false ∧
      Roster.answered (points r.2) (ascii "b") = some true) ∧ r.1.session.conference.parts_mutex_.Free))
    (by decide +kernel)
  obtain ⟨⟨hmute, hremove, hother, ha, hb⟩, hfree⟩ := of_decide_eq_true hs
  obtain ⟨hlin, hrefines⟩ := bridge_refines_roster Session.board_lawful hrun
  exact ⟨tr, s, hrun, hmute, hremove, hother, ha, hb, hlin, hrefines hfree⟩

end Callers
end AudioMeet.Live
