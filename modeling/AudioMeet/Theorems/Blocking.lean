import AudioMeet.Blocking

/-! Locks, joins and ticks are taken in one order everywhere: the manager's mutex, the tick of a meeting, its
    `parts_mutex_`, its `conf_mutex_`, the threads of a participant, and the mutexes that nothing is taken under. -/

namespace AudioMeet.Blocking
open Lib

def Resource.rank : Resource → Nat
  | .mutex_ => 0
  | .tick _ => 1
  | .parts_mutex_ _ => 2
  | .conf_mutex_ _ => 3
  | .thread _ _ => 4
  | .queue_mutex_ _ | .rx_buf_mutex_ _ | .allocator => 5

/-- The code, which starts with `held`, keeps the order. -/
abbrev Orderly (held : List Resource) (c : Code) : Prop := c.Ordered Resource.rank own held

/-- `held` all come before rank `n`. -/
abbrev Before (n : Nat) (held : List Resource) : Prop := Prog.Below Resource.rank held n

section Functions
variable {held : List Resource} {next : Code} {m p : Nat}

theorem section_orderly {mode : LockMode} {r : Resource} {body : Code → Code} (hb : Before r.rank held)
    (hbody : ∀ next, Orderly (r :: held) next → Orderly (r :: held) (body next)) (hnext : Orderly held next) :
    Orderly held (section_ mode r body next) :=
  Prog.ordered_guarded hb (fun _ h => hbody _ (h ())) fun _ => hnext

namespace PortAllocator

theorem allocate_orderly {next : Option Nat → Code} (hb : Before 5 held) (hnext : ∀ port, Orderly held (next port)) :
    Orderly held (allocate next) :=
  Prog.ordered_guarded hb (fun _ h _ _ => h _) hnext

theorem release_orderly {port : UInt16} (hb : Before 5 held) (hnext : Orderly held next) :
    Orderly held (release port next) := by
  intro s
  dsimp only
  split
  · exact hnext
  · exact section_orderly hb (fun _ h _ => h) hnext

end PortAllocator

namespace Participant

theorem start_tx_thread_orderly (hb : Before 5 held) (hnext : Orderly held next) :
    Orderly held (start_tx_thread p next) := by
  refine section_orderly hb (fun next h s => ?_) hnext
  dsimp only
  split
  · exact h
  · exact fun _ => h

theorem start_orderly {next : Bool → Code} (hnext : ∀ b, Orderly held (next b)) : Orderly held (start p next) := by
  intro ans
  dsimp only
  split
  · exact hnext true
  · exact hnext false

theorem startSplit_orderly {next : Bool → Code} (hb : Before 5 held) (hnext : ∀ b, Orderly held (next b)) :
    Orderly held (startSplit p next) := by
  intro ans
  dsimp only
  split
  · exact start_tx_thread_orderly hb (hnext true)
  · exact hnext false

theorem stop_orderly (hb : Before 4 held) (hnext : Orderly held next) : Orderly held (stop p next) :=
  fun _ => section_orderly (hb.mono (Nat.le_succ 4)) (fun _ h _ => h) ⟨hb, hb, hb, hnext⟩

theorem drop_orderly (hb : Before 4 held) (hnext : Orderly held next) : Orderly held (drop p next) := by
  intro s
  dsimp only
  split
  · exact stop_orderly hb hnext
  · exact hnext

theorem on_get_frame_orderly (hb : Before 5 held) (hnext : Orderly held next) : Orderly held (on_get_frame p next) :=
  section_orderly hb (fun _ h => h) hnext

theorem on_put_frame_orderly (hb : Before 5 held) (hnext : Orderly held next) : Orderly held (on_put_frame p next) := by
  intro s
  dsimp only
  split
  · exact hnext
  · intro ans
    dsimp only
    split
    · refine section_orderly hb (fun next h s => ?_) hnext
      dsimp only
      split
      · exact h
      · exact fun _ => h
    · exact hnext

theorem accept_thread_func_orderly : Orderly [.thread p .accept] (accept_thread_func p) := by
  intro ans
  dsimp only
  split
  · intro s
    dsimp only
    split
    · trivial
    · exact start_tx_thread_orderly (Prog.below_nil.cons (by simp [Resource.rank])) trivial
  · trivial

theorem rx_thread_func_orderly : Orderly [.thread p .rx] (rx_thread_func p) := by
  intro s
  dsimp only
  split
  · trivial
  · intro ans
    dsimp only
    split
    · exact Prog.ordered_each
        (fun _ _ h => section_orderly (Prog.below_nil.cons (by simp [Resource.rank])) (fun _ h => h) h) rfl
    · trivial

theorem tx_thread_end_orderly : Orderly [.thread p .tx] (tx_thread_end p) :=
  section_orderly (Prog.below_nil.cons (by simp [Resource.rank])) (fun _ h _ => h) trivial

theorem tx_thread_func_orderly : Orderly [.thread p .tx] (tx_thread_func p) := by
  intro s
  dsimp only
  split
  · exact tx_thread_end_orderly
  · rfl

theorem tx_thread_wait_orderly : Orderly [.thread p .tx] (tx_thread_wait p) := by
  refine ⟨Prog.below_nil.cons (by simp [Resource.rank]), fun s => ?_⟩
  dsimp only
  split
  · exact tx_thread_end_orderly
  · split
    · rfl
    · intro _ ans
      dsimp only
      split
      · rfl
      · exact tx_thread_end_orderly

end Participant

namespace Meeting

theorem on_clock_tick_orderly (hb : Before 3 held) (hnext : Orderly held next) : Orderly held (on_clock_tick m next) := by
  refine section_orderly hb (fun next h s ans => Prog.ordered_each (fun x next h => ?_) h) hnext
  have hb' : Before 5 (.conf_mutex_ m :: held) := (hb.mono (by decide)).cons (by simp [Resource.rank])
  split
  · exact Participant.on_put_frame_orderly hb' h
  · exact Participant.on_get_frame_orderly hb' h

theorem clock_thread_orderly : Orderly [] (clock_thread m) := by
  refine ⟨Prog.below_nil, fun s => ?_⟩
  dsimp only
  split
  · exact on_clock_tick_orderly (Prog.below_nil.cons (by simp [Resource.rank])) rfl
  · trivial

theorem addSection_orderly {part : NewPart} {port : Nat} {start : Nat → (Bool → Code) → Code} {next : Option Nat → Code}
    (hb : Before 3 held)
    (hstart : ∀ p next, (∀ b, Orderly held (next b)) → Orderly held (start p next)) (hnext : ∀ p, Orderly held (next p)) :
    Orderly held (addSection m part port start next) := by
  have hb' : Before 4 held := hb.mono (Nat.le_succ 3)
  intro s
  dsimp only
  split
  · exact hnext none
  · refine fun s => hstart _ _ fun started => ?_
    split
    · intro ans
      dsimp only
      split
      · refine Prog.ordered_guarded hb (fun next h ans => ?_) fun added => ?_
        · dsimp only
          split
          · exact fun _ => h true
          · exact h false
        · split
          · exact fun _ => hnext _
          · exact Participant.stop_orderly hb' (Participant.drop_orderly hb' (hnext none))
      · exact Participant.drop_orderly hb' (hnext none)
    · exact Participant.drop_orderly hb' (hnext none)

theorem add_participant_orderly {part : NewPart} {port : Nat} {next : Option Nat → Code} (hb : Before 2 held)
    (hnext : ∀ p, Orderly held (next p)) : Orderly held (add_participant m part port next) :=
  Prog.ordered_guarded hb (fun _ h => addSection_orderly ((hb.mono (Nat.le_succ 2)).cons (by simp [Resource.rank]))
    (fun _ _ h => Participant.start_orderly h) h) hnext

theorem add_split_participant_orderly {part : NewPart} {port : Nat} {next : Option Nat → Code} (hb : Before 2 held)
    (hnext : ∀ p, Orderly held (next p)) : Orderly held (add_split_participant m part port next) := by
  have hb' : Before 3 (.parts_mutex_ m :: held) := (hb.mono (Nat.le_succ 2)).cons (by simp [Resource.rank])
  exact Prog.ordered_guarded hb (fun _ h => addSection_orderly hb'
    (fun _ _ h => Participant.startSplit_orderly (hb'.mono (by decide)) h) h) hnext

theorem get_participant_orderly {part_id : Bytes} {next : Option Nat → Code} (hb : Before 2 held)
    (hnext : ∀ p, Orderly held (next p)) : Orderly held (get_participant m part_id next) :=
  Prog.ordered_guarded hb (fun _ h _ => h _) hnext

theorem participants_orderly {next : List Nat → Code} (hb : Before 2 held) (hnext : ∀ ps, Orderly held (next ps)) :
    Orderly held (participants m next) :=
  Prog.ordered_guarded hb (fun _ h _ => h _) hnext

theorem participant_ports_orderly {next : List UInt16 → Code} (hb : Before 2 held)
    (hnext : ∀ ports, Orderly held (next ports)) : Orderly held (participant_ports m next) :=
  Prog.ordered_guarded hb (fun _ h _ => h _) hnext

theorem set_participant_mute_orderly {part_id : Bytes} (hb : Before 2 held) (hnext : Orderly held next) :
    Orderly held (set_participant_mute m part_id next) := by
  refine section_orderly hb (fun next h s => ?_) hnext
  dsimp only
  split
  · exact h
  · exact section_orderly ((hb.mono (Nat.le_succ 2)).cons (by simp [Resource.rank])) (fun _ h => h) h

theorem remove_participant_orderly {part_id : Bytes} {next : Option UInt16 → Code} (hb : Before 2 held)
    (hnext : ∀ port, Orderly held (next port)) : Orderly held (remove_participant m part_id next) := by
  refine Prog.ordered_guarded hb (fun next h s => ?_) fun p => ?_
  · dsimp only
    split
    · exact h none
    · exact section_orderly ((hb.mono (Nat.le_succ 2)).cons (by simp [Resource.rank])) (fun _ h _ => h) (h _)
  · cases p with
    | none => exact hnext none
    | some p =>
      have hb' : Before 4 held := hb.mono (by decide)
      exact Participant.stop_orderly hb' fun s => Participant.drop_orderly hb' (hnext _)

theorem stopSection_orderly (hb : Before 2 held) (hnext : Orderly held next) : Orderly held (stopSection m next) := by
  have hb' : Before 4 (.parts_mutex_ m :: held) := (hb.mono (by decide)).cons (by simp [Resource.rank])
  refine section_orderly hb (fun next h s => ?_) hnext
  refine Prog.ordered_each (fun p next h => Participant.stop_orderly hb' h) fun s => ?_
  exact Prog.ordered_each (fun p next h => Participant.drop_orderly hb' h) h

theorem stop_orderly (hb : Before 1 held) (hnext : Orderly held next) : Orderly held (stop m next) := by
  have hsection : Orderly held (stopSection m next) := stopSection_orderly (hb.mono (Nat.le_succ 1)) hnext
  intro s
  dsimp only
  split
  · exact fun _ => ⟨hb, fun _ => hsection⟩
  · exact hsection

theorem drop_orderly (hb : Before 1 held) (hnext : Orderly held next) : Orderly held (drop m next) := by
  intro s
  dsimp only
  split
  · exact stop_orderly hb hnext
  · exact hnext

end Meeting

namespace MeetingManager
variable {meet_id part_id : Bytes}

/-- The meeting that a create replaces ends under the mutex of the manager. -/
theorem create_meeting_orderly (hnext : Orderly [] next) : Orderly [] (create_meeting next) := by
  intro ans s
  dsimp only
  split
  on_goal 1 => rw [Prog.ordered_spawn]
  all_goals
    refine section_orderly Prog.below_nil (fun next h s => ?_) hnext
    dsimp only
    split
    · exact h
    · exact Meeting.drop_orderly (Prog.below_nil.cons (by simp [Resource.rank])) h

theorem get_meeting_orderly {next : Option Nat → Code} (hnext : ∀ m, Orderly [] (next m)) :
    Orderly [] (get_meeting meet_id next) :=
  Prog.ordered_guarded Prog.below_nil (fun _ h _ => h _) hnext

theorem list_meetings_orderly {next : List Nat → Code} (hnext : ∀ ms, Orderly [] (next ms)) :
    Orderly [] (list_meetings next) :=
  Prog.ordered_guarded Prog.below_nil (fun _ h _ => h _) hnext

theorem destroy_meeting_orderly (hnext : Orderly [] next) : Orderly [] (destroy_meeting meet_id next) := by
  refine Prog.ordered_guarded Prog.below_nil (fun next h s => h _) fun m => ?_
  cases m with
  | none => exact hnext
  | some m =>
    refine Meeting.participant_ports_orderly Prog.below_nil fun ports => Meeting.stop_orderly Prog.below_nil ?_
    exact Prog.ordered_each (fun port next h => PortAllocator.release_orderly Prog.below_nil h)
      (Meeting.drop_orderly Prog.below_nil hnext)

theorem delete_participant_orderly (hnext : Orderly [] next) : Orderly [] (delete_participant meet_id part_id next) := by
  refine get_meeting_orderly fun m => ?_
  cases m with
  | none => exact hnext
  | some m =>
    have hdrop := Meeting.drop_orderly (m := m) Prog.below_nil hnext
    refine Meeting.remove_participant_orderly Prog.below_nil fun port => ?_
    cases port with
    | none => exact hdrop
    | some port =>
      dsimp only
      split
      · exact PortAllocator.release_orderly Prog.below_nil hdrop
      · exact hdrop

end MeetingManager

/-! ### All threads -/

theorem drops_orderly (p m : Nat) : Orderly [] (Participant.drop p (Meeting.drop m .done)) :=
  Participant.drop_orderly Prog.below_nil (Meeting.drop_orderly Prog.below_nil trivial)

theorem handle_add_orderly {meet_id : Bytes} {part : NewPart} : Orderly [] (handle_add meet_id part) := by
  refine MeetingManager.get_meeting_orderly fun m => ?_
  cases m with
  | none => trivial
  | some m =>
    have hdrop : Orderly [] (Meeting.drop m .done) := Meeting.drop_orderly Prog.below_nil trivial
    refine PortAllocator.allocate_orderly Prog.below_nil fun port => ?_
    cases port with
    | none => exact hdrop
    | some port =>
      dsimp only
      split
      · refine Meeting.add_participant_orderly Prog.below_nil fun p => ?_
        cases p with
        | none => exact PortAllocator.release_orderly Prog.below_nil hdrop
        | some p => exact drops_orderly p m
      · refine Meeting.add_split_participant_orderly Prog.below_nil fun p => ?_
        cases p with
        | none =>
          refine PortAllocator.release_orderly Prog.below_nil (Meeting.get_participant_orderly Prog.below_nil fun p => ?_)
          cases p with
          | none => exact hdrop
          | some p => exact drops_orderly p m
        | some p => exact drops_orderly p m

theorem handle_del_participant_orderly {meet_id part_id : Bytes} : Orderly [] (handle_del_participant meet_id part_id) := by
  refine MeetingManager.get_meeting_orderly fun m => ?_
  cases m with
  | none => trivial
  | some m =>
    have hdrop : Orderly [] (Meeting.drop m .done) := Meeting.drop_orderly Prog.below_nil trivial
    refine Meeting.get_participant_orderly Prog.below_nil fun p => ?_
    cases p with
    | none => exact hdrop
    | some p => exact Participant.drop_orderly Prog.below_nil (MeetingManager.delete_participant_orderly hdrop)

theorem handle_mute_participant_orderly {meet_id part_id : Bytes} :
    Orderly [] (handle_mute_participant meet_id part_id) := by
  refine MeetingManager.get_meeting_orderly fun m => ?_
  cases m with
  | none => trivial
  | some m => exact Meeting.set_participant_mute_orderly Prog.below_nil (Meeting.drop_orderly Prog.below_nil trivial)

theorem handle_list_meetings_orderly : Orderly [] handle_list_meetings := by
  refine MeetingManager.list_meetings_orderly fun ms => Prog.ordered_each (fun m next h => ?_) ?_
  · exact Meeting.participants_orderly Prog.below_nil fun ps =>
      Prog.ordered_each (fun p next h => Participant.drop_orderly Prog.below_nil h) h
  · exact Prog.ordered_each (fun m next h => Meeting.drop_orderly Prog.below_nil h) trivial

theorem handle_orderly (req : Request) : Orderly [] (handle req) := by
  unfold handle
  split
  · exact MeetingManager.create_meeting_orderly trivial
  · exact handle_add_orderly
  · exact MeetingManager.destroy_meeting_orderly trivial
  · exact handle_del_participant_orderly
  · exact handle_mute_participant_orderly
  · exact handle_list_meetings_orderly
  · trivial

theorem code_orderly (k : Kind) : Orderly (own k) (code k) := by
  cases k with
  | request req => exact handle_orderly req
  | clock m => exact Meeting.clock_thread_orderly
  | accept p => exact Participant.accept_thread_func_orderly
  | rx p => exact Participant.rx_thread_func_orderly
  | tx p => exact Participant.tx_thread_func_orderly
  | wait p => exact Participant.tx_thread_wait_orderly

end Functions

/-- In no reachable state do threads wait in a circle, each for a lock, a join or a tick that the next one holds. -/
theorem never_deadlocked {base count : UInt16} {tr : List Empty} {s : Pool Memory Resource Kind Answer}
    (h : (Pool.machine (programs base count)).Run Machine.Any tr s) (i : Nat) : ¬ Relation.TransGen s.WaitsFor i i :=
  (Pool.run_inOrder (P := programs base count) code_orderly h).no_circle i

/-- Two lists of the meetings: the second waits for the manager's mutex, which the first holds. -/
theorem never_deadlocked_waiting : ∃ tr s, (Pool.machine (programs 10000 4)).Run Machine.Any tr s ∧ s.WaitsFor 1 0 ∧
    ∀ i, ¬ Relation.TransGen s.WaitsFor i i := by
  obtain ⟨tr, s, hrun, hwaits⟩ := Machine.exists_run (Pool.machine (programs 10000 4)) _
    [.arrive (.request .listAudioMeets), .arrive (.request .listAudioMeets), .go 0 {}] rfl (Machine.meets_any ..)
    (fun r => r.1.waits 1 0) (by decide +kernel)
  exact ⟨tr, s, hrun, Pool.waits_iff.mp hwaits, never_deadlocked hrun⟩

end AudioMeet.Blocking
