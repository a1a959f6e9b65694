import AudioMeet.Theorems.MsLog.Writing

/-! The end of the logger. `Exit` sets `m_exit` under the mutex under which the thread of `OnRun` tests it before it
    waits, so that its notification is not missed, as the first one of `Log` may be. -/

namespace AudioMeet
open Lib Machine

/-- The steps to the end, once `m_exit` is set. -/
def OnRunPc.toEnd : OnRunPc → Nat
  | .openFile _ => 3
  | .write _ _ => 2
  | .start | .woken | .relock _ => 1
  | _ => 0

namespace MsLog

section Steps
variable {l u : MsLog} {a : LogAct} {tr es : List LogEvent} {ok : MsLog → LogAct → Prop}

/-! ### The notification of `Exit` -/

/-- The worker waits after `m_exit` is set only while a call is about to notify. -/
def Told (l : MsLog) : Prop := l.m_exit = true → l.worker = .waiting → .notify ∈ l.calls

theorem outerLoop_waiting (hexit : l.m_exit = true) : l.outerLoop.worker ≠ .waiting := by
  rcases l.outerLoop_cases with ⟨-, hno⟩ | ⟨heq, -⟩
  · exact absurd (hno.symm.trans hexit) Bool.false_ne_true
  · rw [heq]
    exact OnRunPc.noConfusion

theorem Told.step (h : Told l) (hd : Does l a u es) : Told u := by
  cases hd with
  | called | exitCalled => exact fun hexit hw => List.mem_append_left _ (h hexit hw)
  | levelSet | crashed _ => exact h
  | ran _ | opened _ | wrote _ | woken _ => exact fun _ => OnRunPc.noConfusion
  | tested hc => exact fun hexit hw => mem_notify_set hc LogPc.noConfusion (h hexit hw)
  | failed hc => exact fun hexit hw => mem_notify_set hc LogPc.noConfusion (h hexit hw)
  | accepted hc => exact fun _ _ => List.mem_of_getElem? ((getElem?_set_some hc).mpr (Or.inl ⟨rfl, rfl⟩))
  | exiting hc => exact fun _ _ => List.mem_of_getElem? ((getElem?_set_some hc).mpr (Or.inl ⟨rfl, rfl⟩))
  | notified _ => exact fun _ hw => absurd hw (worker_notify l)
  | begun _ => exact fun hexit hw => absurd hw (outerLoop_waiting hexit)
  | @looped ans bufs _ =>
    intro hexit hw
    rcases innerLoop_cases { l with m_logBufPtr := bufs } with ⟨heq, -⟩ | ⟨log, rest, -, -, heq⟩
    · rw [heq] at hexit hw
      exact absurd hw (outerLoop_waiting hexit)
    · rw [heq] at hw
      cases hw

theorem run_told (h : machine.Run ok tr l) : Told l := by
  refine h.invariant (I := fun _ => Told) ?_ fun _ _ _ _ _ h _ hs => h.step (step_does hs)
  rintro l rfl hexit
  cases hexit

/-! ### The last line -/

/-- Once `m_exit` is set, no message is taken from the queue, and the one in hand is the last that may be written. -/
theorem Does.hand_le (hd : Does l a u es) (hexit : l.m_exit = true) :
    (written es).length + u.worker.hand.length ≤ l.worker.hand.length := by
  have same : written es = [] → u.worker.hand = l.worker.hand →
      (written es).length + u.worker.hand.length ≤ l.worker.hand.length := fun hes hhand => by
    rw [hes, hhand, List.length_nil, Nat.zero_add]
  cases hd with
  | called | exitCalled | levelSet | tested _ | failed _ | accepted _ | exiting _ | crashed _ => exact same rfl rfl
  | ran hw | woken hw | opened hw => exact same rfl (by rw [hw]; rfl)
  | notified _ => exact same rfl (hand_notify l)
  | begun hw => exact same rfl (by rw [hand_outerLoop, hw]; rfl)
  | @looped ans bufs _ =>
    rcases innerLoop_cases { l with m_logBufPtr := bufs } with ⟨heq, -⟩ | ⟨log, rest, -, hno, -⟩
    · rw [heq, hand_outerLoop]
      exact Nat.zero_le _
    · exact absurd (hno.symm.trans hexit) Bool.false_ne_true
  | wrote hw =>
    rw [hw]
    exact Nat.le_refl 1

/-! ### Towards the end -/

/-- `Exit` was called, and `Run` was. -/
def Ending (ok : MsLog → LogAct → Prop) (tr : List LogEvent) (l : MsLog) : Prop :=
  machine.Run ok tr l ∧ l.m_exit = true ∧ l.worker ≠ .absent

theorem ending_kept (hok : ∀ l a, ok l a → Opens l a) : Kept ok (Ending ok) where
  live _ _ h := (run_alive hok h.1).live
  step _ _ _ _ _ h ha hs := ⟨h.1.step ha hs, (step_does hs).exit_stays h.2.1, (step_does hs).started_stays h.2.2⟩

/-- A worker that runs is nearer to its end, or the step is none of its own. -/
theorem step_toEnd (hd : Does l a u es) (hexit : l.m_exit = true) (hlive : u.crashed = false) (hrun : l.worker ≠ .absent)
    (hwait : l.worker ≠ .waiting) :
    u.worker ≠ .waiting ∧ (u.worker.toEnd < l.worker.toEnd ∨ u.worker = l.worker ∧ ¬ ∃ ans, a = .work ans) := by
  have same : u.worker = l.worker → (¬ ∃ ans, a = .work ans) → u.worker ≠ .waiting ∧
      (u.worker.toEnd < l.worker.toEnd ∨ u.worker = l.worker ∧ ¬ ∃ ans, a = .work ans) := fun heq ha =>
    ⟨heq ▸ hwait, Or.inr ⟨heq, ha⟩⟩
  have ends : ∀ bufs : List LogBuf, ({ l with m_logBufPtr := bufs } : MsLog).outerLoop.worker = .exited := fun bufs => by
    rcases outerLoop_cases { l with m_logBufPtr := bufs } with ⟨-, hno⟩ | ⟨heq, -⟩
    · exact absurd (hno.symm.trans hexit) Bool.false_ne_true
    · exact heq
  cases hd with
  | called | exitCalled | levelSet | tested _ | failed _ | accepted _ | exiting _ => exact same rfl fun ⟨_, ha⟩ => by cases ha
  | ran hw => exact absurd hw hrun
  | woken hw => exact absurd hw hwait
  | notified _ =>
    refine same ?_ fun ⟨_, ha⟩ => by cases ha
    unfold MsLog.notify
    split
    · exact absurd (by assumption) hwait
    · rfl
  | begun hw =>
    rw [show l.outerLoop.worker = .exited from ends l.m_logBufPtr, hw]
    exact ⟨OnRunPc.noConfusion, Or.inl Nat.one_pos⟩
  | @looped ans bufs hw =>
    rcases innerLoop_cases { l with m_logBufPtr := bufs } with ⟨heq, -⟩ | ⟨log, rest, -, hno, -⟩
    · rw [heq, ends bufs]
      refine ⟨OnRunPc.noConfusion, Or.inl ?_⟩
      rcases hw with hw | ⟨log, hw⟩
      · rw [hw]
        exact Nat.one_pos
      · rw [hw]
        exact Nat.one_pos
    · exact absurd (hno.symm.trans hexit) Bool.false_ne_true
  | opened hw =>
    rw [hw]
    exact ⟨OnRunPc.noConfusion, Or.inl (Nat.lt_add_one 2)⟩
  | wrote hw =>
    rw [hw]
    exact ⟨OnRunPc.noConfusion, Or.inl (Nat.lt_add_one 1)⟩
  | crashed _ => cases hlive

theorem Does.exited_stays (hd : Does l a u es) (h : l.worker = .exited) : u.worker = .exited := by
  cases hd with
  | called | exitCalled | levelSet | tested _ | failed _ | accepted _ | exiting _ | crashed _ => exact h
  | notified _ =>
    unfold MsLog.notify
    split
    · rename_i hw
      rw [hw] at h
      cases h
    · exact h
  | ran hw | begun hw | opened hw | wrote hw | woken hw =>
    rw [hw] at h
    cases h
  | looped hw =>
    rcases hw with hw | ⟨log, hw⟩
    · rw [hw] at h
      cases h
    · rw [hw] at h
      cases h

theorem ended_kept (hok : ∀ l a, ok l a → Opens l a) : Kept ok fun tr l => Ending ok tr l ∧ l.worker = .exited where
  live tr l h := (ending_kept hok).live tr l h.1
  step tr l a u es h ha hs := ⟨(ending_kept hok).step tr l a u es h.1 ha hs, (step_does hs).exited_stays h.2⟩

theorem work_enabled (hlive : l.crashed = false) (hrun : l.worker ≠ .absent) (hwait : l.worker ≠ .waiting)
    (hend : l.worker ≠ .exited) : step l (.work ⟨1, [], true⟩) ≠ none := by
  simp only [step, hlive, Bool.false_eq_true, if_false]
  cases hw : l.worker with
  | absent => exact absurd hw hrun
  | waiting => exact absurd hw hwait
  | exited => exact absurd hw hend
  | _ => exact Option.some_ne_none _

theorem ending_ranked (hok : ∀ l a, ok l a → Opens l a) : Execution.Ranked machine ok (fun _ a => ∃ ans, a = .work ans)
    (· < ·) (fun _ l => l.worker.toEnd) (fun tr l => Ending ok tr l ∧ l.worker ≠ .waiting) (fun _ l => l.worker = .exited) := by
  intro tr l ⟨h, hwait⟩
  have hkept := ending_kept hok
  refine or_iff_not_imp_left.mpr fun hend => ⟨?_, fun a u es ha hs => ?_⟩
  · exact ⟨_, ⟨_, rfl⟩, work_enabled (hkept.live tr l h) h.2.2 hwait hend⟩
  have h' := hkept.step tr l a u es h ha hs
  obtain ⟨hwait', hrank⟩ := step_toEnd (step_does hs) h.2.1 (hkept.live _ _ h') h.2.2 hwait
  exact ⟨⟨h', hwait'⟩, hrank.imp_right fun ⟨heq, ha⟩ => ⟨congrArg OnRunPc.toEnd heq, ha⟩⟩

end Steps

section Executions
variable {e : machine.Execution} {ok : MsLog → LogAct → Prop} {n : Nat}

/-- The thread ends, in whatever place it was when `Exit` was called. -/
theorem ends (hopens : ∀ l a, ok l a → Opens l a) (hok : e.Obeys ok) (hwork : e.Fair fun _ a => ∃ ans, a = .work ans)
    (hcalls : ∀ i, e.Fair fun _ a => a = .go i) (h : e.now (Ending ok) n) : ∃ m, n ≤ m ∧ (e.state m).worker = .exited := by
  by_cases hw : (e.state n).worker = .waiting
  · obtain ⟨i, hi⟩ := List.mem_iff_getElem?.mp (run_told h.1 h.2.1 hw)
    obtain ⟨m, hm, hb⟩ := Execution.comes_to Nat.lt_wfRel.wf (notified_ranked (ending_kept hopens) i) hok (hcalls i)
      ⟨h, Or.inr ⟨hw, hi⟩⟩
    have hwait : (e.state m).worker ≠ .waiting := fun hw => by
      change (e.state m).worker.Busy at hb
      rw [hw] at hb
      exact hb
    obtain ⟨m', hm', hend⟩ := Execution.comes_to Nat.lt_wfRel.wf (ending_ranked hopens) hok hwork
      ⟨(ending_kept hopens).later hok hm h, hwait⟩
    exact ⟨m', hm.trans hm', hend⟩
  · exact Execution.comes_to Nat.lt_wfRel.wf (ending_ranked hopens) hok hwork ⟨h, hw⟩

theorem length_hand (pc : OnRunPc) : pc.hand.length ≤ 1 := by
  cases pc with
  | openFile log | write log stamp => exact Nat.le_refl 1
  | _ => exact Nat.zero_le 1

/-- At most one more line is written. -/
theorem one_more_line (hopens : ∀ l a, ok l a → Opens l a) (hok : e.Obeys ok) (h : e.now (Ending ok) n) {m : Nat} (hm : n ≤ m) :
    (written (e.history m)).length ≤ (written (e.history n)).length + 1 := by
  have hkept := ending_kept hopens
  let J : List LogEvent → MsLog → Prop := fun tr l => Ending ok tr l ∧
    (written tr).length + l.worker.hand.length ≤ (written (e.history n)).length + (e.state n).worker.hand.length
  have hJ : Kept ok J := by
    refine ⟨fun tr l h => hkept.live tr l h.1, fun tr l a u es h ha hs => ⟨hkept.step tr l a u es h.1 ha hs, ?_⟩⟩
    rw [written_append, List.length_append, Nat.add_assoc]
    exact (Nat.add_le_add_left ((step_does hs).hand_le h.1.2.1) _).trans h.2
  obtain ⟨-, hle⟩ : e.now J m := hJ.later hok hm ⟨h, Nat.le_refl _⟩
  exact (Nat.le_of_add_right_le hle).trans (Nat.add_le_add_left (length_hand _) _)

/-- `Exit` ends the thread, wherever it stands, and at most one more line is written. -/
theorem exit_ends_logger (e : machine.Execution) (hok : e.Obeys Opens) (hwork : e.Fair fun _ a => ∃ ans, a = .work ans)
    (hcalls : ∀ i, e.Fair fun _ a => a = .go i) (hrun : (e.state n).worker ≠ .absent) (hexit : (e.state n).m_exit = true) :
    (∃ m, n ≤ m ∧ ∀ m', m ≤ m' → (e.state m').worker = .exited) ∧
      ∀ m, n ≤ m → (written (e.history m)).length ≤ (written (e.history n)).length + 1 := by
  have h : e.now (Ending Opens) n := ⟨e.run hok n, hexit, hrun⟩
  have hopens : ∀ l a, Opens l a → Opens l a := fun _ _ hopens => hopens
  obtain ⟨m, hm, hend⟩ := ends hopens hok hwork hcalls h
  refine ⟨⟨m, hm, fun m' hm' => ?_⟩, fun m hm => one_more_line hopens hok h hm⟩
  exact ((ended_kept hopens).later hok hm' ⟨(ending_kept hopens).later hok hm h, hend⟩).2

/-- `Exit` is called while the worker waits. -/
def exits : List LogAct := .run :: works 1 ++ [.exit, .go 0, .go 0] ++ works 1

theorem exit_ends_logger_waiting : ∃ (e : machine.Execution) (n : Nat), (e.state n).worker = .waiting ∧ (e.state n).m_exit = true ∧
    (∃ m, n ≤ m ∧ ∀ m', m ≤ m' → (e.state m').worker = .exited) ∧
      ∀ m, n ≤ m → (written (e.history m)).length ≤ (written (e.history n)).length + 1 := by
  have hmeets : machine.Meets Opens {} exits := meets_of_checks (by decide +kernel)
  obtain ⟨⟨l, tr⟩, hexec, hp⟩ := (Option.any_eq_true (fun (r : MsLog × List LogEvent) => decide (r.1.worker = .exited) &&
    decide (r.1.calls = [.done])) (machine.exec {} exits)).mp (by decide +kernel)
  simp only [Bool.and_eq_true, decide_eq_true_eq] at hp
  obtain ⟨hw, hcalls⟩ := hp
  obtain ⟨e, hok, hstate, hlast, -⟩ := Execution.exists_execution machine exits rfl hmeets hexec
  have hnow : (e.state 4).worker = .waiting ∧ (e.state 4).m_exit = true := by
    rw [hstate 4]
    decide +kernel
  have hwork : e.Fair fun _ a => ∃ ans, a = .work ans := by
    refine Execution.fair_of_rest ⟨exits.length, fun m hm a ha => ?_⟩
    obtain ⟨ans, rfl⟩ := ha
    rw [hlast m hm]
    show step l (.work ans) = none
    simp [step, hw, onRun]
  have hgo : ∀ i, e.Fair fun _ a => a = .go i := by
    refine fun i => Execution.fair_of_rest ⟨exits.length, fun m hm a ha => ?_⟩
    subst ha
    rw [hlast m hm]
    show step l (.go i) = none
    cases i with
    | zero => simp [step, hcalls, goOn]
    | succ i => simp [step, hcalls]
  have hrun : (e.state 4).worker ≠ .absent := fun h => OnRunPc.noConfusion (hnow.1.symm.trans h)
  exact ⟨e, 4, hnow.1, hnow.2, exit_ends_logger e hok hwork hgo hrun hnow.2⟩

end Executions
end MsLog
end AudioMeet
