import AudioMeet.Lib.Fair
import AudioMeet.Theorems.MsLog

/-! Every message that the logger accepts is written at some time. The thread of `OnRun` waits only while nothing is
    queued or a notification is to come, and otherwise each of its steps brings it nearer to the next line. -/

namespace AudioMeet
open Lib Machine

/-- The worker runs its inner loop. -/
def OnRunPc.Busy : OnRunPc → Prop
  | .woken | .openFile _ | .write _ _ | .relock _ => True
  | _ => False

/-- The steps of the inner loop before the next line. -/
def OnRunPc.left : OnRunPc → Nat
  | .woken | .relock _ => 2
  | .openFile _ => 1
  | _ => 0

namespace MsLog

section Steps
variable {l u : MsLog} {a : LogAct} {tr es : List LogEvent}

/-! ### The file is open -/

/-- `fopen` succeeds, and the day of the month is one. -/
def Opens (_ : MsLog) : LogAct → Prop
  | .work ans => ans.fopen = true ∧ 1 ≤ ans.tm_mday
  | _ => True

structure Alive (l : MsLog) : Prop where
  live : l.crashed = false
  opened : l.m_curDay ≠ -1 → l.m_fp = true
  writing : ∀ log stamp, l.worker = .write log stamp → l.m_fp = true
  exited : l.worker = .exited → l.m_exit = true

/-- A step that does not touch the file, nor leads to a line or to the end. -/
theorem Alive.same (h : Alive l) (hlive : u.crashed = l.crashed) (hday : u.m_curDay = l.m_curDay)
    (hfp : u.m_fp = l.m_fp) (hexit : l.m_exit = true → u.m_exit = true)
    (hworker : u.worker = l.worker ∨ (∀ log stamp, u.worker ≠ .write log stamp) ∧ (u.worker = .exited → u.m_exit = true)) :
    Alive u where
  live := hlive.trans h.live
  opened hne := hfp ▸ h.opened (hday ▸ hne)
  writing log stamp hw := by
    rcases hworker with heq | ⟨hnone, -⟩
    · exact hfp ▸ h.writing log stamp (heq ▸ hw)
    · exact absurd hw (hnone log stamp)
  exited hw := by
    rcases hworker with heq | ⟨-, hexited⟩
    · exact hexit (h.exited (heq ▸ hw))
    · exact hexited hw

theorem outerLoop_cases (l : MsLog) : l.outerLoop.worker = .waiting ∧ l.m_exit = false ∨
    l.outerLoop.worker = .exited ∧ l.m_exit = true := by
  cases hexit : l.m_exit <;> simp [outerLoop, hexit]

/-- The inner loop ends in a wait or in the end, or takes the first message of the queue. -/
theorem innerLoop_cases (l : MsLog) : l.innerLoop = l.outerLoop ∧ (l.m_logQuePtr = [] ∨ l.m_exit = true) ∨
    ∃ log rest, l.m_logQuePtr = log :: rest ∧ l.m_exit = false ∧
      l.innerLoop = { l with m_logQuePtr := rest, worker := .openFile log } := by
  unfold innerLoop
  split
  · exact Or.inl ⟨rfl, Or.inl (by assumption)⟩
  · rename_i log rest hq
    cases hexit : l.m_exit with
    | true => exact Or.inl ⟨rfl, Or.inr rfl⟩
    | false => exact Or.inr ⟨log, rest, hq, rfl, rfl⟩

theorem Alive.outer (h : Alive l) : Alive l.outerLoop := by
  refine h.same rfl rfl rfl id (Or.inr ⟨fun log stamp hw => ?_, fun hw => ?_⟩)
  · rcases l.outerLoop_cases with ⟨heq, -⟩ | ⟨heq, -⟩ <;> rw [heq] at hw <;> cases hw
  · rcases l.outerLoop_cases with ⟨heq, -⟩ | ⟨-, hexit⟩
    · rw [heq] at hw
      cases hw
    · exact hexit

theorem Alive.notify (h : Alive l) : Alive l.notify := by
  unfold MsLog.notify
  split
  · exact h.same rfl rfl rfl id (Or.inr ⟨fun _ _ => OnRunPc.noConfusion, OnRunPc.noConfusion⟩)
  · exact h

/-- The file is opened with the first message. -/
theorem Alive.openFile (h : Alive l) {log : LogBuf} {ans : LogAnswer} (hok : Opens l (.work ans)) :
    Alive (l.openFile log ans) := by
  unfold MsLog.openFile
  split
  · exact ⟨h.live, fun _ => hok.1, fun _ _ _ => hok.1, OnRunPc.noConfusion⟩
  · rename_i hday
    have hfp : l.m_fp = true := by
      refine h.opened fun heq => ?_
      rw [heq, not_not] at hday
      exact absurd (hday ▸ hok.2) (by decide)
    exact ⟨h.live, h.opened, fun _ _ _ => hfp, OnRunPc.noConfusion⟩

theorem Alive.step (h : Alive l) (hok : Opens l a) (hs : step l a = some (u, es)) : Alive u := by
  have hraw : ∀ {ans : LogAnswer}, MsLog.step l (.work ans) = l.onRun ans l.worker := fun {ans} => by
    simp [MsLog.step, h.live]
  cases step_does hs with
  | called | exitCalled | levelSet | tested _ | failed _ | accepted _ => exact h.same rfl rfl rfl id (Or.inl rfl)
  | exiting _ => exact h.same rfl rfl rfl (fun _ => rfl) (Or.inl rfl)
  | ran _ | woken _ | wrote _ =>
    exact h.same rfl rfl rfl id (Or.inr ⟨fun _ _ => OnRunPc.noConfusion, OnRunPc.noConfusion⟩)
  | notified _ => exact h.notify.same rfl rfl rfl id (Or.inl rfl)
  | begun _ => exact h.outer
  | @looped ans bufs _ =>
    have hbufs : Alive { l with m_logBufPtr := bufs } := h.same rfl rfl rfl id (Or.inl rfl)
    rcases innerLoop_cases { l with m_logBufPtr := bufs } with ⟨heq, -⟩ | ⟨log, rest, -, -, heq⟩
    · rw [heq]
      exact hbufs.outer
    · rw [heq]
      exact h.same rfl rfl rfl id (Or.inr ⟨fun _ _ => OnRunPc.noConfusion, OnRunPc.noConfusion⟩)
  | @opened ans log stamp day fp hw =>
    rw [hraw, hw] at hs
    obtain ⟨heq, -⟩ := Prod.mk.inj (Option.some.inj hs)
    rw [← heq]
    exact h.openFile hok
  | @crashed ans log stamp hw =>
    rw [hraw, hw] at hs
    have hcrashed : (l.write log stamp).1.crashed = true := congrArg (fun r => r.1.crashed) (Option.some.inj hs)
    rw [MsLog.write, if_pos (h.writing log stamp hw)] at hcrashed
    exact absurd (h.live.symm.trans hcrashed) Bool.false_ne_true

theorem run_alive {ok : MsLog → LogAct → Prop} (hok : ∀ l a, ok l a → Opens l a) (h : machine.Run ok tr l) : Alive l := by
  refine h.invariant (I := fun _ => Alive) ?_ fun _ l a _ _ h ha hs => h.step (hok l a ha) hs
  rintro l rfl
  exact ⟨rfl, fun hne => absurd rfl hne, fun _ _ => OnRunPc.noConfusion, OnRunPc.noConfusion⟩

/-! ### What the worker comes to -/

theorem Does.exit_stays (hd : Does l a u es) (h : l.m_exit = true) : u.m_exit = true := by
  cases hd with
  | exiting _ => rfl
  | notified _ =>
    unfold MsLog.notify
    split
    · exact h
    · exact h
  | @looped ans bufs _ =>
    rcases innerLoop_cases { l with m_logBufPtr := bufs } with ⟨heq, -⟩ | ⟨log, rest, -, hexit, -⟩
    · rw [heq]
      exact h
    · exact absurd (hexit.symm.trans h) Bool.false_ne_true
  | _ => exact h

theorem Does.started_stays (hd : Does l a u es) (h : l.worker ≠ .absent) : u.worker ≠ .absent := by
  cases hd with
  | ran _ | woken _ | opened _ | wrote _ => exact OnRunPc.noConfusion
  | notified _ =>
    unfold MsLog.notify
    split
    · exact OnRunPc.noConfusion
    · exact h
  | begun _ =>
    rcases l.outerLoop_cases with ⟨heq, -⟩ | ⟨heq, -⟩ <;> rw [heq] <;> exact OnRunPc.noConfusion
  | @looped ans bufs _ =>
    rcases innerLoop_cases { l with m_logBufPtr := bufs } with ⟨heq, -⟩ | ⟨log, rest, -, -, heq⟩ <;> rw [heq]
    · rcases outerLoop_cases { l with m_logBufPtr := bufs } with ⟨heq, -⟩ | ⟨heq, -⟩ <;> rw [heq] <;>
        exact OnRunPc.noConfusion
    · exact OnRunPc.noConfusion
  | _ => exact h

/-- What holds of a logger that lives, and is kept by its steps. -/
structure Kept (ok : MsLog → LogAct → Prop) (J : List LogEvent → MsLog → Prop) : Prop where
  live : ∀ tr l, J tr l → l.crashed = false
  step : ∀ tr l a u es, J tr l → ok l a → step l a = some (u, es) → J (tr ++ es) u

/-- The worker waits, and call `i` is about to notify. -/
def Notified (i : Nat) (l : MsLog) : Prop := l.worker = .waiting ∧ l.calls[i]? = some .notify

theorem step_notified {i : Nat} (hd : Does l a u es) (h : Notified i l) :
    u.worker.Busy ∨ Notified i u ∧ a ≠ .go i := by
  obtain ⟨hw, hi⟩ := h
  have other : ∀ {j : Nat} {c : LogPc}, l.calls[j]? = some c → c ≠ .notify → j ≠ i := by
    rintro j c hc hne rfl
    exact hne (Option.some.inj (hc.symm.trans hi))
  have moves : ∀ {j : Nat} {c c' : LogPc}, l.calls[j]? = some c → c ≠ .notify →
      (l.calls.set j c')[i]? = some .notify ∧ LogAct.go j ≠ .go i := fun hc hne =>
    ⟨(List.getElem?_set_ne (other hc hne)).trans hi, fun heq => other hc hne (LogAct.go.inj heq)⟩
  have append : ∀ c : LogPc, (l.calls ++ [c])[i]? = some .notify := fun c =>
    (List.getElem?_append_left (List.getElem?_eq_some_iff.mp hi).1).trans hi
  cases hd with
  | called => exact Or.inr ⟨⟨hw, append _⟩, LogAct.noConfusion⟩
  | exitCalled => exact Or.inr ⟨⟨hw, append _⟩, LogAct.noConfusion⟩
  | levelSet => exact Or.inr ⟨⟨hw, hi⟩, LogAct.noConfusion⟩
  | tested hc | failed hc | accepted hc | exiting hc =>
    obtain ⟨hi', hne⟩ := moves hc LogPc.noConfusion
    exact Or.inr ⟨⟨hw, hi'⟩, hne⟩
  | notified _ =>
    refine Or.inl ?_
    rw [MsLog.notify, hw]
    exact trivial
  | woken _ => exact Or.inl trivial
  | ran heq | begun heq | opened heq | wrote heq | crashed heq =>
    rw [heq] at hw
    cases hw
  | looped heq =>
    rcases heq with heq | ⟨log, heq⟩
    · rw [heq] at hw
      cases hw
    · rw [heq] at hw
      cases hw

/-- In the wait: the call notifies, or the wait ends without it. -/
theorem notified_ranked {ok : MsLog → LogAct → Prop} {J : List LogEvent → MsLog → Prop} (hJ : Kept ok J) (i : Nat) :
    Execution.Ranked machine ok (fun _ a => a = .go i) (· < ·) (fun _ l => if l.worker = .waiting then 1 else 0)
      (fun tr l => J tr l ∧ (l.worker.Busy ∨ Notified i l)) (fun _ l => l.worker.Busy) := by
  intro tr l ⟨h, hnow⟩
  refine or_iff_not_imp_left.mpr fun hb => ?_
  have hnotified : Notified i l := hnow.resolve_left hb
  refine ⟨⟨.go i, rfl, ?_⟩, fun a u es hok hs => ?_⟩
  · simp [machine, step, hJ.live tr l h, hnotified.2, goOn]
  · have h' := hJ.step tr l a u es h hok hs
    dsimp only
    rw [if_pos hnotified.1]
    rcases step_notified (step_does hs) hnotified with hb' | ⟨hnotified', ha⟩
    · refine ⟨⟨h', Or.inl hb'⟩, Or.inl ?_⟩
      rw [if_neg fun hw => by rw [hw] at hb'; exact hb']
      exact Nat.one_pos
    · exact ⟨⟨h', Or.inr hnotified'⟩, Or.inr ⟨if_pos hnotified'.1, ha⟩⟩

/-- The worker comes to its first wait. -/
theorem started_ranked {ok : MsLog → LogAct → Prop} {J : List LogEvent → MsLog → Prop} (hJ : Kept ok J) :
    Execution.Ranked machine ok (fun _ a => ∃ ans, a = .work ans) (· < ·) (fun _ l => if l.worker = .start then 1 else 0)
      J (fun _ l => l.worker ≠ .start) := by
  intro tr l h
  refine or_iff_not_imp_left.mpr fun hnot => ?_
  have hstart : l.worker = .start := not_not.mp hnot
  refine ⟨⟨.work ⟨1, [], true⟩, ⟨_, rfl⟩, ?_⟩, fun a u es hok hs => ⟨hJ.step tr l a u es h hok hs, ?_⟩⟩
  · simp [machine, step, hJ.live tr l h, hstart, onRun]
  · dsimp only
    rw [if_pos hstart]
    by_cases hu : u.worker = .start
    · refine Or.inr ⟨if_pos hu, fun ⟨ans, ha⟩ => ?_⟩
      subst ha
      have hraw : step l (.work ans) = some (l.outerLoop, []) := by simp [step, hJ.live tr l h, hstart, onRun]
      obtain ⟨rfl, -⟩ := Prod.mk.inj (Option.some.inj (hraw.symm.trans hs))
      rcases l.outerLoop_cases with ⟨heq, -⟩ | ⟨heq, -⟩ <;> rw [heq] at hu <;> cases hu
    · rw [if_neg hu]
      exact Or.inl Nat.one_pos

/-! ### Towards the next line -/

/-- The conditions on an execution. -/
def InTime (l : MsLog) (a : LogAct) : Prop := WaitsInTime l a ∧ Opens l a

/-- Message `k` is accepted. -/
def Due (k : Nat) (tr : List LogEvent) (l : MsLog) : Prop :=
  machine.Run InTime tr l ∧ k < (accepted tr).length ∧ l.worker ≠ .absent

/-- It is written, or the logger ends. -/
def Written (k : Nat) (tr : List LogEvent) (l : MsLog) : Prop := l.m_exit = true ∨ k < (written tr).length

theorem run_alive_of (h : machine.Run InTime tr l) : Alive l := run_alive (fun _ _ hok => hok.2) h

theorem due_kept (k : Nat) : Kept InTime (Due k) where
  live _ _ h := (run_alive_of h.1).live
  step tr l a u es h hok hs := by
    refine ⟨h.1.step hok hs, ?_, (step_does hs).started_stays h.2.2⟩
    rw [accepted_append, List.length_append]
    exact Nat.lt_add_right _ h.2.1

/-- Until message `k` is written, some message is in the hands of the worker or queued. -/
theorem Due.ne_nil {k : Nat} (h : Due k tr l) (hnot : ¬ k < (written tr).length) : l.worker.hand ++ l.m_logQuePtr ≠ [] := by
  intro hnil
  have hmessages := run_losesNoMessage h.1
  rw [LosesNoMessage, hnil, List.map_nil, List.append_nil] at hmessages
  rw [hmessages, List.length_map] at hnot
  exact hnot h.2.1

theorem busy_enabled (hlive : l.crashed = false) (hb : l.worker.Busy) : step l (.work ⟨1, [], true⟩) ≠ none := by
  simp only [step, hlive, Bool.false_eq_true, if_false]
  cases hw : l.worker with
  | absent | start | waiting | exited => rw [hw] at hb; exact hb.elim
  | _ => exact Option.some_ne_none _

/-- A step writes a line, or brings the busy worker nearer to one, or is none of its own. -/
theorem step_nearer (hd : Does l a u es) (hlive : u.crashed = false) (hb : l.worker.Busy)
    (hdue : l.worker.hand ++ l.m_logQuePtr ≠ []) (hexit : l.m_exit = false) :
    0 < (written es).length ∧ u.worker.Busy ∨
      written es = [] ∧ u.worker.Busy ∧
        (u.worker.left < l.worker.left ∨ u.worker = l.worker ∧ ¬ ∃ ans, a = .work ans) := by
  have same : ∀ {es : List LogEvent}, written es = [] → u.worker = l.worker → (¬ ∃ ans, a = .work ans) →
      0 < (written es).length ∧ u.worker.Busy ∨ written es = [] ∧ u.worker.Busy ∧
        (u.worker.left < l.worker.left ∨ u.worker = l.worker ∧ ¬ ∃ ans, a = .work ans) :=
    fun hes heq ha => Or.inr ⟨hes, heq ▸ hb, Or.inr ⟨heq, ha⟩⟩
  cases hd with
  | called | exitCalled | levelSet | tested _ | failed _ | accepted _ | exiting _ =>
    exact same rfl rfl fun ⟨_, ha⟩ => by cases ha
  | ran hw | begun hw | woken hw =>
    rw [hw] at hb
    exact hb.elim
  | @notified i _ =>
    refine same rfl ?_ fun ⟨_, ha⟩ => by cases ha
    unfold MsLog.notify
    split
    · rename_i hw
      rw [hw] at hb
      exact hb.elim
    · rfl
  | @looped ans bufs hw =>
    have hhand : l.worker.hand = [] ∧ l.worker.left = 2 := by
      rcases hw with hw | ⟨log, hw⟩ <;> rw [hw] <;> exact ⟨rfl, rfl⟩
    rw [hhand.1, List.nil_append] at hdue
    rcases innerLoop_cases { l with m_logBufPtr := bufs } with ⟨-, hnil | hexit'⟩ | ⟨log, rest, -, -, heq⟩
    · exact absurd hnil hdue
    · exact absurd (hexit.symm.trans hexit') Bool.false_ne_true
    · rw [heq, hhand.2]
      exact Or.inr ⟨rfl, trivial, Or.inl Nat.one_lt_two⟩
  | opened hw =>
    rw [hw]
    exact Or.inr ⟨rfl, trivial, Or.inl Nat.one_pos⟩
  | wrote _ => exact Or.inl ⟨Nat.one_pos, trivial⟩
  | crashed _ => cases hlive

/-- In the inner loop. -/
theorem busy_ranked (k : Nat) : Execution.Ranked machine InTime (fun _ a => ∃ ans, a = .work ans)
    (Prod.Lex (· < ·) (· < ·)) (fun tr l => (k + 1 - (written tr).length, l.worker.left))
    (fun tr l => Due k tr l ∧ (Written k tr l ∨ l.worker.Busy)) (Written k) := by
  intro tr l ⟨hdue, hnow⟩
  refine or_iff_not_imp_left.mpr fun hnot => ?_
  obtain ⟨hexit, hk⟩ := not_or.mp hnot
  have hb : l.worker.Busy := hnow.resolve_left hnot
  refine ⟨⟨_, ⟨_, rfl⟩, busy_enabled ((due_kept k).live tr l hdue) hb⟩, fun a u es hok hs => ?_⟩
  have hdue' := (due_kept k).step tr l a u es hdue hok hs
  dsimp only
  rw [written_append, List.length_append, Prod.lex_def, Prod.mk.injEq]
  rcases step_nearer (step_does hs) ((due_kept k).live _ _ hdue') hb (hdue.ne_nil hk) (Bool.eq_false_iff.mpr hexit) with
    ⟨hpos, hb'⟩ | ⟨hnil, hb', hlt | ⟨heq, ha⟩⟩
  · exact ⟨⟨hdue', Or.inr hb'⟩, Or.inl (Or.inl (by dsimp only; omega))⟩
  · exact ⟨⟨hdue', Or.inr hb'⟩, Or.inl (Or.inr ⟨by rw [hnil]; rfl, hlt⟩)⟩
  · exact ⟨⟨hdue', Or.inr hb'⟩, Or.inr ⟨⟨by rw [hnil]; rfl, by rw [heq]⟩, ha⟩⟩

end Steps

/-! ### Executions -/

section Executions
variable {e : machine.Execution} {n k : Nat}

theorem accepted_le (e : machine.Execution) {m : Nat} (h : n ≤ m) : accepted (e.history n) <+: accepted (e.history m) := by
  obtain ⟨es, hes⟩ := e.history_prefix h
  exact ⟨accepted es, by rw [← hes, accepted_append]⟩

theorem Kept.later {ok : MsLog → LogAct → Prop} {J : List LogEvent → MsLog → Prop} (hJ : Kept ok J) (hok : e.Obeys ok)
    {m : Nat} (hm : n ≤ m) (h : e.now J n) : e.now J m := by
  induction hm with
  | refl => exact h
  | @step m _ ih =>
    simp only [Execution.now, Execution.history_succ]
    cases hact : e.act m with
    | none =>
      obtain ⟨hstate, hevents⟩ := e.idle m hact
      rw [hstate, hevents, List.append_nil]
      exact ih
    | some a => exact hJ.step _ _ a _ _ ih (hok m a hact) (e.step m a hact)

theorem written_of_busy (hok : e.Obeys InTime) (hwork : e.Fair fun _ a => ∃ ans, a = .work ans) (hdue : e.now (Due k) n)
    (hb : (e.state n).worker.Busy) : ∃ m, n ≤ m ∧ e.now (Written k) m :=
  Execution.comes_to (WellFounded.prod_lex Nat.lt_wfRel.wf Nat.lt_wfRel.wf) (busy_ranked k) hok hwork ⟨hdue, Or.inr hb⟩

theorem written_of_waiting (hok : e.Obeys InTime) (hwork : e.Fair fun _ a => ∃ ans, a = .work ans)
    (hcalls : ∀ i, e.Fair fun _ a => a = .go i) (hdue : e.now (Due k) n) (hw : (e.state n).worker = .waiting) :
    ∃ m, n ≤ m ∧ e.now (Written k) m := by
  by_cases hwritten : k < (written (e.history n)).length
  · exact ⟨n, Nat.le_refl n, Or.inr hwritten⟩
  have hqueued := hdue.ne_nil hwritten
  rw [hw] at hqueued
  have hwatched : Watched (e.state n) := run_watched (hdue.1.mono fun _ _ hok => hok.1)
  obtain ⟨i, hi⟩ := List.mem_iff_getElem?.mp ((hwatched hw).resolve_left hqueued)
  obtain ⟨m, hm, hb⟩ := Execution.comes_to Nat.lt_wfRel.wf (notified_ranked (due_kept k) i) hok (hcalls i)
    ⟨hdue, Or.inr ⟨hw, hi⟩⟩
  obtain ⟨m', hm', hend⟩ := written_of_busy hok hwork ((due_kept k).later hok hm hdue) hb
  exact ⟨m', hm.trans hm', hend⟩

/-- Message `k` is written at some time, unless the logger ends. -/
theorem written_in_time (hok : e.Obeys InTime) (hwork : e.Fair fun _ a => ∃ ans, a = .work ans)
    (hcalls : ∀ i, e.Fair fun _ a => a = .go i) (hdue : e.now (Due k) n) : ∃ m, n ≤ m ∧ e.now (Written k) m := by
  obtain ⟨m, hm, hstart⟩ := Execution.comes_to Nat.lt_wfRel.wf (started_ranked (due_kept k)) hok hwork hdue
  have hdue' := (due_kept k).later hok hm hdue
  suffices h : ∃ m', m ≤ m' ∧ e.now (Written k) m' by
    obtain ⟨m', hm', hend⟩ := h
    exact ⟨m', hm.trans hm', hend⟩
  cases hw : (e.state m).worker with
  | absent => exact absurd hw hdue'.2.2
  | start => exact absurd hw hstart
  | exited => exact ⟨m, Nat.le_refl m, Or.inl ((run_alive_of hdue'.1).exited hw)⟩
  | waiting => exact written_of_waiting hok hwork hcalls hdue' hw
  | _ => exact written_of_busy hok hwork hdue' (by rw [hw]; trivial)

/-- While the thread runs and the calls go on, every message that was accepted is written at some time, in its turn,
    unless `Exit` is called. -/
theorem accepted_are_written (e : machine.Execution) (hok : e.Obeys InTime)
    (hwork : e.Fair fun _ a => ∃ ans, a = .work ans) (hcalls : ∀ i, e.Fair fun _ a => a = .go i)
    (hrun : (e.state n).worker ≠ .absent) :
    ∃ m, n ≤ m ∧ ((e.state m).m_exit = true ∨
      (accepted (e.history n)).map LogBuf.line <+: written (e.history m)) := by
  cases hlen : (accepted (e.history n)).length with
  | zero =>
    rw [List.length_eq_zero_iff.mp hlen]
    exact ⟨n, Nat.le_refl n, Or.inr List.nil_prefix⟩
  | succ k =>
    obtain ⟨m, hm, hexit | hk⟩ := written_in_time (k := k) hok hwork hcalls
      ⟨e.run hok n, by rw [hlen]; exact Nat.lt_add_one k, hrun⟩
    · exact ⟨m, hm, Or.inl hexit⟩
    · have hlines : (accepted (e.history n)).map LogBuf.line <+: (accepted (e.history m)).map LogBuf.line :=
        (accepted_le e hm).map _
      have hprefix : written (e.history m) <+: (accepted (e.history m)).map LogBuf.line :=
        ⟨_, run_losesNoMessage (e.run hok m)⟩
      refine ⟨m, hm, Or.inr (List.prefix_of_prefix_length_le hlines hprefix ?_)⟩
      rw [List.length_map, hlen]
      exact hk

instance (l : MsLog) : DecidablePred (Opens l)
  | .work _ => inferInstanceAs (Decidable (_ ∧ _))
  | .log _ _ | .exit | .setLevel _ | .run | .go _ | .wake => .isTrue trivial

instance (l : MsLog) : DecidablePred (InTime l) := fun _ => inferInstanceAs (Decidable (_ ∧ _))

/-- A message is logged while the worker waits, and is written. -/
def logsOne : List LogAct := .run :: works 1 ++ logged 0 "up" ++ works 4

theorem accepted_are_written_one : ∃ (e : machine.Execution) (n m : Nat), (accepted (e.history n)).length = 1 ∧ n ≤ m ∧
    ((e.state m).m_exit = true ∨ (accepted (e.history n)).map LogBuf.line <+: written (e.history m)) := by
  have hmeets : machine.Meets InTime {} logsOne := meets_of_checks (by decide +kernel)
  obtain ⟨⟨l, tr⟩, hexec, hp⟩ := (Option.any_eq_true (fun (r : MsLog × List LogEvent) => decide (r.1.worker = .waiting) &&
    decide (∀ c ∈ r.1.calls, c = .done) && decide ((accepted r.2).length = 1)) (machine.exec {} logsOne)).mp
      (by decide +kernel)
  simp only [Bool.and_eq_true, decide_eq_true_eq] at hp
  obtain ⟨⟨hw, hdone⟩, hlen⟩ := hp
  obtain ⟨e, hok, -, hlast, hhistory⟩ := Execution.exists_execution machine logsOne rfl hmeets hexec
  have hwork : e.Fair fun _ a => ∃ ans, a = .work ans := by
    refine Execution.fair_of_rest ⟨logsOne.length, fun m hm a ha => ?_⟩
    obtain ⟨ans, rfl⟩ := ha
    rw [hlast m hm]
    show step l (.work ans) = none
    simp [step, hw, onRun]
  have hcalls : ∀ i, e.Fair fun _ a => a = .go i := by
    refine fun i => Execution.fair_of_rest ⟨logsOne.length, fun m hm a ha => ?_⟩
    subst ha
    rw [hlast m hm]
    show step l (.go i) = none
    cases hc : l.calls[i]? with
    | none => simp [step, hc]
    | some c => simp [step, hc, hdone c (List.mem_of_getElem? hc), goOn]
  have hrun : (e.state logsOne.length).worker ≠ .absent := by
    rw [hlast _ (Nat.le_refl _), hw]
    exact OnRunPc.noConfusion
  obtain ⟨m, hm, hend⟩ := accepted_are_written e hok hwork hcalls hrun
  exact ⟨e, _, m, by rw [hhistory]; exact hlen, hm, hend⟩

end Executions
end MsLog
end AudioMeet
