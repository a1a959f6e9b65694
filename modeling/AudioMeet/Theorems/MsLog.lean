import AudioMeet.Lib.Lists
import AudioMeet.MsLog
import Mathlib.Data.List.TakeWhile

/-! The messages that the logger writes, and the notifications that its thread misses. -/

namespace AudioMeet
open Lib Machine

/-! ### Buffers -/

namespace LogBuf

/-- The line of a message: as much of its text as fits, up to a NUL in it, and the end of the line. -/
def line (text : Bytes) : Bytes := (text.take (maxLen - 1) ++ [0x0A]).takeWhile (· ≠ 0)

/-- What the buffer was used for before does not show. -/
theorem text_format (buf : LogBuf) (text : Bytes) : (buf.format text).text = line text := by
  generalize hout : text.take (maxLen - 1) = out
  have hlen : out.length = nRet text := by rw [← hout, List.length_take, nRet_eq]
  have hn := nRet_lt text
  obtain ⟨c, rest, hrest⟩ := List.exists_cons_of_length_pos
    (l := buf.chars.drop (min (maxLen - 1) text.length + 1)) (by rw [List.length_drop, buf.length_chars, ← nRet_eq]; omega)
  have hchars : (buf.format text).chars = out ++ 0x0A :: 0 :: rest := by
    simp only [format, put, vsnprintf, hout, hrest, ← hlen]
    simp
  rw [LogBuf.text, hchars, line, hout, show out ++ (0x0A : UInt8) :: 0 :: rest = (out ++ [0x0A]) ++ 0 :: rest by simp]
  exact takeWhile_append_cons (by decide) _ _

end LogBuf

/-- The message that was taken from the queue and is not written yet. -/
def OnRunPc.hand : OnRunPc → List LogBuf
  | .openFile log | .write log _ => [log]
  | _ => []

namespace MsLog
variable {l u : MsLog} {tr es : List LogEvent} {ok : MsLog → LogAct → Prop}

/-! ### The cases of a step -/

/-- What a step can do. -/
inductive Does (l : MsLog) : LogAct → MsLog → List LogEvent → Prop
  | called {level : Int} {text : Option Bytes} :
      Does l (.log level text) { l with calls := l.calls ++ [.level level text] } []
  | exitCalled : Does l .exit { l with calls := l.calls ++ [.exitLock] } []
  | levelSet {level : Int} : Does l (.setLevel level) { l with m_level := level } []
  | ran : l.worker = .absent → Does l .run { l with worker := .start } []
  | tested {i : Nat} {level : Int} {text : Option Bytes} :
      l.calls[i]? = some (.level level text) →
      Does l (.go i) { l with calls := l.calls.set i (if l.m_level < level then .done else .lock text) } []
  /-- `vsnprintf` failed -/
  | failed {i : Nat} {bufs : List LogBuf} :
      l.calls[i]? = some (.lock none) → Does l (.go i) { l with m_logBufPtr := bufs, calls := l.calls.set i .done } []
  | accepted {i : Nat} {text : Bytes} {buf : LogBuf} {bufs : List LogBuf} :
      l.calls[i]? = some (.lock (some text)) →
      Does l (.go i)
        { l with m_logBufPtr := bufs, m_logQuePtr := l.m_logQuePtr ++ [buf.format text]
                 calls := l.calls.set i .notify } [.accepted text]
  | exiting {i : Nat} :
      l.calls[i]? = some .exitLock → Does l (.go i) { l with m_exit := true, calls := l.calls.set i .notify } []
  | notified {i : Nat} : l.calls[i]? = some .notify → Does l (.go i) { l.notify with calls := l.calls.set i .done } []
  | begun {ans : LogAnswer} : l.worker = .start → Does l (.work ans) l.outerLoop []
  | looped {ans : LogAnswer} {bufs : List LogBuf} :
      l.worker = .woken ∨ (∃ log, l.worker = .relock log) →
      Does l (.work ans) ({ l with m_logBufPtr := bufs } : MsLog).innerLoop []
  | opened {ans : LogAnswer} {log : LogBuf} {stamp : Bytes} {day : Int} {fp : Bool} :
      l.worker = .openFile log →
      Does l (.work ans) { l with m_curDay := day, m_fp := fp, worker := .write log stamp } []
  | wrote {ans : LogAnswer} {log : LogBuf} {stamp : Bytes} :
      l.worker = .write log stamp → Does l (.work ans) { l with worker := .relock log } [.wrote stamp log.text]
  | crashed {ans : LogAnswer} {log : LogBuf} {stamp : Bytes} :
      l.worker = .write log stamp → Does l (.work ans) { l with crashed := true } []
  | woken : l.worker = .waiting → Does l .wake { l with worker := .woken } []

theorem getLogBufPtr_eq (l : MsLog) : ∃ buf bufs, l.getLogBufPtr = (buf, { l with m_logBufPtr := bufs }) := by
  unfold getLogBufPtr
  split
  · exact ⟨_, _, rfl⟩
  · exact ⟨_, l.m_logBufPtr, rfl⟩

theorem relLogBufPtr_eq (l : MsLog) (buf : LogBuf) : ∃ bufs, l.relLogBufPtr buf = { l with m_logBufPtr := bufs } := by
  unfold relLogBufPtr
  split
  · exact ⟨l.m_logBufPtr, rfl⟩
  · exact ⟨_, rfl⟩

/-- The case of a result is that of the step. -/
theorem does_of_some {a : LogAct} {r : MsLog × List LogEvent} (hd : Does l a r.1 r.2) (hs : some r = some (u, es)) :
    Does l a u es := by
  obtain rfl := Option.some.inj hs
  exact hd

theorem logSection_does {i : Nat} {text : Option Bytes} (h : l.calls[i]? = some (.lock text)) :
    Does l (.go i) (l.logSection i text).1 (l.logSection i text).2 := by
  obtain ⟨buf, bufs, hget⟩ := l.getLogBufPtr_eq
  cases text with
  | none =>
    obtain ⟨bufs', hrel⟩ := relLogBufPtr_eq { l with m_logBufPtr := bufs } buf
    simp only [logSection, hget, hrel]
    exact .failed h
  | some text =>
    simp only [logSection, hget, enqueLogPtr]
    exact .accepted h

theorem goOn_does {i : Nat} {c : LogPc} (h : l.calls[i]? = some c) (hs : l.goOn i c = some (u, es)) : Does l (.go i) u es := by
  cases c with
  | level level text => exact does_of_some (.tested h) hs
  | lock text => exact does_of_some (logSection_does h) hs
  | exitLock => exact does_of_some (.exiting h) hs
  | notify => exact does_of_some (.notified h) hs
  | done => cases hs

section OnRun
variable {ans : LogAnswer}

/-- The inner loop, with the buffers that were there before. -/
theorem woken_does (hw : l.worker = .woken) : Does l (.work ans) l.innerLoop [] := by
  have hd : Does l (.work ans) ({ l with m_logBufPtr := l.m_logBufPtr } : MsLog).innerLoop [] := .looped (Or.inl hw)
  exact hd

theorem relock_does {log : LogBuf} (hw : l.worker = .relock log) : Does l (.work ans) (l.relLogBufPtr log).innerLoop [] := by
  obtain ⟨bufs, hrel⟩ := l.relLogBufPtr_eq log
  rw [hrel]
  exact .looped (Or.inr ⟨log, hw⟩)

theorem openFile_does {log : LogBuf} (hw : l.worker = .openFile log) : Does l (.work ans) (l.openFile log ans) [] := by
  have hsame : Does l (.work ans) { l with m_curDay := l.m_curDay, m_fp := l.m_fp, worker := .write log ans.stamp } [] :=
    .opened hw
  unfold openFile
  split
  · exact .opened hw
  · exact hsame

theorem write_does {log : LogBuf} {stamp : Bytes} (hw : l.worker = .write log stamp) :
    Does l (.work ans) (l.write log stamp).1 (l.write log stamp).2 := by
  unfold write
  split
  · exact .wrote hw
  · exact .crashed hw

theorem onRun_does {pc : OnRunPc} (hw : l.worker = pc) (hs : l.onRun ans pc = some (u, es)) : Does l (.work ans) u es := by
  cases pc with
  | start => exact does_of_some (.begun hw) hs
  | woken => exact does_of_some (woken_does hw) hs
  | openFile log => exact does_of_some (openFile_does hw) hs
  | write log stamp => exact does_of_some (write_does hw) hs
  | relock log => exact does_of_some (relock_does hw) hs
  | absent | waiting | exited => cases hs

end OnRun

theorem step_does {a : LogAct} (hs : step l a = some (u, es)) : Does l a u es := by
  unfold step at hs
  split at hs
  · cases hs
  cases a with
  | log level text => exact does_of_some .called hs
  | exit => exact does_of_some .exitCalled hs
  | setLevel level => exact does_of_some .levelSet hs
  | run =>
    simp only at hs
    split at hs
    · exact does_of_some (.ran (by assumption)) hs
    · cases hs
  | go i =>
    obtain ⟨c, hc, hs⟩ := Option.bind_eq_some_iff.mp hs
    exact goOn_does hc hs
  | work ans => exact onRun_does rfl hs
  | wake =>
    simp only at hs
    split at hs
    · exact does_of_some (.woken (by assumption)) hs
    · cases hs

/-! ### The messages -/

def accepted (tr : List LogEvent) : List Bytes := tr.flatMap fun
  | .accepted text => [text]
  | .wrote _ _ => []

def written (tr : List LogEvent) : List Bytes := tr.flatMap fun
  | .wrote _ text => [text]
  | .accepted _ => []

/-- The lines written are the accepted messages in their order, up to the one that is being written and those that are
    queued. -/
def LosesNoMessage (tr : List LogEvent) (l : MsLog) : Prop :=
  written tr ++ (l.worker.hand ++ l.m_logQuePtr).map LogBuf.text = (accepted tr).map LogBuf.line

@[simp] theorem accepted_append (tr es : List LogEvent) : accepted (tr ++ es) = accepted tr ++ accepted es :=
  List.flatMap_append

@[simp] theorem written_append (tr es : List LogEvent) : written (tr ++ es) = written tr ++ written es :=
  List.flatMap_append

/-- A step that neither takes nor writes a message. -/
theorem LosesNoMessage.same (h : LosesNoMessage tr l) (hhand : u.worker.hand = l.worker.hand)
    (hque : u.m_logQuePtr = l.m_logQuePtr) : LosesNoMessage (tr ++ []) u := by
  rw [LosesNoMessage, List.append_nil, hhand, hque]
  exact h

theorem hand_outerLoop (l : MsLog) : l.outerLoop.worker.hand = [] := by
  simp only [outerLoop]
  split <;> rfl

theorem hand_notify (l : MsLog) : l.notify.worker.hand = l.worker.hand := by
  unfold notify
  split <;> simp_all [OnRunPc.hand]

theorem queue_notify (l : MsLog) : l.notify.m_logQuePtr = l.m_logQuePtr := by
  unfold notify
  split <;> rfl

/-- The head of the queue goes into the hands of the worker, or nothing moves. -/
theorem innerLoop_hand (l : MsLog) : l.innerLoop.worker.hand ++ l.innerLoop.m_logQuePtr = l.m_logQuePtr := by
  unfold innerLoop
  split
  · rw [hand_outerLoop]
    rfl
  · split
    · rw [hand_outerLoop]
      rfl
    · simp_all [OnRunPc.hand]

theorem LosesNoMessage.step {a : LogAct} (h : LosesNoMessage tr l) (hd : Does l a u es) : LosesNoMessage (tr ++ es) u := by
  cases hd with
  | called | exitCalled | levelSet | tested _ | failed _ | exiting _ => exact h.same rfl rfl
  | ran hw | woken hw => exact h.same (by rw [hw]; rfl) rfl
  | notified _ => exact h.same (hand_notify l) (queue_notify l)
  | begun hw => exact h.same (by rw [hand_outerLoop, hw]; rfl) rfl
  | opened hw => exact h.same (by rw [hw]; rfl) rfl
  | crashed _ => exact h.same rfl rfl
  | looped hw =>
    have hhand : l.worker.hand = [] := by rcases hw with hw | ⟨log, hw⟩ <;> rw [hw] <;> rfl
    rw [LosesNoMessage, List.append_nil, innerLoop_hand]
    rwa [LosesNoMessage, hhand] at h
  | @accepted i text buf bufs _ =>
    have hwritten : written (tr ++ [.accepted text]) = written tr := by simp [written]
    have haccepted : accepted (tr ++ [.accepted text]) = accepted tr ++ [text] := accepted_append tr _
    unfold LosesNoMessage at h ⊢
    rw [hwritten, haccepted, List.map_append (f := LogBuf.line), ← h]
    simp [LogBuf.text_format]
  | @wrote ans log stamp hw =>
    have hwritten : written (tr ++ [.wrote stamp log.text]) = written tr ++ [log.text] := written_append tr _
    have haccepted : accepted (tr ++ [.wrote stamp log.text]) = accepted tr := by simp [accepted]
    rw [LosesNoMessage, hw] at h
    rw [LosesNoMessage, hwritten, haccepted, ← h]
    simp [OnRunPc.hand]

theorem run_losesNoMessage (h : machine.Run ok tr l) : LosesNoMessage tr l := by
  refine h.invariant (I := LosesNoMessage) ?_ fun tr l a u es h _ hs => h.step (step_does hs)
  rintro l rfl
  rfl

/-! ### The notifications -/

/-- While the worker waits, the queue is empty or the `notify_one` of a call is to come. -/
def Watched (l : MsLog) : Prop := l.worker = .waiting → l.m_logQuePtr = [] ∨ .notify ∈ l.calls

/-- The first wait of the worker is not entered with a message in the queue whose notification has gone by. -/
def WaitsInTime (l : MsLog) : LogAct → Prop
  | .work _ => l.worker = .start → l.m_logQuePtr = [] ∨ .notify ∈ l.calls
  | _ => True

theorem worker_notify (l : MsLog) : l.notify.worker ≠ .waiting := by
  unfold notify
  split
  · nofun
  · assumption

/-- A call that is not about to notify goes on. -/
theorem mem_notify_set {calls : List LogPc} {i : Nat} {c c' : LogPc} (hc : calls[i]? = some c) (hne : c ≠ .notify)
    (hmem : .notify ∈ calls) : .notify ∈ calls.set i c' := by
  obtain ⟨j, hj⟩ := List.mem_iff_getElem?.mp hmem
  have hji : j ≠ i := by
    rintro rfl
    exact hne (Option.some.inj (hc.symm.trans hj))
  exact List.mem_of_getElem? ((getElem?_set_some hc).mpr (Or.inr ⟨hji, hj⟩))

/-- The inner loop leads back to the wait with an empty queue only. -/
theorem innerLoop_waiting (h : l.innerLoop.worker = .waiting) : l.innerLoop.m_logQuePtr = [] := by
  unfold innerLoop at h ⊢
  split at h
  · assumption
  · split at h
    · simp_all [outerLoop]
    · cases h

theorem Watched.step {a : LogAct} (h : Watched l) (hok : WaitsInTime l a) (hd : Does l a u es) : Watched u := by
  cases hd with
  | called | exitCalled => exact fun hw => (h hw).imp_right fun hmem => List.mem_append_left _ hmem
  | levelSet | crashed _ => exact h
  | ran _ | opened _ | wrote _ | woken _ => nofun
  | tested hc | failed hc => exact fun hw => (h hw).imp_right (mem_notify_set hc nofun)
  | accepted hc | exiting hc =>
    exact fun _ => Or.inr (List.mem_of_getElem? ((getElem?_set_some hc).mpr (Or.inl ⟨rfl, rfl⟩)))
  | notified _ => exact fun hw => absurd hw (worker_notify l)
  | begun hw => exact fun _ => hok hw
  | looped _ => exact fun hw => Or.inl (innerLoop_waiting hw)

theorem run_watched (h : machine.Run WaitsInTime tr l) : Watched l := by
  refine h.invariant (I := fun _ l => Watched l) ?_ fun tr l a u es h hok hs => h.step hok (step_does hs)
  rintro l rfl
  nofun

/-- While the worker waits and no call is in progress, nothing is queued. -/
def LosesNoWakeUp (l : MsLog) : Prop := l.worker = .waiting → (∀ c ∈ l.calls, c = .done) → l.m_logQuePtr = []

theorem Watched.losesNoWakeUp (h : Watched l) : LosesNoWakeUp l := fun hw hdone =>
  (h hw).elim id fun hmem => nomatch hdone _ hmem

/-- What was accepted is written when the logger has come to rest. -/
theorem written_at_rest (h : machine.Run WaitsInTime tr l) (hw : l.worker = .waiting) (hdone : ∀ c ∈ l.calls, c = .done) :
    written tr = (accepted tr).map LogBuf.line := by
  have hmessages := run_losesNoMessage h
  rw [LosesNoMessage, hw, (run_watched h).losesNoWakeUp hw hdone] at hmessages
  rw [← hmessages]
  exact (List.append_nil _).symm

/-- The logger loses no message, and no wake-up where its first wait comes in time. -/
theorem loses_nothing (h : machine.Run WaitsInTime tr l) : LosesNoMessage tr l ∧ LosesNoWakeUp l :=
  ⟨run_losesNoMessage h, (run_watched h).losesNoWakeUp⟩

instance (l : MsLog) : DecidablePred (WaitsInTime l)
  | .work _ => inferInstanceAs (Decidable (_ → _))
  | .log _ _ | .exit | .setLevel _ | .run | .go _ | .wake => .isTrue trivial

/-- A call of `Log`, up to its return. -/
def logged (i : Nat) (text : String) : List LogAct := [.log LOG_LEVEL_INFO (some (ascii text)), .go i, .go i, .go i]

/-- The worker goes on. -/
def works (n : Nat) : List LogAct := List.replicate n (.work { tm_mday := 1, stamp := ascii "12:00", fopen := true })

/-- The worker waits, and a message is logged and written. -/
theorem loses_nothing_one : ∃ tr l, machine.Run WaitsInTime tr l ∧ (accepted tr).length = 1 ∧ (written tr).length = 1 ∧
    LosesNoMessage tr l ∧ LosesNoWakeUp l := by
  have hmeets : machine.Meets WaitsInTime {} (.run :: works 1 ++ logged 0 "up" ++ works 3) :=
    meets_of_checks (by decide +kernel)
  obtain ⟨tr, l, hrun, hp⟩ := exists_run machine {} _ rfl hmeets
    (fun r => (accepted r.2).length == 1 && (written r.2).length == 1) (by decide +kernel)
  simp only [Bool.and_eq_true, beq_iff_eq] at hp
  exact ⟨tr, l, hrun, hp.1, hp.2, loses_nothing hrun⟩

/-- Nobody calls `Exit`. -/
def NoExit (_ : MsLog) : LogAct → Prop
  | .exit => False
  | _ => True

instance (l : MsLog) : DecidablePred (NoExit l)
  | .exit => .isFalse id
  | .log _ _ | .setLevel _ | .run | .go _ | .work _ | .wake => .isTrue trivial

/-- A message is logged before the worker waits for the first time. -/
theorem misses_first_message : ¬ ∀ tr l, machine.Run NoExit tr l → LosesNoMessage tr l ∧ LosesNoWakeUp l := by
  intro h
  have hmeets : machine.Meets NoExit {} (.run :: logged 0 "up" ++ works 1) := meets_of_checks (by decide +kernel)
  obtain ⟨tr, l, hrun, hp⟩ := exists_run machine {} _ rfl hmeets
    (fun r => decide (r.1.worker = .waiting) && decide (∀ c ∈ r.1.calls, c = .done) && !r.1.m_logQuePtr.isEmpty)
    (by decide +kernel)
  simp only [Bool.and_eq_true, decide_eq_true_eq, Bool.not_eq_true', List.isEmpty_eq_false_iff] at hp
  exact hp.2 ((h tr l hrun).2 hp.1.1 hp.1.2)

end MsLog
end AudioMeet
