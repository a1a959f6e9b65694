import AudioMeet.Lib.Fair
import AudioMeet.Theorems.Participant.SendQueue

/-! No packet waits in `send_queue_` for ever. No notification is lost, so that the tx thread waits only while the queue
    is empty; and each of its statements brings it nearer to the next packet. -/

namespace AudioMeet
open Lib Machine

/-- A statement of `tx_thread_func`; `send` returns at some time. -/
def TxAct.ofThread : TxAct → Bool
  | .txHead | .txLock | .txSend | .txSent _ | .txFail _ | .txWritten | .txCleanup => true
  | _ => false

/-- The statements before the next section of the tx thread, or before the end of its cleanup. -/
def TxPc.left : TxPc → Nat
  | .absent | .waiting | .cleanup | .done => 0
  | .lock => 1
  | .head => 2
  | .sending rest next => 2 * (rest.length + (next.getD []).length) + (if next = none then 0 else 1) + 3
  | .write rest next => 2 * (rest.length + (next.getD []).length) + (if next = none then 0 else 1) + 4

namespace Tx

section Steps
variable {t u : Tx} {a : TxAct} {tr es : List TxEvent}

/-- The tx thread is there while the sender is active, and it waits only while the queue is empty. -/
structure Awake (t : Tx) : Prop where
  active : t.tx_active_ = true → t.thread ≠ .absent ∧ t.thread ≠ .done
  waiting : t.thread = .waiting → t.send_queue_ = []
  unstarted : t.started = false → t.tx_active_ = false ∧ t.thread = .absent

theorem Awake.keep (h : Awake t) (hactive : u.tx_active_ = true → t.tx_active_ = true)
    (hthread : u.thread = t.thread) (hqueue : t.send_queue_ = [] → u.send_queue_ = [])
    (hstarted : u.started = t.started) : Awake u where
  active ha := hthread ▸ h.active (hactive ha)
  waiting hw := hqueue (h.waiting (hthread ▸ hw))
  unstarted hu := by
    obtain ⟨hinactive, habsent⟩ := h.unstarted (hstarted ▸ hu)
    refine ⟨?_, hthread.trans habsent⟩
    rw [← Bool.not_eq_true] at hinactive ⊢
    exact fun ha => hinactive (hactive ha)

/-- A statement of the tx thread that leaves the queue alone. -/
theorem Awake.move (h : Awake t) {pc : TxPc} (hfrom : t.thread ≠ .absent)
    (hto : pc ≠ .absent ∧ pc ≠ .done ∧ (pc = .waiting → t.send_queue_ = [])) : Awake { t with thread := pc } where
  active _ := ⟨hto.1, hto.2.1⟩
  waiting hw := hto.2.2 hw
  unstarted hu := absurd (h.unstarted hu).2 hfrom

/-- A notification ends the wait, whatever became of the queue. -/
theorem Awake.notify (hactive : t.tx_active_ = true → t.thread ≠ .absent ∧ t.thread ≠ .done)
    (hunstarted : t.started = false → t.tx_active_ = false ∧ t.thread = .absent) : Awake t.notify := by
  rcases Step.notify_eq t with hn | ⟨hw, hn⟩
  · refine ⟨by rwa [hn], fun hw => ?_, by rwa [hn]⟩
    rw [hn] at hw
    rw [Tx.notify, hw] at hn
    exact absurd ((congrArg Tx.thread hn).trans hw) TxPc.noConfusion
  · rw [hn]
    refine ⟨fun _ => ⟨TxPc.noConfusion, TxPc.noConfusion⟩, TxPc.noConfusion, fun hu => ?_⟩
    exact absurd (hw.symm.trans (hunstarted hu).2) TxPc.noConfusion

theorem step_awake (h : Awake t) (hs : step t a = some (u, es)) : Awake u := by
  cases a with
  | putFrame frame =>
    obtain ⟨-, ⟨-, rfl, -⟩ | ⟨-, rfl, -⟩⟩ := Step.putFrame_inv hs <;> exact h.keep id rfl id rfl
  | putStop =>
    obtain ⟨frame, -, ⟨-, rfl, -⟩ | ⟨-, es', hb, -⟩⟩ := Step.putStop_inv hs
    · exact h.keep id rfl id rfl
    · obtain ⟨-, rfl, -⟩ | ⟨-, rfl, -⟩ := Step.putBuild_inv hb <;> exact h.keep id rfl id rfl
  | putEnqueue =>
    -- The new packet wakes the thread, so that it does not wait with a packet in the queue.
    obtain ⟨bytes, -, ⟨-, rfl, -⟩ | ⟨ha, -, -, rfl, -⟩ | ⟨ha, -, -, rfl, -⟩⟩ := Step.putEnqueue_inv hs
    · exact h.keep id rfl id rfl
    all_goals exact .notify h.active h.unstarted
  | startTx =>
    obtain ⟨hstarted, -, ⟨-, rfl⟩ | ⟨-, rfl⟩⟩ := Step.startTx_inv hs
    · exact ⟨h.active, h.waiting, fun hu => absurd hu Bool.true_eq_false.mp⟩
    · exact ⟨fun _ => ⟨TxPc.noConfusion, TxPc.noConfusion⟩, TxPc.noConfusion, fun hu => absurd hu Bool.true_eq_false.mp⟩
  | txHead =>
    obtain ⟨ht, -, rfl⟩ := Step.txHead_inv hs
    refine h.move (by rw [ht]; exact TxPc.noConfusion) ?_
    split <;> exact ⟨TxPc.noConfusion, TxPc.noConfusion, TxPc.noConfusion⟩
  | txLock =>
    obtain ⟨ht, ⟨-, rfl, -⟩ | ⟨-, hq, rfl, -⟩ | ⟨-, pkt, hq, -, hu⟩⟩ := Step.txLock_inv hs
    · exact h.move (by rw [ht]; exact TxPc.noConfusion) ⟨TxPc.noConfusion, TxPc.noConfusion, TxPc.noConfusion⟩
    · exact h.move (by rw [ht]; exact TxPc.noConfusion) ⟨TxPc.noConfusion, TxPc.noConfusion, fun _ => hq⟩
    · rw [hu]
      refine ⟨fun _ => ⟨TxPc.noConfusion, TxPc.noConfusion⟩, TxPc.noConfusion, fun hun => ?_⟩
      exact absurd (ht.symm.trans (h.unstarted hun).2) TxPc.noConfusion
  | txWake =>
    obtain ⟨ht, rfl, -⟩ := Step.txWake_inv hs
    exact h.move (by rw [ht]; exact TxPc.noConfusion) ⟨TxPc.noConfusion, TxPc.noConfusion, TxPc.noConfusion⟩
  | txSend =>
    obtain ⟨_, _, ht, -, rfl, -⟩ := Step.txSend_inv hs
    exact h.move (by rw [ht]; exact TxPc.noConfusion) ⟨TxPc.noConfusion, TxPc.noConfusion, TxPc.noConfusion⟩
  | txSent w =>
    obtain ⟨_, _, ht, -, -, rfl, -⟩ := Step.txSent_inv hs
    exact h.move (by rw [ht]; exact TxPc.noConfusion) ⟨TxPc.noConfusion, TxPc.noConfusion, TxPc.noConfusion⟩
  | txFail k =>
    obtain ⟨_, _, ht, rfl, -⟩ := Step.txFail_inv hs
    exact h.move (by rw [ht]; exact TxPc.noConfusion) ⟨TxPc.noConfusion, TxPc.noConfusion, TxPc.noConfusion⟩
  | txWritten =>
    obtain ⟨-, ⟨_, ht, rfl⟩ | ⟨ht, rfl⟩⟩ := Step.txWritten_inv hs <;>
      exact h.move (by rw [ht]; exact TxPc.noConfusion) ⟨TxPc.noConfusion, TxPc.noConfusion, TxPc.noConfusion⟩
  | txCleanup =>
    obtain ⟨ht, rfl, -⟩ := Step.txCleanup_inv hs
    refine ⟨fun ha => absurd ha Bool.false_ne_true, fun _ => rfl, fun hun => ?_⟩
    exact absurd (ht.symm.trans (h.unstarted hun).2) TxPc.noConfusion
  | stopStore =>
    obtain ⟨rfl, -⟩ := Step.stopStore_inv hs
    exact h.keep id rfl id rfl
  | stopSection =>
    obtain ⟨-, rfl, -⟩ := Step.stopSection_inv hs
    exact .notify (fun ha => absurd ha Bool.false_ne_true) fun hun => ⟨rfl, (h.unstarted hun).2⟩

theorem run_awake {ok : Tx → TxAct → Prop} (h : machine.Run ok tr t) : Awake t := by
  refine h.invariant (I := fun _ => Awake) ?_ fun _ _ _ _ _ h _ hs => step_awake h hs
  rintro t ⟨ssrc, rfl⟩
  exact ⟨fun ha => absurd ha Bool.false_ne_true, TxPc.noConfusion, fun _ => ⟨rfl, rfl⟩⟩

/-! ### Towards the next packet -/

/-- While a packet is queued, some statement of the tx thread can be taken. -/
theorem enabled (h : Awake t) (hactive : t.tx_active_ = true) (hq : t.send_queue_ ≠ []) :
    ∃ a, TxAct.ofThread a = true ∧ step t a ≠ none := by
  obtain ⟨habsent, hdone⟩ := h.active hactive
  cases ht : t.thread with
  | absent => exact absurd ht habsent
  | done => exact absurd ht hdone
  | waiting => exact absurd (h.waiting ht) hq
  | head => exact ⟨.txHead, rfl, by simp [step, ht]⟩
  | lock => exact ⟨.txLock, rfl, by simp [step, ht]⟩
  | cleanup => exact ⟨.txCleanup, rfl, by simp [step, ht]⟩
  | sending rest next => exact ⟨.txFail 0, rfl, by simp [step, ht]⟩
  | write rest next =>
    cases rest with
    | cons b rest => exact ⟨.txSend, rfl, by simp [step, ht]⟩
    | nil =>
      refine ⟨.txWritten, rfl, ?_⟩
      cases next <;> simp [step, ht]

/-- A packet leaves, or the tx thread is nearer to its next section, or the step is none of its own. -/
theorem step_left (h : Awake t) (hactive : t.tx_active_ = true) (hq : t.send_queue_ ≠ [])
    (hs : step t a = some (u, es)) :
    0 < (left es).length ∨
      left es = [] ∧ (u.thread.left < t.thread.left ∨ u.thread.left = t.thread.left ∧ a.ofThread = false) := by
  have hpos := List.length_pos_iff.mpr hq
  cases a with
  | putFrame frame =>
    obtain ⟨-, ⟨-, rfl, rfl⟩ | ⟨-, rfl, rfl⟩⟩ := Step.putFrame_inv hs <;> exact Or.inr ⟨rfl, Or.inr ⟨rfl, rfl⟩⟩
  | putStop =>
    obtain ⟨frame, -, ⟨-, rfl, rfl⟩ | ⟨-, es', hb, rfl⟩⟩ := Step.putStop_inv hs
    · exact Or.inr ⟨rfl, Or.inr ⟨rfl, rfl⟩⟩
    · obtain ⟨-, rfl, rfl⟩ | ⟨-, rfl, rfl⟩ := Step.putBuild_inv hb <;> exact Or.inr ⟨rfl, Or.inr ⟨rfl, rfl⟩⟩
  | putEnqueue =>
    obtain ⟨bytes, -, ⟨-, rfl, rfl⟩ | ⟨-, -, -, rfl, rfl⟩ | ⟨-, -, -, rfl, rfl⟩⟩ := Step.putEnqueue_inv hs
    · exact Or.inr ⟨rfl, Or.inr ⟨rfl, rfl⟩⟩
    · refine Or.inl ?_
      obtain ⟨first, rest, hcons⟩ := List.exists_cons_of_ne_nil hq
      rw [hcons]
      exact Nat.one_pos
    · refine Or.inr ⟨rfl, Or.inr ⟨?_, rfl⟩⟩
      rcases Step.notify_eq { t with put := .idle, send_queue_ := t.send_queue_ ++ [bytes] } with hn | ⟨hw, -⟩
      · rw [hn]
      · exact absurd (h.waiting hw) hq
  | startTx =>
    obtain ⟨hstarted, -⟩ := Step.startTx_inv hs
    exact absurd (hactive.symm.trans (h.unstarted hstarted).1) Bool.true_eq_false.mp
  | txHead =>
    obtain ⟨ht, rfl, rfl⟩ := Step.txHead_inv hs
    refine Or.inr ⟨rfl, Or.inl ?_⟩
    rw [ht]
    dsimp only
    split <;> decide
  | txLock =>
    obtain ⟨ht, ⟨-, rfl, rfl⟩ | ⟨-, hnil, -⟩ | ⟨-, pkt, -, rfl, -⟩⟩ := Step.txLock_inv hs
    · refine Or.inr ⟨rfl, Or.inl ?_⟩
      rw [ht]
      exact Nat.one_pos
    · exact absurd hnil hq
    · exact Or.inl Nat.one_pos
  | txWake =>
    obtain ⟨ht, -⟩ := Step.txWake_inv hs
    exact absurd (h.waiting ht) hq
  | txSend =>
    obtain ⟨_, _, ht, -, rfl, rfl⟩ := Step.txSend_inv hs
    refine Or.inr ⟨rfl, Or.inl ?_⟩
    rw [ht]
    exact Nat.lt_succ_self _
  | txSent w =>
    obtain ⟨rest, next, ht, hw, hle, rfl, rfl⟩ := Step.txSent_inv hs
    refine Or.inr ⟨rfl, Or.inl ?_⟩
    simp only [ht, TxPc.left, List.length_drop]
    omega
  | txFail k =>
    obtain ⟨_, _, ht, rfl, rfl⟩ := Step.txFail_inv hs
    refine Or.inr ⟨rfl, Or.inl ?_⟩
    rw [ht]
    exact Nat.succ_pos _
  | txWritten =>
    obtain ⟨rfl, ⟨pkt, ht, rfl⟩ | ⟨ht, rfl⟩⟩ := Step.txWritten_inv hs
    · refine Or.inr ⟨rfl, Or.inl ?_⟩
      simp only [ht, TxPc.left, List.length_nil, Option.getD_some, Option.getD_none, reduceCtorEq, if_true, if_false]
      omega
    · refine Or.inr ⟨rfl, Or.inl ?_⟩
      rw [ht]
      exact (by decide : TxPc.head.left < (TxPc.write [] none).left)
  | txCleanup =>
    obtain ⟨-, -, rfl⟩ := Step.txCleanup_inv hs
    refine Or.inl ?_
    simpa [left, queueEvents, TxEvent.queue, DropQueue.left, DropQueue.Event.left] using hpos
  | stopStore =>
    obtain ⟨rfl, rfl⟩ := Step.stopStore_inv hs
    exact Or.inr ⟨rfl, Or.inr ⟨rfl, rfl⟩⟩
  | stopSection =>
    obtain ⟨-, -, rfl⟩ := Step.stopSection_inv hs
    refine Or.inl ?_
    simpa [left, queueEvents, TxEvent.queue, DropQueue.left, DropQueue.Event.left] using hpos

end Steps

/-! ### Executions -/

section Executions
variable {n k : Nat}

theorem left_append (tr es : List TxEvent) : left (tr ++ es) = left tr ++ left es := by
  simp [left]

/-- Packet `k` entered `send_queue_`. -/
def Entered (k : Nat) (tr : List TxEvent) (t : Tx) : Prop := machine.Run Any tr t ∧ k < (enqueued tr).length

theorem waiting_ranked (k : Nat) : Execution.Ranked machine Any (fun _ a => TxAct.ofThread a = true)
    (Prod.Lex (· < ·) (· < ·)) (fun tr t => (k + 1 - (left tr).length, t.thread.left)) (Entered k)
    (fun tr _ => k < (left tr).length) := by
  rintro tr t ⟨hrun, hk⟩
  refine or_iff_not_imp_left.mpr fun hin => ?_
  have hq : t.send_queue_ ≠ [] := fun hnil => by
    rw [run_accounted hrun, hnil, List.append_nil, List.length_map] at hk
    exact hin hk
  have hactive : t.tx_active_ = true := (Bool.not_eq_false _).mp fun hf => hq ((run_activity hrun).queue hf)
  have hawake := run_awake hrun
  refine ⟨enabled hawake hactive hq, fun a u es _ hs => ⟨⟨hrun.step trivial hs, ?_⟩, ?_⟩⟩
  · rw [enqueued_append, List.length_append]
    exact Nat.lt_add_right _ hk
  · dsimp only at hin ⊢
    rw [left_append, List.length_append, Prod.lex_def, Prod.mk.injEq]
    rcases step_left hawake hactive hq hs with hpos | ⟨hnil, hlt | ⟨heq, ha⟩⟩
    · exact Or.inl (Or.inl (by dsimp only; omega))
    · exact Or.inl (Or.inr ⟨by rw [hnil]; rfl, hlt⟩)
    · exact Or.inr ⟨⟨by rw [hnil]; rfl, heq⟩, by rw [ha]; exact Bool.false_ne_true⟩

/-- Every packet leaves `send_queue_`, taken by the tx thread, dropped, or cleared, while `send` always returns at some
    time. -/
theorem no_packet_waits_for_ever (e : machine.Execution) (hfair : e.Fair fun _ a => a.ofThread = true)
    (hk : k < (enqueued (e.history n)).length) : ∃ m, n ≤ m ∧ k < (left (e.history m)).length :=
  Execution.comes_to (WellFounded.prod_lex Nat.lt_wfRel.wf Nat.lt_wfRel.wf) (waiting_ranked k) e.obeys_any hfair
    ⟨Execution.run e.obeys_any n, hk⟩

/-- A packet of two calls, up to the wait for the next one. -/
def drainingRun : List TxAct :=
  toneRun.take 8 ++ [.txLock, .txSend, .txSent 2, .txWritten, .txSend, .txSent 332, .txWritten, .txHead, .txLock]

theorem no_packet_waits_for_ever_tone :
    ∃ (e : machine.Execution) (m : Nat), 8 ≤ m ∧ 0 < (left (e.history m)).length := by
  have hmeets : machine.Meets Any { ssrc_ := 7 } drainingRun := meets_any _ _ _
  obtain ⟨⟨t, tr⟩, hexec, hw⟩ := (Option.any_eq_true (fun (r : Tx × List TxEvent) => decide (r.1.thread = .waiting))
    (machine.exec { ssrc_ := 7 } drainingRun)).mp (by decide +kernel)
  have hwaiting : t.thread = .waiting := of_decide_eq_true hw
  obtain ⟨e, -, hstate, hlast, -⟩ := Execution.exists_execution machine drainingRun ⟨7, rfl⟩ hmeets hexec
  have hfair : e.Fair fun _ a => a.ofThread = true := by
    refine Execution.fair_of_rest ⟨drainingRun.length, fun m hm a ha => ?_⟩
    rw [hlast m hm]
    change step t a = none
    cases a <;> first | exact absurd ha Bool.false_ne_true | simp [step, hwaiting]
  -- The packet is queued after the eighth action.
  have hqueued : 0 < (enqueued (e.history 8)).length := by
    have hlen : (Execution.stateAt machine { ssrc_ := 7 } drainingRun 8).send_queue_.length = 1 := by decide +kernel
    rw [run_accounted (Execution.run e.obeys_any 8), hstate, List.length_append, hlen]
    exact Nat.succ_pos _
  obtain ⟨m, hm, hleft⟩ := no_packet_waits_for_ever e hfair hqueued
  exact ⟨e, m, hm, hleft⟩

end Executions
end Tx
end AudioMeet
