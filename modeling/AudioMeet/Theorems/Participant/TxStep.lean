import AudioMeet.Participant.Tx

/-! What each step of the send side can do. -/

namespace AudioMeet.Tx
open Lib

namespace Step
variable {t u : Tx} {es : List TxEvent}

theorem putFrame_inv {frame : PjFrame} (h : step t (.putFrame frame) = some (u, es)) :
    t.put = .idle ∧
      ((t.tx_active_ = true ∧ u = { t with put := .checkStop frame } ∧ es = []) ∨
       (t.tx_active_ = false ∧ u = t.putInactive ∧ es = [.call frame false])) := by
  cases hp : t.put <;> simp only [step, hp, reduceCtorEq] at h
  refine ⟨rfl, ?_⟩
  split at h <;> simp only [Option.some.injEq, Prod.mk.injEq] at h <;> obtain ⟨rfl, rfl⟩ := h
  · exact Or.inl ⟨by assumption, rfl, rfl⟩
  · exact Or.inr ⟨by simp_all, rfl, rfl⟩

theorem putStop_inv (h : step t .putStop = some (u, es)) :
    ∃ frame, t.put = .checkStop frame ∧
      ((t.stop_flag_ = true ∧ u = t.putInactive ∧ es = [.call frame false]) ∨
       (t.stop_flag_ = false ∧ ∃ es', (t.putAccumulate frame).putBuild = (u, es') ∧
          es = .call frame true :: es')) := by
  cases hp : t.put with
  | idle => simp [step, hp] at h
  | enqueue bytes => simp [step, hp] at h
  | checkStop frame =>
    refine ⟨frame, rfl, ?_⟩
    simp only [step, hp] at h
    split at h <;> simp only [Option.some.injEq, Prod.mk.injEq] at h <;> obtain ⟨rfl, rfl⟩ := h
    · exact Or.inl ⟨by assumption, rfl, rfl⟩
    · exact Or.inr ⟨by simp_all, _, rfl, rfl⟩

theorem putBuild_inv (h : t.putBuild = (u, es)) :
    (t.tx_acc_.length < TX_BATCH_FRAMES * FRAME_SAMPLES ∧ u = { t with put := .idle } ∧ es = []) ∨
    (TX_BATCH_FRAMES * FRAME_SAMPLES ≤ t.tx_acc_.length ∧
      u = { t with tx_seq_ := t.tx_seq_ + 1, tx_acc_ := [], put := .enqueue t.putPacket.serialize } ∧
      es = [.built t.putPacket]) := by
  unfold putBuild at h
  split at h <;> simp only [Prod.mk.injEq] at h <;> obtain ⟨rfl, rfl⟩ := h
  · exact Or.inl ⟨by assumption, rfl, rfl⟩
  · exact Or.inr ⟨by omega, rfl, rfl⟩

/-- A notification only moves the tx thread out of its wait. -/
theorem notify_eq (t : Tx) :
    t.notify = t ∨ (t.thread = .waiting ∧ t.notify = { t with thread := .lock }) := by
  cases ht : t.thread <;> simp [notify, ht]

@[simp] theorem notify_queue (t : Tx) : t.notify.send_queue_ = t.send_queue_ := by
  rcases notify_eq t with h | ⟨-, h⟩ <;> rw [h]

@[simp] theorem notify_put (t : Tx) : t.notify.put = t.put := by
  rcases notify_eq t with h | ⟨-, h⟩ <;> rw [h]

@[simp] theorem notify_active (t : Tx) : t.notify.tx_active_ = t.tx_active_ := by
  rcases notify_eq t with h | ⟨-, h⟩ <;> rw [h]

@[simp] theorem notify_stop (t : Tx) : t.notify.stop_flag_ = t.stop_flag_ := by
  rcases notify_eq t with h | ⟨-, h⟩ <;> rw [h]

@[simp] theorem notify_started (t : Tx) : t.notify.started = t.started := by
  rcases notify_eq t with h | ⟨-, h⟩ <;> rw [h]

theorem putEnqueue_inv (h : step t .putEnqueue = some (u, es)) :
    ∃ bytes, t.put = .enqueue bytes ∧
      (((t.tx_active_ = false ∨ t.stop_flag_ = true) ∧ u = { t with put := .idle } ∧ es = []) ∨
       (t.tx_active_ = true ∧ t.stop_flag_ = false ∧ MAX_SEND_QUEUE_PACKETS ≤ t.send_queue_.length ∧
          u = notify { t with put := .idle, send_queue_ := t.send_queue_.tail ++ [bytes] } ∧
          es = [.dropped t.send_queue_ bytes, .enqueued bytes]) ∨
       (t.tx_active_ = true ∧ t.stop_flag_ = false ∧ t.send_queue_.length < MAX_SEND_QUEUE_PACKETS ∧
          u = notify { t with put := .idle, send_queue_ := t.send_queue_ ++ [bytes] } ∧
          es = [.enqueued bytes])) := by
  cases hp : t.put with
  | idle => simp [step, hp] at h
  | checkStop frame => simp [step, hp] at h
  | enqueue bytes =>
    refine ⟨bytes, rfl, ?_⟩
    simp only [step, hp, Option.some.injEq, enqueue] at h
    split at h
    · simp only [Prod.mk.injEq] at h
      obtain ⟨rfl, rfl⟩ := h
      refine Or.inl ⟨?_, rfl, rfl⟩
      simp_all
    · have hact : t.tx_active_ = true ∧ t.stop_flag_ = false := by simp_all
      split at h <;> simp only [Prod.mk.injEq] at h <;> obtain ⟨rfl, rfl⟩ := h
      · exact Or.inr (Or.inl ⟨hact.1, hact.2, by assumption, rfl, rfl⟩)
      · exact Or.inr (Or.inr ⟨hact.1, hact.2, by omega, rfl, rfl⟩)

theorem startTx_inv (h : step t .startTx = some (u, es)) :
    t.started = false ∧ es = [] ∧
      ((t.stop_flag_ = true ∧ u = { t with started := true }) ∨
       (t.stop_flag_ = false ∧ u = { t with started := true, tx_active_ := true, thread := .head })) := by
  simp only [step] at h
  split at h
  · cases h
  · split at h <;> simp only [Option.some.injEq, Prod.mk.injEq] at h <;> obtain ⟨rfl, rfl⟩ := h <;> simp_all

theorem txHead_inv (h : step t .txHead = some (u, es)) :
    t.thread = .head ∧ es = [] ∧ u = { t with thread := if t.stop_flag_ then .cleanup else .lock } := by
  simp only [step] at h
  split at h
  · simp only [Option.some.injEq, Prod.mk.injEq] at h
    obtain ⟨rfl, rfl⟩ := h
    exact ⟨by assumption, rfl, rfl⟩
  · cases h

theorem txLock_inv (h : step t .txLock = some (u, es)) :
    t.thread = .lock ∧
      ((t.stop_flag_ = true ∧ u = { t with thread := .cleanup } ∧ es = []) ∨
       (t.stop_flag_ = false ∧ t.send_queue_ = [] ∧ u = { t with thread := .waiting } ∧ es = []) ∨
       (t.stop_flag_ = false ∧ ∃ pkt, t.send_queue_ = pkt :: u.send_queue_ ∧ es = [.dequeued pkt] ∧
          u = { t with send_queue_ := u.send_queue_
                       thread := .write (be16 (UInt16.ofNat pkt.length)) (some pkt) })) := by
  simp only [step] at h
  split at h
  · refine ⟨by assumption, ?_⟩
    simp only [Option.some.injEq, dequeue] at h
    split at h
    · simp only [Prod.mk.injEq] at h
      obtain ⟨rfl, rfl⟩ := h
      exact Or.inl ⟨by assumption, rfl, rfl⟩
    · split at h <;> simp only [Prod.mk.injEq] at h <;> obtain ⟨rfl, rfl⟩ := h
      · exact Or.inr (Or.inl ⟨by simp_all, by assumption, rfl, rfl⟩)
      · exact Or.inr (Or.inr ⟨by simp_all, _, by assumption, rfl, rfl⟩)
  · cases h

theorem txWake_inv (h : step t .txWake = some (u, es)) :
    t.thread = .waiting ∧ u = { t with thread := .lock } ∧ es = [] := by
  simp only [step] at h
  split at h
  · simp only [Option.some.injEq, Prod.mk.injEq] at h
    obtain ⟨rfl, rfl⟩ := h
    exact ⟨by assumption, rfl, rfl⟩
  · cases h

theorem txSend_inv (h : step t .txSend = some (u, es)) :
    ∃ rest next, t.thread = .write rest next ∧ rest ≠ [] ∧ u = { t with thread := .sending rest next } ∧ es = [] := by
  cases ht : t.thread <;> simp only [step, ht, reduceCtorEq] at h
  rename_i rest next
  split at h
  · cases h
  · simp only [Option.some.injEq, Prod.mk.injEq] at h
    obtain ⟨rfl, rfl⟩ := h
    exact ⟨rest, next, rfl, by assumption, rfl, rfl⟩

theorem txSent_inv {w : Nat} (h : step t (.txSent w) = some (u, es)) :
    ∃ rest next, t.thread = .sending rest next ∧ 0 < w ∧ w ≤ rest.length ∧
      u = { t with thread := .write (rest.drop w) next } ∧ es = [.sent (rest.take w)] := by
  cases ht : t.thread <;> simp only [step, ht, reduceCtorEq] at h
  rename_i rest next
  split at h
  · rename_i hw
    simp only [Option.some.injEq, Prod.mk.injEq] at h
    obtain ⟨rfl, rfl⟩ := h
    exact ⟨rest, next, rfl, hw.1, hw.2, rfl, rfl⟩
  · cases h

theorem txFail_inv {k : Nat} (h : step t (.txFail k) = some (u, es)) :
    ∃ rest next, t.thread = .sending rest next ∧ u = { t with thread := .cleanup } ∧
      es = [.sent (rest.take k)] := by
  cases ht : t.thread <;> simp only [step, ht, reduceCtorEq] at h
  rename_i rest next
  simp only [Option.some.injEq, Prod.mk.injEq] at h
  obtain ⟨rfl, rfl⟩ := h
  exact ⟨rest, next, rfl, rfl, rfl⟩

theorem txWritten_inv (h : step t .txWritten = some (u, es)) :
    es = [] ∧ ((∃ pkt, t.thread = .write [] (some pkt) ∧ u = { t with thread := .write pkt none }) ∨
      (t.thread = .write [] none ∧ u = { t with thread := .head })) := by
  simp only [step] at h
  split at h <;> simp only [Option.some.injEq, Prod.mk.injEq, reduceCtorEq] at h <;> obtain ⟨rfl, rfl⟩ := h
  · exact ⟨rfl, Or.inl ⟨_, by assumption, rfl⟩⟩
  · exact ⟨rfl, Or.inr ⟨by assumption, rfl⟩⟩

theorem txCleanup_inv (h : step t .txCleanup = some (u, es)) :
    t.thread = .cleanup ∧ u = { t with tx_active_ := false, send_queue_ := [], thread := .done } ∧
      es = [.exited t.send_queue_] := by
  simp only [step] at h
  split at h
  · simp only [Option.some.injEq, Prod.mk.injEq] at h
    obtain ⟨rfl, rfl⟩ := h
    exact ⟨by assumption, rfl, rfl⟩
  · cases h

theorem stopStore_inv (h : step t .stopStore = some (u, es)) : u = { t with stop_flag_ := true } ∧ es = [] := by
  simp only [step, Option.some.injEq, Prod.mk.injEq] at h
  exact ⟨h.1.symm, h.2.symm⟩

theorem stopSection_inv (h : step t .stopSection = some (u, es)) :
    t.stop_flag_ = true ∧ u = notify { t with tx_active_ := false, send_queue_ := [] } ∧
      es = [.stopped t.send_queue_] := by
  simp only [step] at h
  split at h
  · simp only [Option.some.injEq, Prod.mk.injEq] at h
    obtain ⟨rfl, rfl⟩ := h
    exact ⟨by assumption, rfl, rfl⟩
  · cases h

end Step
end AudioMeet.Tx
