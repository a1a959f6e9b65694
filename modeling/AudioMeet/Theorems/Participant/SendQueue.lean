import AudioMeet.Lib.DropQueue
import AudioMeet.Theorems.Participant.Packetiser

/-! The send queue. It refines the bounded queue that drops its oldest entry; it is empty whenever the
    sender is inactive, and the bytes on the socket are a prefix of the framed packets taken from it. -/

namespace AudioMeet.Tx
open Lib Machine

/-! ### What a run shows of the queue and of the socket -/

def TxEvent.queue : TxEvent → List (DropQueue.Event Bytes)
  | .enqueued bytes => [.pushed bytes]
  | .dropped queue bytes => [.dropped queue bytes]
  | .dequeued bytes => [.popped bytes]
  | .exited queue => [.cleared queue]
  | .stopped queue => [.cleared queue]
  | _ => []

def TxEvent.bytes : TxEvent → Bytes
  | .sent bytes => bytes
  | _ => []

def queueEvents (tr : List TxEvent) : List (DropQueue.Event Bytes) := tr.flatMap TxEvent.queue

/-- The packets put into `send_queue_`, in order. -/
def enqueued (tr : List TxEvent) : List Bytes := DropQueue.entered (queueEvents tr)

/-- The packets that left `send_queue_` and how, in order. -/
def left (tr : List TxEvent) : List (Bytes × DropQueue.Fate) := DropQueue.left (queueEvents tr)

/-- The packets taken by the tx thread, in order. -/
def dequeued (tr : List TxEvent) : List Bytes := DropQueue.popped (queueEvents tr)

/-- The bytes the socket took, in order. -/
def sentBytes (tr : List TxEvent) : Bytes := tr.flatMap TxEvent.bytes

@[simp] theorem queueEvents_append (tr es : List TxEvent) :
    queueEvents (tr ++ es) = queueEvents tr ++ queueEvents es := List.flatMap_append

@[simp] theorem enqueued_append (tr es : List TxEvent) : enqueued (tr ++ es) = enqueued tr ++ enqueued es := by
  simp [enqueued]

@[simp] theorem dequeued_append (tr es : List TxEvent) : dequeued (tr ++ es) = dequeued tr ++ dequeued es := by
  simp [dequeued]

@[simp] theorem sentBytes_append (tr es : List TxEvent) : sentBytes (tr ++ es) = sentBytes tr ++ sentBytes es :=
  List.flatMap_append

/-! ### The queue refines the bounded queue -/

section Steps
variable {t u : Tx} {a : TxAct} {tr es : List TxEvent}

/-- A step leaves the queue alone, or pushes one packet, pops one, or clears it. -/
theorem step_queue (hs : step t a = some (u, es)) :
    (u.send_queue_ = t.send_queue_ ∧ queueEvents es = []) ∨
    ∃ qa, DropQueue.step MAX_SEND_QUEUE_PACKETS t.send_queue_ qa = some (u.send_queue_, queueEvents es) := by
  cases a with
  | putFrame frame =>
    obtain ⟨-, ⟨-, rfl, rfl⟩ | ⟨-, rfl, rfl⟩⟩ := Step.putFrame_inv hs <;> exact Or.inl ⟨rfl, rfl⟩
  | putStop =>
    obtain ⟨frame, -, ⟨-, rfl, rfl⟩ | ⟨-, es', hb, rfl⟩⟩ := Step.putStop_inv hs
    · exact Or.inl ⟨rfl, rfl⟩
    · obtain ⟨-, rfl, rfl⟩ | ⟨-, rfl, rfl⟩ := Step.putBuild_inv hb <;> exact Or.inl ⟨rfl, rfl⟩
  | putEnqueue =>
    obtain ⟨bytes, -, ⟨-, rfl, rfl⟩ | ⟨-, -, hfull, rfl, rfl⟩ | ⟨-, -, hroom, rfl, rfl⟩⟩ := Step.putEnqueue_inv hs
    · exact Or.inl ⟨rfl, rfl⟩
    · refine Or.inr ⟨.push bytes, ?_⟩
      simp [DropQueue.step, hfull, queueEvents, TxEvent.queue]
    · refine Or.inr ⟨.push bytes, ?_⟩
      simp [DropQueue.step, Nat.not_le.mpr hroom, queueEvents, TxEvent.queue]
  | startTx =>
    obtain ⟨-, rfl, ⟨-, rfl⟩ | ⟨-, rfl⟩⟩ := Step.startTx_inv hs <;> exact Or.inl ⟨rfl, rfl⟩
  | txHead =>
    obtain ⟨-, rfl, rfl⟩ := Step.txHead_inv hs
    exact Or.inl ⟨rfl, rfl⟩
  | txLock =>
    obtain ⟨-, ⟨-, rfl, rfl⟩ | ⟨-, -, rfl, rfl⟩ | ⟨-, pkt, hq, rfl, -⟩⟩ := Step.txLock_inv hs
    · exact Or.inl ⟨rfl, rfl⟩
    · exact Or.inl ⟨rfl, rfl⟩
    · refine Or.inr ⟨.pop, ?_⟩
      rw [hq]
      rfl
  | txWake =>
    obtain ⟨-, rfl, rfl⟩ := Step.txWake_inv hs
    exact Or.inl ⟨rfl, rfl⟩
  | txSend =>
    obtain ⟨_, _, -, -, rfl, rfl⟩ := Step.txSend_inv hs
    exact Or.inl ⟨rfl, rfl⟩
  | txSent w =>
    obtain ⟨_, _, -, -, -, rfl, rfl⟩ := Step.txSent_inv hs
    exact Or.inl ⟨rfl, rfl⟩
  | txFail k =>
    obtain ⟨_, _, -, rfl, rfl⟩ := Step.txFail_inv hs
    exact Or.inl ⟨rfl, rfl⟩
  | txWritten =>
    obtain ⟨rfl, ⟨_, -, rfl⟩ | ⟨-, rfl⟩⟩ := Step.txWritten_inv hs <;> exact Or.inl ⟨rfl, rfl⟩
  | txCleanup =>
    obtain ⟨-, rfl, rfl⟩ := Step.txCleanup_inv hs
    exact Or.inr ⟨.clear, rfl⟩
  | stopStore =>
    obtain ⟨rfl, rfl⟩ := Step.stopStore_inv hs
    exact Or.inl ⟨rfl, rfl⟩
  | stopSection =>
    obtain ⟨-, rfl, rfl⟩ := Step.stopSection_inv hs
    refine Or.inr ⟨.clear, ?_⟩
    simp [DropQueue.step, queueEvents, TxEvent.queue]

/-- `send_queue_` refines the bounded queue. -/
theorem simulates_dropQueue (ok : Tx → TxAct → Prop) :
    Simulates machine ok (DropQueue.machine Bytes MAX_SEND_QUEUE_PACKETS) Any TxEvent.queue
      (fun t q => t.send_queue_ = q) where
  init := by
    rintro t ⟨ssrc, rfl⟩
    exact ⟨[], rfl, rfl⟩
  step := by
    rintro t a u es q rfl - hs
    refine ⟨u.send_queue_, ?_, rfl⟩
    rcases step_queue hs with ⟨hq, hes⟩ | ⟨qa, hqa⟩
    · rw [hq, show es.flatMap TxEvent.queue = [] from hes]
      exact .refl
    · exact .single trivial hqa

theorem run_dropQueue {ok : Tx → TxAct → Prop} (h : machine.Run ok tr t) :
    (DropQueue.machine Bytes MAX_SEND_QUEUE_PACKETS).Run Any (queueEvents tr) t.send_queue_ := by
  obtain ⟨q, hq, rfl⟩ := (simulates_dropQueue ok).run h
  exact hq

/-! ### An inactive sender has an empty queue -/

/-- The sender is active from `start_tx_thread` until its cleanup or a stop, and the queue is empty
    before and after. --/
structure Activity (tr : List TxEvent) (t : Tx) : Prop where
  queue : t.tx_active_ = false → t.send_queue_ = []
  unstarted : t.started = false → t.tx_active_ = false ∧ t.thread = .absent
  exited : ∀ queue, .exited queue ∈ tr → t.started = true ∧ t.tx_active_ = false
  stopped : ∀ queue, .stopped queue ∈ tr → t.stop_flag_ = true ∧ t.tx_active_ = false

/-- A step that neither ends the activity of the sender nor changes the queue while it is inactive. -/
theorem Activity.keep (h : Activity tr t) (hq : u.tx_active_ = false → u.send_queue_ = [])
    (hact : u.tx_active_ = t.tx_active_) (hstarted : u.started = t.started)
    (hstop : t.stop_flag_ = true → u.stop_flag_ = true) (hthread : t.thread = .absent → u.thread = .absent)
    (he : ∀ queue, .exited queue ∉ es ∧ .stopped queue ∉ es) : Activity (tr ++ es) u where
  queue := hq
  unstarted := fun hu => by
    obtain ⟨h1, h2⟩ := h.unstarted (hstarted ▸ hu)
    exact ⟨hact.trans h1, hthread h2⟩
  exited := fun queue hm => by
    rcases List.mem_append.mp hm with hm | hm
    · obtain ⟨h1, h2⟩ := h.exited queue hm
      exact ⟨hstarted.trans h1, hact.trans h2⟩
    · exact absurd hm (he queue).1
  stopped := fun queue hm => by
    rcases List.mem_append.mp hm with hm | hm
    · obtain ⟨h1, h2⟩ := h.stopped queue hm
      exact ⟨hstop h1, hact.trans h2⟩
    · exact absurd hm (he queue).2

/-- A section that makes the sender inactive and clears the queue. -/
theorem Activity.shut (h : Activity tr t) (hstarted : u.started = t.started) (hact : u.tx_active_ = false)
    (hq : u.send_queue_ = []) (hstop : u.stop_flag_ = t.stop_flag_)
    (hthread : t.thread = .absent → u.thread = .absent) (hex : ∀ queue, .exited queue ∈ es → t.started = true)
    (hst : ∀ queue, .stopped queue ∈ es → t.stop_flag_ = true) : Activity (tr ++ es) u where
  queue := fun _ => hq
  unstarted := fun hu => ⟨hact, hthread (h.unstarted (hstarted ▸ hu)).2⟩
  exited := fun queue hm => by
    refine ⟨hstarted.trans ?_, hact⟩
    rcases List.mem_append.mp hm with hm | hm
    · exact (h.exited queue hm).1
    · exact hex queue hm
  stopped := fun queue hm => by
    refine ⟨hstop.trans ?_, hact⟩
    rcases List.mem_append.mp hm with hm | hm
    · exact (h.stopped queue hm).1
    · exact hst queue hm

theorem notify_absent (t : Tx) (h : t.thread = .absent) : t.notify.thread = .absent := by
  rcases Step.notify_eq t with hn | ⟨hw, -⟩
  · rw [hn, h]
  · rw [h] at hw; cases hw

theorem step_activity (h : Activity tr t) (hs : step t a = some (u, es)) : Activity (tr ++ es) u := by
  cases a with
  | putFrame frame =>
    obtain ⟨-, ⟨-, rfl, rfl⟩ | ⟨-, rfl, rfl⟩⟩ := Step.putFrame_inv hs
    · exact h.keep h.queue rfl rfl id id (by simp)
    · exact h.keep h.queue rfl rfl id id (by simp)
  | putStop =>
    obtain ⟨frame, -, ⟨-, rfl, rfl⟩ | ⟨-, es', hb, rfl⟩⟩ := Step.putStop_inv hs
    · exact h.keep h.queue rfl rfl id id (by simp)
    · obtain ⟨-, rfl, rfl⟩ | ⟨-, rfl, rfl⟩ := Step.putBuild_inv hb
      · exact h.keep h.queue rfl rfl id id (by simp)
      · exact h.keep h.queue rfl rfl id id (by simp)
  | putEnqueue =>
    obtain ⟨bytes, -, ⟨-, rfl, rfl⟩ | ⟨ha, -, -, rfl, rfl⟩ | ⟨ha, -, -, rfl, rfl⟩⟩ := Step.putEnqueue_inv hs
    · exact h.keep h.queue rfl rfl id id (by simp)
    · exact h.keep (by simp [ha]) (by simp) (by simp) (by simp) (fun h0 => notify_absent _ h0) (by simp)
    · exact h.keep (by simp [ha]) (by simp) (by simp) (by simp) (fun h0 => notify_absent _ h0) (by simp)
  | startTx =>
    obtain ⟨hstarted, rfl, hcase⟩ := Step.startTx_inv hs
    have hne : ∀ queue, .exited queue ∉ tr := fun queue hm => by
      have := (h.exited queue hm).1
      rw [hstarted] at this; cases this
    rw [List.append_nil]
    rcases hcase with ⟨hst, rfl⟩ | ⟨hst, rfl⟩
    · exact ⟨h.queue, by simp, fun queue hm => absurd hm (hne queue), h.stopped⟩
    · refine ⟨by simp, by simp, fun queue hm => absurd hm (hne queue), fun queue hm => ?_⟩
      have := (h.stopped queue hm).1
      rw [hst] at this; cases this
  | txHead =>
    obtain ⟨ht, rfl, rfl⟩ := Step.txHead_inv hs
    exact h.keep h.queue rfl rfl id (by simp [ht]) (by simp)
  | txLock =>
    obtain ⟨ht, ⟨-, rfl, rfl⟩ | ⟨-, -, rfl, rfl⟩ | ⟨-, pkt, hq, rfl, hu⟩⟩ := Step.txLock_inv hs
    · exact h.keep h.queue rfl rfl id (by simp [ht]) (by simp)
    · exact h.keep h.queue rfl rfl id (by simp [ht]) (by simp)
    · rw [hu]
      refine h.keep (fun ha => ?_) rfl rfl id (by simp [ht]) (by simp)
      rw [h.queue ha] at hq
      cases hq
  | txWake =>
    obtain ⟨ht, rfl, rfl⟩ := Step.txWake_inv hs
    exact h.keep h.queue rfl rfl id (by simp [ht]) (by simp)
  | txSend =>
    obtain ⟨_, _, ht, -, rfl, rfl⟩ := Step.txSend_inv hs
    exact h.keep h.queue rfl rfl id (by simp [ht]) (by simp)
  | txSent w =>
    obtain ⟨_, _, ht, -, -, rfl, rfl⟩ := Step.txSent_inv hs
    exact h.keep h.queue rfl rfl id (by simp [ht]) (by simp)
  | txFail k =>
    obtain ⟨_, _, ht, rfl, rfl⟩ := Step.txFail_inv hs
    exact h.keep h.queue rfl rfl id (by simp [ht]) (by simp)
  | txWritten =>
    obtain ⟨rfl, ⟨_, ht, rfl⟩ | ⟨ht, rfl⟩⟩ := Step.txWritten_inv hs <;>
      exact h.keep h.queue rfl rfl id (by simp [ht]) (by simp)
  | txCleanup =>
    obtain ⟨ht, rfl, rfl⟩ := Step.txCleanup_inv hs
    refine h.shut rfl rfl rfl rfl (by simp [ht]) (fun _ _ => ?_) (by simp)
    rw [← Bool.not_eq_false]
    intro hstarted
    have := (h.unstarted hstarted).2
    rw [ht] at this; cases this
  | stopStore =>
    obtain ⟨rfl, rfl⟩ := Step.stopStore_inv hs
    exact h.keep h.queue rfl rfl (fun _ => rfl) id (by simp)
  | stopSection =>
    obtain ⟨hst, rfl, rfl⟩ := Step.stopSection_inv hs
    exact h.shut (by simp) (by simp) (by simp) (by simp) (fun h0 => notify_absent _ h0) (by simp) (fun _ _ => hst)

theorem run_activity {ok : Tx → TxAct → Prop} (h : machine.Run ok tr t) : Activity tr t := by
  refine h.invariant (I := Activity) ?_ fun _ _ _ _ _ h _ hs => step_activity h hs
  rintro t ⟨ssrc, rfl⟩
  exact ⟨fun _ => rfl, fun _ => ⟨rfl, rfl⟩, by simp, by simp⟩

/-! ### The socket takes a prefix of the framed packets -/

/-- What the tx thread still has to write of the packets it took; nothing is known once it gave up. -/
def unsent : TxPc → Option Bytes
  | .absent | .head | .lock | .waiting => some []
  | .write rest next | .sending rest next => some (rest ++ next.getD [])
  | .cleanup | .done => none

/-- The framed packets taken from the queue are the bytes on the socket, followed by what is unsent. -/
def Wire (tr : List TxEvent) (t : Tx) : Prop :=
  ∃ rest, frames (dequeued tr) = sentBytes tr ++ rest ∧ ∀ r, unsent t.thread = some r → r = rest

theorem Wire.keep (h : Wire tr t) (hd : dequeued es = []) (hs : sentBytes es = [])
    (hu : ∀ r, unsent u.thread = some r → unsent t.thread = some r) : Wire (tr ++ es) u := by
  obtain ⟨rest, hf, hr⟩ := h
  refine ⟨rest, ?_, fun r h => hr r (hu r h)⟩
  rw [dequeued_append, sentBytes_append, hd, hs, List.append_nil, List.append_nil, hf]

/-- The tx thread has the bytes `rest` to write, and the socket takes `k` of them. -/
theorem Wire.sent (h : Wire tr t) {rest : Bytes} {k : Nat} (next : Option Bytes)
    (ht : unsent t.thread = some (rest ++ next.getD []))
    (hu : ∀ r, unsent u.thread = some r → r = rest.drop k ++ next.getD []) :
    Wire (tr ++ [.sent (rest.take k)]) u := by
  obtain ⟨all, hf, hr⟩ := h
  obtain rfl := hr _ ht
  refine ⟨rest.drop k ++ next.getD [], ?_, hu⟩
  have hd : dequeued [.sent (rest.take k)] = [] := rfl
  have hs : sentBytes [.sent (rest.take k)] = rest.take k := by simp [sentBytes, TxEvent.bytes]
  rw [dequeued_append, sentBytes_append, hd, hs, List.append_nil, hf, List.append_assoc, ← List.append_assoc (rest.take k),
    List.take_append_drop]

theorem notify_unsent (t : Tx) : unsent t.notify.thread = unsent t.thread := by
  rcases Step.notify_eq t with hn | ⟨hw, hn⟩
  · rw [hn]
  · rw [hn, hw]
    rfl

theorem step_wire (ha : Activity tr t) (h : Wire tr t) (hs : step t a = some (u, es)) : Wire (tr ++ es) u := by
  cases a with
  | putFrame frame =>
    obtain ⟨-, ⟨-, rfl, rfl⟩ | ⟨-, rfl, rfl⟩⟩ := Step.putFrame_inv hs <;> exact h.keep rfl rfl fun _ => id
  | putStop =>
    obtain ⟨frame, -, ⟨-, rfl, rfl⟩ | ⟨-, es', hb, rfl⟩⟩ := Step.putStop_inv hs
    · exact h.keep rfl rfl fun _ => id
    · obtain ⟨-, rfl, rfl⟩ | ⟨-, rfl, rfl⟩ := Step.putBuild_inv hb <;> exact h.keep rfl rfl fun _ => id
  | putEnqueue =>
    obtain ⟨bytes, -, ⟨-, rfl, rfl⟩ | ⟨-, -, -, rfl, rfl⟩ | ⟨-, -, -, rfl, rfl⟩⟩ := Step.putEnqueue_inv hs
    · exact h.keep rfl rfl fun _ => id
    · refine h.keep ?_ rfl fun r hr => by rwa [notify_unsent] at hr
      exact (DropQueue.popped_append [.dropped _ _] [.pushed _]).trans (by simp)
    · exact h.keep rfl rfl fun r hr => by rwa [notify_unsent] at hr
  | startTx =>
    obtain ⟨hstarted, rfl, ⟨-, rfl⟩ | ⟨-, rfl⟩⟩ := Step.startTx_inv hs
    · exact h.keep rfl rfl fun _ => id
    · exact h.keep rfl rfl fun r hr => by rw [(ha.unstarted hstarted).2]; exact hr
  | txHead =>
    obtain ⟨ht, rfl, rfl⟩ := Step.txHead_inv hs
    refine h.keep rfl rfl fun r hr => ?_
    rw [ht]
    simp only at hr
    split at hr
    · cases hr
    · exact hr
  | txLock =>
    obtain ⟨ht, ⟨-, rfl, rfl⟩ | ⟨-, -, rfl, rfl⟩ | ⟨-, pkt, -, rfl, hu⟩⟩ := Step.txLock_inv hs
    · exact h.keep rfl rfl fun r hr => by cases hr
    · exact h.keep rfl rfl fun r hr => by rw [ht]; exact hr
    · obtain ⟨all, hf, hr⟩ := h
      obtain rfl : [] = all := hr [] (by rw [ht]; rfl)
      refine ⟨frame pkt, ?_, fun r hr => ?_⟩
      · have hd : dequeued [.dequeued pkt] = [pkt] := rfl
        have hs : sentBytes [.dequeued pkt] = [] := rfl
        rw [dequeued_append, sentBytes_append, hd, hs, frames_append, hf, frames_singleton, List.append_nil]
      · rw [hu] at hr
        exact (Option.some.inj hr).symm
  | txWake =>
    obtain ⟨ht, rfl, rfl⟩ := Step.txWake_inv hs
    exact h.keep rfl rfl fun r hr => by rw [ht]; exact hr
  | txSend =>
    obtain ⟨_, _, ht, -, rfl, rfl⟩ := Step.txSend_inv hs
    exact h.keep rfl rfl fun r hr => by rw [ht]; exact hr
  | txSent w =>
    obtain ⟨rest, next, ht, -, -, rfl, rfl⟩ := Step.txSent_inv hs
    exact h.sent next (by rw [ht]; rfl) fun r hr => (Option.some.inj hr).symm
  | txFail k =>
    obtain ⟨rest, next, ht, rfl, rfl⟩ := Step.txFail_inv hs
    exact h.sent next (by rw [ht]; rfl) fun r hr => by cases hr
  | txWritten =>
    obtain ⟨rfl, ⟨pkt, ht, rfl⟩ | ⟨ht, rfl⟩⟩ := Step.txWritten_inv hs
    · refine h.keep rfl rfl fun r hr => ?_
      rw [ht, ← hr]
      simp [unsent]
    · exact h.keep rfl rfl fun r hr => by rw [ht]; exact hr
  | txCleanup =>
    obtain ⟨ht, rfl, rfl⟩ := Step.txCleanup_inv hs
    exact h.keep (DropQueue.popped_cleared _) rfl fun r hr => by cases hr
  | stopStore =>
    obtain ⟨rfl, rfl⟩ := Step.stopStore_inv hs
    exact h.keep rfl rfl fun _ => id
  | stopSection =>
    obtain ⟨-, rfl, rfl⟩ := Step.stopSection_inv hs
    exact h.keep (DropQueue.popped_cleared _) rfl fun r hr => by rwa [notify_unsent] at hr

theorem run_wire {ok : Tx → TxAct → Prop} (h : machine.Run ok tr t) : Wire tr t := by
  refine (h.invariant (I := fun tr t => Activity tr t ∧ Wire tr t) ?_ fun _ _ _ _ _ h _ hs =>
    ⟨step_activity h.1 hs, step_wire h.1 h.2 hs⟩).2
  rintro t ⟨ssrc, rfl⟩
  exact ⟨⟨fun _ => rfl, fun _ => ⟨rfl, rfl⟩, by simp, by simp⟩, [], rfl, fun r hr => (Option.some.inj hr).symm⟩

/-! ### Packets enter the queue in the order in which they were built -/

/-- The packet that a call of `on_put_frame` is about to put into the queue. -/
def pending : PutPc → List Bytes
  | .enqueue bytes => [bytes]
  | _ => []

/-- The packets enqueued, and the one that is about to be, are built packets in their order. -/
def InOrder (tr : List TxEvent) (t : Tx) : Prop :=
  (enqueued tr ++ pending t.put).Sublist ((built tr).map RtpPacket.serialize)

theorem InOrder.keep (h : InOrder tr t) (he : enqueued es = []) (hb : built es = [])
    (hp : (pending u.put).Sublist (pending t.put)) : InOrder (tr ++ es) u := by
  unfold InOrder
  rw [enqueued_append, built_append, he, hb, List.append_nil, List.append_nil]
  exact ((List.Sublist.refl _).append hp).trans h

theorem step_inOrder (h : InOrder tr t) (hs : step t a = some (u, es)) : InOrder (tr ++ es) u := by
  cases a with
  | putFrame frame =>
    obtain ⟨hp, ⟨-, rfl, rfl⟩ | ⟨-, rfl, rfl⟩⟩ := Step.putFrame_inv hs <;>
      exact h.keep rfl rfl (List.nil_sublist _)
  | putStop =>
    obtain ⟨frame, hp, ⟨-, rfl, rfl⟩ | ⟨-, es', hb, rfl⟩⟩ := Step.putStop_inv hs
    · exact h.keep rfl rfl (List.nil_sublist _)
    · have h0 : (enqueued tr).Sublist ((built tr).map RtpPacket.serialize) := by
        simpa [InOrder, hp, pending] using h
      obtain ⟨-, rfl, rfl⟩ | ⟨-, rfl, rfl⟩ := Step.putBuild_inv hb
      · exact h.keep rfl rfl (List.nil_sublist _)
      · have he : enqueued [.call frame true, .built (t.putAccumulate frame).putPacket] = [] := rfl
        have hb : built [.call frame true, .built (t.putAccumulate frame).putPacket] =
          [(t.putAccumulate frame).putPacket] := rfl
        unfold InOrder
        rw [enqueued_append, built_append, he, hb, List.append_nil, List.map_append]
        exact h0.append (List.Sublist.refl _)
  | putEnqueue =>
    obtain ⟨bytes, hp, ⟨-, rfl, rfl⟩ | ⟨-, -, -, rfl, rfl⟩ | ⟨-, -, -, rfl, rfl⟩⟩ := Step.putEnqueue_inv hs
    · exact h.keep rfl rfl (List.nil_sublist _)
    all_goals
      unfold InOrder at h ⊢
      rw [hp] at h
      rw [Step.notify_put, enqueued_append, built_append]
      simpa [pending, enqueued, DropQueue.entered, DropQueue.Event.entered, queueEvents, TxEvent.queue, built,
        TxEvent.packets] using h
  | startTx =>
    obtain ⟨-, rfl, ⟨-, rfl⟩ | ⟨-, rfl⟩⟩ := Step.startTx_inv hs <;> exact h.keep rfl rfl (List.Sublist.refl _)
  | txHead =>
    obtain ⟨-, rfl, rfl⟩ := Step.txHead_inv hs
    exact h.keep rfl rfl (List.Sublist.refl _)
  | txLock =>
    obtain ⟨-, ⟨-, rfl, rfl⟩ | ⟨-, -, rfl, rfl⟩ | ⟨-, pkt, -, rfl, hu⟩⟩ := Step.txLock_inv hs
    · exact h.keep rfl rfl (List.Sublist.refl _)
    · exact h.keep rfl rfl (List.Sublist.refl _)
    · rw [hu]
      exact h.keep rfl rfl (List.Sublist.refl _)
  | txWake =>
    obtain ⟨-, rfl, rfl⟩ := Step.txWake_inv hs
    exact h.keep rfl rfl (List.Sublist.refl _)
  | txSend =>
    obtain ⟨_, _, -, -, rfl, rfl⟩ := Step.txSend_inv hs
    exact h.keep rfl rfl (List.Sublist.refl _)
  | txSent w =>
    obtain ⟨_, _, -, -, -, rfl, rfl⟩ := Step.txSent_inv hs
    exact h.keep rfl rfl (List.Sublist.refl _)
  | txFail k =>
    obtain ⟨_, _, -, rfl, rfl⟩ := Step.txFail_inv hs
    exact h.keep rfl rfl (List.Sublist.refl _)
  | txWritten =>
    obtain ⟨rfl, ⟨_, -, rfl⟩ | ⟨-, rfl⟩⟩ := Step.txWritten_inv hs <;> exact h.keep rfl rfl (List.Sublist.refl _)
  | txCleanup =>
    obtain ⟨-, rfl, rfl⟩ := Step.txCleanup_inv hs
    exact h.keep rfl rfl (List.Sublist.refl _)
  | stopStore =>
    obtain ⟨rfl, rfl⟩ := Step.stopStore_inv hs
    exact h.keep rfl rfl (List.Sublist.refl _)
  | stopSection =>
    obtain ⟨-, rfl, rfl⟩ := Step.stopSection_inv hs
    exact h.keep rfl rfl (by rw [Step.notify_put])

/-- The packets enqueued are built packets, in the order in which they were built. -/
theorem enqueued_sublist {ok : Tx → TxAct → Prop} (h : machine.Run ok tr t) :
    (enqueued tr).Sublist ((built tr).map RtpPacket.serialize) := by
  have hin : InOrder tr t := by
    refine h.invariant (I := InOrder) ?_ fun _ _ _ _ _ h _ hs => step_inOrder h hs
    rintro t ⟨ssrc, rfl⟩
    exact List.nil_sublist _
  exact (List.sublist_append_left _ _).trans hin

end Steps

/-! ### The laws of a run -/

section Laws
variable {t : Tx} {tr : List TxEvent}

/-- What every run of the send side keeps of the queue and of the socket. -/
structure SendQueueLaw (tr : List TxEvent) (t : Tx) : Prop where
  bounded : t.send_queue_.length ≤ MAX_SEND_QUEUE_PACKETS
  inactive_empty : t.tx_active_ = false → t.send_queue_ = []
  /-- No packet enters the queue after the cleanup of the tx thread or after the section of `stop`. -/
  no_resurrection : ∀ queue, .exited queue ∈ tr ∨ .stopped queue ∈ tr → t.send_queue_ = []
  /-- Packets enter the queue in the order in which they were built. -/
  production_order : (enqueued tr).Sublist ((built tr).map RtpPacket.serialize)
  dequeued_order : (dequeued tr).Sublist (enqueued tr)
  /-- A packet that was enqueued left in its turn, popped, dropped or cleared, or is still queued. -/
  accounted : enqueued tr = (left tr).map Prod.fst ++ t.send_queue_
  dequeued_left : dequeued tr = ((left tr).filter (·.2 = .popped)).map Prod.fst
  /-- A packet is dropped only as the oldest of a full queue. -/
  dropped_full : ∀ queue bytes, .dropped queue bytes ∈ tr → queue.length = MAX_SEND_QUEUE_PACKETS
  wire : sentBytes tr <+: frames (dequeued tr)
  /-- The two bytes in front of a packet are its length. -/
  framable : Framable (dequeued tr)

theorem mem_queueEvents_dropped {queue : List Bytes} {bytes : Bytes} (h : .dropped queue bytes ∈ tr) :
    .dropped queue bytes ∈ queueEvents tr :=
  List.mem_flatMap.mpr ⟨_, h, List.mem_singleton_self _⟩

/-- A built packet has 12 bytes of header and two encoded frames. -/
theorem length_built {ok : Tx → TxAct → Prop} (h : machine.Run ok tr t) {p : RtpPacket} (hp : p ∈ built tr) :
    p.serialize.length = 332 := by
  obtain ⟨-, pre, act, post, hb⟩ := run_batches h
  rw [hb.built] at hp
  obtain ⟨i, hi⟩ := List.getElem?_of_mem hp
  obtain ⟨f, g, -, -, rfl⟩ := getElem?_packets hi
  simp [RtpPacket.length_serialize, packet]

theorem framable_built {ok : Tx → TxAct → Prop} (h : machine.Run ok tr t) :
    Framable ((built tr).map RtpPacket.serialize) := by
  intro bytes hm
  obtain ⟨p, hp, rfl⟩ := List.mem_map.mp hm
  rw [length_built h hp]
  decide

/-- What was enqueued is what left, followed by what is queued. -/
theorem run_accounted {ok : Tx → TxAct → Prop} (h : machine.Run ok tr t) :
    enqueued tr = (left tr).map Prod.fst ++ t.send_queue_ := DropQueue.accounted (by decide) (run_dropQueue h)

/-- The send queue and the socket are safe in every run. -/
theorem send_queue_law {ok : Tx → TxAct → Prop} (h : machine.Run ok tr t) : SendQueueLaw tr t := by
  have hq := run_dropQueue h
  have ha := run_activity h
  have hcap : 0 < MAX_SEND_QUEUE_PACKETS := by decide
  have hsub : (dequeued tr).Sublist ((built tr).map RtpPacket.serialize) :=
    (DropQueue.popped_sublist hcap hq).trans (enqueued_sublist h)
  refine ⟨DropQueue.length_le hcap hq, ha.queue, ?_, enqueued_sublist h, DropQueue.popped_sublist hcap hq,
    run_accounted h, rfl, fun _ _ hd => DropQueue.dropped_full hcap hq (mem_queueEvents_dropped hd), ?_, ?_⟩
  · rintro queue (hm | hm)
    · exact ha.queue (ha.exited queue hm).2
    · exact ha.queue (ha.stopped queue hm).2
  · obtain ⟨rest, hf, -⟩ := run_wire h
    exact ⟨rest, hf.symm⟩
  · exact fun bytes hm => framable_built h bytes (hsub.mem hm)

/-- A frame of 160 equal samples. -/
def toneFrame : PjFrame := ⟨true, 320, List.replicate FRAME_SAMPLES 1000, by simp [FRAME_SAMPLES]⟩

/-- A call before the sender starts, then a packet of two calls, whose length and first byte are sent. -/
def toneRun : List TxAct :=
  [.putFrame toneFrame, .startTx, .putFrame toneFrame, .putStop, .txHead, .putFrame toneFrame, .putStop, .putEnqueue,
    .txLock, .txSend, .txSent 1, .txSend, .txSent 1, .txWritten, .txSend, .txSent 1]

theorem send_queue_law_tone : ∃ tr t, machine.Run Any tr t ∧ (sentBytes tr).length = 3 ∧ SendQueueLaw tr t := by
  obtain ⟨tr, t, hrun, hp⟩ := exists_run machine { ssrc_ := 7 } toneRun ⟨7, rfl⟩ (meets_any _ _ _)
    (fun r => (sentBytes r.2).length == 3) (by decide +kernel)
  exact ⟨tr, t, hrun, by simpa using hp, send_queue_law hrun⟩

end Laws
end AudioMeet.Tx
