import AudioMeet.Theorems.Participant.Reception
import AudioMeet.Theorems.Participant.SendQueue

/-! The send side of a participant joined to the receive side of another by a reliable stream. What the
    receiver pushes is what the sender was given, through the codec and two frames at a time. -/

namespace AudioMeet
open Lib Machine

/-! ### The sender while nothing stops it and its queue never overflows -/

namespace Tx

/-- Calls carry audio frames of 160 samples, the queue has room for every packet, and neither `stop` nor a
    failure of `send` ends the sender. -/
def Smooth (t : Tx) : TxAct → Prop
  | .putFrame frame => frame.audio = true ∧ frame.size / 2 = FRAME_SAMPLES
  | .putEnqueue => t.send_queue_.length < MAX_SEND_QUEUE_PACKETS
  | .txFail _ | .stopStore | .stopSection => False
  | _ => True

instance (t : Tx) : DecidablePred t.Smooth
  | .putFrame _ => inferInstanceAs (Decidable (_ ∧ _))
  | .putEnqueue => inferInstanceAs (Decidable (_ < _))
  | .txFail _ | .stopStore | .stopSection => inferInstanceAs (Decidable False)
  | .putStop | .startTx | .txHead | .txLock | .txWake | .txSend | .txSent _ | .txWritten | .txCleanup =>
    inferInstanceAs (Decidable True)

/-- What the codec makes of a frame. -/
def heard (frame : PjFrame) : List Int16 :=
  (frame.buf.take FRAME_SAMPLES).map fun x => G711Alaw.decodeSample (G711Alaw.encodeSample x)

/-- The frames of the calls that saw the sender active. -/
def activeFrames (tr : List TxEvent) : List PjFrame := ((calls tr).filter (·.2)).map Prod.fst

/-- Every packet built was enqueued, and every packet enqueued was taken or is queued. -/
structure Flowing (tr : List TxEvent) (t : Tx) : Prop where
  stop : t.stop_flag_ = false
  thread : t.thread ≠ .cleanup ∧ t.thread ≠ .done
  active : t.put ≠ .idle → t.tx_active_ = true
  put : ∀ frame, t.put = .checkStop frame → frame.audio = true ∧ frame.size / 2 = FRAME_SAMPLES
  frames : ∀ c ∈ calls tr, c.1.audio = true ∧ c.1.size / 2 = FRAME_SAMPLES
  order : (built tr).map RtpPacket.serialize = enqueued tr ++ pending t.put
  queue : enqueued tr = dequeued tr ++ t.send_queue_

section Flow
variable {t u : Tx} {a : TxAct} {tr es : List TxEvent}

/-- What a step must do to the packets on their way: those it builds follow the one that waits to be
    enqueued, and those it enqueues follow the queue. -/
theorem Flowing.advance (h : Flowing tr t) (hstop : u.stop_flag_ = false) (hthread : u.thread ≠ .cleanup ∧ u.thread ≠ .done)
    (hactive : u.put ≠ .idle → u.tx_active_ = true)
    (hput : ∀ frame, u.put = .checkStop frame → frame.audio = true ∧ frame.size / 2 = FRAME_SAMPLES)
    (hframes : ∀ c ∈ calls es, c.1.audio = true ∧ c.1.size / 2 = FRAME_SAMPLES)
    (horder : pending t.put ++ (built es).map RtpPacket.serialize = enqueued es ++ pending u.put)
    (hqueue : t.send_queue_ ++ enqueued es = dequeued es ++ u.send_queue_) : Flowing (tr ++ es) u where
  stop := hstop
  thread := hthread
  active := hactive
  put := hput
  frames := by
    simp only [calls_append, List.mem_append]
    exact fun c hc => hc.elim (h.frames c) (hframes c)
  order := by rw [built_append, List.map_append, h.order, List.append_assoc, horder, enqueued_append, List.append_assoc]
  queue := by rw [enqueued_append, h.queue, List.append_assoc, hqueue, dequeued_append, List.append_assoc]

/-- A step of the tx thread after it took a packet, or before it takes one. -/
theorem Flowing.move (h : Flowing tr t) (hes : calls es = [] ∧ built es = [] ∧ enqueued es = [] ∧ dequeued es = [])
    (hput : u.put = t.put) (hactive : u.tx_active_ = t.tx_active_) (hqueue : u.send_queue_ = t.send_queue_)
    (hstop : u.stop_flag_ = t.stop_flag_) (hthread : u.thread ≠ .cleanup ∧ u.thread ≠ .done) : Flowing (tr ++ es) u := by
  obtain ⟨hc, hb, he, hd⟩ := hes
  refine h.advance (hstop.trans h.stop) hthread (by rw [hput, hactive]; exact h.active) (by rw [hput]; exact h.put)
    (by simp [hc]) (by simp [hb, he, hput]) (by simp [he, hd, hqueue])

theorem notify_running {t : Tx} (h : t.thread ≠ .cleanup ∧ t.thread ≠ .done) :
    t.notify.thread ≠ .cleanup ∧ t.notify.thread ≠ .done := by
  rcases Step.notify_eq t with hn | ⟨-, hn⟩ <;> rw [hn]
  · exact h
  · simp

theorem step_flowing (h : Flowing tr t) (hok : Smooth t a) (hs : step t a = some (u, es)) : Flowing (tr ++ es) u := by
  have hstop := h.stop
  cases a with
  | putFrame frame =>
    have hframe : ∀ c ∈ calls [.call frame false], c.1.audio = true ∧ c.1.size / 2 = FRAME_SAMPLES := by
      simpa [calls, TxEvent.calls] using show frame.audio = true ∧ frame.size / 2 = FRAME_SAMPLES from hok
    obtain ⟨hp, ⟨ha, rfl, rfl⟩ | ⟨-, rfl, rfl⟩⟩ := Step.putFrame_inv hs
    · refine h.advance hstop h.thread (fun _ => ha) ?_ (by simp [calls]) (by rw [hp]; rfl) (List.append_nil _)
      rintro _ ⟨rfl⟩
      exact hok
    · exact h.advance hstop h.thread (absurd rfl) (by rintro _ ⟨⟩) hframe (by rw [hp]; rfl) (List.append_nil _)
  | putStop =>
    obtain ⟨frame, hp, ⟨hst, -, -⟩ | ⟨-, es', hb, rfl⟩⟩ := Step.putStop_inv hs
    · rw [hstop] at hst
      cases hst
    · have ha : t.tx_active_ = true := h.active (by simp [hp])
      obtain ⟨-, rfl, rfl⟩ | ⟨-, rfl, rfl⟩ := Step.putBuild_inv hb
      · refine h.advance hstop h.thread (absurd rfl) (by simp) ?_ (by rw [hp]; rfl) (List.append_nil _)
        simpa [calls, TxEvent.calls] using h.put frame hp
      · refine h.advance hstop h.thread (fun _ => ha) (by simp) ?_ (by rw [hp]; rfl) (List.append_nil _)
        simpa [calls, TxEvent.calls] using h.put frame hp
  | putEnqueue =>
    obtain ⟨bytes, hp, ⟨hoff, -, -⟩ | ⟨-, -, hfull, -, -⟩ | ⟨ha, -, -, rfl, rfl⟩⟩ := Step.putEnqueue_inv hs
    · have ha : t.tx_active_ = true := h.active (by simp [hp])
      simp [ha, hstop] at hoff
    · exact absurd hfull (Nat.not_le.mpr hok)
    · refine h.advance (by simpa using hstop) (notify_running h.thread) (by simp) (by simp) (by simp [calls, TxEvent.calls]) ?_ ?_
      · rw [hp, Step.notify_put]
        rfl
      · rw [Step.notify_queue]
        rfl
  | startTx =>
    obtain ⟨-, rfl, ⟨hst, -⟩ | ⟨-, rfl⟩⟩ := Step.startTx_inv hs
    · rw [hstop] at hst
      cases hst
    · exact h.advance hstop (by simp) (fun _ => rfl) h.put (by simp [calls]) (List.append_nil _) (List.append_nil _)
  | txHead =>
    obtain ⟨-, rfl, rfl⟩ := Step.txHead_inv hs
    exact h.move ⟨rfl, rfl, rfl, rfl⟩ rfl rfl rfl rfl (by simp [hstop])
  | txLock =>
    obtain ⟨-, ⟨hst, -, -⟩ | ⟨-, -, rfl, rfl⟩ | ⟨-, pkt, hq, rfl, hu⟩⟩ := Step.txLock_inv hs
    · rw [hstop] at hst
      cases hst
    · exact h.move ⟨rfl, rfl, rfl, rfl⟩ rfl rfl rfl rfl (by simp)
    · rw [hu]
      refine h.advance hstop (by simp) h.active h.put (by simp [calls, TxEvent.calls]) (List.append_nil _) ?_
      rw [hq]
      simp [enqueued, dequeued, queueEvents, TxEvent.queue, DropQueue.entered, DropQueue.Event.entered]
  | txWake =>
    obtain ⟨-, rfl, rfl⟩ := Step.txWake_inv hs
    exact h.move ⟨rfl, rfl, rfl, rfl⟩ rfl rfl rfl rfl (by simp)
  | txSend =>
    obtain ⟨_, _, -, -, rfl, rfl⟩ := Step.txSend_inv hs
    exact h.move ⟨rfl, rfl, rfl, rfl⟩ rfl rfl rfl rfl (by simp)
  | txSent w =>
    obtain ⟨_, _, -, -, -, rfl, rfl⟩ := Step.txSent_inv hs
    exact h.move ⟨rfl, rfl, rfl, rfl⟩ rfl rfl rfl rfl (by simp)
  | txWritten =>
    obtain ⟨rfl, ⟨_, -, rfl⟩ | ⟨-, rfl⟩⟩ := Step.txWritten_inv hs <;>
      exact h.move ⟨rfl, rfl, rfl, rfl⟩ rfl rfl rfl rfl (by simp)
  | txCleanup =>
    obtain ⟨ht, -, -⟩ := Step.txCleanup_inv hs
    exact absurd ht h.thread.1
  | txFail k => exact hok.elim
  | stopStore => exact hok.elim
  | stopSection => exact hok.elim

theorem run_flowing (h : machine.Run Smooth tr t) : Flowing tr t := by
  refine h.invariant (I := Flowing) ?_ fun _ _ _ _ _ h hok hs => step_flowing h hok hs
  rintro t ⟨ssrc, rfl⟩
  exact ⟨rfl, by simp, by simp, by simp, by simp [calls], rfl, rfl⟩

end Flow

/-! ### The payloads of the packets -/

/-- The codec on the payload of the packets of some frames. -/
theorem decode_packets {ssrc : UInt32} : ∀ {act : List PjFrame} {k n : Nat},
    (∀ f ∈ act, f.audio = true ∧ f.size / 2 = FRAME_SAMPLES) →
    ((packets ssrc k n act).flatMap (·.payload)).map G711Alaw.decodeSample =
      ((act.take (2 * (act.length / 2))).map heard).flatten
  | [], _, _, _ => rfl
  | [_], _, _, _ => by simp [packets]
  | f :: g :: rest, k, n, h => by
    have henc : ∀ f' ∈ f :: g :: rest, (encodeFrame f').map G711Alaw.decodeSample = heard f' := fun f' hf => by
      rw [encodeFrame, if_pos (by simp [h f' hf]), List.map_map]
      rfl
    have ih := @decode_packets ssrc rest (k + 2) (n + 1) fun f' hf =>
      h f' (List.mem_cons_of_mem _ (List.mem_cons_of_mem _ hf))
    have hlen : 2 * ((f :: g :: rest).length / 2) = 2 * (rest.length / 2) + 1 + 1 := by
      simp only [List.length_cons]
      omega
    rw [hlen]
    simp only [packets, List.flatMap_cons, List.map_append, ih, packet, henc f List.mem_cons_self,
      henc g (List.mem_cons_of_mem _ List.mem_cons_self), List.take_succ_cons, List.map_cons, List.flatten_cons,
      List.append_assoc]

theorem parse_packet (ssrc : UInt32) (k n : Nat) (f g : PjFrame) :
    RtpPacket.parse (packet ssrc k n f g).serialize = .ok (packet ssrc k n f g) :=
  RtpPacket.parse_serialize rfl rfl rfl (show (8 : UInt8) < 128 by decide)

/-- The receiver takes from a packet what the sender put into it. -/
theorem payloadOf_built {ok : Tx → TxAct → Prop} {tr : List TxEvent} {t : Tx} (h : machine.Run ok tr t) {p : RtpPacket}
    (hp : p ∈ built tr) : Rx.payloadOf p.serialize = p.payload := by
  obtain ⟨-, pre, act, post, hb⟩ := run_batches h
  rw [hb.built] at hp
  obtain ⟨i, hi⟩ := List.getElem?_of_mem hp
  obtain ⟨f, g, -, -, rfl⟩ := getElem?_packets hi
  rw [Rx.payloadOf, parse_packet]

theorem activeFrames_eq {tr : List TxEvent} {t : Tx} {pre act post : List PjFrame} (h : Batches tr t pre act post) :
    activeFrames tr = act := by
  simp [activeFrames, h.calls, List.filter_map, Function.comp_def]

end Tx

/-! ### The link -/

/-- A sender, a receiver, and the bytes that the stream took and did not deliver yet. -/
structure Link where
  tx : Tx
  wire : Bytes := []
  rx : Rx := {}

inductive LinkAct
  | tx (a : TxAct)
  | rx (a : RxAct)

inductive LinkEvent
  | tx (e : TxEvent)
  | rx (e : RxEvent)

namespace Link

def LinkEvent.txEvents : LinkEvent → List TxEvent
  | .tx e => [e]
  | .rx _ => []

def LinkEvent.rxEvents : LinkEvent → List RxEvent
  | .tx _ => []
  | .rx e => [e]

/-- The stream once the receiver takes a step: `recv` takes what comes first. -/
def deliver (wire : Bytes) : RxAct → Option Bytes
  | .rxRecv bytes => if bytes <+: wire then some (wire.drop bytes.length) else none
  | _ => some wire

def step (l : Link) : LinkAct → Option (Link × List LinkEvent)
  | .tx a => do
    let (t, es) ← l.tx.step a
    return ({ l with tx := t, wire := l.wire ++ Tx.sentBytes es }, es.map .tx)
  | .rx a => do
    let wire ← deliver l.wire a
    let (r, es) ← l.rx.step a
    return ({ l with wire, rx := r }, es.map .rx)

def machine : Machine Link LinkAct LinkEvent where
  init l := ∃ ssrc, l = { tx := { ssrc_ := ssrc } }
  step := step

/-- The sender goes on as it should, and nothing ends the receiver. -/
def Smooth (l : Link) : LinkAct → Prop
  | .tx a => l.tx.Smooth a
  | .rx .rxFail | .rx .stopStore => False
  | .rx _ => True

instance (l : Link) : DecidablePred l.Smooth
  | .tx a => inferInstanceAs (Decidable (l.tx.Smooth a))
  | .rx .rxFail | .rx .stopStore => inferInstanceAs (Decidable False)
  | .rx .rxStart | .rx .rxHead | .rx .rxCall | .rx (.rxRecv _) | .rx .rxRead | .rx .rxPush | .rx .rxKeep
  | .rx .getFrame => inferInstanceAs (Decidable True)

/-- No call of `on_put_frame` is under way, every packet was sent and read, and the receiver is between two
    packets. -/
structure Drained (l : Link) : Prop where
  put : l.tx.put = .idle
  queue : l.tx.send_queue_ = []
  tx : Tx.unsent l.tx.thread = some []
  wire : l.wire = []
  rx : Rx.unread l.rx.thread = some []
  frames : Rx.pushing l.rx.thread = false

instance : DecidablePred (· = PutPc.idle)
  | .idle => isTrue rfl
  | .checkStop _ => isFalse nofun
  | .enqueue _ => isFalse nofun

instance (l : Link) : Decidable (Drained l) :=
  decidable_of_iff (l.tx.put = .idle ∧ l.tx.send_queue_ = [] ∧ Tx.unsent l.tx.thread = some [] ∧ l.wire = [] ∧
      Rx.unread l.rx.thread = some [] ∧ Rx.pushing l.rx.thread = false)
    ⟨fun ⟨put, queue, tx, wire, rx, frames⟩ => ⟨put, queue, tx, wire, rx, frames⟩,
      fun ⟨put, queue, tx, wire, rx, frames⟩ => ⟨put, queue, tx, wire, rx, frames⟩⟩

def txEvents (tr : List LinkEvent) : List TxEvent := tr.flatMap LinkEvent.txEvents

def rxEvents (tr : List LinkEvent) : List RxEvent := tr.flatMap LinkEvent.rxEvents

section Runs
variable {l m : Link} {a : LinkAct} {tr es : List LinkEvent}

@[simp] theorem txEvents_append (tr es : List LinkEvent) : txEvents (tr ++ es) = txEvents tr ++ txEvents es :=
  List.flatMap_append

@[simp] theorem rxEvents_append (tr es : List LinkEvent) : rxEvents (tr ++ es) = rxEvents tr ++ rxEvents es :=
  List.flatMap_append

theorem txEvents_tx (es : List TxEvent) : txEvents (es.map .tx) = es := by
  simp [txEvents, LinkEvent.txEvents, List.flatMap_map]

theorem txEvents_rx (es : List RxEvent) : txEvents (es.map .rx) = [] := by
  simp [txEvents, LinkEvent.txEvents, List.flatMap_map]

theorem rxEvents_tx (es : List TxEvent) : rxEvents (es.map .tx) = [] := by
  simp [rxEvents, LinkEvent.rxEvents, List.flatMap_map]

theorem rxEvents_rx (es : List RxEvent) : rxEvents (es.map .rx) = es := by
  simp [rxEvents, LinkEvent.rxEvents, List.flatMap_map]

theorem step_inv (h : step l a = some (m, es)) :
    (∃ b t es', a = .tx b ∧ l.tx.step b = some (t, es') ∧ es = es'.map .tx ∧
      m = { l with tx := t, wire := l.wire ++ Tx.sentBytes es' }) ∨
    (∃ b wire r es', a = .rx b ∧ deliver l.wire b = some wire ∧ l.rx.step b = some (r, es') ∧ es = es'.map .rx ∧
      m = { l with wire, rx := r }) := by
  cases a with
  | tx b =>
    simp only [step, Option.bind_eq_bind, Option.bind_eq_some_iff, Prod.exists, pure, Option.some.injEq,
      Prod.mk.injEq] at h
    obtain ⟨t, es', hs, rfl, rfl⟩ := h
    exact Or.inl ⟨b, t, es', rfl, hs, rfl, rfl⟩
  | rx b =>
    simp only [step, Option.bind_eq_bind, Option.bind_eq_some_iff, Prod.exists, pure, Option.some.injEq,
      Prod.mk.injEq] at h
    obtain ⟨wire, hd, r, es', hs, rfl, rfl⟩ := h
    exact Or.inr ⟨b, wire, r, es', rfl, hd, hs, rfl, rfl⟩

/-- A run of the link is a run of its sender. -/
theorem run_tx (h : machine.Run Smooth tr l) : Tx.machine.Run Tx.Smooth (txEvents tr) l.tx := by
  have hsim : Simulates machine Smooth Tx.machine Tx.Smooth LinkEvent.txEvents (fun l t => l.tx = t) := by
    refine ⟨?_, ?_⟩
    · rintro l ⟨ssrc, rfl⟩
      exact ⟨_, ⟨ssrc, rfl⟩, rfl⟩
    · rintro l a m es _ rfl hok hs
      refine ⟨m.tx, ?_, rfl⟩
      obtain ⟨b, t, es', rfl, hb, rfl, rfl⟩ | ⟨b, _, r, es', rfl, -, -, rfl, rfl⟩ := step_inv hs
      · rw [show List.flatMap _ _ = es' from txEvents_tx es']
        exact .single hok hb
      · rw [show List.flatMap _ _ = [] from txEvents_rx es']
        exact .refl
  obtain ⟨_, hrun, rfl⟩ := hsim.run h
  exact hrun

/-- A run of the link is a run of its receiver. -/
theorem run_rx (h : machine.Run Smooth tr l) : Rx.machine.Run Any (rxEvents tr) l.rx := by
  have hsim : Simulates machine Smooth Rx.machine Any LinkEvent.rxEvents (fun l r => l.rx = r) := by
    refine ⟨?_, ?_⟩
    · rintro l ⟨ssrc, rfl⟩
      exact ⟨_, rfl, rfl⟩
    · rintro l a m es _ rfl - hs
      refine ⟨m.rx, ?_, rfl⟩
      obtain ⟨b, t, es', rfl, -, rfl, rfl⟩ | ⟨b, _, r, es', rfl, -, hb, rfl, rfl⟩ := step_inv hs
      · rw [show List.flatMap _ _ = [] from rxEvents_tx es']
        exact .refl
      · rw [show List.flatMap _ _ = es' from rxEvents_rx es']
        exact .single trivial hb
  obtain ⟨_, hrun, rfl⟩ := hsim.run h
  exact hrun

/-- A receiver takes from the stream the bytes that it shows. -/
theorem deliver_eq {wire wire' : Bytes} {b : RxAct} {r u : Rx} {es : List RxEvent} (hd : deliver wire b = some wire')
    (hs : r.step b = some (u, es)) : wire = Rx.received es ++ wire' := by
  cases b with
  | rxRecv bytes =>
    obtain ⟨_, _, -, -, -, -, rfl⟩ := Rx.Step.rxRecv_inv hs
    simp only [deliver] at hd
    split at hd
    · rename_i hle
      obtain ⟨rest, rfl⟩ := hle
      obtain rfl := Option.some.inj hd
      simp [Rx.received, Rx.RxEvent.bytes]
    · cases hd
  | _ =>
    obtain rfl := Option.some.inj hd
    rw [Rx.received_eq_nil (by simp) hs, List.nil_append]

/-- The stream neither loses nor reorders a byte. -/
theorem run_wire (h : machine.Run Smooth tr l) : Tx.sentBytes (txEvents tr) = Rx.received (rxEvents tr) ++ l.wire := by
  refine h.invariant (I := fun tr l => Tx.sentBytes (txEvents tr) = Rx.received (rxEvents tr) ++ l.wire) ?_ ?_
  · rintro l ⟨ssrc, rfl⟩
    rfl
  · rintro tr l a m es hw - hs
    rw [txEvents_append, rxEvents_append, Tx.sentBytes_append, Rx.received_append, hw]
    obtain ⟨b, t, es', rfl, -, rfl, rfl⟩ | ⟨b, wire, r, es', rfl, hd, hb, rfl, rfl⟩ := step_inv hs
    · rw [txEvents_tx, rxEvents_tx, List.append_assoc]
      simp [Rx.received]
    · rw [txEvents_rx, rxEvents_rx, deliver_eq hd hb]
      simp [Tx.sentBytes]

/-- The packets read are the first of the packets built. -/
theorem packetsRead_le (h : machine.Run Smooth tr l) :
    Rx.packetsRead (rxEvents tr) <+: (Tx.built (txEvents tr)).map RtpPacket.serialize := by
  have htx := run_tx h
  have hflow := Tx.run_flowing htx
  obtain ⟨-, hread, rest, hstream, -⟩ := Rx.run_framed (run_rx h)
  obtain ⟨unsent, hsent, -⟩ := Tx.run_wire htx
  have hle : Tx.dequeued (txEvents tr) <+: (Tx.built (txEvents tr)).map RtpPacket.serialize := by
    rw [hflow.order, hflow.queue, List.append_assoc]
    exact List.prefix_append _ _
  have hbytes : frames (Rx.packetsRead (rxEvents tr)) ++ rest ++ (l.wire ++ unsent) =
      frames (Tx.dequeued (txEvents tr)) := by
    rw [hsent, run_wire h, hstream]
    simp
  exact (frames_append_le hread (fun p hp => Tx.framable_built htx p (hle.mem hp)) hbytes).trans hle

/-- Once the link is drained, every packet built was read. -/
theorem packetsRead_drained (h : machine.Run Smooth tr l) (hd : Drained l) :
    Rx.packetsRead (rxEvents tr) = (Tx.built (txEvents tr)).map RtpPacket.serialize := by
  have htx := run_tx h
  have hflow := Tx.run_flowing htx
  obtain ⟨-, hread, rest, hstream, hrest⟩ := Rx.run_framed (run_rx h)
  obtain ⟨unsent, hsent, hunsent⟩ := Tx.run_wire htx
  have hbuilt : (Tx.built (txEvents tr)).map RtpPacket.serialize = Tx.dequeued (txEvents tr) := by
    rw [hflow.order, hflow.queue, hd.put, hd.queue]
    simp [Tx.pending]
  obtain rfl := hrest _ hd.rx
  obtain rfl := hunsent _ hd.tx
  refine frames_inj hread (Tx.framable_built htx) ?_
  rw [hbuilt, hsent, run_wire h, hstream, hd.wire]
  simp

/-- The frames that the receiver should push: the calls that saw the sender active, without the last of an
    odd number of them, each through the codec. -/
def expected (tr : List LinkEvent) : List (List Int16) :=
  let frames := Tx.activeFrames (txEvents tr)
  (frames.take (2 * (frames.length / 2))).map Tx.heard

theorem decode_built (h : machine.Run Smooth tr l) :
    (((Tx.built (txEvents tr)).map RtpPacket.serialize).flatMap Rx.payloadOf).map G711Alaw.decodeSample =
      (expected tr).flatten := by
  have htx := run_tx h
  obtain ⟨-, pre, act, post, hb⟩ := Tx.run_batches htx
  have hact := Tx.activeFrames_eq hb
  have haudio : ∀ f ∈ act, f.audio = true ∧ f.size / 2 = FRAME_SAMPLES := by
    intro f hf
    refine (Tx.run_flowing htx).frames (f, true) ?_
    rw [hb.calls]
    simp [hf]
  have hpay : ((Tx.built (txEvents tr)).map RtpPacket.serialize).flatMap Rx.payloadOf =
      (Tx.built (txEvents tr)).flatMap (·.payload) := by
    rw [List.flatMap_map]
    exact List.flatMap_congr fun p hp => Tx.payloadOf_built htx hp
  rw [hpay, hb.built, Tx.decode_packets haudio, expected, hact]

theorem length_expected (h : machine.Run Smooth tr l) : ∀ frame ∈ expected tr, frame.length = FRAME_SAMPLES := by
  have htx := run_tx h
  obtain ⟨-, pre, act, post, hb⟩ := Tx.run_batches htx
  intro frame hm
  obtain ⟨f, hf, rfl⟩ := List.mem_map.mp hm
  have hf' : f ∈ act := by
    rw [← Tx.activeFrames_eq hb]
    exact List.mem_of_mem_take hf
  have hsize : f.size / 2 = FRAME_SAMPLES := by
    refine ((Tx.run_flowing htx).frames (f, true) ?_).2
    rw [hb.calls]
    simp [hf']
  have hle := f.size_le
  rw [Tx.heard, List.length_map, List.length_take]
  omega

/-- What the link keeps of the frames. -/
structure TransportLaw (tr : List LinkEvent) (l : Link) : Prop where
  /-- At any time the receiver pushed the first of the expected frames. -/
  in_order : Rx.pushed (rxEvents tr) <+: expected tr
  /-- Once all packets are consumed it pushed all of them, and holds no byte back. -/
  complete : Drained l → Rx.pushed (rxEvents tr) = expected tr ∧ l.rx.rx_leftover_ = []

/-- The transport from call to frame is the codec, for every schedule, every pattern of short sends and every
    division of the stream into results of `recv`. -/
theorem transport_law (h : machine.Run Smooth tr l) : TransportLaw tr l := by
  have hdec := Rx.run_decoded (run_rx h)
  have hpos : 0 < FRAME_SAMPLES := by decide
  refine ⟨?_, fun hd => ?_⟩
  · obtain ⟨more, hmore⟩ := packetsRead_le h
    have hflat := decode_built h
    rw [← hmore, List.flatMap_append, List.map_append] at hflat
    change (Rx.payloads (rxEvents tr)).map G711Alaw.decodeSample ++ _ = _ at hflat
    rw [← hdec.samples, List.append_assoc] at hflat
    exact blocks_prefix hpos hdec.full (length_expected h) hflat
  · have hflat := decode_built h
    rw [← packetsRead_drained h hd] at hflat
    change (Rx.payloads (rxEvents tr)).map G711Alaw.decodeSample = _ at hflat
    have hpush : Rx.pushing l.rx.thread = false := by
      have hthread := hd.frames
      cases ht : l.rx.thread <;> simp_all [Rx.pushing]
    have hframes := hdec.frames
    rw [Rx.toCome_nil hpush, List.append_nil, Rx.decodedFrames, hflat, blocks_flatten hpos (length_expected h)] at hframes
    have hwhole := hdec.whole hpush
    rw [hframes, hflat, List.append_right_eq_self, List.map_eq_nil_iff] at hwhole
    exact ⟨hframes, hwhole⟩

/-- One packet of two frames, its length in one piece and its bytes in two. -/
def toneRun : List LinkAct :=
  let pkt := (Tx.packet 7 0 0 Tx.toneFrame Tx.toneFrame).serialize
  [.tx .startTx, .tx (.putFrame Tx.toneFrame), .tx .putStop, .tx (.putFrame Tx.toneFrame), .tx .putStop,
    .tx .putEnqueue, .tx .txHead, .tx .txLock, .tx .txSend, .tx (.txSent 2), .tx .txWritten, .tx .txSend,
    .tx (.txSent 332), .tx .txWritten, .rx .rxStart, .rx .rxHead, .rx .rxCall, .rx (.rxRecv (be16 332)), .rx .rxRead,
    .rx .rxCall, .rx (.rxRecv (pkt.take 100)), .rx .rxCall, .rx (.rxRecv (pkt.drop 100)), .rx .rxRead, .rx .rxPush,
    .rx .rxPush, .rx .rxKeep]

theorem transport_law_tone :
    ∃ tr l, machine.Run Smooth tr l ∧ Drained l ∧ (expected tr).length = 2 ∧ TransportLaw tr l := by
  have hok : machine.Meets Smooth { tx := { ssrc_ := 7 } } toneRun := meets_of_checks (by decide +kernel)
  obtain ⟨tr, l, hrun, hp⟩ := exists_run machine _ toneRun ⟨7, rfl⟩ hok
    (fun r => decide (Drained r.1) && (expected r.2).length == 2) (by decide +kernel)
  simp only [Bool.and_eq_true, decide_eq_true_eq, beq_iff_eq] at hp
  exact ⟨tr, l, hrun, hp.1, hp.2, transport_law hrun⟩

end Runs
end Link
end AudioMeet
