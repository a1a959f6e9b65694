import AudioMeet.Theorems.Participant.Reassembly

/-! A sender joined to a receiver by a reliable stream, whatever happens to either: the queue may overflow, `send` and
    `recv` may fail, and either side may be stopped at any time. Batches of two frames may be lost, and nothing else: what
    the receiver pushes is what the codec makes of some of the batches, whole and in order. -/

namespace AudioMeet
open Lib Machine

namespace Tx

/-- The frames of whole batches, two by two. -/
def batches : List PjFrame → List (PjFrame × PjFrame)
  | f :: g :: rest => (f, g) :: batches rest
  | _ => []

/-- The samples that the receiver makes of a frame: each that was sent, encoded and decoded. -/
def sounds (frame : PjFrame) : List Int16 :=
  (samples frame).map fun x => G711Alaw.decodeSample (G711Alaw.encodeSample x)

/-- What the receiver makes of some batches. -/
def played (bs : List (PjFrame × PjFrame)) : List (List Int16) := bs.flatMap fun b => [sounds b.1, sounds b.2]

theorem length_sounds (frame : PjFrame) : (sounds frame).length = FRAME_SAMPLES := by
  rw [sounds, List.length_map, length_samples]
  rfl

theorem sounds_eq (frame : PjFrame) : sounds frame = (encodeFrame frame).map G711Alaw.decodeSample := by
  rw [encodeFrame_eq, List.map_map]
  rfl

theorem length_played (bs : List (PjFrame × PjFrame)) : ∀ frame ∈ played bs, frame.length = FRAME_SAMPLES := by
  intro frame hf
  obtain ⟨b, -, hb⟩ := List.mem_flatMap.mp hf
  rcases List.mem_pair.mp hb with rfl | rfl
  · exact length_sounds _
  · exact length_sounds _

theorem payload_packets (ssrc : UInt32) : ∀ (act : List PjFrame) (k n : Nat),
    (packets ssrc k n act).map (·.payload) = (batches act).map fun b => encodeFrame b.1 ++ encodeFrame b.2
  | [], _, _ => rfl
  | [_], _, _ => rfl
  | f :: g :: rest, k, n => by
    rw [packets, batches, List.map_cons, List.map_cons, payload_packets ssrc rest]
    rfl

theorem played_flatten (bs : List (PjFrame × PjFrame)) :
    (played bs).flatten = (bs.flatMap fun b => encodeFrame b.1 ++ encodeFrame b.2).map G711Alaw.decodeSample := by
  induction bs with
  | nil => rfl
  | cons b bs ih =>
    rw [played, List.flatMap_cons, List.flatMap_cons, List.map_append, ← ih, List.map_append, List.flatten_append]
    simp [sounds_eq, played]

/-- Any packets built, in their order, carry as many batches, in theirs. -/
theorem batches_of_sublist {ok : Tx → TxAct → Prop} {tr : List TxEvent} {t : Tx} (h : machine.Run ok tr t)
    {pkts : List Bytes} (hsub : pkts.Sublist ((built tr).map RtpPacket.serialize)) :
    ∃ bs : List (PjFrame × PjFrame), bs.Sublist (batches (activeFrames tr)) ∧ bs.length = pkts.length ∧
      pkts.flatMap Rx.payloadOf = bs.flatMap fun b => encodeFrame b.1 ++ encodeFrame b.2 := by
  obtain ⟨-, pre, act, post, hb⟩ := run_batches h
  obtain ⟨ps, hps, rfl⟩ := List.sublist_map_iff.mp hsub
  have hpay : (ps.map (·.payload)).Sublist
      ((batches (activeFrames tr)).map fun b => encodeFrame b.1 ++ encodeFrame b.2) := by
    rw [activeFrames_eq hb, ← payload_packets t.ssrc_ act pre.length 0, ← hb.built]
    exact hps.map _
  obtain ⟨bs, hbs, hmap⟩ := List.sublist_map_iff.mp hpay
  refine ⟨bs, hbs, ?_, ?_⟩
  · simpa using (congrArg List.length hmap).symm
  · rw [List.flatMap_map, List.flatMap_congr fun p hp => payloadOf_built h (hps.subset hp)]
    simpa [List.flatMap_def] using congrArg List.flatten hmap

end Tx

namespace Link

section Runs
variable {l m : Link} {a : LinkAct} {tr es : List LinkEvent}

/-- A run of the link is one of its sender and one of its receiver, and the stream between them loses no byte. -/
theorem run_sides (h : machine.Run Any tr l) : Tx.machine.Run Any (txEvents tr) l.tx ∧
    Rx.machine.Run Any (rxEvents tr) l.rx ∧
      Tx.sentBytes (txEvents tr) = Rx.received (rxEvents tr) ++ l.wire := by
  refine h.invariant (I := fun tr l => Tx.machine.Run Any (txEvents tr) l.tx ∧ Rx.machine.Run Any (rxEvents tr) l.rx ∧
    Tx.sentBytes (txEvents tr) = Rx.received (rxEvents tr) ++ l.wire) ?_ ?_
  · rintro l ⟨ssrc, rfl⟩
    exact ⟨.init ⟨ssrc, rfl⟩, .init rfl, rfl⟩
  · intro tr l a m es ⟨htx, hrx, hwire⟩ _ hs
    rw [txEvents_append, rxEvents_append, Tx.sentBytes_append, Rx.received_append, hwire]
    obtain ⟨b, t, es', rfl, hb, rfl, rfl⟩ | ⟨b, wire, r, es', rfl, hd, hb, rfl, rfl⟩ := step_inv hs
    · rw [txEvents_tx, rxEvents_tx, List.append_nil]
      exact ⟨htx.step trivial hb, hrx, by simp [Rx.received]⟩
    · rw [txEvents_rx, rxEvents_rx, List.append_nil, deliver_eq hd hb]
      exact ⟨htx, hrx.step trivial hb, by simp [Tx.sentBytes]⟩

/-- The packets read are some of the packets built, in their order. -/
theorem packetsRead_sublist (h : machine.Run Any tr l) :
    (Rx.packetsRead (rxEvents tr)).Sublist ((Tx.built (txEvents tr)).map RtpPacket.serialize) := by
  obtain ⟨htx, hrx, hwire⟩ := run_sides h
  obtain ⟨-, hread, rest, hstream, -⟩ := Rx.run_framed hrx
  obtain ⟨unsent, hsent, -⟩ := Tx.run_wire htx
  have hsub : (Tx.dequeued (txEvents tr)).Sublist ((Tx.built (txEvents tr)).map RtpPacket.serialize) :=
    (DropQueue.popped_sublist (by decide) (Tx.run_dropQueue htx)).trans (Tx.enqueued_sublist htx)
  have hbytes : frames (Rx.packetsRead (rxEvents tr)) ++ rest ++ (l.wire ++ unsent) =
      frames (Tx.dequeued (txEvents tr)) := by
    rw [hsent, hwire, hstream]
    simp
  exact (frames_append_le hread (fun p hp => Tx.framable_built htx p (hsub.subset hp)) hbytes).sublist.trans hsub

/-- What the link keeps of the frames, whatever is lost. -/
structure LossyLaw (tr : List LinkEvent) (l : Link) (bs : List (PjFrame × PjFrame)) : Prop where
  /-- The batches that came through are some of those that were made, in order, one for each packet read. -/
  whole : bs.Sublist (Tx.batches (Tx.activeFrames (txEvents tr))) ∧ bs.length = (Rx.packetsRead (rxEvents tr)).length
  /-- At any time the receiver pushed the first of their frames. -/
  in_order : Rx.pushed (rxEvents tr) <+: Tx.played bs
  /-- Between two packets it pushed all of them, and holds no byte back. -/
  complete : Rx.pushing l.rx.thread = false → Rx.pushed (rxEvents tr) = Tx.played bs ∧ l.rx.rx_leftover_ = []

/-- The transport loses whole batches or nothing, for every schedule and every failure. -/
theorem lossy_law (h : machine.Run Any tr l) : ∃ bs, LossyLaw tr l bs := by
  obtain ⟨htx, hrx, -⟩ := run_sides h
  obtain ⟨bs, hbs, hlen, hpay⟩ := Tx.batches_of_sublist htx (packetsRead_sublist h)
  have hdec := Rx.run_decoded hrx
  have hplayed : (Rx.payloads (rxEvents tr)).map G711Alaw.decodeSample = (Tx.played bs).flatten := by
    rw [Tx.played_flatten, ← hpay]
    rfl
  have hframes : Rx.pushed (rxEvents tr) ++ Rx.toCome l.rx = Tx.played bs := by
    rw [hdec.frames, Rx.decodedFrames, hplayed, blocks_flatten (by decide) (Tx.length_played bs)]
  refine ⟨bs, ⟨hbs, hlen⟩, ⟨_, hframes⟩, fun hpush => ?_⟩
  rw [Rx.toCome_nil hpush, List.append_nil] at hframes
  refine ⟨hframes, ?_⟩
  -- Less than a frame is left over, and nothing as the frames are all that there is.
  have hwhole := hdec.whole hpush
  rw [hframes, hplayed, List.append_right_eq_self, List.map_eq_nil_iff] at hwhole
  exact hwhole

/-- A packet comes through, and the next one is still queued when the sender is stopped. -/
def stoppedRun : List LinkAct :=
  toneRun ++ [.tx (.putFrame Tx.toneFrame), .tx .putStop, .tx (.putFrame Tx.toneFrame), .tx .putStop, .tx .putEnqueue,
    .tx .stopStore, .tx .stopSection, .rx .rxHead, .rx .rxCall, .rx .rxFail]

theorem lossy_law_stopped : ∃ tr l, machine.Run Any tr l ∧ (Tx.batches (Tx.activeFrames (txEvents tr))).length = 2 ∧
    ∃ bs, LossyLaw tr l bs ∧ bs.length = 1 := by
  obtain ⟨tr, l, hrun, hp⟩ := exists_run machine { tx := { ssrc_ := 7 } } stoppedRun ⟨7, rfl⟩ (meets_any ..)
    (fun r => (Tx.batches (Tx.activeFrames (txEvents r.2))).length == 2 && (Rx.packetsRead (rxEvents r.2)).length == 1)
    (by decide +kernel)
  simp only [Bool.and_eq_true, beq_iff_eq] at hp
  obtain ⟨bs, hlaw⟩ := lossy_law hrun
  exact ⟨tr, l, hrun, hp.1, bs, hlaw, hlaw.whole.2.trans hp.2⟩

end Runs
end Link
end AudioMeet
