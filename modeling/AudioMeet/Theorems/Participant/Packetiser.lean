import AudioMeet.Theorems.Participant.TxStep
import AudioMeet.Theorems.RtpPacket
import Mathlib.Tactic.Ring

/-! The packetiser. The calls of `on_put_frame` that see the sender active are consecutive: the sender
    becomes active once, and once a later call sees it inactive it stays so. Two by two they make the
    packets, in order. -/

namespace AudioMeet.Tx
open Lib Machine

/-! ### What a run shows of the calls -/

def TxEvent.calls : TxEvent → List (PjFrame × Bool)
  | .call frame active => [(frame, active)]
  | _ => []

def TxEvent.packets : TxEvent → List RtpPacket
  | .built packet => [packet]
  | _ => []

/-- The calls of `on_put_frame` that returned or were seen active, numbered from 0. -/
def calls (tr : List TxEvent) : List (PjFrame × Bool) := tr.flatMap TxEvent.calls

/-- The packets built, numbered from 0. -/
def built (tr : List TxEvent) : List RtpPacket := tr.flatMap TxEvent.packets

@[simp] theorem calls_append (tr es : List TxEvent) : calls (tr ++ es) = calls tr ++ calls es :=
  List.flatMap_append

@[simp] theorem built_append (tr es : List TxEvent) : built (tr ++ es) = built tr ++ built es :=
  List.flatMap_append

/-! ### The packets of a list of frames -/

@[simp] theorem length_encodeFrame (frame : PjFrame) : (encodeFrame frame).length = 160 := by
  have hle := frame.size_le
  unfold encodeFrame
  split
  · rename_i h
    simp only [Bool.and_eq_true, beq_iff_eq, FRAME_SAMPLES] at h
    simp only [FRAME_SAMPLES, List.length_map, List.length_take]
    omega
  · simp [FRAME_SAMPLES]

/-- The samples that a frame is sent as: its own when it is audio of 160 samples, silence otherwise. -/
def samples (frame : PjFrame) : List Int16 :=
  if frame.audio = true ∧ frame.size / 2 = 160 then frame.buf.take 160 else List.replicate 160 0

theorem encodeFrame_eq (frame : PjFrame) : encodeFrame frame = (samples frame).map G711Alaw.encodeSample := by
  by_cases h : frame.audio = true ∧ frame.size / 2 = 160
  · rw [samples, if_pos h, encodeFrame, if_pos (by simp [h, FRAME_SAMPLES])]
    rfl
  · rw [samples, if_neg h, encodeFrame, if_neg (by simpa [FRAME_SAMPLES] using h), List.map_replicate]
    rfl

theorem length_samples (frame : PjFrame) : (samples frame).length = 160 := by
  rw [← List.length_map (f := G711Alaw.encodeSample), ← encodeFrame_eq, length_encodeFrame]

/-- Packet number `n` of a participant, made of call number `k` and the next one. -/
def packet (ssrc : UInt32) (k n : Nat) (f g : PjFrame) : RtpPacket :=
  { payload_type := 8, ssrc, sequence := UInt16.ofNat n, timestamp := UInt32.ofNat (160 * k)
    payload := encodeFrame f ++ encodeFrame g }

/-- The packets of consecutive frames, the first of which is call number `k`, from packet `n` on. -/
def packets (ssrc : UInt32) (k n : Nat) : List PjFrame → List RtpPacket
  | [] => []
  | [_] => []
  | f :: g :: rest => packet ssrc k n f g :: packets ssrc (k + 2) (n + 1) rest

/-- A frame that begins a batch makes no packet. -/
theorem packets_snoc_even {ssrc : UInt32} (f : PjFrame) : ∀ {act : List PjFrame} {k n : Nat},
    act.length % 2 = 0 → packets ssrc k n (act ++ [f]) = packets ssrc k n act
  | [], _, _, _ => rfl
  | [_], _, _, h => by simp at h
  | x :: y :: rest, k, n, h => by
    simp only [List.length_cons] at h
    simp only [List.cons_append, packets, @packets_snoc_even ssrc f rest (k + 2) (n + 1) (by omega)]

/-- A frame that completes a batch makes one packet, with the frame before it. -/
theorem packets_snoc_odd {ssrc : UInt32} (f g : PjFrame) : ∀ {act : List PjFrame} {k n : Nat},
    act.length % 2 = 0 → packets ssrc k n (act ++ [f] ++ [g]) =
      packets ssrc k n act ++ [packet ssrc (k + act.length) (n + act.length / 2) f g]
  | [], _, _, _ => rfl
  | [_], _, _, h => by simp at h
  | x :: y :: rest, k, n, h => by
    simp only [List.length_cons] at h
    simp only [List.cons_append, packets, @packets_snoc_odd ssrc f g rest (k + 2) (n + 1) (by omega)]
    rw [List.length_cons, List.length_cons, show k + 2 + rest.length = k + (rest.length + 1 + 1) by omega,
      show n + 1 + rest.length / 2 = n + (rest.length + 1 + 1) / 2 by omega]

theorem length_packets (ssrc : UInt32) : ∀ (act : List PjFrame) (k n : Nat),
    (packets ssrc k n act).length = act.length / 2
  | [], _, _ => rfl
  | [_], _, _ => by simp [packets]
  | _ :: _ :: rest, k, n => by
    simp only [packets, List.length_cons, length_packets ssrc rest]
    omega

theorem getElem?_packets {ssrc : UInt32} {k n i : Nat} {act : List PjFrame} {p : RtpPacket}
    (h : (packets ssrc k n act)[i]? = some p) :
    ∃ f g, act[2 * i]? = some f ∧ act[2 * i + 1]? = some g ∧ p = packet ssrc (k + 2 * i) (n + i) f g := by
  induction i generalizing k n act with
  | zero =>
    match act with
    | f :: g :: rest =>
      simp only [packets, List.getElem?_cons_zero, Option.some.injEq] at h
      exact ⟨f, g, rfl, rfl, h.symm⟩
    | [] => simp [packets] at h
    | [_] => simp [packets] at h
  | succ i ih =>
    match act with
    | f :: g :: rest =>
      simp only [packets, List.getElem?_cons_succ] at h
      obtain ⟨f', g', hf, hg, rfl⟩ := ih h
      refine ⟨f', g', ?_, ?_, ?_⟩
      · rw [show 2 * (i + 1) = 2 * i + 1 + 1 by ring]
        simpa using hf
      · rw [show 2 * (i + 1) + 1 = 2 * i + 1 + 1 + 1 by ring]
        simpa using hg
      · congr 1 <;> ring
    | [] => simp [packets] at h
    | [_] => simp [packets] at h

/-! ### The invariant -/

/-- No later call of `on_put_frame` sees the sender active. -/
def Closed (t : Tx) : Prop :=
  t.stop_flag_ = true ∨ (t.started = true ∧ t.tx_active_ = false ∧ ∀ frame, t.put ≠ .checkStop frame)

/-- The sender is active only after `start_tx_thread`. -/
def StartedFirst (t : Tx) : Prop :=
  (t.tx_active_ = true → t.started = true) ∧ ∀ frame, t.put = .checkStop frame → t.started = true

/-- The calls so far are inactive ones, then the active ones `act`, then inactive ones; `act` made the
    packets, and a frame left over from it waits in `tx_acc_` until a call sees the sender inactive. -/
structure Batches (tr : List TxEvent) (t : Tx) (pre act post : List PjFrame) : Prop where
  calls : calls tr = pre.map (·, false) ++ act.map (·, true) ++ post.map (·, false)
  post_nil : act = [] → post = []
  started : act ≠ [] → t.started = true
  closed : post ≠ [] → Closed t
  built : built tr = packets t.ssrc_ pre.length 0 act
  seq : t.tx_seq_ = UInt16.ofNat (act.length / 2)
  clock : t.tx_timestamp_ = UInt32.ofNat (160 * (Tx.calls tr).length)
  acc_post : post ≠ [] → t.tx_acc_ = []
  acc_even : post = [] → act.length % 2 = 0 → t.tx_acc_ = []
  acc_odd : post = [] → ∀ ini f, act = ini ++ [f] → ini.length % 2 = 0 →
    t.tx_acc_ = encodeFrame f ∧ t.tx_batch_ts_ = UInt32.ofNat (160 * (pre.length + ini.length))

/-- The fields that only `on_put_frame` writes. -/
structure SamePut (t u : Tx) : Prop where
  seq : u.tx_seq_ = t.tx_seq_
  clock : u.tx_timestamp_ = t.tx_timestamp_
  ssrc : u.ssrc_ = t.ssrc_
  acc : u.tx_acc_ = t.tx_acc_
  batch : u.tx_batch_ts_ = t.tx_batch_ts_

section Keep
variable {t u : Tx} {tr es : List TxEvent} {pre act post : List PjFrame}

/-- A step that leaves the packetiser alone keeps the invariant, if it opens nothing that was closed. -/
theorem Batches.keep (h : Batches tr t pre act post) (same : SamePut t u) (hcalls : Tx.calls es = [])
    (hbuilt : Tx.built es = []) (hstarted : t.started = true → u.started = true) (hclosed : Closed t → Closed u) :
    Batches (tr ++ es) u pre act post where
  calls := by rw [calls_append, hcalls, List.append_nil, h.calls]
  post_nil := h.post_nil
  started := fun ha => hstarted (h.started ha)
  closed := fun hp => hclosed (h.closed hp)
  built := by rw [built_append, hbuilt, List.append_nil, h.built, same.ssrc]
  seq := same.seq.trans h.seq
  clock := by rw [same.clock, h.clock, calls_append, hcalls, List.append_nil]
  acc_post := fun hp => same.acc.trans (h.acc_post hp)
  acc_even := fun hp he => same.acc.trans (h.acc_even hp he)
  acc_odd := fun hp ini f ha he => by
    rw [same.acc, same.batch]
    exact h.acc_odd hp ini f ha he

theorem clock_succ {n : Nat} : UInt32.ofNat (160 * n) + 160 = UInt32.ofNat (160 * (n + 1)) := by
  rw [Nat.mul_add, UInt32.ofNat_add]
  rfl

theorem seq_succ {n : Nat} : UInt16.ofNat n + 1 = UInt16.ofNat (n + 1) := by
  rw [UInt16.ofNat_add]
  rfl

/-- A call that sees the sender inactive comes before every active call, or closes. -/
theorem Batches.inactive (h : Batches tr t pre act post) (frame : PjFrame) (hclosed : act ≠ [] → Closed t.putInactive) :
    ∃ pre' post', Batches (tr ++ [.call frame false]) t.putInactive pre' act post' := by
  have hclock : t.putInactive.tx_timestamp_ = UInt32.ofNat (160 * (Tx.calls (tr ++ [.call frame false])).length) := by
    change t.tx_timestamp_ + 160 = _
    rw [h.clock, clock_succ]
    simp [Tx.calls, TxEvent.calls]
  have hcalls : Tx.calls (tr ++ [.call frame false]) = Tx.calls tr ++ [(frame, false)] := by
    simp [Tx.calls, TxEvent.calls]
  have hbuilt : Tx.built (tr ++ [.call frame false]) = Tx.built tr := by simp [Tx.built, TxEvent.packets]
  by_cases hact : act = []
  · have hpost := h.post_nil hact
    subst hact hpost
    refine ⟨pre ++ [frame], [], ?_, fun _ => rfl, h.started, absurd rfl, ?_, h.seq, hclock, fun _ => rfl,
      fun _ _ => rfl, fun _ ini f ha => by simp at ha⟩
    · rw [hcalls, h.calls]
      simp
    · rw [hbuilt, h.built]
      rfl
  · refine ⟨pre, post ++ [frame], ?_, fun ha => absurd ha hact, h.started, fun _ => hclosed hact, ?_, h.seq, hclock,
      fun _ => rfl, fun hp => by simp at hp, fun hp => by simp at hp⟩
    · rw [hcalls, h.calls]
      simp
    · rw [hbuilt, h.built]
      rfl

theorem even_or_snoc {α : Type} (l : List α) :
    l.length % 2 = 0 ∨ ∃ ini x, l = ini ++ [x] ∧ ini.length % 2 = 0 := by
  rcases List.eq_nil_or_concat l with rfl | ⟨ini, x, rfl⟩
  · exact Or.inl rfl
  · rw [List.concat_eq_append, List.length_append, List.length_singleton]
    by_cases h : ini.length % 2 = 0
    · exact Or.inr ⟨ini, x, rfl, h⟩
    · exact Or.inl (by omega)

/-- A call that sees the sender active joins the batch before it, or begins one. -/
theorem Batches.active (h : Batches tr t pre act post) {frame : PjFrame} (hopen : ¬ Closed t)
    (hstarted : t.started = true) (hb : (t.putAccumulate frame).putBuild = (u, es)) :
    Batches (tr ++ .call frame true :: es) u pre (act ++ [frame]) [] := by
  have hpost : post = [] := Classical.byContradiction fun hp => hopen (h.closed hp)
  subst hpost
  have hlen : (Tx.calls tr).length = pre.length + act.length := by simp [h.calls]
  have hclock : t.tx_timestamp_ + 160 = UInt32.ofNat (160 * ((Tx.calls tr).length + 1)) := by
    rw [h.clock, clock_succ]
  have hne : act ++ [frame] ≠ [] := by simp
  rcases even_or_snoc act with heven | ⟨ini, f, rfl, hini⟩
  · -- The frame begins a batch.
    have hacc : t.tx_acc_ = [] := h.acc_even rfl heven
    have hlt : (t.putAccumulate frame).tx_acc_.length < TX_BATCH_FRAMES * FRAME_SAMPLES := by
      simp [putAccumulate, hacc, TX_BATCH_FRAMES, FRAME_SAMPLES]
    obtain ⟨-, rfl, rfl⟩ | ⟨hle, -, -⟩ := Step.putBuild_inv hb
    · have hcalls : Tx.calls (tr ++ [.call frame true]) = Tx.calls tr ++ [(frame, true)] := by
        simp [Tx.calls, TxEvent.calls]
      refine ⟨?_, fun ha => absurd ha hne, fun _ => hstarted, absurd rfl, ?_, ?_, ?_, absurd rfl, ?_, ?_⟩
      · rw [hcalls, h.calls]
        simp
      · rw [packets_snoc_even frame heven]
        simpa [Tx.built, TxEvent.packets, putAccumulate] using h.built
      · rw [List.length_append, List.length_singleton, show (act.length + 1) / 2 = act.length / 2 by omega]
        exact h.seq
      · rw [hcalls, List.length_append, List.length_singleton]
        exact hclock
      · intro _ he
        rw [List.length_append, List.length_singleton] at he
        omega
      · intro _ ini f ha _
        obtain ⟨rfl, hf⟩ := List.append_inj' ha rfl
        simp only [List.cons.injEq, and_true] at hf
        subst hf
        simp [putAccumulate, hacc, h.clock, hlen]
    · omega
  · -- The frame completes one.
    obtain ⟨hacc, hts⟩ := h.acc_odd rfl ini f rfl hini
    obtain ⟨hlt, -, -⟩ | ⟨-, rfl, rfl⟩ := Step.putBuild_inv hb
    · simp [putAccumulate, hacc, TX_BATCH_FRAMES, FRAME_SAMPLES] at hlt
    · have hcalls : Tx.calls (tr ++ .call frame true :: [.built (t.putAccumulate frame).putPacket]) =
          Tx.calls tr ++ [(frame, true)] := by simp [Tx.calls, TxEvent.calls]
      have hseq : t.tx_seq_ = UInt16.ofNat (ini.length / 2) := by
        rw [h.seq, List.length_append, List.length_singleton, show (ini.length + 1) / 2 = ini.length / 2 by omega]
      have hpkt : (t.putAccumulate frame).putPacket =
          packet t.ssrc_ (pre.length + ini.length) (ini.length / 2) f frame := by
        have hnil : encodeFrame f ≠ [] := fun hnil => by simpa using congrArg List.length hnil
        simp only [putPacket, putAccumulate, packet, hacc, hts, hseq, List.isEmpty_iff, hnil, if_false]
      have hbuilt : Tx.built tr = packets t.ssrc_ pre.length 0 ini := by
        rw [h.built, packets_snoc_even f hini]
      refine ⟨?_, fun ha => absurd ha hne, fun _ => hstarted, absurd rfl, ?_, ?_, ?_, absurd rfl, fun _ _ => rfl, ?_⟩
      · rw [hcalls, h.calls]
        simp
      · rw [built_append, hbuilt, hpkt]
        exact (packets_snoc_odd f frame hini).symm ▸ by simp [Tx.built, TxEvent.packets, putAccumulate]
      · change t.tx_seq_ + 1 = _
        rw [hseq, seq_succ]
        simp only [List.length_append, List.length_singleton]
        congr 1
        omega
      · rw [hcalls, List.length_append, List.length_singleton]
        exact hclock
      · intro _ ini' f' ha he
        obtain ⟨rfl, -⟩ := List.append_inj' ha rfl
        rw [List.length_append, List.length_singleton] at he
        omega

end Keep

/-! ### Runs -/

/-- A step that decides no call of `on_put_frame`. -/
structure Quiet (t u : Tx) (es : List TxEvent) : Prop where
  same : SamePut t u
  calls : calls es = []
  built : built es = []
  started : t.started = true → u.started = true
  stop : t.stop_flag_ = true → u.stop_flag_ = true
  active : u.tx_active_ = true → t.tx_active_ = true ∨ (t.started = false ∧ u.started = true)
  put : ∀ frame, u.put = .checkStop frame → t.put = .checkStop frame ∨ t.tx_active_ = true

section Steps
variable {t u : Tx} {a : TxAct} {tr es : List TxEvent}

theorem SamePut.notify (h : SamePut t u) : SamePut t u.notify := by
  rcases Step.notify_eq u with hn | ⟨-, hn⟩ <;> rw [hn]
  · exact h
  · exact ⟨h.seq, h.clock, h.ssrc, h.acc, h.batch⟩

/-- A step decides no call, or a call sees the sender inactive at one of its two tests, or it sees it
    active. -/
theorem step_cases (hs : step t a = some (u, es)) :
    Quiet t u es ∨
    (∃ frame, ((t.put = .idle ∧ t.tx_active_ = false) ∨ (t.put = .checkStop frame ∧ t.stop_flag_ = true)) ∧
      u = t.putInactive ∧ es = [.call frame false]) ∨
    (∃ frame es', t.put = .checkStop frame ∧ t.stop_flag_ = false ∧ (t.putAccumulate frame).putBuild = (u, es') ∧
      es = .call frame true :: es') := by
  have same : SamePut t t := ⟨rfl, rfl, rfl, rfl, rfl⟩
  cases a with
  | putFrame frame =>
    obtain ⟨hp, ⟨ha, rfl, rfl⟩ | ⟨ha, rfl, rfl⟩⟩ := Step.putFrame_inv hs
    · exact Or.inl ⟨⟨rfl, rfl, rfl, rfl, rfl⟩, rfl, rfl, id, id, Or.inl, fun _ _ => Or.inr ha⟩
    · exact Or.inr (Or.inl ⟨frame, Or.inl ⟨hp, ha⟩, rfl, rfl⟩)
  | putStop =>
    obtain ⟨frame, hp, ⟨hst, rfl, rfl⟩ | ⟨hst, es', hb, rfl⟩⟩ := Step.putStop_inv hs
    · exact Or.inr (Or.inl ⟨frame, Or.inr ⟨hp, hst⟩, rfl, rfl⟩)
    · exact Or.inr (Or.inr ⟨frame, es', hp, hst, hb, rfl⟩)
  | putEnqueue =>
    obtain ⟨bytes, hp, ⟨-, rfl, rfl⟩ | ⟨-, -, -, rfl, rfl⟩ | ⟨-, -, -, rfl, rfl⟩⟩ := Step.putEnqueue_inv hs
    · exact Or.inl ⟨⟨rfl, rfl, rfl, rfl, rfl⟩, rfl, rfl, id, id, Or.inl, by simp⟩
    · exact Or.inl ⟨SamePut.notify ⟨rfl, rfl, rfl, rfl, rfl⟩, rfl, rfl, by simp, by simp, by simp_all, by simp⟩
    · exact Or.inl ⟨SamePut.notify ⟨rfl, rfl, rfl, rfl, rfl⟩, rfl, rfl, by simp, by simp, by simp_all, by simp⟩
  | startTx =>
    obtain ⟨hstarted, rfl, ⟨-, rfl⟩ | ⟨-, rfl⟩⟩ := Step.startTx_inv hs
    · exact Or.inl ⟨⟨rfl, rfl, rfl, rfl, rfl⟩, rfl, rfl, fun _ => rfl, id, Or.inl, fun _ => Or.inl⟩
    · exact Or.inl ⟨⟨rfl, rfl, rfl, rfl, rfl⟩, rfl, rfl, fun _ => rfl, id, fun _ => Or.inr ⟨hstarted, rfl⟩,
        fun _ => Or.inl⟩
  | txHead =>
    obtain ⟨-, rfl, rfl⟩ := Step.txHead_inv hs
    exact Or.inl ⟨⟨rfl, rfl, rfl, rfl, rfl⟩, rfl, rfl, id, id, Or.inl, fun _ => Or.inl⟩
  | txLock =>
    obtain ⟨-, ⟨-, rfl, rfl⟩ | ⟨-, -, rfl, rfl⟩ | ⟨-, pkt, -, rfl, hu⟩⟩ := Step.txLock_inv hs
    · exact Or.inl ⟨⟨rfl, rfl, rfl, rfl, rfl⟩, rfl, rfl, id, id, Or.inl, fun _ => Or.inl⟩
    · exact Or.inl ⟨⟨rfl, rfl, rfl, rfl, rfl⟩, rfl, rfl, id, id, Or.inl, fun _ => Or.inl⟩
    · rw [hu]
      exact Or.inl ⟨⟨rfl, rfl, rfl, rfl, rfl⟩, rfl, rfl, id, id, Or.inl, fun _ => Or.inl⟩
  | txWake =>
    obtain ⟨-, rfl, rfl⟩ := Step.txWake_inv hs
    exact Or.inl ⟨⟨rfl, rfl, rfl, rfl, rfl⟩, rfl, rfl, id, id, Or.inl, fun _ => Or.inl⟩
  | txSend =>
    obtain ⟨_, _, -, -, rfl, rfl⟩ := Step.txSend_inv hs
    exact Or.inl ⟨⟨rfl, rfl, rfl, rfl, rfl⟩, rfl, rfl, id, id, Or.inl, fun _ => Or.inl⟩
  | txSent w =>
    obtain ⟨_, _, -, -, -, rfl, rfl⟩ := Step.txSent_inv hs
    exact Or.inl ⟨⟨rfl, rfl, rfl, rfl, rfl⟩, rfl, rfl, id, id, Or.inl, fun _ => Or.inl⟩
  | txFail k =>
    obtain ⟨_, _, -, rfl, rfl⟩ := Step.txFail_inv hs
    exact Or.inl ⟨⟨rfl, rfl, rfl, rfl, rfl⟩, rfl, rfl, id, id, Or.inl, fun _ => Or.inl⟩
  | txWritten =>
    obtain ⟨rfl, ⟨_, -, rfl⟩ | ⟨-, rfl⟩⟩ := Step.txWritten_inv hs <;>
      exact Or.inl ⟨⟨rfl, rfl, rfl, rfl, rfl⟩, rfl, rfl, id, id, Or.inl, fun _ => Or.inl⟩
  | txCleanup =>
    obtain ⟨-, rfl, rfl⟩ := Step.txCleanup_inv hs
    exact Or.inl ⟨⟨rfl, rfl, rfl, rfl, rfl⟩, rfl, rfl, id, id, by simp, fun _ => Or.inl⟩
  | stopStore =>
    obtain ⟨rfl, rfl⟩ := Step.stopStore_inv hs
    exact Or.inl ⟨⟨rfl, rfl, rfl, rfl, rfl⟩, rfl, rfl, id, fun _ => rfl, Or.inl, fun _ => Or.inl⟩
  | stopSection =>
    obtain ⟨-, rfl, rfl⟩ := Step.stopSection_inv hs
    exact Or.inl ⟨SamePut.notify ⟨rfl, rfl, rfl, rfl, rfl⟩, rfl, rfl, by simp, by simp, by simp,
      by simpa using fun _ => Or.inl⟩

theorem Quiet.closed (h : Quiet t u es) (hc : Closed t) : Closed u := by
  rcases hc with hst | ⟨hs, ha, hp⟩
  · exact Or.inl (h.stop hst)
  · refine Or.inr ⟨h.started hs, ?_, fun frame hu => ?_⟩
    · rw [← Bool.not_eq_true]
      intro hu
      rcases h.active hu with hu | ⟨hu, -⟩
      · rw [ha] at hu; cases hu
      · rw [hs] at hu; cases hu
    · rcases h.put frame hu with hu | hu
      · exact hp frame hu
      · rw [ha] at hu; cases hu

theorem Quiet.startedFirst (h : Quiet t u es) (hf : StartedFirst t) : StartedFirst u := by
  refine ⟨fun hu => ?_, fun frame hu => ?_⟩
  · rcases h.active hu with hu | ⟨-, hu⟩
    · exact h.started (hf.1 hu)
    · exact hu
  · rcases h.put frame hu with hu | hu
    · exact h.started (hf.2 frame hu)
    · exact h.started (hf.1 hu)

theorem putBuild_fields (hb : t.putBuild = (u, es)) :
    u.started = t.started ∧ u.tx_active_ = t.tx_active_ ∧ u.stop_flag_ = t.stop_flag_ ∧
      ∀ frame, u.put ≠ .checkStop frame := by
  obtain ⟨-, rfl, -⟩ | ⟨-, rfl, -⟩ := Step.putBuild_inv hb <;> simp

/-- Every run splits the calls of `on_put_frame` into batches. -/
theorem run_batches {ok : Tx → TxAct → Prop} (h : machine.Run ok tr t) :
    StartedFirst t ∧ ∃ pre act post, Batches tr t pre act post := by
  refine h.invariant (I := fun tr t => StartedFirst t ∧ ∃ pre act post, Batches tr t pre act post) ?_ ?_
  · rintro t ⟨ssrc, rfl⟩
    refine ⟨⟨by simp, by simp⟩, [], [], [], ?_⟩
    exact ⟨rfl, fun _ => rfl, absurd rfl, absurd rfl, rfl, rfl, rfl, absurd rfl, fun _ _ => rfl,
      fun _ ini f ha => by simp at ha⟩
  · rintro tr t a u es ⟨hf, pre, act, post, hb⟩ - hs
    rcases step_cases hs with hq | ⟨frame, hcase, rfl, rfl⟩ | ⟨frame, es', hp, hst, hbuild, rfl⟩
    · exact ⟨hq.startedFirst hf, pre, act, post, hb.keep hq.same hq.calls hq.built hq.started hq.closed⟩
    · refine ⟨⟨hf.1, by simp [putInactive]⟩, ?_⟩
      obtain ⟨pre', post', hb'⟩ := hb.inactive frame fun hact => by
        rcases hcase with ⟨-, ha⟩ | ⟨-, hst⟩
        · exact Or.inr ⟨hb.started hact, ha, by simp [putInactive]⟩
        · exact Or.inl hst
      exact ⟨pre', act, post', hb'⟩
    · have hstarted := hf.2 frame hp
      have hopen : ¬ Closed t := by
        rintro (h1 | ⟨-, -, h1⟩)
        · rw [hst] at h1; cases h1
        · exact h1 frame hp
      obtain ⟨h1, h2, -, h4⟩ := putBuild_fields hbuild
      exact ⟨⟨fun _ => h1 ▸ hstarted, fun f hu => absurd hu (h4 f)⟩, pre, act ++ [frame], [],
        hb.active hopen hstarted hbuild⟩

end Steps
end AudioMeet.Tx
