import AudioMeet.Theorems.Participant.ReceiveBuffer
import AudioMeet.Theorems.Participant.SendQueue

/-! How old the audio in the two buffers of a participant can be. A packet waits in `send_queue_` for a second at most,
    however long `send` blocks, and a frame in `rx_buf_` for fifty calls of `on_get_frame`. -/

namespace AudioMeet
open Lib Machine

namespace Tx
variable {ok : Tx → TxAct → Prop} {t u : Tx} {a : TxAct} {tr es : List TxEvent}

/-- While the sender is active and not stopped, every packet built was enqueued or is about to be, and then
    the next batch did not begin. -/
structure Intact (tr : List TxEvent) (t : Tx) : Prop where
  enqueued : t.stop_flag_ = false → t.tx_active_ = true →
    (built tr).length = (Tx.enqueued tr).length + (pending t.put).length
  acc : pending t.put ≠ [] → t.tx_acc_ = []

/-- A step that neither builds nor enqueues, and does not make the sender active. -/
theorem Intact.keep (h : Intact tr t) (hb : built es = []) (he : Tx.enqueued es = [])
    (hput : pending u.put = pending t.put) (hacc : u.tx_acc_ = t.tx_acc_) (hstop : t.stop_flag_ = true → u.stop_flag_ = true)
    (hactive : u.tx_active_ = true → t.tx_active_ = true) : Intact (tr ++ es) u where
  enqueued hs ha := by
    rw [built_append, enqueued_append, hb, he, List.append_nil, List.append_nil, hput]
    exact h.enqueued (Bool.eq_false_iff.mpr fun ht => by rw [hstop ht] at hs; cases hs) (hactive ha)
  acc hp := hacc.trans (h.acc (hput ▸ hp))

theorem run_inOrder (h : machine.Run ok tr t) : InOrder tr t := by
  refine h.invariant (I := InOrder) ?_ fun _ _ _ _ _ h _ hs => step_inOrder h hs
  rintro t ⟨ssrc, rfl⟩
  exact List.nil_sublist _

/-- Nothing was built before `start_tx_thread`. -/
theorem unstarted (h : machine.Run ok tr t) (ht : t.started = false) :
    built tr = [] ∧ Tx.enqueued tr = [] ∧ pending t.put = [] := by
  obtain ⟨-, pre, act, post, hb⟩ := run_batches h
  have hact : act = [] := by
    by_contra hne
    rw [hb.started hne] at ht
    cases ht
  have hbuilt : built tr = [] := by rw [hb.built, hact]; rfl
  have hin : Tx.enqueued tr ++ pending t.put = [] := by
    refine List.sublist_nil.mp ?_
    simpa [InOrder, hbuilt] using run_inOrder h
  exact ⟨hbuilt, List.append_eq_nil_iff.mp hin⟩

theorem step_intact (hrun : machine.Run ok tr t) (h : Intact tr t) (hs : step t a = some (u, es)) :
    Intact (tr ++ es) u := by
  cases a with
  | putFrame frame =>
    obtain ⟨hp, ⟨-, rfl, rfl⟩ | ⟨ha, rfl, rfl⟩⟩ := Step.putFrame_inv hs
    · exact h.keep rfl rfl (by rw [hp]; rfl) rfl id id
    · exact ⟨fun _ hu => absurd (hu.symm.trans ha) Bool.true_eq_false.mp, fun _ => rfl⟩
  | putStop =>
    obtain ⟨frame, hp, ⟨hst, rfl, rfl⟩ | ⟨-, es', hb, rfl⟩⟩ := Step.putStop_inv hs
    · exact ⟨fun hu _ => absurd (hst.symm.trans hu) Bool.true_eq_false.mp, fun _ => rfl⟩
    · have hold := h.enqueued
      rw [hp] at hold
      obtain ⟨-, rfl, rfl⟩ | ⟨-, rfl, rfl⟩ := Step.putBuild_inv hb
      · refine ⟨fun hst ha => ?_, fun hne => absurd rfl hne⟩
        simpa [built, TxEvent.packets, Tx.enqueued, queueEvents, TxEvent.queue, pending] using hold hst ha
      · refine ⟨fun hst ha => ?_, fun _ => rfl⟩
        have hlen := hold hst ha
        simpa [built, TxEvent.packets, Tx.enqueued, queueEvents, TxEvent.queue, DropQueue.entered, pending] using hlen
  | putEnqueue =>
    obtain ⟨bytes, hp, ⟨hoff, rfl, rfl⟩ | ⟨ha, hst, -, rfl, rfl⟩ | ⟨ha, hst, -, rfl, rfl⟩⟩ := Step.putEnqueue_inv hs
    · refine ⟨fun hst ha => ?_, fun hne => absurd rfl hne⟩
      rcases hoff with hoff | hoff
      · exact absurd (ha.symm.trans hoff) Bool.true_eq_false.mp
      · exact absurd (hoff.symm.trans hst) Bool.true_eq_false.mp
    all_goals
      have hold := h.enqueued hst ha
      rw [hp] at hold
      refine ⟨fun _ _ => ?_, fun hne => absurd (by rw [Step.notify_put]; rfl) hne⟩
      rw [Step.notify_put, built_append, enqueued_append, List.length_append, List.length_append, hold]
      rfl
  | startTx =>
    obtain ⟨hstarted, rfl, -⟩ := Step.startTx_inv hs
    obtain ⟨hbuilt, henq, hpend⟩ := unstarted hrun hstarted
    have hput : u.put = t.put := by
      obtain ⟨-, -, ⟨-, rfl⟩ | ⟨-, rfl⟩⟩ := Step.startTx_inv hs <;> rfl
    rw [List.append_nil]
    refine ⟨fun _ _ => ?_, fun hne => absurd (hput ▸ hpend) hne⟩
    rw [hput, hbuilt, henq, hpend]
    rfl
  | txHead =>
    obtain ⟨-, rfl, rfl⟩ := Step.txHead_inv hs
    exact h.keep rfl rfl rfl rfl id id
  | txLock =>
    obtain ⟨-, ⟨-, rfl, rfl⟩ | ⟨-, -, rfl, rfl⟩ | ⟨-, pkt, -, rfl, hu⟩⟩ := Step.txLock_inv hs
    · exact h.keep rfl rfl rfl rfl id id
    · exact h.keep rfl rfl rfl rfl id id
    · rw [hu]
      exact h.keep rfl rfl rfl rfl id id
  | txWake =>
    obtain ⟨-, rfl, rfl⟩ := Step.txWake_inv hs
    exact h.keep rfl rfl rfl rfl id id
  | txSend =>
    obtain ⟨_, _, -, -, rfl, rfl⟩ := Step.txSend_inv hs
    exact h.keep rfl rfl rfl rfl id id
  | txSent w =>
    obtain ⟨_, _, -, -, -, rfl, rfl⟩ := Step.txSent_inv hs
    exact h.keep rfl rfl rfl rfl id id
  | txFail k =>
    obtain ⟨_, _, -, rfl, rfl⟩ := Step.txFail_inv hs
    exact h.keep rfl rfl rfl rfl id id
  | txWritten =>
    obtain ⟨rfl, ⟨_, -, rfl⟩ | ⟨-, rfl⟩⟩ := Step.txWritten_inv hs <;> exact h.keep rfl rfl rfl rfl id id
  | txCleanup =>
    obtain ⟨-, rfl, rfl⟩ := Step.txCleanup_inv hs
    exact h.keep rfl rfl rfl rfl id fun hu => absurd hu Bool.false_ne_true
  | stopStore =>
    obtain ⟨rfl, rfl⟩ := Step.stopStore_inv hs
    exact h.keep rfl rfl rfl rfl (fun _ => rfl) id
  | stopSection =>
    obtain ⟨-, rfl, rfl⟩ := Step.stopSection_inv hs
    refine h.keep rfl rfl (by rw [Step.notify_put]) ?_ (by simp) (by simp)
    rcases Step.notify_eq { t with tx_active_ := false, send_queue_ := [] } with hn | ⟨-, hn⟩ <;> rw [hn]

theorem run_intact (h : machine.Run ok tr t) : Intact tr t := by
  induction h with
  | init hinit =>
    obtain ⟨ssrc, rfl⟩ := hinit
    exact ⟨fun _ ha => absurd ha Bool.false_ne_true, fun hne => absurd rfl hne⟩
  | step hrun _ hs ih => exact step_intact hrun ih hs

/-- The packets built are those that left the queue, those in it and the one that is about to enter. -/
theorem run_built (h : machine.Run ok tr t) (hstop : t.stop_flag_ = false) (hactive : t.tx_active_ = true) :
    (built tr).map RtpPacket.serialize = (left tr).map Prod.fst ++ t.send_queue_ ++ pending t.put := by
  have hlen := (run_intact h).enqueued hstop hactive
  rw [← run_accounted h]
  refine ((run_inOrder h).eq_of_length ?_).symm
  rw [List.length_append, List.length_map]
  exact hlen.symm

/-- A call that is about to put a packet into the queue left no frame behind. -/
theorem Batches.even {pre act : List PjFrame} (hb : Batches tr t pre act []) (hacc : t.tx_acc_ = []) :
    act.length % 2 = 0 := by
  rcases even_or_snoc act with he | ⟨ini, f, rfl, hini⟩
  · exact he
  · have hlen := congrArg List.length (hb.acc_odd rfl ini f rfl hini).1
    rw [hacc, length_encodeFrame] at hlen
    cases hlen

/-- What waits in `send_queue_` of a participant that was not stopped ended a second ago at most, by the clock of
    `on_put_frame` at 8000 samples a second. -/
theorem send_queue_is_fresh (h : machine.Run ok tr t) (hstop : t.stop_flag_ = false) {bytes : Bytes}
    (hmem : bytes ∈ t.send_queue_) :
    ∃ p ∈ built tr, bytes = p.serialize ∧ (t.tx_timestamp_ - (p.timestamp + 320)).toNat ≤ 8000 := by
  have hactive : t.tx_active_ = true := by
    rw [← Bool.not_eq_false]
    intro hf
    rw [(run_activity h).queue hf] at hmem
    cases hmem
  obtain ⟨-, pre, act, post, hb⟩ := run_batches h
  have hpost : post = [] := by
    by_contra hne
    rcases hb.closed hne with hs | ⟨-, hf, -⟩
    · exact absurd (hs.symm.trans hstop) Bool.true_eq_false.mp
    · exact absurd (hactive.symm.trans hf) Bool.true_eq_false.mp
  subst hpost
  -- The packet is number `i`, and at most 25 packets were built from it on.
  have hall := run_built h hstop hactive
  obtain ⟨j, hj, rfl⟩ := List.getElem_of_mem hmem
  have hi : ((built tr).map RtpPacket.serialize)[(left tr).length + j]? = some t.send_queue_[j] := by
    rw [hall, List.append_assoc, List.getElem?_append_right (by simp), List.length_map, Nat.add_sub_cancel_left,
      List.getElem?_append_left hj, List.getElem?_eq_getElem hj]
  rw [List.getElem?_map, Option.map_eq_some_iff] at hi
  obtain ⟨p, hp, hser⟩ := hi
  refine ⟨p, List.mem_of_getElem? hp, hser.symm, ?_⟩
  have hlen := congrArg List.length hall
  rw [List.length_map, List.length_append, List.length_append, List.length_map, hb.built, length_packets] at hlen
  have hcap := DropQueue.length_le (by decide) (run_dropQueue h)
  have hage : act.length ≤ 2 * ((left tr).length + j) + 52 := by
    by_cases hpend : pending t.put = []
    · rw [hpend, List.length_nil] at hlen
      simp only [MAX_SEND_QUEUE_PACKETS] at hcap
      omega
    · have heven := hb.even ((run_intact h).acc hpend)
      have hone : (pending t.put).length ≤ 1 := by
        cases t.put <;> simp [pending]
      simp only [MAX_SEND_QUEUE_PACKETS] at hcap
      omega
  -- Its two frames are the calls `2 * i` and `2 * i + 1` of the active ones.
  rw [hb.built] at hp
  obtain ⟨f, g, -, hg, rfl⟩ := getElem?_packets hp
  have hle : 2 * ((left tr).length + j) + 1 < act.length := (List.getElem?_eq_some_iff.mp hg).1
  have hcalls : (calls tr).length = pre.length + act.length := by rw [hb.calls]; simp
  have hend : ∀ k : Nat, UInt32.ofNat (160 * k) + 320 = UInt32.ofNat (160 * (k + 2)) := fun k => by
    rw [Nat.mul_add, UInt32.ofNat_add]
    rfl
  change (_ - (UInt32.ofNat _ + 320)).toNat ≤ _
  rw [hb.clock, hcalls, hend, ← UInt32.ofNat_sub (by omega)]
  refine (UInt32.toNat_ofNat_of_lt' ?_).trans_le ?_ <;> (try simp only [UInt32.size]) <;> omega

theorem send_queue_is_fresh_tone : ∃ tr t bytes, machine.Run Any tr t ∧ bytes ∈ t.send_queue_ ∧
    ∃ p ∈ built tr, bytes = p.serialize ∧ (t.tx_timestamp_ - (p.timestamp + 320)).toNat ≤ 8000 := by
  obtain ⟨tr, t, hrun, hp⟩ := exists_run machine { ssrc_ := 7 } (toneRun.take 8) ⟨7, rfl⟩ (meets_any _ _ _)
    (fun r => r.1.send_queue_.length == 1 && !r.1.stop_flag_) (by decide +kernel)
  simp only [Bool.and_eq_true, beq_iff_eq, Bool.not_eq_true'] at hp
  obtain ⟨bytes, hbytes⟩ := List.exists_mem_of_length_pos (l := t.send_queue_) (by omega)
  exact ⟨tr, t, bytes, hrun, hbytes, send_queue_is_fresh hrun hp.2 hbytes⟩

end Tx

namespace Rx
variable {ok : Rx → RxAct → Prop} {r : Rx} {tr : List RxEvent}

/-- The frames that `on_get_frame` gave to the bridge, silence among them. -/
def outputs (tr : List RxEvent) : List (List Int16) :=
  tr.flatMap fun
    | .output frame _ => [frame]
    | _ => []

/-- Every frame given to the bridge was buffered, if no call found the buffer empty. -/
theorem outputs_delivered : ∀ {tr : List RxEvent}, (∀ frame, .output frame false ∉ tr) → outputs tr = delivered tr
  | [], _ => rfl
  | e :: tr, h => by
    have ih : outputs tr = delivered tr := outputs_delivered fun frame hm => h frame (List.mem_cons_of_mem _ hm)
    simp only [outputs, delivered, List.flatMap_cons] at ih ⊢
    rw [ih]
    cases e with
    | output frame popped =>
      cases popped with
      | true => rfl
      | false => exact absurd List.mem_cons_self (h frame)
    | _ => rfl

/-- A frame has left `rx_buf_`, output or dropped, once fifty calls of `on_get_frame` followed it. -/
theorem played_in_time (h : machine.Run ok tr r) {before after : List RxEvent} {frame : List Int16}
    (hsplit : tr = before ++ .pushed frame :: after) (hcalls : MAX_RX_BUF_FRAMES ≤ (outputs after).length) :
    ∃ fate, (left tr)[(pushed before).length]? = some (frame, fate) ∧ fate ≠ .cleared := by
  have hone : ∀ es, pushed (before ++ .pushed frame :: es) = pushed before ++ frame :: pushed es := fun es =>
    pushed_append before _
  have hleft : (pushed before).length < (left tr).length := by
    by_cases hsilent : ∃ silent, .output silent false ∈ after
    · -- A call that found nothing shows that all that was pushed before it had left.
      obtain ⟨silent, hm⟩ := hsilent
      obtain ⟨a₁, a₂, rfl⟩ := List.append_of_mem hm
      have htr : tr = before ++ .pushed frame :: a₁ ++ .output silent false :: a₂ := by simp [hsplit]
      obtain ⟨hnil, -, -⟩ | ⟨_, -, hpopped⟩ := run_serves h _ silent false a₂ htr
      · have hle := List.drop_eq_nil_iff.mp hnil
        rw [hone, List.length_append, List.length_cons] at hle
        rw [htr, left_append, List.length_append]
        omega
      · cases hpopped
    · have hevents : queueEvents tr = queueEvents before ++ .pushed frame :: queueEvents after := by
        rw [hsplit, queueEvents_append]
        rfl
      have hq := DropQueue.length_popped_lt (by decide) (run_dropQueue h) hevents
      rw [entered_queueEvents, popped_queueEvents, ← outputs_delivered fun silent hm => hsilent ⟨silent, hm⟩] at hq
      change _ < (left tr).length + _ at hq
      omega
  have hall := run_accounted h
  have hget : ((left tr).map Prod.fst)[(pushed before).length]? = some frame := by
    have hin : (pushed before).length < ((left tr).map Prod.fst).length := by simpa using hleft
    have happend : ((left tr).map Prod.fst ++ r.rx_buf_)[(pushed before).length]? = _ := List.getElem?_append_left hin
    rw [← happend, ← hall, hsplit, hone, List.getElem?_append_right (Nat.le_refl _), Nat.sub_self]
    rfl
  rw [List.getElem?_map, Option.map_eq_some_iff] at hget
  obtain ⟨⟨_, fate⟩, hx, rfl⟩ := hget
  refine ⟨fate, hx, fun hf => ?_⟩
  rcases fate_left (List.mem_of_getElem? hx) with hpopped | ⟨_, _, hdropped, -⟩
  · cases hpopped.symm.trans hf
  · cases hdropped.symm.trans hf

theorem played_in_time_fifty : ∃ tr r frame, machine.Run Any tr r ∧
    ∃ fate, (left tr)[0]? = some (frame, fate) ∧ fate ≠ .cleared := by
  obtain ⟨tr, r, hrun, hp⟩ := exists_run machine {}
    (packetOf (List.replicate 160 0xD5) ++ [.rxPush] ++ List.replicate 50 .getFrame) rfl (meets_any _ _ _)
    (fun r => (pushed (r.2.take 3)).length == 0 && (pushed ((r.2.drop 3).take 1)).length == 1 &&
      decide (MAX_RX_BUF_FRAMES ≤ (outputs ((r.2.drop 3).drop 1)).length)) (by decide +kernel)
  simp only [Bool.and_eq_true, beq_iff_eq, decide_eq_true_eq] at hp
  obtain ⟨⟨hnone, hone⟩, hcalls⟩ := hp
  have htr := (List.take_append_drop 3 tr).symm
  generalize tr.drop 3 = rest at hone hcalls htr
  obtain ⟨frame, after, rfl⟩ : ∃ frame after, rest = .pushed frame :: after := by
    rcases rest with _ | ⟨_ | _ | frame | _ | _, after⟩
    case cons.pushed => exact ⟨frame, after, rfl⟩
    all_goals cases hone
  have hleft := played_in_time hrun htr hcalls
  rw [hnone] at hleft
  exact ⟨tr, r, frame, hrun, hleft⟩

end Rx
end AudioMeet
