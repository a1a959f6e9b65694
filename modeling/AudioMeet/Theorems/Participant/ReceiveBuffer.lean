import AudioMeet.Lib.DropQueue
import AudioMeet.Lib.Lists
import AudioMeet.Theorems.Participant.Reception

/-! The receive buffer. It refines the bounded queue that drops its oldest entry: what `on_get_frame` outputs are
    frames that were pushed, in their order. `rx_started_` is set from the start, so that nothing is prefetched. -/

namespace AudioMeet.Rx
open Lib Machine

/-! ### What a run shows of the buffer -/

def RxEvent.queue : RxEvent → List (DropQueue.Event (List Int16))
  | .pushed frame => [.pushed frame]
  | .dropped queue frame => [.dropped queue frame]
  | .output frame true => [.popped frame]
  | _ => []

def queueEvents (tr : List RxEvent) : List (DropQueue.Event (List Int16)) := tr.flatMap RxEvent.queue

/-- The frames that left `rx_buf_` and how, in order. -/
def left (tr : List RxEvent) : List (List Int16 × DropQueue.Fate) := DropQueue.left (queueEvents tr)

/-- The frames that `on_get_frame` took from `rx_buf_`, in order. -/
def delivered (tr : List RxEvent) : List (List Int16) :=
  tr.flatMap fun
    | .output frame true => [frame]
    | _ => []

/-- What is in `rx_buf_` after the events. -/
def buffered (tr : List RxEvent) : List (List Int16) := (pushed tr).drop (left tr).length

@[simp] theorem queueEvents_append (tr es : List RxEvent) : queueEvents (tr ++ es) = queueEvents tr ++ queueEvents es :=
  List.flatMap_append

@[simp] theorem left_append (tr es : List RxEvent) : left (tr ++ es) = left tr ++ left es := by simp [left]

/-- The queue is pushed what the receiver pushes. -/
theorem entered_queueEvents (tr : List RxEvent) : DropQueue.entered (queueEvents tr) = pushed tr := by
  simp only [DropQueue.entered, queueEvents, pushed, List.flatMap_assoc]
  refine List.flatMap_congr fun e _ => ?_
  cases e with
  | output frame popped => cases popped <;> rfl
  | _ => rfl

/-- The queue pops what the receiver delivers. -/
theorem popped_queueEvents (tr : List RxEvent) : DropQueue.popped (queueEvents tr) = delivered tr := by
  induction tr with
  | nil => rfl
  | cons e tr ih =>
    have hcons : queueEvents (e :: tr) = RxEvent.queue e ++ queueEvents tr := rfl
    rw [hcons, DropQueue.popped_append, ih]
    cases e with
    | output frame popped => cases popped <;> simp [delivered, RxEvent.queue, DropQueue.popped, DropQueue.left, DropQueue.Event.left]
    | dropped queue frame => cases queue <;> simp [delivered, RxEvent.queue, DropQueue.popped, DropQueue.left, DropQueue.Event.left]
    | _ => simp [delivered, RxEvent.queue, DropQueue.popped, DropQueue.left, DropQueue.Event.left]

/-- Nothing is cleared. -/
theorem fate_left {tr : List RxEvent} {x : List Int16 × DropQueue.Fate} (h : x ∈ left tr) :
    x.2 = .popped ∨ ∃ queue frame, x.2 = .dropped ∧ .dropped queue frame ∈ tr ∧ queue.head? = some x.1 := by
  simp only [left, DropQueue.left, queueEvents, List.flatMap_assoc, List.mem_flatMap] at h
  obtain ⟨e, he, q, hq, hx⟩ := h
  cases e with
  | output frame popped =>
    cases popped with
    | false => cases hq
    | true =>
      obtain rfl := List.mem_singleton.mp hq
      obtain rfl := List.mem_singleton.mp hx
      exact Or.inl rfl
  | dropped queue frame =>
    obtain rfl := List.mem_singleton.mp hq
    cases queue with
    | nil => cases hx
    | cons front rest =>
      obtain rfl := List.mem_singleton.mp hx
      exact Or.inr ⟨_, _, rfl, he, rfl⟩
  | pushed frame =>
    obtain rfl := List.mem_singleton.mp hq
    cases hx
  | received bytes => cases hq
  | packet bytes => cases hq

/-! ### The buffer refines the bounded queue -/

section Steps
variable {r u : Rx} {a : RxAct} {tr es : List RxEvent}

/-- `on_get_frame` takes the oldest frame, or outputs silence. -/
theorem getFrame_cases (hs : step r .getFrame = some (u, es)) :
    (u = r ∧ es = [.output silence false] ∧ (r.rx_started_ = true → r.rx_buf_ = [])) ∨
    ∃ front, r.rx_buf_ = front :: u.rx_buf_ ∧ es = [.output front true] := by
  simp only [step, Option.some.injEq, getFrame] at hs
  split at hs
  · rename_i hstarted
    obtain ⟨rfl, rfl⟩ := Prod.mk.inj hs
    exact Or.inl ⟨rfl, rfl, fun h => by simp [h] at hstarted⟩
  · split at hs <;> obtain ⟨rfl, rfl⟩ := Prod.mk.inj hs
    · rename_i hnil
      exact Or.inl ⟨rfl, rfl, fun _ => hnil⟩
    · rename_i front rest hcons
      exact Or.inr ⟨front, hcons, rfl⟩

/-- The step does not concern the buffer. -/
structure Quiet (r u : Rx) (es : List RxEvent) : Prop where
  rx_buf_ : u.rx_buf_ = r.rx_buf_
  rx_started_ : u.rx_started_ = r.rx_started_
  queue : queueEvents es = []
  output : ∀ frame popped, .output frame popped ∉ es

/-- A step leaves the buffer alone, or pushes a frame, or is a call of `on_get_frame`. -/
theorem step_buffer (hs : step r a = some (u, es)) :
    Quiet r u es ∨
    (∃ src i, (u, es) = ({ r with thread := .push src (i + 1) } : Rx).pushFrame (decodeFrame src i)) ∨ a = .getFrame := by
  cases a with
  | rxStart =>
    obtain ⟨-, rfl, rfl⟩ := Step.rxStart_inv hs
    exact Or.inl ⟨rfl, rfl, rfl, by simp⟩
  | rxHead =>
    obtain ⟨-, rfl, rfl⟩ := Step.rxHead_inv hs
    exact Or.inl ⟨rfl, rfl, rfl, by simp⟩
  | rxCall =>
    obtain ⟨_, _, -, -, rfl, rfl⟩ := Step.rxCall_inv hs
    exact Or.inl ⟨rfl, rfl, rfl, by simp⟩
  | rxRecv bytes =>
    obtain ⟨_, _, -, -, -, rfl, rfl⟩ := Step.rxRecv_inv hs
    exact Or.inl ⟨rfl, rfl, rfl, by simp⟩
  | rxFail =>
    obtain ⟨_, _, -, rfl, rfl⟩ := Step.rxFail_inv hs
    exact Or.inl ⟨rfl, rfl, rfl, by simp⟩
  | rxRead =>
    obtain ⟨_, _, -, ⟨-, rfl, rfl⟩ | ⟨-, rfl, rfl⟩⟩ | ⟨_, got, -, -, rfl, rfl⟩ := Step.rxRead_inv hs
    · exact Or.inl ⟨rfl, rfl, rfl, by simp⟩
    · exact Or.inl ⟨rfl, rfl, rfl, by simp⟩
    · rcases Step.accept_eq r got with ⟨-, h⟩ | ⟨_, -, h⟩ <;> rw [h] <;> exact Or.inl ⟨rfl, rfl, rfl, by simp⟩
  | rxPush =>
    obtain ⟨src, i, -, -, hpush⟩ := Step.rxPush_inv hs
    exact Or.inr (Or.inl ⟨src, i, hpush⟩)
  | rxKeep =>
    obtain ⟨_, _, -, -, rfl, rfl⟩ := Step.rxKeep_inv hs
    exact Or.inl ⟨rfl, rfl, rfl, by simp⟩
  | getFrame => exact Or.inr (Or.inr rfl)
  | stopStore =>
    obtain ⟨rfl, rfl⟩ := Step.stopStore_inv hs
    exact Or.inl ⟨rfl, rfl, rfl, by simp⟩

/-- For the bounded queue a step is no step, a push or a pop. -/
theorem step_queue (hs : step r a = some (u, es)) :
    (u.rx_buf_ = r.rx_buf_ ∧ queueEvents es = []) ∨
    ∃ qa, DropQueue.step MAX_RX_BUF_FRAMES r.rx_buf_ qa = some (u.rx_buf_, queueEvents es) := by
  rcases step_buffer hs with hquiet | ⟨src, i, hpush⟩ | rfl
  · exact Or.inl ⟨hquiet.rx_buf_, hquiet.queue⟩
  · obtain ⟨rfl, rfl⟩ := Prod.mk.inj hpush
    refine Or.inr ⟨.push (decodeFrame src i), ?_⟩
    by_cases hfull : MAX_RX_BUF_FRAMES ≤ r.rx_buf_.length
    · simp [DropQueue.step, hfull, queueEvents, RxEvent.queue]
    · simp [DropQueue.step, hfull, queueEvents, RxEvent.queue]
  · rcases getFrame_cases hs with ⟨rfl, rfl, -⟩ | ⟨front, hcons, rfl⟩
    · exact Or.inl ⟨rfl, rfl⟩
    · refine Or.inr ⟨.pop, ?_⟩
      rw [hcons]
      rfl

/-- `rx_buf_` refines the bounded queue. -/
theorem simulates_dropQueue (ok : Rx → RxAct → Prop) :
    Simulates machine ok (DropQueue.machine (List Int16) MAX_RX_BUF_FRAMES) Any RxEvent.queue
      (fun r q => r.rx_buf_ = q) where
  init := by
    rintro r rfl
    exact ⟨[], rfl, rfl⟩
  step := by
    rintro r a u es q rfl - hs
    refine ⟨u.rx_buf_, ?_, rfl⟩
    rcases step_queue hs with ⟨hq, hes⟩ | ⟨qa, hqa⟩
    · rw [hq, show es.flatMap RxEvent.queue = [] from hes]
      exact .refl
    · exact .single trivial hqa

end Steps

/-! ### The law of the buffer -/

section Laws
variable {ok : Rx → RxAct → Prop} {r : Rx} {tr : List RxEvent}

theorem run_dropQueue (h : machine.Run ok tr r) :
    (DropQueue.machine (List Int16) MAX_RX_BUF_FRAMES).Run Any (queueEvents tr) r.rx_buf_ := by
  obtain ⟨q, hq, rfl⟩ := (simulates_dropQueue ok).run h
  exact hq

/-- What was pushed is what left, followed by what is buffered. -/
theorem run_accounted (h : machine.Run ok tr r) : pushed tr = (left tr).map Prod.fst ++ r.rx_buf_ := by
  rw [← entered_queueEvents]
  exact DropQueue.accounted (by decide) (run_dropQueue h)

/-- What was delivered was pushed, in that order. -/
theorem delivered_sublist (h : machine.Run ok tr r) : (delivered tr).Sublist (pushed tr) := by
  rw [← popped_queueEvents, ← entered_queueEvents]
  exact DropQueue.popped_sublist (by decide) (run_dropQueue h)

/-- The events tell what is buffered. -/
theorem run_buffered (h : machine.Run ok tr r) : buffered tr = r.rx_buf_ := by
  rw [buffered, run_accounted h, List.drop_left' (List.length_map _)]

/-- What every run keeps of the receive buffer. -/
structure ReceiveBufferLaw (tr : List RxEvent) (r : Rx) : Prop where
  /-- The frames that were pushed, before those of the packet in hand, are what the payloads decode to, sample by sample. -/
  decoded : pushed tr ++ toCome r = decodedFrames (payloads tr)
  bounded : r.rx_buf_.length ≤ MAX_RX_BUF_FRAMES
  suffix : r.rx_buf_ <:+ pushed tr
  /-- Each frame that was pushed left in its turn or is buffered, -/
  accounted : pushed tr = (left tr).map Prod.fst ++ r.rx_buf_
  /-- and what left was output, or dropped as the oldest of a full buffer when another one came. -/
  fates : ∀ x ∈ left tr, x.2 = .popped ∨ ∃ queue frame, x.2 = .dropped ∧ .dropped queue frame ∈ tr ∧
    queue.head? = some x.1 ∧ queue.length = MAX_RX_BUF_FRAMES
  delivered_left : delivered tr = ((left tr).filter (·.2 = .popped)).map Prod.fst
  delivered_order : (delivered tr).Sublist (pushed tr)
  /-- A call that takes no frame once `rx_started_` is set finds none. -/
  silent_empty : r.rx_started_ = true → ∀ u frame, step r .getFrame = some (u, [.output frame false]) →
    frame = silence ∧ r.rx_buf_ = []

theorem receive_buffer_law (h : machine.Run ok tr r) : ReceiveBufferLaw tr r := by
  have hq := run_dropQueue h
  have hcap : 0 < MAX_RX_BUF_FRAMES := by decide
  refine ⟨(run_decoded h).frames, DropQueue.length_le hcap hq, ⟨_, (run_accounted h).symm⟩, run_accounted h, fun x hx => ?_,
    (popped_queueEvents tr).symm, delivered_sublist h, fun hstarted u frame hs => ?_⟩
  · refine (fate_left hx).imp_right fun ⟨queue, frame, hfate, hmem, hhead⟩ => ⟨queue, frame, hfate, hmem, hhead, ?_⟩
    exact DropQueue.dropped_full hcap hq (List.mem_flatMap.mpr ⟨_, hmem, List.mem_singleton_self _⟩)
  · rcases getFrame_cases hs with ⟨-, hes, hnil⟩ | ⟨front, -, hes⟩
    · obtain ⟨rfl, -⟩ := RxEvent.output.inj (List.singleton_inj.mp hes)
      exact ⟨rfl, hnil hstarted⟩
    · obtain ⟨-, hpopped⟩ := RxEvent.output.inj (List.singleton_inj.mp hes)
      cases hpopped

/-- A length, and a packet of 160 samples. -/
def packetOf (payload : Bytes) : List RxAct :=
  [.rxStart, .rxHead, .rxCall, .rxRecv (be16 (UInt16.ofNat (12 + payload.length))), .rxRead, .rxCall,
    .rxRecv ({ payload } : RtpPacket).serialize, .rxRead]

/-- Two frames are pushed, and one of them is output before the other comes. -/
theorem receive_buffer_law_two : ∃ tr r, machine.Run Any tr r ∧ (pushed tr).length = 2 ∧ (delivered tr).length = 1 ∧
    ReceiveBufferLaw tr r := by
  obtain ⟨tr, r, hrun, hp⟩ := exists_run machine {}
    (packetOf (List.replicate 320 0xD5) ++ [.getFrame, .rxPush, .getFrame, .getFrame, .rxPush]) rfl (meets_any _ _ _)
    (fun r => (pushed r.2).length == 2 && (delivered r.2).length == 1) (by decide +kernel)
  simp only [Bool.and_eq_true, beq_iff_eq] at hp
  exact ⟨tr, r, hrun, hp.1, hp.2, receive_buffer_law hrun⟩

/-! ### The prefetch -/

/-- `PREFETCH_FRAMES` frames were buffered at once. -/
def Prefetched (tr : List RxEvent) : Prop := ∃ es, es <+: tr ∧ PREFETCH_FRAMES ≤ (buffered es).length

/-- Until then each call of `on_get_frame` outputs silence and leaves the buffer as it is; from then on each call that
    finds a frame outputs the oldest one. -/
def PrefetchHonoured (tr : List RxEvent) : Prop :=
  ∀ before frame popped after, tr = before ++ .output frame popped :: after →
    (¬ Prefetched before → frame = silence ∧ buffered (before ++ [.output frame popped]) = buffered before) ∧
    (Prefetched before → ∀ front rest, buffered before = front :: rest → frame = front)

/-- No call finds a frame before `PREFETCH_FRAMES` were buffered at once. -/
def NoEarlyFrame (tr : List RxEvent) : Prop :=
  ∀ before frame popped after, tr = before ++ .output frame popped :: after → Prefetched before ∨ buffered before = []

/-- Each call outputs the oldest frame of the buffer, or silence when there is none. -/
def Serves (tr : List RxEvent) : Prop :=
  ∀ before frame popped after, tr = before ++ .output frame popped :: after →
    (buffered before = [] ∧ frame = silence ∧ popped = false) ∨ ∃ rest, buffered before = frame :: rest ∧ popped = true

theorem buffered_popped (es : List RxEvent) (frame : List Int16) :
    buffered (es ++ [.output frame true]) = (buffered es).tail := by
  have hleft : left (es ++ [.output frame true]) = left es ++ [(frame, .popped)] := left_append es _
  have hpushed : pushed (es ++ [.output frame true]) = pushed es ++ [] := pushed_append es _
  rw [buffered, buffered, hleft, hpushed, List.append_nil, List.length_append, List.length_singleton, List.tail_drop]

theorem buffered_silent (es : List RxEvent) (frame : List Int16) :
    buffered (es ++ [.output frame false]) = buffered es := by
  have hleft : left (es ++ [.output frame false]) = left es ++ [] := left_append es _
  have hpushed : pushed (es ++ [.output frame false]) = pushed es ++ [] := pushed_append es _
  rw [buffered, buffered, hleft, hpushed, List.append_nil, List.append_nil]

/-- Nothing sets `rx_started_` back. -/
theorem run_started (h : machine.Run ok tr r) : r.rx_started_ = true := by
  refine h.invariant (I := fun _ r => r.rx_started_ = true) ?_ fun _ r a u es h _ hs => ?_
  · rintro r rfl
    rfl
  · rcases step_buffer hs with hquiet | ⟨src, i, hpush⟩ | rfl
    · exact hquiet.rx_started_.trans h
    · obtain ⟨rfl, -⟩ := Prod.mk.inj hpush
      simp [h]
    · obtain ⟨_, _, hu, -⟩ := Step.getFrame_inv hs
      rw [hu]
      exact h

/-- The push of a frame outputs nothing. -/
theorem output_pushFrame (r : Rx) (new frame : List Int16) (popped : Bool) : .output frame popped ∉ (r.pushFrame new).2 := by
  unfold pushFrame
  dsimp only
  split <;> simp

theorem run_serves (h : machine.Run ok tr r) : Serves tr := by
  induction h with
  | init =>
    intro before frame popped after hsplit
    exact absurd hsplit (by simp)
  | step hrun _ hs ih =>
    intro before frame popped after hsplit
    rcases append_eq_append_cons hsplit with ⟨after', hold⟩ | ⟨mid, rfl, rfl⟩
    · exact ih before frame popped after' hold
    have hmem : .output frame popped ∈ mid ++ .output frame popped :: after := List.mem_append_right mid List.mem_cons_self
    rcases step_buffer hs with hquiet | ⟨src, i, hpush⟩ | rfl
    · exact absurd hmem (hquiet.output frame popped)
    · rw [(Prod.mk.inj hpush).2] at hmem
      exact absurd hmem (output_pushFrame _ _ frame popped)
    · -- The call has one event, which follows the events so far.
      have hone : ∀ e, mid ++ .output frame popped :: after = [e] → mid = [] ∧ .output frame popped = e := fun e he =>
        (List.append_eq_singleton_iff.mp he).elim (fun h => ⟨h.1, (List.cons.inj h.2).1⟩) fun h => absurd h.2 (List.cons_ne_nil _ _)
      have hbuf := run_buffered hrun
      rcases getFrame_cases hs with ⟨-, hes, hnil⟩ | ⟨front, hcons, hes⟩
      · obtain ⟨rfl, hout⟩ := hone _ hes
        obtain ⟨rfl, rfl⟩ := RxEvent.output.inj hout
        exact Or.inl ⟨by rw [List.append_nil, hbuf, hnil (run_started hrun)], rfl, rfl⟩
      · obtain ⟨rfl, hout⟩ := hone _ hes
        obtain ⟨rfl, rfl⟩ := RxEvent.output.inj hout
        exact Or.inr ⟨_, by rw [List.append_nil, hbuf, hcons], rfl⟩

/-- Frames are prefetched in a run if and only if no call comes early. -/
theorem prefetch_honoured_iff (h : machine.Run ok tr r) : PrefetchHonoured tr ↔ NoEarlyFrame tr := by
  have hserves := run_serves h
  constructor
  · intro hhonoured before frame popped after hsplit
    by_cases hpre : Prefetched before
    · exact Or.inl hpre
    · rcases hserves before frame popped after hsplit with ⟨hnil, -, -⟩ | ⟨rest, hcons, rfl⟩
      · exact Or.inr hnil
      · have hkept := ((hhonoured before frame true after hsplit).1 hpre).2
        rw [buffered_popped, hcons] at hkept
        exact absurd hkept.symm (List.cons_ne_self frame rest)
  · intro hearly before frame popped after hsplit
    rcases hserves before frame popped after hsplit with ⟨hnil, rfl, rfl⟩ | ⟨rest, hcons, rfl⟩
    · refine ⟨fun _ => ⟨rfl, buffered_silent before silence⟩, fun _ front rest hcons => ?_⟩
      rw [hnil] at hcons
      cases hcons
    · refine ⟨fun hpre => ?_, fun _ front rest' hcons' => ?_⟩
      · rcases hearly before frame true after hsplit with hpre' | hnil
        · exact absurd hpre' hpre
        · rw [hcons] at hnil
          cases hnil
      · exact (List.cons.inj (hcons.symm.trans hcons')).1

/-- Ten frames are pushed before the first call. -/
theorem prefetch_honoured_iff_ten : ∃ tr r, machine.Run Any tr r ∧ (pushed tr).length = 10 ∧ (delivered tr).length = 1 ∧
    (PrefetchHonoured tr ↔ NoEarlyFrame tr) := by
  obtain ⟨tr, r, hrun, hp⟩ := exists_run machine {}
    (packetOf (List.replicate 1600 0xD5) ++ List.replicate 10 .rxPush ++ [.getFrame]) rfl (meets_any _ _ _)
    (fun r => (pushed r.2).length == 10 && (delivered r.2).length == 1) (by decide +kernel)
  simp only [Bool.and_eq_true, beq_iff_eq] at hp
  exact ⟨tr, r, hrun, hp.1, hp.2, prefetch_honoured_iff hrun⟩

/-- Fewer frames than the prefetch were pushed. -/
theorem not_prefetched {before : List RxEvent} (h : before <+: tr) (hlt : (pushed tr).length < PREFETCH_FRAMES) :
    ¬ Prefetched before := by
  rintro ⟨es, ⟨rest, rfl⟩, hle⟩
  obtain ⟨after, rfl⟩ := h
  rw [List.append_assoc, pushed_append, List.length_append] at hlt
  rw [buffered, List.length_drop] at hle
  omega

/-- The first frame is output as soon as it was pushed. -/
theorem plays_unprefetched : ¬ ∀ tr r, machine.Run Any tr r → PrefetchHonoured tr := by
  intro h
  obtain ⟨tr, r, hrun, hp⟩ := exists_run machine {} (packetOf (List.replicate 160 0xD5) ++ [.rxPush, .getFrame]) rfl
    (meets_any _ _ _) (fun r => (pushed r.2).length == 1 && (delivered r.2).length == 1) (by decide +kernel)
  simp only [Bool.and_eq_true, beq_iff_eq] at hp
  obtain ⟨frame, hframe⟩ := List.exists_mem_of_length_pos (l := delivered tr) (by omega)
  obtain ⟨e, he, hmem⟩ := List.mem_flatMap.mp hframe
  cases e with
  | output frame popped =>
    cases popped with
    | false => cases hmem
    | true =>
      obtain ⟨before, after, rfl⟩ := List.append_of_mem he
      have hpre : ¬ Prefetched before := not_prefetched (List.prefix_append _ _) (by rw [hp.1]; decide)
      have hkept := ((h _ r hrun before frame true after rfl).1 hpre).2
      rcases run_serves hrun before frame true after rfl with ⟨-, -, hpopped⟩ | ⟨rest, hcons, -⟩
      · cases hpopped
      · rw [buffered_popped, hcons] at hkept
        exact absurd hkept.symm (List.cons_ne_self frame rest)
  | received bytes => cases hmem
  | packet bytes => cases hmem
  | pushed frame => cases hmem
  | dropped queue frame => cases hmem

end Laws
end AudioMeet.Rx
