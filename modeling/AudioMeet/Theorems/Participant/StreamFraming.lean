import AudioMeet.Theorems.Participant.Transport

/-! The framing of the stream: what the tx loop writes of a list of packets is what the rx loop reads, and of
    a stream that is cut anywhere the rx loop reads the packets before the cut, and ends. -/

namespace AudioMeet
open Lib Machine

/-! ### The tx loop writes every packet -/

namespace Tx

/-- The tx thread at the head of its loop, with these packets to send. -/
def loaded (pkts : List Bytes) : Tx :=
  { tx_active_ := true, send_queue_ := pkts, started := true, thread := .head }

/-- The steps of the tx loop while every `send` takes something. -/
def Writing (_ : Tx) : TxAct → Prop
  | .txHead | .txLock | .txSend | .txSent _ | .txWritten => True
  | _ => False

/-- The bytes on the socket, the rest of the packet that is being written and the queue make the stream. -/
structure Writes (pkts : List Bytes) (tr : List TxEvent) (t : Tx) : Prop where
  stop : t.stop_flag_ = false
  present : t.thread ≠ .absent
  sending : ∀ rest next, t.thread = .sending rest next → rest ≠ []
  waiting : t.thread = .waiting → t.send_queue_ = []
  stream : ∃ rest, unsent t.thread = some rest ∧ frames pkts = sentBytes tr ++ (rest ++ frames t.send_queue_)

/-- The bytes that are still to be sent. -/
def toSend (t : Tx) : Nat := ((unsent t.thread).getD []).length + (frames t.send_queue_).length

/-- How far the thread is from its next call of `send`. -/
def toCall : TxPc → Nat
  | .head => 4
  | .lock => 3
  | .write rest next => if rest = [] then if next.isSome then 6 else 5 else 2
  | .sending _ _ => 1
  | _ => 0

section Loop
variable {pkts : List Bytes} {t u : Tx} {a : TxAct} {tr es : List TxEvent}

/-- A step that sends nothing. -/
theorem Writes.move (h : Writes pkts tr t) (hes : sentBytes es = []) (hstop : u.stop_flag_ = t.stop_flag_)
    (hpresent : u.thread ≠ .absent) (hsending : ∀ rest next, u.thread = .sending rest next → rest ≠ [])
    (hwaiting : u.thread = .waiting → u.send_queue_ = [])
    (hrest : ∀ rest, unsent t.thread = some rest →
      ∃ rest', unsent u.thread = some rest' ∧ rest' ++ frames u.send_queue_ = rest ++ frames t.send_queue_) :
    Writes pkts (tr ++ es) u ∧ toSend u = toSend t := by
  obtain ⟨rest, hr, hs⟩ := h.stream
  obtain ⟨rest', hr', heq⟩ := hrest rest hr
  refine ⟨⟨hstop.trans h.stop, hpresent, hsending, hwaiting, rest', hr', ?_⟩, ?_⟩
  · rw [sentBytes_append, hes, List.append_nil, hs, heq]
  · simp only [toSend, hr, hr', Option.getD_some, ← List.length_append, heq]

theorem step_writes (h : Writes pkts tr t) (hok : Writing t a) (hs : step t a = some (u, es)) :
    Writes pkts (tr ++ es) u ∧ (toSend u < toSend t ∨ toSend u = toSend t ∧ toCall u.thread < toCall t.thread) := by
  have hstop := h.stop
  cases a with
  | txHead =>
    obtain ⟨ht, rfl, rfl⟩ := Step.txHead_inv hs
    obtain ⟨hw, hle⟩ := h.move (u := { t with thread := if t.stop_flag_ then .cleanup else .lock }) (show sentBytes [] = [] from rfl) rfl
      (by simp [hstop]) (by simp [hstop]) (by simp [hstop]) (by simp [hstop, ht, unsent])
    exact ⟨hw, Or.inr ⟨hle, by simp [ht, hstop, toCall]⟩⟩
  | txLock =>
    obtain ⟨ht, ⟨hst, -, -⟩ | ⟨-, hq, rfl, rfl⟩ | ⟨-, pkt, hq, rfl, hu⟩⟩ := Step.txLock_inv hs
    · rw [hstop] at hst
      cases hst
    · obtain ⟨hw, hle⟩ := h.move (u := { t with thread := .waiting }) (show sentBytes [] = [] from rfl) rfl (by simp) (by simp)
        (fun _ => hq) (by simp [ht, unsent])
      exact ⟨hw, Or.inr ⟨hle, by simp [ht, toCall]⟩⟩
    · have hthread : u.thread = .write (be16 (UInt16.ofNat pkt.length)) (some pkt) := by rw [hu]
      have hstop' : u.stop_flag_ = t.stop_flag_ := by rw [hu]
      obtain ⟨hw, hle⟩ := h.move (u := u) (show sentBytes [.dequeued pkt] = [] from rfl) hstop' (by simp [hthread]) (by simp [hthread])
        (by simp [hthread]) (by simp [ht, hthread, unsent, hq, frames_cons, Lib.frame])
      exact ⟨hw, Or.inr ⟨hle, by simp [ht, hthread, toCall, be16_ne_nil]⟩⟩
  | txSend =>
    obtain ⟨rest, next, ht, hne, rfl, rfl⟩ := Step.txSend_inv hs
    obtain ⟨hw, hle⟩ := h.move (u := { t with thread := .sending rest next }) (show sentBytes [] = [] from rfl) rfl (by simp)
      (by rintro _ _ ⟨⟩; exact hne) (by simp) (by simp [ht, unsent])
    exact ⟨hw, Or.inr ⟨hle, by simp [ht, hne, toCall]⟩⟩
  | txSent w =>
    obtain ⟨rest, next, ht, hpos, hlen, rfl, rfl⟩ := Step.txSent_inv hs
    obtain ⟨all, hall, hstream⟩ := h.stream
    rw [ht] at hall
    obtain rfl : rest ++ next.getD [] = all := Option.some.inj hall
    refine ⟨⟨hstop, by simp, by simp, by simp, _, rfl, ?_⟩, Or.inl ?_⟩
    · rw [hstream, sentBytes_append, show sentBytes [.sent (rest.take w)] = rest.take w by simp [sentBytes, TxEvent.bytes]]
      rw [List.append_assoc, List.append_assoc, List.append_assoc, ← List.append_assoc (rest.take w),
        List.take_append_drop]
    · simp only [toSend, ht, unsent, Option.getD_some, List.length_append, List.length_drop]
      omega
  | txWritten =>
    obtain ⟨rfl, ⟨pkt, ht, rfl⟩ | ⟨ht, rfl⟩⟩ := Step.txWritten_inv hs
    · obtain ⟨hw, hle⟩ := h.move (u := { t with thread := .write pkt none }) (show sentBytes [] = [] from rfl) rfl (by simp) (by simp)
        (by simp) (by simp [ht, unsent])
      refine ⟨hw, Or.inr ⟨hle, ?_⟩⟩
      cases pkt <;> simp [ht, toCall]
    · obtain ⟨hw, hle⟩ := h.move (u := { t with thread := .head }) (show sentBytes [] = [] from rfl) rfl (by simp) (by simp)
        (by simp) (by simp [ht, unsent])
      exact ⟨hw, Or.inr ⟨hle, by simp [ht, toCall]⟩⟩
  | putFrame _ | putStop | putEnqueue | startTx | txWake | txFail _ | txCleanup | stopStore | stopSection => exact hok.elim

/-- The loop goes on until it waits with everything written. -/
theorem Writes.progress (h : Writes pkts tr t) :
    (t.thread = .waiting ∧ sentBytes tr = frames pkts) ∨ ∃ a u es, Writing t a ∧ step t a = some (u, es) := by
  obtain ⟨rest, hrest, hstream⟩ := h.stream
  cases ht : t.thread with
  | absent => exact absurd ht h.present
  | head => exact Or.inr ⟨.txHead, _, _, trivial, if_pos ht⟩
  | lock => exact Or.inr ⟨.txLock, _, _, trivial, if_pos ht⟩
  | waiting =>
    refine Or.inl ⟨rfl, ?_⟩
    rw [ht] at hrest
    obtain rfl : [] = rest := Option.some.inj hrest
    simp [hstream, h.waiting ht]
  | write rest next =>
    cases rest with
    | nil =>
      refine Or.inr ⟨.txWritten, ?_⟩
      cases next <;> exact ⟨_, _, trivial, by simp only [step, ht]; rfl⟩
    | cons b bs => exact Or.inr ⟨.txSend, _, _, trivial, by simp only [step, ht]; exact if_neg (by simp)⟩
  | sending rest next =>
    have hlen : 1 ≤ rest.length := List.length_pos_iff.mpr (h.sending rest next ht)
    exact Or.inr ⟨.txSent 1, _, _, trivial, by simp only [step, ht]; exact if_pos ⟨Nat.one_pos, hlen⟩⟩
  | cleanup | done =>
    rw [ht] at hrest
    cases hrest

/-- Whatever `send` takes of what it is given, the packets go onto the stream one after the other. -/
theorem writes_all (pkts : List Bytes) :
    machine.Inevitably Writing (fun tr t => t.thread = .waiting ∧ sentBytes tr = frames pkts) [] (loaded pkts) := by
  refine Inevitably.of_ranks (I := Writes pkts) toSend (fun t => toCall t.thread) (fun tr t h => ?_)
    ⟨rfl, by simp [loaded], by simp [loaded], by simp [loaded], [], rfl, by simp [loaded, sentBytes]⟩
  exact h.progress.imp_right fun hex => ⟨hex, fun a u es hok hs => step_writes h hok hs⟩

end Loop
end Tx

/-! ### The rx loop reads the packets before the cut -/

namespace Rx

/-- The frames of a packet that are still to be pushed. -/
def toPush : RxPc → Nat
  | .push src i => nFull src - i
  | _ => 0

/-- How far the thread is from its next call of `recv`. -/
def toCall (r : Rx) : Nat :=
  match r.thread with
  | .absent => 4
  | .head => 3
  | .read buf got => if got.length < buf.size then 2 else 5 + toPush (r.accept got).thread
  | .recving _ _ => 1
  | .push src i => 4 + (nFull src - i)
  | .done => 0

/-- The thread only calls `recv` for bytes that it needs. -/
def Asks (r : Rx) : Prop := ∀ buf got, r.thread = .recving buf got → got.length < buf.size

/-- The steps of the rx loop. -/
def Loops : RxAct → Prop
  | .getFrame | .stopStore => False
  | _ => True

section Loop
variable {r u : Rx} {a : RxAct} {es : List RxEvent}

theorem accept_toCall (r : Rx) (bytes : Bytes) :
    toCall (r.accept bytes) < 5 + toPush (r.accept bytes).thread ∧ (r.accept bytes).stop_flag_ = r.stop_flag_ ∧
      (∀ buf got, (r.accept bytes).thread ≠ .recving buf got) ∧ (r.accept bytes).thread ≠ .done := by
  rcases Step.accept_eq r bytes with ⟨-, h⟩ | ⟨rtp, -, h⟩ <;> rw [h] <;> simp [toCall, toPush]

/-- A step of the loop takes bytes from the stream or comes closer to the next call of `recv`; only a failure
    of `recv` ends the thread. -/
theorem step_loop (hstop : r.stop_flag_ = false) (hok : Loops a) (hs : step r a = some (u, es)) :
    u.stop_flag_ = false ∧ Asks u ∧ (u.thread = .done → a = .rxFail) ∧
      ((∃ bytes, a = .rxRecv bytes) ∨ u.toCall < r.toCall) := by
  cases a with
  | rxStart =>
    obtain ⟨ht, rfl, rfl⟩ := Step.rxStart_inv hs
    exact ⟨hstop, by simp [Asks], by simp, Or.inr (by simp [toCall, ht])⟩
  | rxHead =>
    obtain ⟨ht, rfl, rfl⟩ := Step.rxHead_inv hs
    simp [hstop, Asks, toCall, ht, ReadBuf.size]
  | rxCall =>
    obtain ⟨buf, got, ht, hlt, rfl, rfl⟩ := Step.rxCall_inv hs
    exact ⟨hstop, by rintro _ _ ⟨⟩; exact hlt, by simp, Or.inr (by simp [toCall, ht, hlt])⟩
  | rxRecv bytes =>
    obtain ⟨buf, got, -, -, -, rfl, rfl⟩ := Step.rxRecv_inv hs
    exact ⟨hstop, by simp [Asks], by simp, Or.inl ⟨bytes, rfl⟩⟩
  | rxFail =>
    obtain ⟨buf, got, ht, rfl, rfl⟩ := Step.rxFail_inv hs
    exact ⟨hstop, by simp [Asks], fun _ => rfl, Or.inr (by simp [toCall, ht])⟩
  | rxRead =>
    obtain ⟨b₀, b₁, ht, ⟨-, rfl, rfl⟩ | ⟨hne, rfl, rfl⟩⟩ | ⟨n, got, ht, hle, rfl, rfl⟩ := Step.rxRead_inv hs
    · refine ⟨hstop, by simp [Asks], by simp, Or.inr ?_⟩
      simp only [toCall, ht, ReadBuf.size, List.length_cons, List.length_nil, Nat.lt_irrefl, if_false]
      omega
    · have hpos : 0 < (ofBe16 b₀ b₁).toNat := Nat.pos_of_ne_zero fun h => hne (UInt16.toNat_inj.mp h)
      refine ⟨hstop, by simp [Asks], by simp, Or.inr ?_⟩
      simp only [toCall, ht, ReadBuf.size, List.length_cons, List.length_nil, hpos, Nat.lt_irrefl, if_true, if_false]
      omega
    · obtain ⟨hlt, hstop', hrecv, hdone⟩ := accept_toCall r got
      refine ⟨hstop'.trans hstop, fun buf got' h => absurd h (hrecv buf got'), fun h => absurd h hdone, Or.inr ?_⟩
      have hr : r.toCall = 5 + toPush (r.accept got).thread := by
        simp only [toCall, ht]
        exact if_neg (Nat.not_lt.mpr hle)
      rwa [hr]
  | rxPush =>
    obtain ⟨src, i, ht, hi, hpush⟩ := Step.rxPush_inv hs
    obtain ⟨hthread, -, hstop', -⟩ := pushFrame_eq { r with thread := .push src (i + 1) } (decodeFrame src i)
    rw [← hpush] at hthread hstop'
    dsimp only at hthread hstop'
    refine ⟨hstop'.trans hstop, by simp [Asks, hthread], by simp [hthread], Or.inr ?_⟩
    simp only [toCall, ht, hthread]
    omega
  | rxKeep =>
    obtain ⟨src, i, ht, -, rfl, rfl⟩ := Step.rxKeep_inv hs
    refine ⟨hstop, by simp [Asks], by simp, Or.inr ?_⟩
    simp only [toCall, ht]
    omega
  | getFrame | stopStore => exact hok.elim

/-- Outside a call of `recv` the loop goes on by itself. -/
theorem goes_on (hfits : Fits r.thread) :
    r.thread = .done ∨ (∃ buf got, r.thread = .recving buf got) ∨
      ∃ a u es, Loops a ∧ (∀ bytes, a ≠ .rxRecv bytes) ∧ a ≠ .rxFail ∧ step r a = some (u, es) := by
  cases ht : r.thread with
  | absent => exact Or.inr (Or.inr ⟨.rxStart, _, _, trivial, by simp, by simp, if_pos ht⟩)
  | head => exact Or.inr (Or.inr ⟨.rxHead, _, _, trivial, by simp, by simp, if_pos ht⟩)
  | read buf got =>
    right; right
    by_cases hlt : got.length < buf.size
    · exact ⟨.rxCall, _, _, trivial, by simp, by simp, by simp only [step, ht]; exact if_pos hlt⟩
    · refine ⟨.rxRead, ?_⟩
      simp only [step, ht, if_neg hlt]
      cases buf with
      | packet n => exact ⟨_, _, trivial, by simp, by simp, rfl⟩
      | length =>
        have htwo : got.length = 2 := by
          rw [ht] at hfits
          exact le_antisymm hfits (Nat.not_lt.mp hlt)
        obtain ⟨b₀, b₁, rfl⟩ := List.length_eq_two.mp htwo
        by_cases hzero : ofBe16 b₀ b₁ = 0
        · exact ⟨_, _, trivial, by simp, by simp, if_pos hzero⟩
        · exact ⟨_, _, trivial, by simp, by simp, if_neg hzero⟩
  | recving buf got => exact Or.inr (Or.inl ⟨buf, got, rfl⟩)
  | push src i =>
    right; right
    by_cases hlt : i < nFull src
    · exact ⟨.rxPush, _, _, trivial, by simp, by simp, by simp only [step, ht]; exact if_pos hlt⟩
    · exact ⟨.rxKeep, _, _, trivial, by simp, by simp, by simp only [step, ht]; exact if_neg hlt⟩
  | done => exact Or.inl rfl

/-- What was read of the packet that `recv` is called for is not all of it. -/
theorem incomplete_of_asks {tr : List RxEvent} {buf : ReadBuf} {got : Bytes} (h : Framed tr r)
    (ht : r.thread = .recving buf got) (hlt : got.length < buf.size) :
    ∃ rest, received tr = frames (packetsRead tr) ++ rest ∧ Incomplete rest := by
  obtain ⟨rest, hs, hrest⟩ := h.stream
  refine ⟨rest, hs, ?_⟩
  rw [ht] at hrest
  cases buf with
  | length => rw [← hrest got rfl]; exact incomplete_length hlt
  | packet n => rw [← hrest _ rfl]; exact incomplete_packet hlt

end Loop
end Rx

namespace Link

/-- The receiver of a fresh participant, and the stream that it is going to read. -/
def reading (wire : Bytes) : Link := { tx := {}, wire }

/-- The steps of the rx loop; `recv` fails where the stream ends. -/
def Reading (l : Link) : LinkAct → Prop
  | .tx _ => False
  | .rx a => Rx.Loops a ∧ (a = .rxFail → l.wire = [])

/-- Once the thread ended, the whole stream was received, and what follows the packets read is not a packet. -/
structure Reads (stream : Bytes) (tr : List LinkEvent) (l : Link) : Prop where
  run : Rx.machine.Run Any (rxEvents tr) l.rx
  stop : l.rx.stop_flag_ = false
  asks : l.rx.Asks
  stream : stream = Rx.received (rxEvents tr) ++ l.wire
  ended : l.rx.thread = .done → l.wire = [] ∧
    ∃ rest, Rx.received (rxEvents tr) = frames (Rx.packetsRead (rxEvents tr)) ++ rest ∧ Incomplete rest

section Loop
variable {l m : Link} {a : LinkAct} {tr es : List LinkEvent} {stream : Bytes}

theorem step_reads (h : Reads stream tr l) (hok : Reading l a) (hs : step l a = some (m, es)) :
    Reads stream (tr ++ es) m ∧
      (m.wire.length < l.wire.length ∨ m.wire.length = l.wire.length ∧ m.rx.toCall < l.rx.toCall) := by
  obtain ⟨b, t, es', rfl, -⟩ | ⟨b, wire, r, es', rfl, hd, hb, rfl, rfl⟩ := step_inv hs
  · exact hok.elim
  obtain ⟨hstop, hasks, hdone, hrank⟩ := Rx.step_loop h.stop hok.1 hb
  have hwire : l.wire = Rx.received es' ++ wire := deliver_eq hd hb
  refine ⟨⟨?_, hstop, hasks, ?_, fun hend => ?_⟩, ?_⟩
  · rw [rxEvents_append, rxEvents_rx]
    exact h.run.step trivial hb
  · rw [rxEvents_append, rxEvents_rx, Rx.received_append, h.stream, hwire, List.append_assoc]
  · obtain rfl := hdone hend
    obtain ⟨buf, got, ht, rfl, rfl⟩ := Rx.Step.rxFail_inv hb
    have hnil : l.wire = [] := hok.2 rfl
    refine ⟨(List.append_eq_nil_iff.mp (hwire ▸ hnil)).2, ?_⟩
    simpa [rxEvents] using Rx.incomplete_of_asks (Rx.run_framed h.run) ht (h.asks buf got ht)
  · rcases hrank with ⟨bytes, rfl⟩ | hlt
    · obtain ⟨_, _, -, hpos, -, -, rfl⟩ := Rx.Step.rxRecv_inv hb
      left
      rw [hwire, List.length_append, show Rx.received [.received bytes] = bytes by simp [Rx.received, Rx.RxEvent.bytes]]
      exact Nat.lt_add_of_pos_left hpos
    · by_cases hle : wire.length < l.wire.length
      · exact Or.inl hle
      · refine Or.inr ⟨?_, hlt⟩
        have := congrArg List.length hwire
        rw [List.length_append] at this
        change wire.length = l.wire.length
        omega

/-- A call of `recv` returns a byte or the end of the stream. -/
theorem Reads.progress (h : Reads stream tr l) :
    l.rx.thread = .done ∨ ∃ a m es, Reading l a ∧ step l a = some (m, es) := by
  rcases Rx.goes_on (Rx.run_framed h.run).fits with hdone | ⟨buf, got, ht⟩ | ⟨a, r, es, hok, hrecv, hfail, hs⟩
  · exact Or.inl hdone
  · have hlt := h.asks buf got ht
    right
    cases hw : l.wire with
    | nil => exact ⟨.rx .rxFail, _, _, ⟨trivial, fun _ => hw⟩, by simp only [step, deliver, Rx.step, ht]; rfl⟩
    | cons b bs =>
      refine ⟨.rx (.rxRecv [b]), { l with wire := bs, rx := { l.rx with thread := .read buf (got ++ [b]) } },
        [.rx (.received [b])], ⟨trivial, by simp⟩, ?_⟩
      have hle : 0 < [b].length ∧ [b].length ≤ buf.size - got.length := by
        simp only [List.length_singleton]
        omega
      simp only [step, deliver, Rx.step, ht, hw, if_pos hle]
      simp
  · refine Or.inr ⟨.rx a, { l with rx := r }, es.map .rx, ⟨hok, fun h => absurd h hfail⟩, ?_⟩
    have hd : deliver l.wire a = some l.wire := by
      cases a <;> first | rfl | exact absurd rfl (hrecv _)
    simp [step, hd, hs]

/-- The rx loop reads its stream to the end. -/
theorem reads_all (stream : Bytes) :
    machine.Inevitably Reading (fun tr l => Reads stream tr l ∧ l.rx.thread = .done) [] (reading stream) := by
  refine Inevitably.of_ranks (I := Reads stream) (fun l => l.wire.length) (fun l => l.rx.toCall)
    (fun tr l h => ?_) ⟨.init rfl, rfl, by simp [Rx.Asks, reading], rfl, by simp [reading]⟩
  exact h.progress.imp (fun hdone => ⟨h, hdone⟩) fun hex => ⟨hex, fun a m es hok hs => step_reads h hok hs⟩

/-- Whatever `recv` returns of what it is asked for, the packets before the cut are read, and the thread ends. -/
theorem reads_within {pkts : List Bytes} (hp : Framable pkts) (n : Nat) :
    machine.Inevitably Reading
      (fun tr l => l.rx.thread = .done ∧ Rx.packetsRead (rxEvents tr) = within n pkts) [] (reading ((frames pkts).take n)) := by
  refine (reads_all _).mono fun tr l ⟨h, hdone⟩ => ⟨hdone, ?_⟩
  obtain ⟨hnil, rest, hs, hrest⟩ := h.ended hdone
  have hstream := h.stream
  rw [hnil, List.append_nil, hs] at hstream
  exact eq_within (Rx.run_framed h.run).framable hp hrest hstream.symm

/-- Some run of the receive side reads any given packets. -/
theorem exists_run_packetsRead {pkts : List Bytes} (hp : Framable pkts) :
    ∃ tr r, Rx.machine.Run Any tr r ∧ r.thread = .done ∧ Rx.received tr = frames pkts ∧ Rx.packetsRead tr = pkts := by
  obtain ⟨es, l, -, h, hdone⟩ := (reads_all (frames pkts)).steps
  obtain ⟨hnil, rest, hs, hrest⟩ := h.ended hdone
  have hstream := h.stream
  rw [hnil, List.append_nil] at hstream
  refine ⟨_, _, h.run, hdone, hstream.symm, ?_⟩
  rw [hs] at hstream
  have hread := eq_within (n := (frames pkts).length) (Rx.run_framed h.run).framable hp hrest (by rw [List.take_length, hstream])
  rwa [within_all] at hread

/-- The stream that the tx loop writes of a list of packets is read as that list, and cut anywhere, as the
    packets before the cut. -/
theorem framing_round_trip {pkts : List Bytes} (hp : ∀ p ∈ pkts, 1 ≤ p.length ∧ p.length ≤ 65535) :
    Tx.machine.Inevitably Tx.Writing
      (fun sent t => t.thread = .waiting ∧
        machine.Inevitably Reading
          (fun tr l => l.rx.thread = .done ∧ Rx.packetsRead (rxEvents tr) = pkts) [] (reading (Tx.sentBytes sent)) ∧
        ∀ n, machine.Inevitably Reading
          (fun tr l => l.rx.thread = .done ∧ Rx.packetsRead (rxEvents tr) = within n pkts) []
          (reading ((Tx.sentBytes sent).take n)))
      [] (Tx.loaded pkts) := by
  have hframable : Framable pkts := fun p hm => Nat.lt_succ_of_le (hp p hm).2
  refine (Tx.writes_all pkts).mono fun sent t ⟨ht, hsent⟩ => ⟨ht, ?_, fun n => ?_⟩
  · have hall := reads_within hframable (frames pkts).length
    rwa [within_all, List.take_length, ← hsent] at hall
  · rw [hsent]
    exact reads_within hframable n

theorem framing_round_trip_two :
    Tx.machine.Inevitably Tx.Writing
      (fun sent t => t.thread = .waiting ∧
        machine.Inevitably Reading
          (fun tr l => l.rx.thread = .done ∧ Rx.packetsRead (rxEvents tr) = [[7], [1, 2, 3]]) []
          (reading (Tx.sentBytes sent)) ∧
        ∀ n, machine.Inevitably Reading
          (fun tr l => l.rx.thread = .done ∧ Rx.packetsRead (rxEvents tr) = within n [[7], [1, 2, 3]]) []
          (reading ((Tx.sentBytes sent).take n)))
      [] (Tx.loaded [[7], [1, 2, 3]]) :=
  framing_round_trip (by decide)

end Loop
end Link
end AudioMeet
