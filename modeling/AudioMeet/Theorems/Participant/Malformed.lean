import AudioMeet.Theorems.Participant.Reassembly

/-! Packets that are empty or that `parse` rejects. Wherever they stand in a stream, the receiver pushes the same frames
    and keeps the same bytes as without them. -/

namespace AudioMeet.Rx
open Lib Machine

/-- The receiver takes nothing from the packet. -/
def Inert (bytes : Bytes) : Prop := bytes = [] ∨ ∃ e, RtpPacket.parse bytes = .error e

/-- `Without ps qs`: the packets `qs` are `ps` without some that are inert. -/
inductive Without : List Bytes → List Bytes → Prop
  | nil : Without [] []
  | keep {p : Bytes} {ps qs : List Bytes} : Without ps qs → Without (p :: ps) (p :: qs)
  | drop {p : Bytes} {ps qs : List Bytes} : Inert p → Without ps qs → Without (p :: ps) qs

/-- The receiver is done with all that it was given. -/
def Settled (r : Rx) : Prop := pushing r.thread = false ∧ ∀ got, unread r.thread = some got → got = []

theorem payloadOf_inert {p : Bytes} (h : Inert p) : payloadOf p = [] := by
  rcases h with rfl | ⟨e, he⟩
  · rfl
  · rw [payloadOf, he]

/-- What is left out has no payload. -/
theorem Without.payloads {ps qs : List Bytes} (h : Without ps qs) : qs.flatMap payloadOf = ps.flatMap payloadOf := by
  induction h with
  | nil => rfl
  | keep _ ih => rw [List.flatMap_cons, List.flatMap_cons, ih]
  | drop hinert _ ih => rw [List.flatMap_cons, payloadOf_inert hinert, List.nil_append, ih]

theorem Without.framable {ps qs : List Bytes} (h : Without ps qs) (hp : Framable ps) : Framable qs := by
  induction h with
  | nil => exact hp
  | keep _ ih =>
    intro q hq
    rcases List.mem_cons.mp hq with rfl | hq
    · exact hp q List.mem_cons_self
    · exact ih (fun p hm => hp p (List.mem_cons_of_mem _ hm)) q hq
  | drop _ _ ih => exact ih fun p hm => hp p (List.mem_cons_of_mem _ hm)

/-! ### The end of the thread -/

section Steps
variable {r u : Rx} {a : RxAct} {es : List RxEvent}

/-- The thread ends at the head of its loop or in a call of `recv`, and takes nothing from the stream then. -/
theorem step_done (hs : step r a = some (u, es)) (hd : u.thread = .done) :
    received es = [] ∧ packetsRead es = [] ∧
      (r.thread = .done ∨ r.thread = .head ∨ ∃ buf got, r.thread = .recving buf got) := by
  cases a with
  | rxStart =>
    obtain ⟨-, rfl, -⟩ := Step.rxStart_inv hs
    cases hd
  | rxHead =>
    obtain ⟨ht, -, rfl⟩ := Step.rxHead_inv hs
    exact ⟨rfl, rfl, Or.inr (Or.inl ht)⟩
  | rxCall =>
    obtain ⟨_, _, -, -, rfl, -⟩ := Step.rxCall_inv hs
    cases hd
  | rxRecv bytes =>
    obtain ⟨_, _, -, -, -, rfl, -⟩ := Step.rxRecv_inv hs
    cases hd
  | rxFail =>
    obtain ⟨buf, got, ht, -, rfl⟩ := Step.rxFail_inv hs
    exact ⟨rfl, rfl, Or.inr (Or.inr ⟨buf, got, ht⟩)⟩
  | rxRead =>
    obtain ⟨_, _, -, ⟨-, rfl, -⟩ | ⟨-, rfl, -⟩⟩ | ⟨_, got, -, -, rfl, -⟩ := Step.rxRead_inv hs
    · cases hd
    · cases hd
    · have hunread := (accept_unread r got).1
      rw [hd] at hunread
      cases hunread
  | rxPush =>
    obtain ⟨src, i, -, -, hpush⟩ := Step.rxPush_inv hs
    obtain ⟨rfl, -⟩ := Prod.mk.inj hpush
    cases hd
  | rxKeep =>
    obtain ⟨_, _, -, -, rfl, -⟩ := Step.rxKeep_inv hs
    cases hd
  | getFrame =>
    obtain ⟨_, _, hu, rfl⟩ := Step.getFrame_inv hs
    rw [hu] at hd
    exact ⟨rfl, rfl, Or.inl hd⟩
  | stopStore =>
    obtain ⟨rfl, rfl⟩ := Step.stopStore_inv hs
    exact ⟨rfl, rfl, Or.inl hd⟩

theorem step_asks (h : Asks r) (hs : step r a = some (u, es)) : Asks u := by
  cases a with
  | rxStart =>
    obtain ⟨-, rfl, -⟩ := Step.rxStart_inv hs
    simp [Asks]
  | rxHead =>
    obtain ⟨-, rfl, -⟩ := Step.rxHead_inv hs
    cases hstop : r.stop_flag_ <;> simp [Asks]
  | rxCall =>
    obtain ⟨buf, got, -, hlt, rfl, -⟩ := Step.rxCall_inv hs
    rintro _ _ ⟨⟩
    exact hlt
  | rxRecv bytes =>
    obtain ⟨_, _, -, -, -, rfl, -⟩ := Step.rxRecv_inv hs
    simp [Asks]
  | rxFail =>
    obtain ⟨_, _, -, rfl, -⟩ := Step.rxFail_inv hs
    simp [Asks]
  | rxRead =>
    obtain ⟨_, _, -, ⟨-, rfl, -⟩ | ⟨-, rfl, -⟩⟩ | ⟨_, got, -, -, rfl, -⟩ := Step.rxRead_inv hs
    · simp [Asks]
    · simp [Asks]
    · exact fun buf got' ht => absurd ht ((accept_toCall r got).2.2.1 buf got')
  | rxPush =>
    obtain ⟨src, i, -, -, hpush⟩ := Step.rxPush_inv hs
    obtain ⟨rfl, -⟩ := Prod.mk.inj hpush
    simp [Asks]
  | rxKeep =>
    obtain ⟨_, _, -, -, rfl, -⟩ := Step.rxKeep_inv hs
    simp [Asks]
  | getFrame =>
    obtain ⟨_, _, hu, -⟩ := Step.getFrame_inv hs
    rw [hu]
    exact h
  | stopStore =>
    obtain ⟨rfl, -⟩ := Step.stopStore_inv hs
    exact h

end Steps

section Runs
variable {ok ok' : Rx → RxAct → Prop} {r r' : Rx} {tr tr' : List RxEvent}

theorem run_asks (h : machine.Run ok tr r) : Asks r := by
  refine h.invariant (I := fun _ r => Asks r) ?_ fun _ _ _ _ _ h _ hs => step_asks h hs
  rintro r rfl
  simp [Asks]

/-- Once the thread ended, what follows the packets that it read is not a packet. -/
theorem run_done (h : machine.Run ok tr r) (hd : r.thread = .done) :
    ∃ rest, received tr = frames (packetsRead tr) ++ rest ∧ Incomplete rest := by
  induction h with
  | init hinit =>
    obtain rfl := hinit
    cases hd
  | step hrun _ hs ih =>
    obtain ⟨hrecv, hpkts, hbefore⟩ := step_done hs hd
    rw [received_append, packetsRead_append, hrecv, hpkts, List.append_nil, List.append_nil]
    have hframed := run_framed hrun
    rcases hbefore with hdone | hhead | ⟨buf, got, hrecving⟩
    · exact ih hdone
    · obtain ⟨rest, hstream, hrest⟩ := hframed.stream
      rw [hhead] at hrest
      exact ⟨rest, hstream, hrest [] rfl ▸ incomplete_length Nat.two_pos⟩
    · exact incomplete_of_asks hframed hrecving (run_asks hrun buf got hrecving)

/-- A receiver that is done with a stream of packets has read these packets. -/
theorem packetsRead_settled {ps : List Bytes} (hp : Framable ps) (h : machine.Run ok tr r) (hr : Settled r)
    (hstream : received tr = frames ps) : packetsRead tr = ps := by
  have hframed := run_framed h
  obtain ⟨rest, hrest, hinc⟩ : ∃ rest, received tr = frames (packetsRead tr) ++ rest ∧ Incomplete rest := by
    cases hu : unread r.thread with
    | some got =>
      obtain ⟨rest, hrest, hgot⟩ := hframed.stream
      refine ⟨rest, hrest, ?_⟩
      rw [← hgot got hu, hr.2 got hu]
      exact incomplete_length Nat.two_pos
    | none =>
      refine run_done h ?_
      cases ht : r.thread with
      | done => rfl
      | read buf got | recving buf got => cases buf <;> simp [unread, ht] at hu
      | absent | head | push src i => simp [unread, ht] at hu
  have hread := eq_within (n := (frames ps).length) hframed.framable hp hinc (by rw [List.take_length, ← hstream, hrest])
  rwa [within_all] at hread

/-- Of two streams, one of which is the other without some packets that are empty or that `parse` rejects, receivers that
    are done with them have pushed the same frames and keep the same bytes, however they were scheduled. -/
theorem malformed_is_inert {ps qs : List Bytes} (hp : Framable ps) (hdel : Without ps qs) (h : machine.Run ok tr r)
    (hr : Settled r) (hstream : received tr = frames ps) (h' : machine.Run ok' tr' r') (hr' : Settled r')
    (hstream' : received tr' = frames qs) : pushed tr' = pushed tr ∧ r'.rx_leftover_ = r.rx_leftover_ := by
  refine eq_of_payloads h hr.1 h' hr'.1 ?_
  rw [payloads, payloads, packetsRead_settled hp h hr hstream, packetsRead_settled (hdel.framable hp) h' hr' hstream']
  exact hdel.payloads

theorem exists_run_settled {ps : List Bytes} (hp : Framable ps) :
    ∃ tr r, machine.Run Any tr r ∧ Settled r ∧ received tr = frames ps := by
  obtain ⟨tr, r, hrun, hdone, hstream, -⟩ := Link.exists_run_packetsRead hp
  exact ⟨tr, r, hrun, ⟨by rw [hdone]; rfl, by simp [hdone, unread]⟩, hstream⟩

/-- Between two packets, which make one frame, stand an empty one and one of three bytes. -/
theorem malformed_is_inert_four : ∃ tr tr' r r',
    received tr = frames [({ payload := List.replicate 100 0xD5 } : RtpPacket).serialize, [], [1, 2, 3],
      ({ payload := List.replicate 80 0x55 } : RtpPacket).serialize] ∧
    received tr' = frames [({ payload := List.replicate 100 0xD5 } : RtpPacket).serialize,
      ({ payload := List.replicate 80 0x55 } : RtpPacket).serialize] ∧
    pushed tr' = pushed tr ∧ (r' : Rx).rx_leftover_ = (r : Rx).rx_leftover_ := by
  have hdel : Without
      [({ payload := List.replicate 100 0xD5 } : RtpPacket).serialize, [], [1, 2, 3],
        ({ payload := List.replicate 80 0x55 } : RtpPacket).serialize]
      [({ payload := List.replicate 100 0xD5 } : RtpPacket).serialize,
        ({ payload := List.replicate 80 0x55 } : RtpPacket).serialize] :=
    .keep (.drop (Or.inl rfl) (.drop (Or.inr ⟨.malformed, rfl⟩) (.keep .nil)))
  have hp : Framable [({ payload := List.replicate 100 0xD5 } : RtpPacket).serialize, [], [1, 2, 3],
      ({ payload := List.replicate 80 0x55 } : RtpPacket).serialize] := by
    simp [Framable, RtpPacket.length_serialize]
  obtain ⟨tr, r, hrun, hr, hstream⟩ := exists_run_settled hp
  obtain ⟨tr', r', hrun', hr', hstream'⟩ := exists_run_settled (hdel.framable hp)
  exact ⟨tr, tr', r, r', hstream, hstream', malformed_is_inert hp hdel hrun hr hstream hrun' hr' hstream'⟩

end Runs
end AudioMeet.Rx
