import AudioMeet.Theorems.G711
import AudioMeet.Theorems.Participant.StreamFraming

/-! The frames that `rx_thread_func` cuts from the payloads. Whether a packet is decoded in place or behind
    the bytes left over, what is pushed and what is kept depends on the payload bytes alone. -/

namespace AudioMeet.Rx
open Lib Machine

/-- The payloads of the packets that `parse` accepted, in order. -/
def accepted (tr : List RxEvent) : List Bytes :=
  (packetsRead tr).filterMap fun bytes =>
    match RtpPacket.parse bytes with
    | .ok rtp => some rtp.payload
    | .error _ => none

theorem flatten_accepted (tr : List RxEvent) : (accepted tr).flatten = payloads tr := by
  simp only [accepted, payloads]
  induction packetsRead tr with
  | nil => rfl
  | cons p ps ih =>
    rw [List.filterMap_cons, List.flatMap_cons, ← ih]
    cases hp : RtpPacket.parse p <;> simp [payloadOf, hp]

section Runs
variable {ok ok' : Rx → RxAct → Prop} {r r' : Rx} {tr tr' : List RxEvent}

/-- Runs that were given the same payload bytes, in whatever packets, pushed the same and keep the same. -/
theorem eq_of_payloads (h : machine.Run ok tr r) (hr : pushing r.thread = false) (h' : machine.Run ok' tr' r')
    (hr' : pushing r'.thread = false) (hbytes : payloads tr' = payloads tr) :
    pushed tr' = pushed tr ∧ r'.rx_leftover_ = r.rx_leftover_ := by
  have hd := run_decoded h
  have hd' := run_decoded h'
  have hpushed : pushed tr' = pushed tr := by
    have hframes := hd.frames
    have hframes' := hd'.frames
    rw [toCome_nil hr, List.append_nil] at hframes
    rw [toCome_nil hr', List.append_nil, hbytes, ← hframes] at hframes'
    exact hframes'
  have hsame := (hd'.whole hr').trans ((congrArg (List.map G711Alaw.decodeSample) hbytes).trans (hd.whole hr).symm)
  rw [hpushed] at hsame
  exact ⟨hpushed, List.map_injective_iff.mpr G711Alaw.decodeSample_injective (List.append_cancel_left hsame)⟩

/-- Between two packets: the frames pushed, followed by the bytes left over, are the payloads; less than a
    frame is left over; and every run that was given the same bytes, in whatever packets, pushed the same
    frames and keeps the same bytes. -/
theorem reassembly_agrees (h : machine.Run ok tr r) (hr : pushing r.thread = false) :
    (pushed tr).flatten ++ r.rx_leftover_.map G711Alaw.decodeSample =
        (accepted tr).flatten.map G711Alaw.decodeSample ∧
      r.rx_leftover_.length < FRAME_SAMPLES ∧
      ∀ tr' r', machine.Run ok' tr' r' → pushing r'.thread = false → (accepted tr').flatten = (accepted tr).flatten →
        pushed tr' = pushed tr ∧ r'.rx_leftover_ = r.rx_leftover_ := by
  have hd := run_decoded h
  refine ⟨?_, (hd.between hr).2, fun tr' r' h' hr' hbytes => ?_⟩
  · rw [flatten_accepted]
    exact hd.whole hr
  · rw [flatten_accepted, flatten_accepted] at hbytes
    exact eq_of_payloads h hr h' hr' hbytes

/-- A packet takes a payload of up to 65523 bytes behind its header; some run is given any list of these. -/
theorem exists_run_accepted {ps : List Bytes} (hp : ∀ p ∈ ps, p.length ≤ 65523) :
    ∃ tr r, machine.Run Any tr r ∧ pushing r.thread = false ∧ accepted tr = ps := by
  have hframable : Framable (ps.map fun p => ({ payload := p } : RtpPacket).serialize) := by
    intro q hq
    obtain ⟨p, hm, rfl⟩ := List.mem_map.mp hq
    rw [RtpPacket.length_serialize]
    exact Nat.lt_of_le_of_lt (Nat.add_le_add_left (hp p hm) 12) (by decide)
  obtain ⟨tr, r, hrun, hdone, -, hread⟩ := Link.exists_run_packetsRead hframable
  refine ⟨tr, r, hrun, by rw [hdone]; rfl, ?_⟩
  rw [accepted, hread, List.filterMap_map]
  refine (List.filterMap_congr (g := some) fun p _ => ?_).trans List.filterMap_some
  have hparse : RtpPacket.parse ({ payload := p } : RtpPacket).serialize = .ok { payload := p } :=
    RtpPacket.parse_serialize rfl rfl rfl (show (8 : UInt8) < 128 by decide)
  simp [hparse]

/-- Two frames in three payloads, one of them empty, and three bytes left over. -/
theorem reassembly_agrees_three :
    ∃ tr, ∃ r : Rx, accepted tr = [List.replicate 100 0xD5, [], List.replicate 223 0x55] ∧
      (pushed tr).flatten ++ r.rx_leftover_.map G711Alaw.decodeSample =
        (accepted tr).flatten.map G711Alaw.decodeSample ∧
      r.rx_leftover_.length < FRAME_SAMPLES ∧
      ∀ tr' r', machine.Run Any tr' r' → pushing r'.thread = false → (accepted tr').flatten = (accepted tr).flatten →
        pushed tr' = pushed tr ∧ r'.rx_leftover_ = r.rx_leftover_ := by
  obtain ⟨tr, r, hrun, hr, hacc⟩ :=
    exists_run_accepted (show ∀ p ∈ [List.replicate 100 0xD5, [], List.replicate 223 0x55], p.length ≤ 65523 by decide +kernel)
  exact ⟨tr, r, hacc, reassembly_agrees hrun hr⟩

end Runs
end AudioMeet.Rx
