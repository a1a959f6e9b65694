import AudioMeet.Theorems.Participant.SendQueue
import Mathlib.Data.List.NodupEquivFin

/-! What the packets of a run carry, and how any two packets taken for the wire relate. -/

namespace AudioMeet.Tx
open Lib Machine

variable {t : Tx} {tr : List TxEvent}

/-- What every run of the send side keeps of the packets. -/
structure PacketLaw (tr : List TxEvent) (t : Tx) : Prop where
  /-- Packet `n` is made of the calls `first + 2 * n` and `first + 2 * n + 1`: after the header the encoded samples of
      one and then of the other. -/
  packet : ∃ first, ∀ n p, (built tr)[n]? = some p →
    p.serialize.length = 332 ∧ p.version = 2 ∧ p.payload_type = 8 ∧ p.ssrc = t.ssrc_ ∧
    p.sequence = UInt16.ofNat n ∧ p.timestamp = UInt32.ofNat (160 * (first + 2 * n)) ∧ p.payload.length = 320 ∧
    ∃ f g, (Tx.calls tr)[first + 2 * n]? = some (f, true) ∧ (Tx.calls tr)[first + 2 * n + 1]? = some (g, true) ∧
      p.payload = (samples f ++ samples g).map G711Alaw.encodeSample ∧
      p.serialize = [0x80, 0x08] ++ be16 (UInt16.ofNat n) ++ be32 (UInt32.ofNat (160 * (first + 2 * n))) ++
        be32 t.ssrc_ ++ (samples f ++ samples g).map G711Alaw.encodeSample
  acc : t.tx_acc_.length = 0 ∨ t.tx_acc_.length = 160
  /-- Packets taken for the wire are built packets, in order; two of them, built as numbers `m < n`, differ
      by `n - m` in their sequence number and by `320 * (n - m)` in their timestamp. -/
  wire : ∃ number : Nat → Nat, StrictMono number ∧
    (∀ i bytes, (dequeued tr)[i]? = some bytes →
      ∃ p, (built tr)[number i]? = some p ∧ bytes = p.serialize) ∧
    ∀ m n p q, (built tr)[m]? = some p → (built tr)[n]? = some q → m < n →
      q.sequence - p.sequence = UInt16.ofNat (n - m) ∧ q.timestamp - p.timestamp = UInt32.ofNat (320 * (n - m))

theorem Batches.acc {pre act post : List PjFrame} (h : Batches tr t pre act post) :
    t.tx_acc_.length = 0 ∨ t.tx_acc_.length = 160 := by
  by_cases hp : post = []
  · rcases even_or_snoc act with he | ⟨ini, f, ha, he⟩
    · exact Or.inl (by rw [h.acc_even hp he]; rfl)
    · exact Or.inr (by rw [(h.acc_odd hp ini f ha he).1, length_encodeFrame])
  · exact Or.inl (by rw [h.acc_post hp]; rfl)

/-- The active calls stand in the numbered calls after the inactive ones. -/
theorem Batches.call {pre act post : List PjFrame} (h : Batches tr t pre act post) {i : Nat} {f : PjFrame}
    (hf : act[i]? = some f) : (Tx.calls tr)[pre.length + i]? = some (f, true) := by
  have hi : i < act.length := (List.getElem?_eq_some_iff.mp hf).1
  rw [h.calls, List.append_assoc, List.getElem?_append_right (by simp), List.length_map, Nat.add_sub_cancel_left,
    List.getElem?_append_left (by simpa using hi), List.getElem?_map, hf]
  rfl

theorem payload_packet {ssrc : UInt32} {k n : Nat} {f g : PjFrame} :
    (packet ssrc k n f g).payload = (samples f ++ samples g).map G711Alaw.encodeSample := by
  rw [List.map_append, ← encodeFrame_eq, ← encodeFrame_eq]
  rfl

theorem serialize_packet {ssrc : UInt32} {k n : Nat} {f g : PjFrame} : (packet ssrc k n f g).serialize =
    [0x80, 0x08] ++ be16 (UInt16.ofNat n) ++ be32 (UInt32.ofNat (160 * k)) ++ be32 ssrc ++
      (samples f ++ samples g).map G711Alaw.encodeSample := by
  have hb0 : ((2 : UInt8) &&& 0x03) <<< 6 = 0x80 := by decide
  have hb1 : (8 : UInt8) &&& 0x7F = 0x08 := by decide
  rw [List.map_append, ← encodeFrame_eq, ← encodeFrame_eq, RtpPacket.serialize]
  simp only [packet, hb0, hb1, Bool.false_eq_true, if_false]

/-- The packets of a run are made of consecutive pairs of calls that saw the sender active. -/
theorem run_packets {ok : Tx → TxAct → Prop} (h : machine.Run ok tr t) : ∃ first, ∀ n p, (built tr)[n]? = some p →
    ∃ f g, (Tx.calls tr)[first + 2 * n]? = some (f, true) ∧ (Tx.calls tr)[first + 2 * n + 1]? = some (g, true) ∧
      p = packet t.ssrc_ (first + 2 * n) n f g := by
  obtain ⟨-, pre, act, post, hb⟩ := run_batches h
  refine ⟨pre.length, fun n p hp => ?_⟩
  rw [hb.built] at hp
  obtain ⟨f, g, hf, hg, rfl⟩ := getElem?_packets hp
  refine ⟨f, g, hb.call hf, ?_, by rw [Nat.zero_add]⟩
  rw [Nat.add_assoc]
  exact hb.call hg

/-- The packets of a run carry what two calls encoded, numbered and stamped by them. -/
theorem packet_law {ok : Tx → TxAct → Prop} (h : machine.Run ok tr t) : PacketLaw tr t := by
  obtain ⟨-, pre, act, post, hb⟩ := run_batches h
  obtain ⟨first, hpkt⟩ := run_packets h
  refine ⟨⟨first, fun n p hp => ?_⟩, hb.acc, ?_⟩
  · obtain ⟨f, g, hf, hg, rfl⟩ := hpkt n p hp
    exact ⟨length_built h (List.mem_of_getElem? hp), rfl, rfl, rfl, rfl, rfl, by simp [packet], f, g, hf, hg,
      payload_packet, serialize_packet⟩
  · have hsub : (dequeued tr).Sublist ((built tr).map RtpPacket.serialize) :=
      (DropQueue.popped_sublist (by decide) (run_dropQueue h)).trans (enqueued_sublist h)
    obtain ⟨number, hnumber⟩ := List.sublist_iff_exists_orderEmbedding_getElem?_eq.mp hsub
    refine ⟨number, number.strictMono, fun i bytes hi => ?_, fun m n p q hp hq hmn => ?_⟩
    · rw [hnumber i, List.getElem?_map, Option.map_eq_some_iff] at hi
      obtain ⟨p, hp, rfl⟩ := hi
      exact ⟨p, hp, rfl⟩
    · obtain ⟨_, _, -, -, rfl⟩ := hpkt m p hp
      obtain ⟨_, _, -, -, rfl⟩ := hpkt n q hq
      refine ⟨(UInt16.ofNat_sub hmn.le).symm, ?_⟩
      change UInt32.ofNat _ - UInt32.ofNat _ = _
      rw [← UInt32.ofNat_sub (by omega)]
      congr 1
      omega

theorem packet_law_tone : ∃ tr t, machine.Run Any tr t ∧ (built tr).length = 1 ∧ PacketLaw tr t := by
  obtain ⟨tr, t, hrun, hp⟩ := exists_run machine { ssrc_ := 7 } toneRun ⟨7, rfl⟩ (meets_any _ _ _)
    (fun r => (built r.2).length == 1) (by decide +kernel)
  exact ⟨tr, t, hrun, by simpa using hp, packet_law hrun⟩

end AudioMeet.Tx
