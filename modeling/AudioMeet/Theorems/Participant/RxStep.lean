import AudioMeet.Participant.Rx

/-! What each step of the receive side can do. -/

namespace AudioMeet.Rx
open Lib

namespace Step
variable {r u : Rx} {es : List RxEvent}

theorem rxStart_inv (h : step r .rxStart = some (u, es)) :
    r.thread = .absent ∧ u = { r with thread := .head } ∧ es = [] := by
  simp only [step] at h
  split at h
  · simp only [Option.some.injEq, Prod.mk.injEq] at h
    exact ⟨by assumption, h.1.symm, h.2.symm⟩
  · cases h

theorem rxHead_inv (h : step r .rxHead = some (u, es)) :
    r.thread = .head ∧ u = { r with thread := if r.stop_flag_ then .done else .read .length [] } ∧ es = [] := by
  simp only [step] at h
  split at h
  · simp only [Option.some.injEq, Prod.mk.injEq] at h
    exact ⟨by assumption, h.1.symm, h.2.symm⟩
  · cases h

theorem rxCall_inv (h : step r .rxCall = some (u, es)) :
    ∃ buf got, r.thread = .read buf got ∧ got.length < buf.size ∧ u = { r with thread := .recving buf got } ∧
      es = [] := by
  cases hr : r.thread <;> simp only [step, hr, reduceCtorEq] at h
  split at h
  · simp only [Option.some.injEq, Prod.mk.injEq] at h
    exact ⟨_, _, rfl, by assumption, h.1.symm, h.2.symm⟩
  · cases h

theorem rxRecv_inv {bytes : Bytes} (h : step r (.rxRecv bytes) = some (u, es)) :
    ∃ buf got, r.thread = .recving buf got ∧ 0 < bytes.length ∧ bytes.length ≤ buf.size - got.length ∧
      u = { r with thread := .read buf (got ++ bytes) } ∧ es = [.received bytes] := by
  cases hr : r.thread <;> simp only [step, hr, reduceCtorEq] at h
  split at h
  · rename_i hlen
    simp only [Option.some.injEq, Prod.mk.injEq] at h
    exact ⟨_, _, rfl, hlen.1, hlen.2, h.1.symm, h.2.symm⟩
  · cases h

theorem rxFail_inv (h : step r .rxFail = some (u, es)) :
    ∃ buf got, r.thread = .recving buf got ∧ u = { r with thread := .done } ∧ es = [] := by
  cases hr : r.thread <;> simp only [step, hr, reduceCtorEq] at h
  simp only [Option.some.injEq, Prod.mk.injEq] at h
  exact ⟨_, _, rfl, h.1.symm, h.2.symm⟩

/-- A whole buffer is a length of zero, the length of a packet, or a packet. -/
theorem rxRead_inv (h : step r .rxRead = some (u, es)) :
    (∃ b₀ b₁, r.thread = .read .length [b₀, b₁] ∧
      ((ofBe16 b₀ b₁ = 0 ∧ u = { r with thread := .head } ∧ es = [.packet []]) ∨
       (ofBe16 b₀ b₁ ≠ 0 ∧ u = { r with thread := .read (.packet (ofBe16 b₀ b₁)) [] } ∧ es = []))) ∨
    (∃ pkt_len got, r.thread = .read (.packet pkt_len) got ∧ pkt_len.toNat ≤ got.length ∧ u = r.accept got ∧
      es = [.packet got]) := by
  cases hr : r.thread <;> simp only [step, hr, reduceCtorEq] at h
  rename_i buf got
  split at h
  · cases h
  · rename_i hlen
    cases buf with
    | length =>
      simp only [readDone] at h
      split at h
      · rename_i b₀ b₁
        refine Or.inl ⟨b₀, b₁, rfl, ?_⟩
        split at h <;> simp only [Option.some.injEq, Prod.mk.injEq] at h
        · exact Or.inl ⟨by assumption, h.1.symm, h.2.symm⟩
        · exact Or.inr ⟨by assumption, h.1.symm, h.2.symm⟩
      · cases h
    | packet pkt_len =>
      simp only [readDone, Option.some.injEq, Prod.mk.injEq] at h
      exact Or.inr ⟨pkt_len, got, rfl, by simpa [ReadBuf.size] using hlen, h.1.symm, h.2.symm⟩

/-- A packet is skipped, or its payload goes behind the bytes left over. -/
theorem accept_eq (r : Rx) (bytes : Bytes) :
    ((∃ e, RtpPacket.parse bytes = .error e) ∧ r.accept bytes = { r with thread := .head }) ∨
    ∃ rtp, RtpPacket.parse bytes = .ok rtp ∧
      r.accept bytes =
        { r with rx_leftover_ := if r.rx_leftover_ = [] then [] else r.rx_leftover_ ++ rtp.payload
                 thread := .push (r.rx_leftover_ ++ rtp.payload) 0 } := by
  cases hp : RtpPacket.parse bytes with
  | error e => exact Or.inl ⟨⟨e, rfl⟩, by simp [accept, hp]⟩
  | ok rtp =>
    refine Or.inr ⟨rtp, rfl, ?_⟩
    simp only [accept, hp, List.isEmpty_iff]
    split
    · rename_i hnil
      cases r
      simp_all
    · rfl

theorem rxPush_inv (h : step r .rxPush = some (u, es)) :
    ∃ src i, r.thread = .push src i ∧ i < nFull src ∧
      (u, es) = ({ r with thread := .push src (i + 1) } : Rx).pushFrame (decodeFrame src i) := by
  cases hr : r.thread <;> simp only [step, hr, reduceCtorEq] at h
  split at h
  · exact ⟨_, _, rfl, by assumption, (Option.some.inj h).symm⟩
  · cases h

theorem rxKeep_inv (h : step r .rxKeep = some (u, es)) :
    ∃ src i, r.thread = .push src i ∧ nFull src ≤ i ∧ u = { r with rx_leftover_ := r.keep src, thread := .head } ∧
      es = [] := by
  cases hr : r.thread <;> simp only [step, hr, reduceCtorEq] at h
  split at h
  · cases h
  · simp only [Option.some.injEq, Prod.mk.injEq] at h
    exact ⟨_, _, rfl, by omega, h.1.symm, h.2.symm⟩

/-- A pop of `on_get_frame` only changes the buffer. -/
theorem getFrame_inv (h : step r .getFrame = some (u, es)) :
    ∃ frame buffered, u = { r with rx_buf_ := u.rx_buf_ } ∧ es = [.output frame buffered] := by
  simp only [step, Option.some.injEq, getFrame] at h
  split at h
  · simp only [Prod.mk.injEq] at h
    obtain ⟨rfl, rfl⟩ := h
    exact ⟨_, _, rfl, rfl⟩
  · split at h <;> simp only [Prod.mk.injEq] at h <;> obtain ⟨rfl, rfl⟩ := h <;> exact ⟨_, _, rfl, rfl⟩

theorem stopStore_inv (h : step r .stopStore = some (u, es)) : u = { r with stop_flag_ := true } ∧ es = [] := by
  simp only [step, Option.some.injEq, Prod.mk.injEq] at h
  exact ⟨h.1.symm, h.2.symm⟩

end Step
end AudioMeet.Rx
