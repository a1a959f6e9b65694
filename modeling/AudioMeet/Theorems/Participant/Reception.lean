import AudioMeet.Lib.Framing
import AudioMeet.Lib.Lists
import AudioMeet.Theorems.Participant.RxStep

/-! The receive side along every run: the bytes received are the framed packets, followed by the part of a
    packet that was read so far; the frames pushed are the decoded payloads, cut every 160 samples. -/

namespace AudioMeet.Rx
open Lib Machine

/-! ### What a run shows of the stream and of the frames -/

def RxEvent.bytes : RxEvent → Bytes
  | .received bytes => bytes
  | _ => []

def RxEvent.packets : RxEvent → List Bytes
  | .packet bytes => [bytes]
  | _ => []

def RxEvent.frames : RxEvent → List (List Int16)
  | .pushed frame => [frame]
  | _ => []

/-- The bytes that `recv` returned, in order. -/
def received (tr : List RxEvent) : Bytes := tr.flatMap RxEvent.bytes

/-- The packets that were read, in order. -/
def packetsRead (tr : List RxEvent) : List Bytes := tr.flatMap RxEvent.packets

/-- The frames pushed into `rx_buf_`, in order. -/
def pushed (tr : List RxEvent) : List (List Int16) := tr.flatMap RxEvent.frames

@[simp] theorem received_append (tr es : List RxEvent) : received (tr ++ es) = received tr ++ received es :=
  List.flatMap_append

@[simp] theorem packetsRead_append (tr es : List RxEvent) :
    packetsRead (tr ++ es) = packetsRead tr ++ packetsRead es := List.flatMap_append

@[simp] theorem pushed_append (tr es : List RxEvent) : pushed (tr ++ es) = pushed tr ++ pushed es :=
  List.flatMap_append

/-- What `rx_thread_func` takes from a packet: its payload, or nothing of a packet that `parse` rejects. -/
def payloadOf (bytes : Bytes) : Bytes :=
  match RtpPacket.parse bytes with
  | .ok rtp => rtp.payload
  | .error _ => []

section Steps
variable {r u : Rx} {a : RxAct} {tr es : List RxEvent}

theorem pushFrame_eq (r : Rx) (frame : List Int16) :
    (r.pushFrame frame).1.thread = r.thread ∧ (r.pushFrame frame).1.rx_leftover_ = r.rx_leftover_ ∧
      (r.pushFrame frame).1.stop_flag_ = r.stop_flag_ ∧ received (r.pushFrame frame).2 = [] ∧
      packetsRead (r.pushFrame frame).2 = [] ∧ pushed (r.pushFrame frame).2 = [frame] := by
  unfold pushFrame
  refine ⟨rfl, rfl, rfl, ?_, ?_, ?_⟩ <;> dsimp only <;> split <;> rfl

/-- Only `recv` takes bytes from the stream. -/
theorem received_eq_nil (ha : ∀ bytes, a ≠ .rxRecv bytes) (hs : step r a = some (u, es)) : received es = [] := by
  cases a with
  | rxRecv bytes => exact absurd rfl (ha bytes)
  | rxStart =>
    obtain ⟨-, -, rfl⟩ := Step.rxStart_inv hs
    rfl
  | rxHead =>
    obtain ⟨-, -, rfl⟩ := Step.rxHead_inv hs
    rfl
  | rxCall =>
    obtain ⟨_, _, -, -, -, rfl⟩ := Step.rxCall_inv hs
    rfl
  | rxFail =>
    obtain ⟨_, _, -, -, rfl⟩ := Step.rxFail_inv hs
    rfl
  | rxRead =>
    obtain ⟨_, _, -, ⟨-, -, rfl⟩ | ⟨-, -, rfl⟩⟩ | ⟨_, _, -, -, -, rfl⟩ := Step.rxRead_inv hs <;> rfl
  | rxPush =>
    obtain ⟨src, i, -, -, hpush⟩ := Step.rxPush_inv hs
    obtain ⟨-, -, -, hrecv, -⟩ := pushFrame_eq { r with thread := .push src (i + 1) } (decodeFrame src i)
    rwa [← hpush] at hrecv
  | rxKeep =>
    obtain ⟨_, _, -, -, -, rfl⟩ := Step.rxKeep_inv hs
    rfl
  | getFrame =>
    obtain ⟨_, _, -, rfl⟩ := Step.getFrame_inv hs
    rfl
  | stopStore =>
    obtain ⟨-, rfl⟩ := Step.stopStore_inv hs
    rfl

/-! ### The stream is read packet by packet -/

/-- The part of a packet that was read so far, its length first; nothing is known of it once the thread
    ended. -/
def unread : RxPc → Option Bytes
  | .absent | .head | .push _ _ => some []
  | .read .length got | .recving .length got => some got
  | .read (.packet n) got | .recving (.packet n) got => some (be16 n ++ got)
  | .done => none

/-- The thread is in the loop over the frames of a packet. -/
def pushing : RxPc → Bool
  | .push _ _ => true
  | _ => false

/-- `read_exact` never receives more than its buffer holds. -/
def Fits : RxPc → Prop
  | .read buf got | .recving buf got => got.length ≤ buf.size
  | _ => True

/-- The bytes received are the framed packets, followed by the part of a packet read so far. -/
structure Framed (tr : List RxEvent) (r : Rx) : Prop where
  fits : Fits r.thread
  framable : Framable (packetsRead tr)
  stream : ∃ rest, received tr = frames (packetsRead tr) ++ rest ∧ ∀ got, unread r.thread = some got → got = rest

theorem Framed.keep (h : Framed tr r) (hr : received es = []) (hp : packetsRead es = []) (hfits : Fits u.thread)
    (hu : ∀ got, unread u.thread = some got → unread r.thread = some got) : Framed (tr ++ es) u := by
  obtain ⟨rest, hs, hg⟩ := h.stream
  refine ⟨hfits, ?_, rest, ?_, fun got h => hg got (hu got h)⟩
  · rw [packetsRead_append, hp, List.append_nil]
    exact h.framable
  · rw [received_append, packetsRead_append, hr, hp, List.append_nil, List.append_nil, hs]

/-- The whole of a packet was read, and the thread is between two packets. -/
theorem Framed.packet (h : Framed tr r) (bytes got : Bytes) (hbytes : bytes.length < 2 ^ 16)
    (hgot : unread r.thread = some got) (hframe : got = frame bytes) (hfits : Fits u.thread)
    (hu : ∀ got, unread u.thread = some got → got = []) : Framed (tr ++ [.packet bytes]) u := by
  obtain ⟨rest, hs, hg⟩ := h.stream
  obtain rfl := hg _ hgot
  have hp : packetsRead [.packet bytes] = [bytes] := rfl
  refine ⟨hfits, ?_, [], ?_, hu⟩
  · rw [packetsRead_append, hp]
    intro p hm
    rcases List.mem_append.mp hm with hm | hm
    · exact h.framable p hm
    · rw [List.mem_singleton.mp hm]
      exact hbytes
  · rw [received_append, packetsRead_append, hp, frames_append, frames_singleton, hs, hframe]
    simp [received, RxEvent.bytes]

theorem accept_unread (r : Rx) (bytes : Bytes) : unread (r.accept bytes).thread = some [] ∧ Fits (r.accept bytes).thread := by
  rcases Step.accept_eq r bytes with ⟨-, h⟩ | ⟨rtp, -, h⟩ <;> rw [h] <;> exact ⟨rfl, trivial⟩

theorem step_framed (h : Framed tr r) (hs : step r a = some (u, es)) : Framed (tr ++ es) u := by
  cases a with
  | rxStart =>
    obtain ⟨ht, rfl, rfl⟩ := Step.rxStart_inv hs
    exact h.keep rfl rfl trivial fun got hg => by rw [ht]; exact hg
  | rxHead =>
    obtain ⟨ht, rfl, rfl⟩ := Step.rxHead_inv hs
    cases hstop : r.stop_flag_
    · exact h.keep rfl rfl (Nat.zero_le _) fun got hg => by rw [ht]; exact hg
    · exact h.keep rfl rfl trivial fun got hg => by cases hg
  | rxCall =>
    obtain ⟨buf, got, ht, hlt, rfl, rfl⟩ := Step.rxCall_inv hs
    refine h.keep rfl rfl hlt.le fun got' hg => ?_
    rw [ht]
    cases buf <;> exact hg
  | rxRecv bytes =>
    obtain ⟨buf, got, ht, -, hle, rfl, rfl⟩ := Step.rxRecv_inv hs
    have hfits : got.length ≤ buf.size := by
      have := h.fits
      rwa [ht] at this
    obtain ⟨rest, hs, hg⟩ := h.stream
    refine ⟨?_, by simpa [packetsRead, RxEvent.packets] using h.framable, rest ++ bytes, ?_, fun got' hg' => ?_⟩
    · change (got ++ bytes).length ≤ buf.size
      rw [List.length_append]
      omega
    · rw [received_append, packetsRead_append, hs, List.append_assoc]
      simp [received, packetsRead, RxEvent.bytes, RxEvent.packets]
    · rw [ht] at hg
      cases buf with
      | length =>
        rw [← hg got rfl]
        exact (Option.some.inj hg').symm
      | packet n =>
        rw [← hg (be16 n ++ got) rfl, List.append_assoc]
        exact (Option.some.inj hg').symm
  | rxFail =>
    obtain ⟨_, _, -, rfl, rfl⟩ := Step.rxFail_inv hs
    exact h.keep rfl rfl trivial fun got hg => by cases hg
  | rxRead =>
    obtain ⟨b₀, b₁, ht, ⟨hzero, rfl, rfl⟩ | ⟨-, rfl, rfl⟩⟩ | ⟨n, got, ht, hle, rfl, rfl⟩ := Step.rxRead_inv hs
    · refine h.packet [] [b₀, b₁] (by simp) (by rw [ht]; rfl) ?_ trivial
        fun got hg => (Option.some.inj hg).symm
      rw [← be16_ofBe16, hzero]
      rfl
    · refine h.keep rfl rfl (Nat.zero_le _) fun got hg => ?_
      rw [ht, ← hg]
      simp [unread, be16_ofBe16]
    · have hlen : got.length = n.toNat := by
        have hfits := h.fits
        rw [ht] at hfits
        exact le_antisymm hfits hle
      refine h.packet got (be16 n ++ got) (by rw [hlen]; exact n.toNat_lt) (by rw [ht]; rfl) ?_
        (accept_unread r got).2 fun got' hg => ?_
      · rw [frame, hlen, UInt16.ofNat_toNat]
      · rw [(accept_unread r got).1] at hg
        exact (Option.some.inj hg).symm
  | rxPush =>
    obtain ⟨src, i, ht, -, hpush⟩ := Step.rxPush_inv hs
    obtain ⟨hthread, -, -, hrecv, hpkts, -⟩ := pushFrame_eq { r with thread := .push src (i + 1) } (decodeFrame src i)
    rw [← hpush] at hthread hrecv hpkts
    refine h.keep hrecv hpkts (by rw [hthread]; trivial) fun got hg => ?_
    rw [hthread] at hg
    rw [ht]
    exact hg
  | rxKeep =>
    obtain ⟨src, i, ht, -, rfl, rfl⟩ := Step.rxKeep_inv hs
    exact h.keep rfl rfl trivial fun got hg => by rw [ht]; exact hg
  | getFrame =>
    obtain ⟨frame, buffered, hu, rfl⟩ := Step.getFrame_inv hs
    rw [hu]
    exact h.keep rfl rfl h.fits fun _ => id
  | stopStore =>
    obtain ⟨rfl, rfl⟩ := Step.stopStore_inv hs
    exact h.keep rfl rfl h.fits fun _ => id

theorem run_framed {ok : Rx → RxAct → Prop} (h : machine.Run ok tr r) : Framed tr r := by
  refine h.invariant (I := Framed) ?_ fun _ _ _ _ _ h _ hs => step_framed h hs
  rintro r rfl
  exact ⟨trivial, by simp [Framable, packetsRead], [], rfl, fun got hg => (Option.some.inj hg).symm⟩

/-! ### The frames are the decoded payloads -/

/-- The payload bytes of the packets read, in order. -/
def payloads (tr : List RxEvent) : Bytes := (packetsRead tr).flatMap payloadOf

@[simp] theorem payloads_append (tr es : List RxEvent) : payloads (tr ++ es) = payloads tr ++ payloads es := by
  simp [payloads]

/-- The payload bytes that made no frame yet. -/
def undecoded (r : Rx) : Bytes :=
  match r.thread with
  | .push src i => src.drop (i * FRAME_SAMPLES)
  | _ => r.rx_leftover_

/-- Within the loop over the full frames `rx_leftover_` is empty or is the source of the loop; outside it is
    shorter than a frame. -/
def LeftoverInv (r : Rx) : Prop :=
  match r.thread with
  | .push src i => i ≤ nFull src ∧ (r.rx_leftover_ = [] ∨ r.rx_leftover_ = src)
  | _ => r.rx_leftover_.length < FRAME_SAMPLES

/-- The frames pushed and the bytes not decoded yet make the payloads. -/
structure Decoded (tr : List RxEvent) (r : Rx) : Prop where
  samples : (pushed tr).flatten ++ (undecoded r).map G711Alaw.decodeSample = (payloads tr).map G711Alaw.decodeSample
  full : ∀ frame ∈ pushed tr, frame.length = FRAME_SAMPLES
  leftover : LeftoverInv r

theorem Decoded.keep (h : Decoded tr r) (hpush : pushed es = []) (hpkts : payloads es = [])
    (hun : undecoded u = undecoded r) (hleft : LeftoverInv u) : Decoded (tr ++ es) u := by
  refine ⟨?_, ?_, hleft⟩
  · rw [pushed_append, payloads_append, hpush, hpkts, List.append_nil, List.append_nil, hun, h.samples]
  · rw [pushed_append, hpush, List.append_nil]
    exact h.full

/-- Between the loops over full frames the state of the thread does not matter. -/
theorem Decoded.move (h : Decoded tr r) (hpush : pushed es = []) (hpkts : payloads es = [])
    (hr : ∀ src i, r.thread ≠ .push src i) (hu : ∀ src i, u.thread ≠ .push src i)
    (hleft : u.rx_leftover_ = r.rx_leftover_) : Decoded (tr ++ es) u := by
  have hr' : undecoded r = r.rx_leftover_ ∧ LeftoverInv r = (r.rx_leftover_.length < FRAME_SAMPLES) := by
    cases ht : r.thread <;> first | exact absurd ht (hr _ _) | simp only [undecoded, LeftoverInv, ht, and_self]
  have hu' : undecoded u = u.rx_leftover_ ∧ LeftoverInv u = (u.rx_leftover_.length < FRAME_SAMPLES) := by
    cases ht : u.thread <;> first | exact absurd ht (hu _ _) | simp only [undecoded, LeftoverInv, ht, and_self]
  refine h.keep hpush hpkts (by rw [hr'.1, hu'.1, hleft]) ?_
  rw [hu'.2, hleft, ← hr'.2]
  exact h.leftover

theorem length_decodeFrame {src : Bytes} {i : Nat} (hi : i < nFull src) : (decodeFrame src i).length = FRAME_SAMPLES := by
  simp only [nFull, FRAME_SAMPLES] at hi
  simp only [decodeFrame, FRAME_SAMPLES, List.length_map, List.length_take, List.length_drop]
  omega

theorem decodeFrame_append {src : Bytes} {i : Nat} :
    decodeFrame src i ++ (src.drop ((i + 1) * FRAME_SAMPLES)).map G711Alaw.decodeSample =
      (src.drop (i * FRAME_SAMPLES)).map G711Alaw.decodeSample := by
  rw [decodeFrame, ← List.map_append, Nat.succ_mul, ← List.drop_drop, List.take_append_drop]

/-- Both ways of keeping the rest of a packet keep what follows its full frames. -/
theorem keep_eq {src : Bytes} (h : r.rx_leftover_ = [] ∨ r.rx_leftover_ = src) :
    r.keep src = src.drop (nFull src * FRAME_SAMPLES) := by
  unfold keep
  dsimp only
  rcases h with h | h
  · rw [h, List.isEmpty_nil, if_pos rfl]
    split
    · rfl
    · rw [List.drop_eq_nil_of_le (by omega)]
  · cases hsrc : src with
    | nil => simp [h, hsrc]
    | cons b bs =>
      rw [h, hsrc, if_neg (by simp)]
      split
      · rfl
      · rw [show nFull (b :: bs) * FRAME_SAMPLES = 0 by omega, List.drop_zero]

theorem length_rest (src : Bytes) : (src.drop (nFull src * FRAME_SAMPLES)).length < FRAME_SAMPLES := by
  simp only [nFull, FRAME_SAMPLES, List.length_drop]
  omega

theorem step_decoded (h : Decoded tr r) (hs : step r a = some (u, es)) : Decoded (tr ++ es) u := by
  cases a with
  | rxStart =>
    obtain ⟨ht, rfl, rfl⟩ := Step.rxStart_inv hs
    exact h.move rfl rfl (by simp [ht]) (by simp) rfl
  | rxHead =>
    obtain ⟨ht, rfl, rfl⟩ := Step.rxHead_inv hs
    refine h.move rfl rfl (by simp [ht]) (fun src i => ?_) rfl
    cases hstop : r.stop_flag_ <;> simp
  | rxCall =>
    obtain ⟨_, _, ht, -, rfl, rfl⟩ := Step.rxCall_inv hs
    exact h.move rfl rfl (by simp [ht]) (by simp) rfl
  | rxRecv bytes =>
    obtain ⟨_, _, ht, -, -, rfl, rfl⟩ := Step.rxRecv_inv hs
    exact h.move rfl rfl (by simp [ht]) (by simp) rfl
  | rxFail =>
    obtain ⟨_, _, ht, rfl, rfl⟩ := Step.rxFail_inv hs
    exact h.move rfl rfl (by simp [ht]) (by simp) rfl
  | rxRead =>
    obtain ⟨b₀, b₁, ht, ⟨-, rfl, rfl⟩ | ⟨-, rfl, rfl⟩⟩ | ⟨n, got, ht, -, rfl, rfl⟩ := Step.rxRead_inv hs
    · exact h.move rfl rfl (by simp [ht]) (by simp) rfl
    · exact h.move rfl rfl (by simp [ht]) (by simp) rfl
    · have hpay : payloads [.packet got] = payloadOf got := by simp [payloads, packetsRead, RxEvent.packets]
      rcases Step.accept_eq r got with ⟨⟨e, he⟩, hacc⟩ | ⟨rtp, hrtp, hacc⟩
      · rw [hacc]
        exact h.move rfl (by simp [hpay, payloadOf, he]) (by simp [ht]) (by simp) rfl
      · have hun : undecoded r = r.rx_leftover_ := by simp [undecoded, ht]
        refine ⟨?_, by simpa [pushed, RxEvent.frames] using h.full, ?_⟩
        · rw [pushed_append, payloads_append, List.map_append, ← h.samples, hun, hpay, hacc]
          simp [payloadOf, hrtp, undecoded, pushed, RxEvent.frames]
        · rw [hacc]
          refine ⟨Nat.zero_le _, ?_⟩
          by_cases hnil : r.rx_leftover_ = []
          · exact Or.inl (if_pos hnil)
          · exact Or.inr (if_neg hnil)
  | rxPush =>
    obtain ⟨src, i, ht, hi, hpush⟩ := Step.rxPush_inv hs
    obtain ⟨hthread, hleft, -, -, hpkts, hframe⟩ := pushFrame_eq { r with thread := .push src (i + 1) } (decodeFrame src i)
    rw [← hpush] at hthread hleft hpkts hframe
    dsimp only at hthread hleft hpkts hframe
    have hl := h.leftover
    simp only [LeftoverInv, ht] at hl
    refine ⟨?_, ?_, ?_⟩
    · have hun : undecoded r = src.drop (i * FRAME_SAMPLES) := by simp [undecoded, ht]
      have hun' : undecoded u = src.drop ((i + 1) * FRAME_SAMPLES) := by simp [undecoded, hthread]
      have hpay : payloads es = [] := by simp only [payloads, hpkts, List.flatMap_nil]
      rw [pushed_append, payloads_append, hpay, List.append_nil, ← h.samples, hframe, hun, hun', List.flatten_append,
        List.flatten_singleton, List.append_assoc, decodeFrame_append]
    · rw [pushed_append, hframe]
      intro frame hm
      rcases List.mem_append.mp hm with hm | hm
      · exact h.full frame hm
      · rw [List.mem_singleton.mp hm]
        exact length_decodeFrame hi
    · simp only [LeftoverInv, hthread]
      exact ⟨hi, by rw [hleft]; exact hl.2⟩
  | rxKeep =>
    obtain ⟨src, i, ht, hi, rfl, rfl⟩ := Step.rxKeep_inv hs
    have hl := h.leftover
    simp only [LeftoverInv, ht] at hl
    obtain rfl : i = nFull src := le_antisymm hl.1 hi
    refine h.keep rfl rfl ?_ ?_
    · simp only [undecoded, ht]
      exact keep_eq hl.2
    · change (r.keep src).length < FRAME_SAMPLES
      rw [keep_eq hl.2]
      exact length_rest src
  | getFrame =>
    obtain ⟨frame, buffered, hu, rfl⟩ := Step.getFrame_inv hs
    rw [hu]
    exact h.keep rfl rfl rfl h.leftover
  | stopStore =>
    obtain ⟨rfl, rfl⟩ := Step.stopStore_inv hs
    exact h.keep rfl rfl rfl h.leftover

theorem run_decoded {ok : Rx → RxAct → Prop} (h : machine.Run ok tr r) : Decoded tr r := by
  refine h.invariant (I := Decoded) ?_ fun _ _ _ _ _ h _ hs => step_decoded h hs
  rintro r rfl
  exact ⟨rfl, by simp [pushed], by simp [LeftoverInv, FRAME_SAMPLES]⟩

/-- Between two packets the bytes that made no frame yet are those left over, less than a frame. -/
theorem Decoded.between (h : Decoded tr r) (hr : pushing r.thread = false) :
    undecoded r = r.rx_leftover_ ∧ r.rx_leftover_.length < FRAME_SAMPLES := by
  have hl := h.leftover
  cases ht : r.thread <;> simp_all [undecoded, LeftoverInv, pushing]

/-- Between two packets the frames pushed, followed by the bytes left over, are the payloads. -/
theorem Decoded.whole (h : Decoded tr r) (hr : pushing r.thread = false) :
    (pushed tr).flatten ++ r.rx_leftover_.map G711Alaw.decodeSample = (payloads tr).map G711Alaw.decodeSample := by
  rw [← h.samples, (h.between hr).1]

/-! ### The frames of the payloads -/

/-- The full frames that payload bytes decode to, sample by sample. -/
def decodedFrames (bytes : Bytes) : List (List Int16) := blocks FRAME_SAMPLES (bytes.map G711Alaw.decodeSample)

/-- The frames of the packet in hand that are still to be pushed. -/
def toCome (r : Rx) : List (List Int16) :=
  match r.thread with
  | .push src i => (decodedFrames src).drop i
  | _ => []

theorem toCome_nil (h : pushing r.thread = false) : toCome r = [] := by
  unfold toCome
  split
  · next src i ht =>
    rw [ht] at h
    cases h
  · rfl

/-- What was pushed and what is still to be pushed are the frames of the payloads. -/
theorem Decoded.frames (h : Decoded tr r) : pushed tr ++ toCome r = decodedFrames (payloads tr) := by
  rw [decodedFrames, ← h.samples, blocks_flatten_append (by decide) h.full]
  congr 1
  have hl := h.leftover
  have hshort (hlt : r.rx_leftover_.length < FRAME_SAMPLES) :
      [] = blocks FRAME_SAMPLES (r.rx_leftover_.map G711Alaw.decodeSample) :=
    (blocks_short (by rwa [List.length_map])).symm
  cases ht : r.thread <;> simp only [LeftoverInv, ht] at hl <;> simp only [toCome, undecoded, ht]
  case push src i => rw [decodedFrames, ← blocks_drop, List.map_drop]
  all_goals exact hshort hl

end Steps
end AudioMeet.Rx
