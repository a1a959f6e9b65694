import AudioMeet.Lib.Bytes

/-! Packets on a byte stream, each behind a 2-byte big-endian length. A packet of less than 2^16 bytes
    can be told from what follows it, so a stream of such packets has one reading. -/

namespace AudioMeet.Lib

/-- The packet behind its length. -/
def frame (pkt : Bytes) : Bytes := be16 (UInt16.ofNat pkt.length) ++ pkt

/-- The stream of the packets, in order. -/
def frames (pkts : List Bytes) : Bytes := pkts.flatMap frame

/-- Every packet fits its length prefix. -/
def Framable (pkts : List Bytes) : Prop := ∀ p ∈ pkts, p.length < 2 ^ 16

@[simp] theorem frames_nil : frames [] = [] := rfl

@[simp] theorem frames_append (ps qs : List Bytes) : frames (ps ++ qs) = frames ps ++ frames qs :=
  List.flatMap_append

theorem frames_cons (p : Bytes) (ps : List Bytes) : frames (p :: ps) = frame p ++ frames ps := rfl

theorem frames_singleton (p : Bytes) : frames [p] = frame p := by simp [frames]

theorem frame_ne_nil (p : Bytes) : frame p ≠ [] := by simp [frame, be16_ne_nil]

theorem ofBe16_frame {b₀ b₁ : UInt8} {p : Bytes} (h : be16 (UInt16.ofNat p.length) = [b₀, b₁])
    (hp : p.length < 2 ^ 16) : (ofBe16 b₀ b₁).toNat = p.length := by
  simp only [be16, List.cons.injEq, and_true] at h
  obtain ⟨rfl, rfl⟩ := h
  rw [ofBe16_be16]
  exact UInt16.toNat_ofNat_of_lt' hp

/-- The length in front of a packet separates it from what follows. -/
theorem frame_append_inj {p q r s : Bytes} (hp : p.length < 2 ^ 16) (hq : q.length < 2 ^ 16)
    (h : frame p ++ r = frame q ++ s) : p = q ∧ r = s := by
  simp only [frame, List.append_assoc] at h
  obtain ⟨hlen, hrest⟩ := List.append_inj h (by simp)
  have hpq : p.length = q.length := by
    rw [← ofBe16_frame rfl hp, ← ofBe16_frame rfl hq]
    simp only [be16, List.cons.injEq, and_true] at hlen
    rw [hlen.1, hlen.2]
  exact List.append_inj hrest hpq

/-- Of a stream, a reader that stops anywhere has read the first packets. -/
theorem frames_append_le {ps qs : List Bytes} {rest s : Bytes} (hp : Framable ps) (hq : Framable qs)
    (h : frames ps ++ rest ++ s = frames qs) : ps <+: qs := by
  induction ps generalizing qs with
  | nil => exact List.nil_prefix
  | cons p ps ih =>
    cases qs with
    | nil => simp [frames_cons, frame_ne_nil] at h
    | cons q qs =>
      rw [frames_cons, frames_cons, List.append_assoc, List.append_assoc] at h
      obtain ⟨rfl, hrest⟩ := frame_append_inj (hp p List.mem_cons_self) (hq q List.mem_cons_self) h
      rw [← List.append_assoc] at hrest
      exact List.prefix_cons_inj p |>.mpr
        (ih (fun x hx => hp x (List.mem_cons_of_mem _ hx)) (fun x hx => hq x (List.mem_cons_of_mem _ hx)) hrest)

/-- A stream of framed packets has one reading. -/
theorem frames_inj {ps qs : List Bytes} (hp : Framable ps) (hq : Framable qs) (h : frames ps = frames qs) :
    ps = qs := by
  have hle : ps <+: qs := frames_append_le hp hq (show frames ps ++ [] ++ [] = frames qs by simpa using h)
  obtain ⟨more, rfl⟩ := hle
  rw [frames_append, List.self_eq_append_right] at h
  cases more with
  | nil => simp
  | cons q qs => simp [frames_cons, frame_ne_nil] at h

/-! ### A stream that is cut -/

/-- The packets that end within the first `n` bytes of their stream. -/
def within (n : Nat) : List Bytes → List Bytes
  | [] => []
  | p :: ps => if (frame p).length ≤ n then p :: within (n - (frame p).length) ps else []

/-- The bytes do not hold a whole packet. -/
def Incomplete (rest : Bytes) : Prop := ∀ p more, p.length < 2 ^ 16 → rest ≠ frame p ++ more

theorem within_all (pkts : List Bytes) : within (frames pkts).length pkts = pkts := by
  induction pkts with
  | nil => rfl
  | cons p ps ih => simp [within, frames_cons, ih]

theorem incomplete_length {got : Bytes} (h : got.length < 2) : Incomplete got := by
  rintro p more - rfl
  simp only [frame, List.length_append, length_be16] at h
  omega

theorem incomplete_packet {n : UInt16} {got : Bytes} (h : got.length < n.toNat) : Incomplete (be16 n ++ got) := by
  intro p more hp heq
  rw [frame, List.append_assoc] at heq
  obtain ⟨hlen, rfl⟩ := List.append_inj heq (by simp)
  rw [be16_inj hlen, UInt16.toNat_ofNat_of_lt' hp, List.length_append] at h
  omega

/-- Of a cut stream, a reader that is left with less than a packet has read the packets before the cut. -/
theorem eq_within {ps qs : List Bytes} {rest : Bytes} {n : Nat} (hp : Framable ps) (hq : Framable qs)
    (hrest : Incomplete rest) (h : frames ps ++ rest = (frames qs).take n) : ps = within n qs := by
  induction ps generalizing qs n with
  | nil =>
    cases qs with
    | nil => rfl
    | cons q qs =>
      rw [within, if_neg]
      intro hle
      refine hrest q ((frames qs).take (n - (frame q).length)) (hq q List.mem_cons_self) ?_
      rwa [frames_nil, List.nil_append, frames_cons, List.take_append, List.take_of_length_le hle] at h
  | cons p ps ih =>
    cases qs with
    | nil => simp [frames_cons, frame_ne_nil] at h
    | cons q qs =>
      have hle : (frame p).length ≤ n := by
        have hlen := congrArg List.length h
        simp only [frames_cons, List.length_append, List.length_take] at hlen
        omega
      have hwhole : frame p ++ (frames ps ++ rest ++ (frames (q :: qs)).drop n) = frame q ++ frames qs := by
        rw [← List.append_assoc, ← List.append_assoc, ← frames_cons, h, List.take_append_drop, frames_cons]
      obtain ⟨rfl, -⟩ := frame_append_inj (hp p List.mem_cons_self) (hq q List.mem_cons_self) hwhole
      rw [frames_cons, frames_cons, List.append_assoc, List.take_append, List.take_of_length_le hle] at h
      rw [within, if_pos hle]
      exact congrArg (p :: ·) (ih (fun x hx => hp x (List.mem_cons_of_mem _ hx))
        (fun x hx => hq x (List.mem_cons_of_mem _ hx)) (List.append_cancel_left h))

end AudioMeet.Lib
