import AudioMeet.Theorems.Participant.Reassembly
import AudioMeet.Theorems.Room.Audio

/-! Two participants alone in a meeting. What the server sends to one of them is, frame by frame, what it received from the
    other: nothing is added, nothing comes twice or out of order, and the codec loses nothing on the way. -/

namespace AudioMeet
open Lib Machine

/-! ### Lists -/

theorem filterMap_sublist_filterMap {α β : Type} {f g : α → Option β} :
    ∀ {l : List α}, (∀ x ∈ l, f x = none ∨ f x = g x) → (l.filterMap f).Sublist (l.filterMap g)
  | [], _ => List.Sublist.slnil
  | x :: l, h => by
    have ih := filterMap_sublist_filterMap (f := f) (g := g) fun y hy => h y (List.mem_cons_of_mem x hy)
    rw [List.filterMap_cons, List.filterMap_cons]
    rcases h x List.mem_cons_self with hx | hx
    · rw [hx]
      cases g x with
      | none => exact ih
      | some y => exact ih.cons y
    · rw [hx]
      cases g x with
      | none => exact ih
      | some y => exact ih.cons_cons y

/-- What a stretch of numbers gives is given by any stretch outside of which it gives nothing. -/
theorem filterMap_range'_sublist {β : Type} {f g : Nat → Option β} {a c b d : Nat}
    (h : ∀ i, a ≤ i → i < a + c → f i = none ∨ b ≤ i ∧ i < b + d ∧ f i = g i) :
    ((List.range' a c).filterMap f).Sublist ((List.range' b d).filterMap g) := by
  let f' : Nat → Option β := fun i => if a ≤ i ∧ i < a + c then f i else none
  have hcut : (List.range' a c).filterMap f = (List.range' a c).filterMap f' :=
    List.filterMap_congr fun i hi => (if_pos (List.mem_range'_1.mp hi)).symm
  have hcases : ∀ i, f' i = none ∨ b ≤ i ∧ i < b + d ∧ f' i = g i := fun i => by
    by_cases hi : a ≤ i ∧ i < a + c
    · rw [show f' i = f i from if_pos hi]
      exact h i hi.1 hi.2
    · exact Or.inl (if_neg hi)
  have hnone : ∀ l : List Nat, (∀ i ∈ l, ¬(b ≤ i ∧ i < b + d)) → l.filterMap f' = [] := fun l hl =>
    List.filterMap_eq_nil_iff.mpr fun i hi => (hcases i).resolve_right fun hin => hl i hi ⟨hin.1, hin.2.1⟩
  -- Both stretches lie within the first `a + c + (b + d)` numbers.
  have hsplit : ∀ p q r, List.range' 0 (p + q + r) = List.range' 0 p ++ List.range' p q ++ List.range' (p + q) r :=
    fun p q r => by
      rw [← List.range'_append_1, ← List.range'_append_1, Nat.zero_add, Nat.zero_add]
  have hwithin : (List.range' a c).Sublist (List.range' 0 (a + c + (b + d))) := by
    rw [hsplit]
    exact (List.sublist_append_right _ _).trans (List.sublist_append_left _ _)
  rw [hcut]
  refine (hwithin.filterMap f').trans ?_
  rw [Nat.add_comm, hsplit, List.filterMap_append, List.filterMap_append, hnone (List.range' 0 b), hnone (List.range' (b + d) (a + c)),
    List.nil_append, List.append_nil]
  · exact filterMap_sublist_filterMap fun i _ => (hcases i).imp_right fun hi => hi.2.2
  · intro i hi hin
    have := (List.mem_range'_1.mp hi).1
    exact absurd hin.2 (Nat.not_lt.mpr this)
  · intro i hi hin
    have := (List.mem_range'_1.mp hi).2
    rw [Nat.zero_add] at this
    exact absurd hin.1 (Nat.not_le.mpr this)

/-- Whole blocks at the start of a mapped list are blocks of the list. -/
theorem exists_blocks {α β : Type} {f : α → β} : ∀ {xs : List (List β)} {rest : List β} {l : List α},
    xs.flatten ++ rest = l.map f → ∃ blocks : List (List α), xs = blocks.map (List.map f) ∧ blocks.flatten <+: l
  | [], _, l, _ => ⟨[], rfl, List.nil_prefix⟩
  | x :: xs, rest, l, h => by
    rw [List.flatten_cons, List.append_assoc] at h
    obtain ⟨block, l', rfl, rfl, hrest⟩ := List.append_eq_map_iff.mp h
    obtain ⟨blocks, rfl, hprefix⟩ := exists_blocks hrest.symm
    exact ⟨block :: blocks, rfl, (List.prefix_append_right_inj block).mpr hprefix⟩

/-! ### The bytes of a frame -/

/-- Encoded silence. -/
def alawSilence : Bytes := List.replicate FRAME_SAMPLES (G711Alaw.encodeSample 0)

namespace PjFrame

/-- An audio frame of these samples. -/
def Carries (frame : PjFrame) (pcm : List Int16) : Prop :=
  frame.audio = true ∧ frame.size / 2 = FRAME_SAMPLES ∧ frame.buf.take FRAME_SAMPLES = pcm

def Silent (frame : PjFrame) : Prop := frame.audio = false ∨ frame.Carries Rx.silence

theorem Carries.bytes {frame : PjFrame} {pcm : List Int16} (h : frame.Carries pcm) :
    Tx.encodeFrame frame = pcm.map G711Alaw.encodeSample := by
  obtain ⟨haudio, hsize, rfl⟩ := h
  rw [Tx.encodeFrame, haudio, hsize]
  rfl

theorem encode_silence : Rx.silence.map G711Alaw.encodeSample = alawSilence := List.map_replicate

theorem Silent.bytes {frame : PjFrame} (h : frame.Silent) : Tx.encodeFrame frame = alawSilence := by
  rcases h with haudio | hcarries
  · rw [Tx.encodeFrame, haudio]
    rfl
  · rw [hcarries.bytes, encode_silence]

end PjFrame

/-- The bytes of decoded samples, encoded again. -/
theorem encode_decode (block : Bytes) :
    (block.map G711Alaw.decodeSample).map G711Alaw.encodeSample = block.map (· ^^^ 0x80) := by
  rw [List.map_map]
  exact List.map_congr_left fun a _ => G711Alaw.encodeSample_decodeSample a

namespace Tx

/-- The encoded frames of the packets, two of each. -/
def alawFrames (tr : List TxEvent) : List Bytes :=
  (built tr).flatMap fun p => [p.payload.take FRAME_SAMPLES, p.payload.drop FRAME_SAMPLES]

end Tx

/-- Entries that each come in two halves, numbered throughout. -/
theorem flatMap_halves {α β : Type} {halves : α → List β} {f : Nat → β} :
    ∀ {l : List α} {a : Nat}, (∀ n x, l[n]? = some x → halves x = [f (a + 2 * n), f (a + 2 * n + 1)]) →
      l.flatMap halves = (List.range' a (2 * l.length)).map f
  | [], _, _ => rfl
  | x :: l, a, h => by
    have ih := flatMap_halves (l := l) (a := a + 2) fun n y hy => by
      rw [show a + 2 + 2 * n = a + 2 * (n + 1) by omega]
      exact h (n + 1) y hy
    rw [List.flatMap_cons, ih, h 0 x rfl, List.length_cons, show 2 * (l.length + 1) = 2 + 2 * l.length by omega,
      ← List.range'_append_1, List.map_append]
    rfl

namespace Live

/-! ### The mixer -/

/-- No slot but `m` is heard in slot `n`. -/
def OneSource {B : Type} (P : Pjmedia B) (xs : List (B × Frames)) (n m : Nat) : Prop :=
  ∀ x ∈ xs, ∀ m', P.connected x.1 m' n → ¬P.Muted x.1 m' → x.2 m' ≠ none → m' = m

/-- What a meeting relies on in a mix of one source: its frame is passed on as it is, and without one there is silence. -/
structure Mixer.Passes {B : Type} (P : Pjmedia B) (M : Mixer B) : Prop where
  frame : ∀ xs b frames n m pcm, OneSource P (xs ++ [(b, frames)]) n m → P.connected b m n → ¬P.Muted b m →
    frames m = some pcm → pcm.length = FRAME_SAMPLES → (M.mix (xs ++ [(b, frames)]) n).Carries pcm
  silence : ∀ xs b frames n m, OneSource P (xs ++ [(b, frames)]) n m →
    (P.connected b m n → ¬P.Muted b m → frames m = none) → (M.mix (xs ++ [(b, frames)]) n).Silent

namespace Room
variable {B : Type} {P : Pjmedia B} {M : Mixer B} {s t : Room B} {a : RoomAct} {tr es : List RoomEvent} {j k : Nat}

/-! ### A frame is of a port -/

structure Given (s : Room B) : Prop where
  mixes : ∀ x ∈ s.mixes, ∀ n pcm, x.frames n = some pcm → ∃ i, x.ports.lookup n = some i
  got : ∀ got, s.tick = .getting got → ∀ n ∈ got.map Prod.fst, ∃ i, s.ports.lookup n = some i

/-- A step that leaves the mixes alone, and the ports within a tick. -/
theorem Given.keep (h : Given s) (hmixes : t.mixes = s.mixes)
    (hgot : ∀ got, t.tick = .getting got → s.tick = .getting got ∧ t.ports = s.ports) : Given t where
  mixes x hx := h.mixes x (hmixes ▸ hx)
  got got htick n hn := by
    obtain ⟨hold, hports⟩ := hgot got htick
    rw [hports]
    exact h.got got hold n hn

theorem gave_some {got : List (Nat × Option (List Int16))} {n : Nat} {pcm : List Int16} (h : gave got n = some pcm) :
    n ∈ got.map Prod.fst := by
  cases hn : got.lookup n with
  | none =>
    rw [gave, hn] at h
    cases h
  | some frame =>
    obtain ⟨l₁, l₂, rfl, -⟩ := List.lookup_eq_some_iff.mp hn
    exact List.mem_map.mpr ⟨(n, frame), List.mem_append_right _ List.mem_cons_self, rfl⟩

theorem Given.step (h : Given s) (hs : Inv P s) (hstep : s.step P M a = some (t, es)) : Given t := by
  cases step_does hstep with
  | call _ => exact h.keep rfl fun got htick => ⟨htick, rfl⟩
  | go hgo =>
    have hstill := hs.still hgo
    obtain ⟨pc, pc', c, es', -, -, -, rfl⟩ := goOn_inv hgo
    refine h.keep rfl fun got htick => ⟨htick, hstill.resolve_right fun hidle => ?_⟩
    rw [show s.tick = _ from htick] at hidle
    cases hidle
  | tickBegin _ htb =>
    obtain ⟨⟨session, es'⟩, -, heq⟩ := Option.map_eq_some_iff.mp htb
    cases heq
    refine ⟨h.mixes, fun got htick n hn => ?_⟩
    obtain rfl := TickPc.getting.inj htick
    cases hn
  | @get n got t es htick hget =>
    obtain ⟨i, hi, -, hcase⟩ := getStep_inv hget
    obtain ⟨frame, htick', hports, hmixes⟩ : ∃ frame, t.tick = .getting (got ++ [(n, frame)]) ∧ t.ports = s.ports ∧
        t.mixes = s.mixes := by
      rcases hcase with ⟨-, u, hu, rfl⟩ | ⟨-, -, rfl⟩
      · obtain ⟨voices, rx, rx', es', rfl, -⟩ := rxStep_does hu
        exact ⟨_, rfl, rfl, rfl⟩
      · exact ⟨_, rfl, rfl, rfl⟩
    refine ⟨fun x hx => h.mixes x (hmixes ▸ hx), fun got' hgot m hm => ?_⟩
    obtain rfl := TickPc.getting.inj (htick'.symm.trans hgot)
    rw [hports]
    rw [List.map_append, List.mem_append] at hm
    rcases hm with hm | hm
    · exact h.got got htick m hm
    · obtain rfl := List.mem_singleton.mp hm
      exact ⟨i, hi⟩
  | mix htick hmix =>
    obtain ⟨-, mixes, rfl, rfl⟩ := mixStep_inv hmix
    refine ⟨fun x hx n pcm hpcm => ?_, fun got' hgot => by cases hgot⟩
    rcases List.mem_append.mp hx with hx | hx
    · exact h.mixes x hx n pcm hpcm
    · obtain rfl := List.mem_singleton.mp hx
      exact h.got _ htick n (gave_some hpcm)
  | put _ hput =>
    obtain ⟨i, frame, u, -, -, -, hu, rfl⟩ := putStep_inv hput
    obtain ⟨voices, tx, tx', es', rfl, -⟩ := txStep_does hu
    exact h.keep rfl fun got htick => by cases htick
  | tickEnd _ hte =>
    obtain ⟨⟨session, es'⟩, -, heq⟩ := Option.map_eq_some_iff.mp hte
    cases heq
    exact h.keep rfl fun got htick => by cases htick
  | rx hrx =>
    obtain ⟨voices, rx, rx', es', rfl, -⟩ := rxStep_does hrx
    exact h.keep rfl fun got htick => ⟨htick, rfl⟩
  | tx htx =>
    obtain ⟨voices, tx, tx', es', rfl, -⟩ := txStep_does htx
    exact h.keep rfl fun got htick => ⟨htick, rfl⟩

theorem run_given (hP : P.Lawful) (hrun : (machine P M).Run Any tr s) : Given s := by
  suffices h : Steady P s ∧ Given s from h.2
  refine hrun.invariant (I := fun _ s => Steady P s ∧ Given s) (fun s hs => ⟨.init hs, ?_⟩)
    fun tr s a t es ⟨hs, h⟩ _ hstep => ⟨hs.step hP hstep, h.step hs.toInv hstep⟩
  obtain ⟨session, -, rfl⟩ := hs
  refine ⟨fun x hx => ?_, fun got hgot => ?_⟩
  · cases hx
  · cases hgot

/-! ### Two participants -/

/-- A bridge and what its slots gave. -/
def Mix.heard (x : Mix B) : B × Frames := (x.conf_, x.frames)

theorem mixed_eq {x : Mix B} {mixes : List (Mix B)} {slot i : Nat} (hx : mixes[i]? = some x) :
    mixed M mixes slot i = M.mix ((mixes.take i).map Mix.heard ++ [(x.conf_, x.frames)]) slot := by
  obtain ⟨hlt, rfl⟩ := List.getElem?_eq_some_iff.mp hx
  rw [mixed, List.take_succ_eq_append_getElem hlt, List.map_append]
  rfl

/-- What a tick makes for a slot that hears `m` alone. -/
theorem mixed_cases (hM : M.Passes P) {x : Mix B} {mixes : List (Mix B)} {slot m i : Nat} (hx : mixes[i]? = some x)
    (hone : OneSource P (mixes.map Mix.heard) slot m)
    (hlen : ∀ pcm, P.connected x.conf_ m slot → x.frames m = some pcm → pcm.length = FRAME_SAMPLES) :
    (mixed M mixes slot i).Silent ∨
      ∃ pcm, P.connected x.conf_ m slot ∧ x.frames m = some pcm ∧ (mixed M mixes slot i).Carries pcm := by
  have hone' : OneSource P ((mixes.take i).map Mix.heard ++ [(x.conf_, x.frames)]) slot m := by
    intro y hy
    refine hone y ?_
    rcases List.mem_append.mp hy with hy | hy
    · obtain ⟨z, hz, rfl⟩ := List.mem_map.mp hy
      exact List.mem_map_of_mem (List.mem_of_mem_take hz)
    · rw [List.mem_singleton.mp hy]
      exact List.mem_map_of_mem (f := Mix.heard) (List.mem_of_getElem? hx)
  rw [mixed_eq hx]
  by_cases hheard : ∃ pcm, P.connected x.conf_ m slot ∧ ¬P.Muted x.conf_ m ∧ x.frames m = some pcm
  · obtain ⟨pcm, hconn, hmuted, hpcm⟩ := hheard
    exact Or.inr ⟨pcm, hconn, hpcm, hM.frame _ _ _ _ _ _ hone' hconn hmuted hpcm (hlen pcm hconn hpcm)⟩
  · refine Or.inl (hM.silence _ _ _ _ _ hone' fun hconn hmuted => Option.eq_none_iff_forall_ne_some.mpr fun pcm hpcm => ?_)
    exact hheard ⟨pcm, hconn, hmuted, hpcm⟩

section Two
variable {start len slot start' len' slot' : Nat}

/-- A frame that is heard in the slot of `k` is of `j`, as it is not of `k` itself. -/
theorem heard_of_other (hs : Steady P s) (hgiven : Given s) (hj : Stay s j start' len' slot')
    (hk : Stay s k start len slot) (htwo : ∀ x ∈ s.mixes, ∀ n i, x.ports.lookup n = some i → i = j ∨ i = k) {i m : Nat}
    {x : Mix B} (hx : s.mixes[i]? = some x) (hconn : P.connected x.conf_ m slot) {pcm : List Int16}
    (hpcm : x.frames m = some pcm) : m = slot' ∧ start' ≤ i ∧ i < start' + len' := by
  have hmem := List.mem_of_getElem? hx
  obtain ⟨o, ho⟩ := hgiven.mixes x hmem m pcm hpcm
  rcases htwo x hmem m o ho with rfl | rfl
  · exact (hj.port i x hx m).mp ho
  · exact absurd ((hk.port i x hx m).mp ho).1 (hs.apart x hmem m slot hconn)

theorem one_source (hs : Steady P s) (hgiven : Given s) (hj : Stay s j start' len' slot') (hk : Stay s k start len slot)
    (htwo : ∀ x ∈ s.mixes, ∀ n i, x.ports.lookup n = some i → i = j ∨ i = k) :
    OneSource P (s.mixes.map Mix.heard) slot slot' := by
  intro y hy m hconn _ hframe
  obtain ⟨x, hx, rfl⟩ := List.mem_map.mp hy
  obtain ⟨i, hi⟩ := List.mem_iff_getElem?.mp hx
  obtain ⟨pcm, hpcm⟩ := Option.ne_none_iff_exists'.mp hframe
  exact (heard_of_other hs hgiven hj hk htwo hi hconn hpcm).1

/-- What is sent to `k` and is not silence, is what was taken from `j`. -/
theorem relays (hM : M.Passes P) (hs : Steady P s) (hgiven : Given s) (hsides : Sides tr s)
    (hj : Flows M tr s j start' len' slot') (hk : Flows M tr s k start len slot)
    (htwo : ∀ x ∈ s.mixes, ∀ n i, x.ports.lookup n = some i → i = j ∨ i = k) :
    ((Tx.alawFrames (txEvents tr k)).filter (· ≠ alawSilence)).Sublist
      (((takenFrom s.mixes slot' start' len').filter (· ≠ Rx.silence)).map (List.map G711Alaw.encodeSample)) := by
  have hone := one_source hs hgiven hj.toStay hk.toStay htwo
  have hlength : ∀ pcm ∈ takenFrom s.mixes slot' start' len', pcm.length = FRAME_SAMPLES := by
    intro pcm hpcm
    have hout := hj.taken_prefix.subset hpcm
    cases hrx : s.rxOf j with
    | none =>
      rw [hsides.rx.silent hrx] at hout
      cases hout
    | some rx => exact Rx.length_outputs (hsides.rx.run hrx) pcm hout
  obtain ⟨first, hpacket⟩ := hk.packet hsides
  have hframes : Tx.alawFrames (txEvents tr k) =
      (List.range' (start + first) (2 * (Tx.built (txEvents tr k)).length)).map
        fun i => Tx.encodeFrame (mixed M s.mixes slot i) := by
    rw [← List.map_add_range', List.map_map]
    refine flatMap_halves fun n p hp => ?_
    obtain ⟨-, -, -, hpayload⟩ := hpacket n p hp
    have hlen : (Tx.encodeFrame (mixed M s.mixes slot (start + (first + 2 * n)))).length = FRAME_SAMPLES :=
      Tx.length_encodeFrame _
    rw [hpayload, List.map_append, ← Tx.encodeFrame_eq, ← Tx.encodeFrame_eq, List.take_left' hlen, List.drop_left' hlen]
    rfl
  rw [hframes, ← List.filterMap_eq_filter, ← List.filterMap_eq_filter, List.filterMap_map, takenFrom, List.filterMap_filterMap,
    List.map_filterMap]
  refine filterMap_range'_sublist fun i hlo hhi => ?_
  -- Tick `i` is one at which `k` has its port.
  have hlt : i < s.mixes.length := by
    have hbound := hk.bound
    have hlast : 0 < (Tx.built (txEvents tr k)).length := by omega
    obtain ⟨hin, -⟩ := hpacket _ _ (List.getElem?_eq_getElem (Nat.sub_one_lt_of_lt hlast))
    omega
  have hx : s.mixes[i]? = some s.mixes[i] := List.getElem?_eq_getElem hlt
  have htaken : ∀ pcm, P.connected (s.mixes[i]).conf_ slot' slot → (s.mixes[i]).frames slot' = some pcm →
      (start' ≤ i ∧ i < start' + len') ∧ pcm ∈ takenFrom s.mixes slot' start' len' := by
    intro pcm hconn hpcm
    obtain ⟨-, hin⟩ := heard_of_other hs hgiven hj.toStay hk.toStay htwo hx hconn hpcm
    exact ⟨hin, List.mem_filterMap.mpr ⟨i, List.mem_range'_1.mpr hin, by rw [hx, Option.bind_some, hpcm]⟩⟩
  rcases mixed_cases hM hx hone (fun pcm hconn hpcm => hlength pcm (htaken pcm hconn hpcm).2) with hsilent | hcarries
  · left
    rw [Function.comp_apply, hsilent.bytes]
    exact if_neg (by simp)
  · obtain ⟨pcm, hconn, hpcm, hcarries⟩ := hcarries
    rw [Function.comp_apply, hcarries.bytes, hx, Option.bind_some, hpcm, Option.bind_some]
    by_cases hsilence : pcm.map G711Alaw.encodeSample = alawSilence
    · exact Or.inl (if_neg (by simp [hsilence]))
    · right
      have hne : pcm ≠ Rx.silence := by
        rintro rfl
        exact hsilence PjFrame.encode_silence
      refine ⟨(htaken pcm hconn hpcm).1.1, (htaken pcm hconn hpcm).1.2, ?_⟩
      simp [Option.guard, hsilence, hne]

/-- What is sent to one of two participants, apart from silence, are whole blocks of the bytes that the other sends, in
    their order, each byte with its sign bit flipped. -/
theorem relay_law (hP : P.Lawful) (hM : M.Passes P) (hrun : (machine P M).Run Any tr s)
    (htwo : ∀ x ∈ s.mixes, ∀ n i, x.ports.lookup n = some i → i = j ∨ i = k) :
    ∃ blocks : List Bytes, (∀ block ∈ blocks, block.length = FRAME_SAMPLES) ∧
      blocks.flatten <+: Rx.payloads (rxEvents tr j) ∧
      ((Tx.alawFrames (txEvents tr k)).filter (· ≠ alawSilence)).Sublist (blocks.map (List.map (· ^^^ 0x80))) := by
  obtain ⟨start, len, slot, hk⟩ := run_flows hP hrun k
  obtain ⟨start', len', slot', hj⟩ := run_flows hP hrun j
  have hsides := run_sides hrun
  have hsub := (relays hM (run_steady hP hrun) (run_given hP hrun) hsides hj hk htwo).trans
    ((hj.received hsides).map (List.map G711Alaw.encodeSample))
  have hblocks : ∃ blocks : List Bytes, Rx.pushed (rxEvents tr j) = blocks.map (List.map G711Alaw.decodeSample) ∧
      (∀ block ∈ blocks, block.length = FRAME_SAMPLES) ∧ blocks.flatten <+: Rx.payloads (rxEvents tr j) := by
    cases hrx : s.rxOf j with
    | none =>
      rw [hsides.rx.silent hrx]
      exact ⟨[], rfl, by simp, List.nil_prefix⟩
    | some rx =>
      have hdecoded := Rx.run_decoded (hsides.rx.run hrx)
      obtain ⟨blocks, hpushed, hprefix⟩ := exists_blocks hdecoded.samples
      refine ⟨blocks, hpushed, fun block hblock => ?_, hprefix⟩
      rw [← List.length_map (f := G711Alaw.decodeSample)]
      exact hdecoded.full _ (hpushed ▸ List.mem_map_of_mem hblock)
  obtain ⟨blocks, hpushed, hlen, hprefix⟩ := hblocks
  refine ⟨blocks, hlen, hprefix, ?_⟩
  rw [hpushed, List.map_map] at hsub
  have hflip : blocks.map (List.map G711Alaw.encodeSample ∘ List.map G711Alaw.decodeSample) =
      blocks.map (List.map (· ^^^ 0x80)) := List.map_congr_left fun block _ => encode_decode block
  rwa [hflip] at hsub

end Two

/-! ### A mixer of 32 slots passes on what it hears -/

/-- A board with no slots beyond its own. -/
structure Bounded (b : Session.Board) : Prop where
  occupied : ∀ n, b.occupied n = true → n < Session.MEETING_CONF_SLOTS
  connected : ∀ m n, b.connected m n = true → m < Session.MEETING_CONF_SLOTS

theorem Bounded.add {b : Session.Board} (h : Bounded b) : Bounded b.add.1 := by
  unfold Session.Board.add
  split
  · exact h
  · next slot hfind =>
    have hslot := List.mem_range.mp (List.mem_of_find?_eq_some hfind)
    refine ⟨fun n hn => ?_, fun m n hmn => ?_⟩
    · by_cases heq : n = slot
      · exact heq ▸ hslot
      · exact h.occupied n (by simpa [heq] using hn)
    · simp only [Bool.and_eq_true] at hmn
      exact h.connected m n hmn.1.1

def boundedBoard : Pjmedia { b : Session.Board // Bounded b } where
  conf_add_port b := (⟨b.1.add.1, b.2.add⟩, b.1.add.2)
  conf_connect_port b src sink level :=
    if h : src < Session.MEETING_CONF_SLOTS then
      ⟨Session.board.conf_connect_port b.1 src sink level, b.2.occupied, fun m n hmn => by
        simp only [Session.board, Bool.or_eq_true, Bool.and_eq_true, beq_iff_eq] at hmn
        rcases hmn with hmn | ⟨rfl, -⟩
        · exact b.2.connected m n hmn
        · exact h⟩
    else b
  conf_remove_port b slot :=
    ⟨Session.board.conf_remove_port b.1 slot, fun n hn => by
      by_cases heq : n = slot
      · simp [Session.board, heq] at hn
      · exact b.2.occupied n (by simpa [Session.board, heq] using hn), fun m n hmn => by
      simp only [Session.board, Bool.and_eq_true] at hmn
      exact b.2.connected m n hmn.1.1⟩
  conf_adjust_rx_level b slot level :=
    ⟨Session.board.conf_adjust_rx_level b.1 slot level, b.2.occupied, b.2.connected⟩
  occupied b := b.1.occupied
  connected b := b.1.connected
  rx_level b := b.1.rx_level

theorem boundedBoard_lawful : boundedBoard.Lawful where
  add_fails b b' h := by
    obtain ⟨rfl, hnone⟩ := Prod.mk.inj h
    exact Session.board_lawful.add_fails b.1 _ (Prod.ext rfl hnone)
  add b b' slot h := by
    obtain ⟨rfl, hsome⟩ := Prod.mk.inj h
    exact Session.board_lawful.add b.1 _ slot (Prod.ext rfl hsome)
  connect b src sink level hsrc hsink := by
    have hlt : src < Session.MEETING_CONF_SLOTS := b.2.occupied src hsrc
    rw [show boundedBoard.conf_connect_port b src sink level = _ from dif_pos hlt]
    exact Session.board_lawful.connect b.1 src sink level hsrc hsink
  remove b slot h := Session.board_lawful.remove b.1 slot h
  adjust b slot level h := Session.board_lawful.adjust b.1 slot level h

def boundedNew : { b : Session.Board // Bounded b } :=
  ⟨.new, fun n hn => by
    rw [beq_iff_eq.mp hn]
    decide, fun _ _ => nofun⟩

/-- The mixer of `mixer`, for these boards. -/
def boundedMixer : Mixer { b : Session.Board // Bounded b } where
  pulls _ _ := true
  mix xs := mixer.mix (xs.map fun x => (x.1.1, x.2))

theorem filterMap_range_one {β : Type} {f : Nat → Option β} {m : Nat} :
    ∀ {N : Nat}, (∀ i, f i ≠ none → i = m) → (m < N ∨ f m = none) → (List.range N).filterMap f = (f m).toList
  | 0, _, hm => by
    rw [hm.resolve_left (Nat.not_lt_zero m)]
    rfl
  | N + 1, hf, hm => by
    rw [List.range_succ, List.filterMap_append]
    by_cases hN : m = N
    · subst hN
      have hnone : (List.range m).filterMap f = [] := by
        refine List.filterMap_eq_nil_iff.mpr fun i hi => ?_
        by_contra hsome
        exact absurd (hf i hsome) (Nat.ne_of_lt (List.mem_range.mp hi))
      rw [hnone, List.filterMap_cons]
      cases f m <;> rfl
    · have hlast : f N = none := by
        by_contra hsome
        exact hN (hf N hsome).symm
      rw [filterMap_range_one hf (hm.imp_left fun hlt => Nat.lt_of_le_of_ne (Nat.le_of_lt_succ hlt) hN), List.filterMap_cons, hlast]
      exact List.append_nil _

theorem add_silence {pcm : List Int16} (h : pcm.length = FRAME_SAMPLES) : List.zipWith (· + ·) Rx.silence pcm = pcm := by
  rw [Rx.silence, ← h]
  clear h
  induction pcm with
  | nil => rfl
  | cons x pcm ih => rw [List.length_cons, List.replicate_succ, List.zipWith_cons_cons, ih, Int16.zero_add]

/-- The frames that a board mixes for a slot that hears `m` alone. -/
theorem heard_one {b : Session.Board} {frames : Frames} {n m : Nat} (hb : Bounded b)
    (h : ∀ m', b.connected m' n = true → b.rx_level m' ≠ -128 → frames m' ≠ none → m' = m) :
    heard b frames n = (if b.connected m n ∧ b.rx_level m ≠ -128 then frames m else none).toList := by
  refine filterMap_range_one (m := m) (fun i hi => ?_) ?_
  · by_cases hcond : b.connected i n = true ∧ b.rx_level i ≠ -128
    · rw [if_pos hcond] at hi
      exact h i hcond.1 hcond.2 hi
    · exact absurd (if_neg hcond) hi
  · by_cases hcond : b.connected m n = true ∧ b.rx_level m ≠ -128
    · exact Or.inl (hb.connected m n hcond.1)
    · exact Or.inr (if_neg hcond)

/-- The frame that the mixer makes of what is heard. -/
theorem mixer_carries {b : Session.Board} {frames : Frames} {xs : List (Session.Board × Frames)} {n : Nat} {pcm : List Int16}
    (hsum : (heard b frames n).foldl (List.zipWith (· + ·)) Rx.silence = pcm) (hlen : pcm.length = FRAME_SAMPLES) :
    (mixer.mix (xs ++ [(b, frames)]) n).Carries pcm := by
  have hlast : ((xs ++ [(b, frames)]).getLast?.map fun x => heard x.1 x.2 n).getD [] = heard b frames n := by
    rw [List.getLast?_concat]
    rfl
  simp only [mixer, hlast, hsum]
  refine ⟨rfl, ?_, ?_⟩
  · rw [Nat.mul_div_cancel_left _ Nat.two_pos, hlen]
  · rw [← hlen, List.take_length]

theorem boundedMixer_passes : boundedMixer.Passes boundedBoard where
  frame xs b frames n m pcm hone hconn hmuted hpcm hlen := by
    have hheard : heard b.1 frames n = [pcm] := by
      rw [heard_one b.2 fun m' hc hl hf => hone (b, frames) (List.mem_append_right _ (List.mem_singleton_self _)) m' hc hl hf,
        if_pos ⟨hconn, hmuted⟩]
      exact congrArg Option.toList hpcm
    simp only [boundedMixer, List.map_append, List.map_cons, List.map_nil]
    refine mixer_carries ?_ hlen
    rw [hheard]
    exact add_silence hlen
  silence xs b frames n m hone hnone := by
    have hheard : heard b.1 frames n = [] := by
      rw [heard_one b.2 fun m' hc hl hf => hone (b, frames) (List.mem_append_right _ (List.mem_singleton_self _)) m' hc hl hf]
      split
      · next hcond => exact congrArg Option.toList (hnone hcond.1 hcond.2)
      · rfl
    simp only [boundedMixer, List.map_append, List.map_cons, List.map_nil]
    refine Or.inr (mixer_carries ?_ List.length_replicate)
    rw [hheard]
    rfl

theorem relay_law_two : ∃ tr s, ∃ blocks : List Bytes, (machine boundedBoard boundedMixer).Run Any tr s ∧
    ((Tx.alawFrames (txEvents tr 1)).filter (· ≠ alawSilence)).length = 1 ∧
    (∀ block ∈ blocks, block.length = FRAME_SAMPLES) ∧ blocks.flatten <+: Rx.payloads (rxEvents tr 0) ∧
    ((Tx.alawFrames (txEvents tr 1)).filter (· ≠ alawSilence)).Sublist (blocks.map (List.map (· ^^^ 0x80))) := by
  obtain ⟨tr, s, hrun, hp⟩ := exists_run (machine boundedBoard boundedMixer)
    { session := { conference := { meet_id_ := [], conf_ := boundedNew } } } twoTicks
    ⟨_, ⟨[], boundedNew, ⟨fun _ => beq_iff_eq, fun _ _ => Bool.false_ne_true⟩, rfl⟩, rfl⟩ (meets_any ..)
    (fun r => ((Tx.alawFrames (txEvents r.2 1)).filter (· ≠ alawSilence)).length == 1 &&
      r.1.mixes.all fun x => x.ports.all fun port => port.2 == 0 || port.2 == 1)
    (by decide +kernel)
  simp only [Bool.and_eq_true, beq_iff_eq, List.all_eq_true, Bool.or_eq_true] at hp
  obtain ⟨blocks, hlaw⟩ := relay_law (j := 0) (k := 1) boundedBoard_lawful boundedMixer_passes hrun fun x hx n i hi => by
    obtain ⟨l₁, l₂, hports, -⟩ := List.lookup_eq_some_iff.mp hi
    exact hp.2 x hx (n, i) (by simp [hports])
  exact ⟨tr, s, blocks, hrun, hp.1, hlaw⟩

end Room
end Live
end AudioMeet
