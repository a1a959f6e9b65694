import AudioMeet.Lib.Family
import AudioMeet.Theorems.Participant.PacketLaw
import AudioMeet.Theorems.Participant.Staleness
import AudioMeet.Theorems.Room.Silence

/-! The way of the audio through a meeting. Each mix takes the next frame of every participant with a port, and each of
    these is handed what was mixed for its slot; two such frames in a row make a packet. -/

namespace AudioMeet
open Lib Machine

/-! ### The frames that go in and out of a participant -/

namespace Rx
variable {r u : Rx} {a : RxAct} {tr es : List RxEvent}

@[simp] theorem outputs_append (tr es : List RxEvent) : outputs (tr ++ es) = outputs tr ++ outputs es := List.flatMap_append

theorem outputs_eq_nil (h : ∀ frame popped, .output frame popped ∉ es) : outputs es = [] := by
  refine List.flatMap_eq_nil_iff.mpr fun e he => ?_
  cases e with
  | output frame popped => exact absurd he (h frame popped)
  | _ => rfl

/-- Only `on_get_frame` writes a frame, and it writes one. -/
theorem step_outputs (hs : step r a = some (u, es)) :
    (∃ frame popped, a = .getFrame ∧ es = [.output frame popped]) ∨ a ≠ .getFrame ∧ outputs es = [] := by
  by_cases ha : a = .getFrame
  · subst ha
    rcases getFrame_cases hs with ⟨-, rfl, -⟩ | ⟨front, -, rfl⟩
    · exact Or.inl ⟨_, _, rfl, rfl⟩
    · exact Or.inl ⟨_, _, rfl, rfl⟩
  · refine Or.inr ⟨ha, ?_⟩
    rcases step_buffer hs with hquiet | ⟨src, i, hpush⟩ | rfl
    · exact outputs_eq_nil hquiet.output
    · rw [(Prod.mk.inj hpush).2]
      exact outputs_eq_nil (output_pushFrame _ _)
    · exact absurd rfl ha

/-- Apart from silence, the frames written are frames that were received, in their order. -/
theorem outputs_sublist {ok : Rx → RxAct → Prop} (h : machine.Run ok tr r) :
    ((outputs tr).filter (· ≠ silence)).Sublist (pushed tr) := by
  have hsame : (outputs tr).filter (· ≠ silence) = (delivered tr).filter (· ≠ silence) := by
    refine h.invariant (I := fun tr _ => (outputs tr).filter (· ≠ silence) = (delivered tr).filter (· ≠ silence))
      (fun _ _ => rfl) fun tr r a u es ih _ hs => ?_
    have hdelivered : delivered (tr ++ es) = delivered tr ++ delivered es := List.flatMap_append
    rw [outputs_append, hdelivered, List.filter_append, List.filter_append, ih]
    refine congrArg _ ?_
    rcases step_outputs hs with ⟨frame, popped, rfl, rfl⟩ | ⟨ha, hes⟩
    · rcases getFrame_cases hs with ⟨-, hes, -⟩ | ⟨front, -, hes⟩
      · obtain ⟨rfl, rfl⟩ := RxEvent.output.inj (List.singleton_inj.mp hes)
        simp [outputs, delivered]
      · obtain ⟨rfl, rfl⟩ := RxEvent.output.inj (List.singleton_inj.mp hes)
        rfl
    · have hnone : delivered es = [] := by
        refine List.flatMap_eq_nil_iff.mpr fun e he => ?_
        have houtput := List.flatMap_eq_nil_iff.mp hes e he
        cases e with
        | output frame popped => cases houtput
        | _ => rfl
      rw [hes, hnone]
  rw [hsame]
  exact List.filter_sublist.trans (delivered_sublist h)

theorem length_outputs {ok : Rx → RxAct → Prop} (h : machine.Run ok tr r) : ∀ frame ∈ outputs tr, frame.length = FRAME_SAMPLES := by
  intro frame hframe
  by_cases hsilence : frame = silence
  · rw [hsilence]
    exact List.length_replicate
  · have hmem : frame ∈ (outputs tr).filter (· ≠ silence) := List.mem_filter.mpr ⟨hframe, decide_eq_true hsilence⟩
    exact (run_decoded h).full frame ((outputs_sublist h).subset hmem)

end Rx

/-- The frame that a call of `on_put_frame` holds before it counts. -/
def PutPc.hand : PutPc → List PjFrame
  | .checkStop frame => [frame]
  | _ => []

/-- The frame that an action hands in. -/
def TxAct.handed : TxAct → List PjFrame
  | .putFrame frame => [frame]
  | _ => []

namespace Tx
variable {t u : Tx} {a : TxAct} {es : List TxEvent}

/-- A step moves the frame handed in on its way, and drops none. -/
theorem step_hand (hs : step t a = some (u, es)) :
    (calls es).map Prod.fst ++ u.put.hand = t.put.hand ++ a.handed ∧ (a.handed = [] → t.put = .idle → u.put = .idle) := by
  have same : u.put = t.put → calls es = [] → a.handed = [] → (calls es).map Prod.fst ++ u.put.hand =
      t.put.hand ++ a.handed ∧ (a.handed = [] → t.put = .idle → u.put = .idle) := fun hput hcalls ha => by
    rw [hput, hcalls, ha, List.append_nil]
    exact ⟨rfl, fun _ hidle => hidle⟩
  cases a with
  | putFrame frame =>
    obtain ⟨hput, ⟨-, rfl, rfl⟩ | ⟨-, rfl, rfl⟩⟩ := Step.putFrame_inv hs
    · rw [hput]
      exact ⟨rfl, fun ha => by cases ha⟩
    · rw [hput]
      exact ⟨rfl, fun ha => by cases ha⟩
  | putStop =>
    obtain ⟨frame, hput, ⟨-, rfl, rfl⟩ | ⟨-, es', hbuild, rfl⟩⟩ := Step.putStop_inv hs
    · rw [hput]
      exact ⟨rfl, fun _ hidle => by cases hidle⟩
    · rw [hput]
      obtain ⟨-, rfl, rfl⟩ | ⟨-, rfl, rfl⟩ := Step.putBuild_inv hbuild
      · exact ⟨rfl, fun _ hidle => by cases hidle⟩
      · exact ⟨rfl, fun _ hidle => by cases hidle⟩
  | putEnqueue =>
    obtain ⟨bytes, hput, ⟨-, rfl, rfl⟩ | ⟨-, -, -, rfl, rfl⟩ | ⟨-, -, -, rfl, rfl⟩⟩ := Step.putEnqueue_inv hs
    · rw [hput]
      exact ⟨rfl, fun _ _ => rfl⟩
    · rw [hput, Step.notify_put]
      exact ⟨rfl, fun _ _ => rfl⟩
    · rw [hput, Step.notify_put]
      exact ⟨rfl, fun _ _ => rfl⟩
  | startTx =>
    obtain ⟨-, rfl, ⟨-, rfl⟩ | ⟨-, rfl⟩⟩ := Step.startTx_inv hs
    · exact same rfl rfl rfl
    · exact same rfl rfl rfl
  | txHead =>
    obtain ⟨-, rfl, rfl⟩ := Step.txHead_inv hs
    exact same rfl rfl rfl
  | txLock =>
    obtain ⟨-, ⟨-, rfl, rfl⟩ | ⟨-, -, rfl, rfl⟩ | ⟨-, pkt, -, rfl, hu⟩⟩ := Step.txLock_inv hs
    · exact same rfl rfl rfl
    · exact same rfl rfl rfl
    · exact same (by rw [hu]) rfl rfl
  | txWake =>
    obtain ⟨-, rfl, rfl⟩ := Step.txWake_inv hs
    exact same rfl rfl rfl
  | txSend =>
    obtain ⟨rest, next, -, -, rfl, rfl⟩ := Step.txSend_inv hs
    exact same rfl rfl rfl
  | txSent w =>
    obtain ⟨rest, next, -, -, -, rfl, rfl⟩ := Step.txSent_inv hs
    exact same rfl rfl rfl
  | txFail k =>
    obtain ⟨rest, next, -, rfl, rfl⟩ := Step.txFail_inv hs
    exact same rfl rfl rfl
  | txWritten =>
    obtain ⟨rfl, ⟨pkt, -, rfl⟩ | ⟨-, rfl⟩⟩ := Step.txWritten_inv hs
    · exact same rfl rfl rfl
    · exact same rfl rfl rfl
  | txCleanup =>
    obtain ⟨-, rfl, rfl⟩ := Step.txCleanup_inv hs
    exact same rfl rfl rfl
  | stopStore =>
    obtain ⟨rfl, rfl⟩ := Step.stopStore_inv hs
    exact same rfl rfl rfl
  | stopSection =>
    obtain ⟨-, rfl, rfl⟩ := Step.stopSection_inv hs
    exact same (Step.notify_put _) rfl rfl

end Tx

namespace Live

def RoomEvent.rxOf (k : Nat) : RoomEvent → List RxEvent
  | .rx j e => if j = k then [e] else []
  | _ => []

def RoomEvent.txOf (k : Nat) : RoomEvent → List TxEvent
  | .tx j e => if j = k then [e] else []
  | _ => []

namespace Room

/-- What happened on the receive side of participant `k`. -/
def rxEvents (tr : List RoomEvent) (k : Nat) : List RxEvent := tr.flatMap (RoomEvent.rxOf k)

/-- What happened on the send side of participant `k`. -/
def txEvents (tr : List RoomEvent) (k : Nat) : List TxEvent := tr.flatMap (RoomEvent.txOf k)

@[simp] theorem rxEvents_append (tr es : List RoomEvent) (k : Nat) : rxEvents (tr ++ es) k = rxEvents tr k ++ rxEvents es k :=
  List.flatMap_append

@[simp] theorem txEvents_append (tr es : List RoomEvent) (k : Nat) : txEvents (tr ++ es) k = txEvents tr k ++ txEvents es k :=
  List.flatMap_append

theorem flatMap_eq_nil {α β γ : Type} {f : β → List γ} {g : α → β} (h : ∀ x, f (g x) = []) (l : List α) :
    (l.map g).flatMap f = [] := by
  rw [List.flatMap_map]
  exact List.flatMap_eq_nil_iff.mpr fun x _ => h x

theorem flatMap_ite {α β : Type} {f : β → List α} {g : α → β} {p : Prop} [Decidable p] (h : ∀ x, f (g x) = if p then [x] else [])
    (l : List α) : (l.map g).flatMap f = if p then l else [] := by
  rw [List.flatMap_map, funext h]
  by_cases hp : p
  · simp [hp]
  · simp [hp]

theorem rxEvents_rx (es : List RxEvent) (j k : Nat) : rxEvents (es.map (.rx j)) k = if j = k then es else [] := by
  refine flatMap_ite (fun e => ?_) es
  rfl

theorem txEvents_tx (es : List TxEvent) (j k : Nat) : txEvents (es.map (.tx j)) k = if j = k then es else [] := by
  refine flatMap_ite (fun e => ?_) es
  rfl

theorem rxEvents_tx (es : List TxEvent) (j k : Nat) : rxEvents (es.map (.tx j)) k = [] := flatMap_eq_nil (fun _ => rfl) es

theorem txEvents_rx (es : List RxEvent) (j k : Nat) : txEvents (es.map (.rx j)) k = [] := flatMap_eq_nil (fun _ => rfl) es

theorem rxEvents_meeting (es : List Event) (k : Nat) : rxEvents (es.map .meeting) k = [] := flatMap_eq_nil (fun _ => rfl) es

theorem txEvents_meeting (es : List Event) (k : Nat) : txEvents (es.map .meeting) k = [] := flatMap_eq_nil (fun _ => rfl) es

theorem append_ite {α : Type} (f : Nat → List α) (j : Nat) (l : List α) :
    (fun k => f k ++ if j = k then l else []) = Function.update f j (f j ++ l) := by
  funext k
  by_cases hkj : k = j
  · subst hkj
    rw [if_pos rfl, Function.update_self]
  · rw [if_neg (Ne.symm hkj), List.append_nil, Function.update_of_ne hkj]

/-! ### The sides of the participants -/

section Sides
variable {B : Type} {P : Pjmedia B} {M : Mixer B} {s t : Room B} {a : RoomAct} {tr es : List RoomEvent}

/-- Each side of a participant makes a run of its own. -/
structure Sides (tr : List RoomEvent) (s : Room B) : Prop where
  rx : Rx.machine.Family s.rxOf (rxEvents tr)
  tx : Tx.machine.Family s.txOf (txEvents tr)

/-- A step that concerns neither side. -/
theorem Sides.keep (h : Sides tr s) (hrx : t.rxOf = s.rxOf) (htx : t.txOf = s.txOf) (hes : rxEvents es = fun _ => [])
    (hes' : txEvents es = fun _ => []) : Sides (tr ++ es) t := by
  refine ⟨?_, ?_⟩
  · rw [hrx, show rxEvents (tr ++ es) = rxEvents tr from funext fun k => by rw [rxEvents_append, hes, List.append_nil]]
    exact h.rx
  · rw [htx, show txEvents (tr ++ es) = txEvents tr from funext fun k => by rw [txEvents_append, hes', List.append_nil]]
    exact h.tx

theorem Sides.rxStep (h : Sides tr s) {j : Nat} {b : RxAct} (hs : s.rxStep j b = some (t, es)) : Sides (tr ++ es) t := by
  obtain ⟨voices, rx, rx', es', -, hrx, hstep, rfl, hrx', htx'⟩ := rxStep_does hs
  have hevents : rxEvents (tr ++ es'.map (.rx j)) = Function.update (rxEvents tr) j (rxEvents tr j ++ es') := by
    rw [← append_ite]
    exact funext fun k => by rw [rxEvents_append, rxEvents_rx]
  refine ⟨?_, ?_⟩
  · rw [hrx', hevents]
    exact h.rx.step hrx hstep
  · rw [htx', show txEvents (tr ++ es'.map (.rx j)) = txEvents tr from funext fun k => by
      rw [txEvents_append, txEvents_rx, List.append_nil]]
    exact h.tx

theorem Sides.txStep (h : Sides tr s) {j : Nat} {b : TxAct} (hs : s.txStep j b = some (t, es)) : Sides (tr ++ es) t := by
  obtain ⟨voices, tx, tx', es', -, htx, hstep, rfl, htx', hrx'⟩ := txStep_does hs
  have hevents : txEvents (tr ++ es'.map (.tx j)) = Function.update (txEvents tr) j (txEvents tr j ++ es') := by
    rw [← append_ite]
    exact funext fun k => by rw [txEvents_append, txEvents_tx]
  refine ⟨?_, ?_⟩
  · rw [hrx', show rxEvents (tr ++ es'.map (.tx j)) = rxEvents tr from funext fun k => by
      rw [rxEvents_append, rxEvents_tx, List.append_nil]]
    exact h.rx
  · rw [htx', hevents]
    exact h.tx.step htx hstep

theorem map_snoc {α : Type} (f : Voice → α) (l : List Voice) (v : Voice) :
    (fun i : Nat => (l ++ [v])[i]?.map f) = Function.update (fun i => l[i]?.map f) l.length (some (f v)) := by
  funext i
  by_cases hi : i = l.length
  · rw [hi, Function.update_self, List.getElem?_concat_length, Option.map_some]
  · rw [Function.update_of_ne hi, List.getElem?_append]
    split
    · rfl
    · have hnone : l[i]? = none := List.getElem?_eq_none (by omega)
      rw [hnone, List.getElem?_singleton, if_neg (by omega)]

theorem rxOf_snoc {session : Session B} {v : Voice} : rxOf { s with session, voices := s.voices ++ [v] } =
    Function.update s.rxOf s.voices.length (some v.rx) := map_snoc Voice.rx s.voices v

theorem txOf_snoc {session : Session B} {v : Voice} : txOf { s with session, voices := s.voices ++ [v] } =
    Function.update s.txOf s.voices.length (some v.tx) := map_snoc Voice.tx s.voices v

theorem Sides.call (h : Sides tr s) {session : Session B} {v : Voice} (hrx : v.rx = {}) (htx : ∃ ssrc, v.tx = { ssrc_ := ssrc }) :
    Sides tr { s with session, voices := s.voices ++ [v] } := by
  have hnone : s.voices[s.voices.length]? = none := List.getElem?_eq_none (Nat.le_refl _)
  refine ⟨?_, ?_⟩
  · rw [rxOf_snoc]
    exact h.rx.add (by rw [rxOf, hnone, Option.map_none]) hrx
  · rw [txOf_snoc]
    exact h.tx.add (by rw [txOf, hnone, Option.map_none]) htx

theorem step_sides (h : Sides tr s) (hs : s.step P M a = some (t, es)) : Sides (tr ++ es) t := by
  cases step_does hs with
  | call _ =>
    rw [List.append_nil]
    exact h.call rfl ⟨_, rfl⟩
  | go hgo =>
    obtain ⟨pc, pc', c, es', -, -, rfl, rfl⟩ := goOn_inv hgo
    exact h.keep rfl rfl (funext fun k => rxEvents_meeting es' k) (funext fun k => txEvents_meeting es' k)
  | tickBegin _ hs | tickEnd _ hs =>
    obtain ⟨⟨session, es'⟩, -, heq⟩ := Option.map_eq_some_iff.mp hs
    cases heq
    exact h.keep rfl rfl rfl rfl
  | get _ hget =>
    obtain ⟨k, -, -, ⟨-, u, hu, rfl⟩ | ⟨-, rfl, rfl⟩⟩ := getStep_inv hget
    · exact ⟨(h.rxStep hu).rx, (h.rxStep hu).tx⟩
    · exact h.keep rfl rfl rfl rfl
  | mix _ hmix =>
    obtain ⟨rfl, mixes, -, rfl⟩ := mixStep_inv hmix
    exact h.keep rfl rfl rfl rfl
  | put _ hput =>
    obtain ⟨k, frame, u, -, -, -, hu, rfl⟩ := putStep_inv hput
    exact ⟨(h.txStep hu).rx, (h.txStep hu).tx⟩
  | rx hrx => exact h.rxStep hrx
  | tx htx => exact h.txStep htx

theorem run_sides (hrun : (machine P M).Run Any tr s) : Sides tr s := by
  refine hrun.invariant (I := Sides) (fun s hs => ?_) fun _ _ _ _ _ h _ hstep => step_sides h hstep
  obtain ⟨session, -, rfl⟩ := hs
  exact ⟨family_none, family_none⟩

end Sides

/-! ### What the ticks mix -/

section Mixes
variable {B : Type} {P : Pjmedia B} {M : Mixer B} {s t : Room B} {a : RoomAct} {tr es : List RoomEvent}
  {mixes : List (Mix B)} {k start len slot : Nat}

/-- The frame that tick `i` makes for a slot. -/
def mixed (M : Mixer B) (mixes : List (Mix B)) (slot i : Nat) : PjFrame :=
  M.mix ((mixes.take (i + 1)).map fun x => (x.conf_, x.frames)) slot

/-- The frames that `len` ticks from `start` on make for a slot. -/
def mixedFor (M : Mixer B) (mixes : List (Mix B)) (slot start len : Nat) : List PjFrame :=
  (List.range' start len).map (mixed M mixes slot)

/-- The frames that these ticks took from it. -/
def takenFrom (mixes : List (Mix B)) (slot start len : Nat) : List (List Int16) :=
  (List.range' start len).filterMap fun i => mixes[i]?.bind fun x => x.frames slot

theorem mixedFor_snoc (x : Mix B) (h : start + len ≤ mixes.length) :
    mixedFor M (mixes ++ [x]) slot start len = mixedFor M mixes slot start len := by
  refine List.map_congr_left fun i hi => ?_
  obtain ⟨-, hlt⟩ := List.mem_range'_1.mp hi
  rw [mixed, mixed, List.take_append_of_le_length (by omega)]

theorem takenFrom_snoc (x : Mix B) (h : start + len ≤ mixes.length) :
    takenFrom (mixes ++ [x]) slot start len = takenFrom mixes slot start len := by
  refine List.filterMap_congr fun i hi => ?_
  obtain ⟨-, hlt⟩ := List.mem_range'_1.mp hi
  rw [List.getElem?_append_left (by omega)]

/-- One more tick, which makes a frame of `x`. -/
theorem mixedFor_succ (x : Mix B) (h : mixes.length = start + len) :
    mixedFor M (mixes ++ [x]) slot start (len + 1) =
      mixedFor M mixes slot start len ++ [M.mix ((mixes ++ [x]).map fun x => (x.conf_, x.frames)) slot] := by
  rw [mixedFor, List.range'_concat, List.map_append, Nat.one_mul]
  refine congrArg₂ _ (mixedFor_snoc x h.ge) ?_
  rw [List.map_singleton, mixed, List.take_of_length_le (by rw [List.length_append, h]; exact Nat.le_refl _)]

theorem takenFrom_succ (x : Mix B) (h : mixes.length = start + len) :
    takenFrom (mixes ++ [x]) slot start (len + 1) = takenFrom mixes slot start len ++ (x.frames slot).toList := by
  rw [takenFrom, List.range'_concat, List.filterMap_append, Nat.one_mul]
  refine congrArg₂ _ (takenFrom_snoc x h.ge) ?_
  rw [← h, List.filterMap_cons, List.getElem?_concat_length, Option.bind_some]
  cases x.frames slot <;> rfl

/-! ### The invariant -/

/-- What a tick that did not mix yet got from `k`. -/
def pulled (s : Room B) (k slot : Nat) : List (List Int16) :=
  match s.tick with
  | .getting got => if s.ports.lookup slot = some k then (gave got slot).toList else []
  | _ => []

/-- What a tick has to hand to `k`. -/
def toPut (s : Room B) (k slot : Nat) : List PjFrame :=
  match s.tick with
  | .putting left _ => if s.ports.lookup slot = some k then (left.lookup slot).toList else []
  | _ => []

/-- What `on_put_frame` of `k` was handed, and does not count yet. -/
def hand (s : Room B) (k : Nat) : List PjFrame := (s.txOf k).elim [] (·.put.hand)

/-- `k` had a port at the ticks from `start` on, `len` in number, and always in one slot. -/
structure Stay (s : Room B) (k start len slot : Nat) : Prop where
  bound : start + len ≤ s.mixes.length
  port : ∀ i x, s.mixes[i]? = some x → ∀ n, x.ports.lookup n = some k ↔ n = slot ∧ start ≤ i ∧ i < start + len
  now : ∀ n, s.ports.lookup n = some k → n = slot ∧ s.mixes.length = start + len

/-- What these ticks took from `k` and made for it, apart from what the present tick has in hand. -/
structure Flows (M : Mixer B) (tr : List RoomEvent) (s : Room B) (k start len slot : Nat) : Prop
    extends Stay s k start len slot where
  taken : Rx.outputs (rxEvents tr k) = takenFrom s.mixes slot start len ++ s.pulled k slot
  handed : (Tx.calls (txEvents tr k)).map Prod.fst ++ (s.hand k ++ s.toPut k slot) = mixedFor M s.mixes slot start len

theorem Flows.init (h : (machine P M).init s) : Flows M [] s k 0 0 0 := by
  obtain ⟨session, -, rfl⟩ := h
  refine ⟨⟨Nat.le_refl 0, fun i x hx => ?_, fun n hn => ?_⟩, rfl, rfl⟩
  · cases hx
  · cases hn

/-- Only the slot of `k` has its port. -/
theorem Stay.behind (h : Stay s k start len slot) {n j : Nat} (hj : s.ports.lookup n = some j) :
    j = k ↔ s.ports.lookup slot = some k ∧ slot = n := by
  constructor
  · rintro rfl
    obtain ⟨rfl, -⟩ := h.now n hj
    exact ⟨hj, rfl⟩
  · rintro ⟨hk, rfl⟩
    exact Option.some.inj (hj.symm.trans hk)

/-- A step that does not mix and gives `k` no port. -/
theorem Flows.keep (h : Flows M tr s k start len slot) (hmixes : t.mixes = s.mixes)
    (hports : ∀ n, t.ports.lookup n = some k → s.ports.lookup n = some k)
    (htaken : s.pulled k slot ++ Rx.outputs (rxEvents es k) = t.pulled k slot)
    (hhanded : (Tx.calls (txEvents es k)).map Prod.fst ++ (t.hand k ++ t.toPut k slot) = s.hand k ++ s.toPut k slot) :
    Flows M (tr ++ es) t k start len slot where
  bound := hmixes ▸ h.bound
  port i x hx := h.port i x (hmixes ▸ hx)
  now n hn := hmixes ▸ h.now n (hports n hn)
  taken := by rw [rxEvents_append, Rx.outputs_append, h.taken, List.append_assoc, htaken, hmixes]
  handed := by rw [txEvents_append, Tx.calls_append, List.map_append, List.append_assoc, hhanded, h.handed, hmixes]

/-- What the tick has in hand depends on the tick and the ports alone. -/
theorem pulled_congr (htick : t.tick = s.tick) (hports : t.ports = s.ports) : t.pulled k slot = s.pulled k slot := by
  rw [pulled, pulled, htick, hports]

theorem toPut_congr (htick : t.tick = s.tick) (hports : t.ports = s.ports) : t.toPut k slot = s.toPut k slot := by
  rw [toPut, toPut, htick, hports]

theorem pulled_getting {got : List (Nat × Option (List Int16))} (h : s.tick = .getting got) :
    s.pulled k slot = if s.ports.lookup slot = some k then (gave got slot).toList else [] := by rw [pulled, h]

theorem pulled_eq_nil (h : ∀ got, s.tick ≠ .getting got) : s.pulled k slot = [] := by
  unfold pulled
  split
  · exact absurd (by assumption) (h _)
  · rfl

theorem pulled_idle (h : s.tick = .idle) : s.pulled k slot = [] := by rw [pulled, h]

theorem toPut_idle (h : s.tick = .idle) : s.toPut k slot = [] := by rw [toPut, h]

theorem toPut_putting {left : List (Nat × PjFrame)} {last : Option Nat} (h : s.tick = .putting left last) :
    s.toPut k slot = if s.ports.lookup slot = some k then (left.lookup slot).toList else [] := by rw [toPut, h]

theorem toPut_eq_nil (h : ∀ left last, s.tick ≠ .putting left last) : s.toPut k slot = [] := by
  unfold toPut
  split
  · exact absurd (by assumption) (h _ _)
  · rfl

/-! ### The steps -/

theorem Flows.rx (h : Flows M tr s k start len slot) {j : Nat} {b : RxAct} (hb : b ≠ .getFrame)
    (hs : s.rxStep j b = some (t, es)) : Flows M (tr ++ es) t k start len slot := by
  obtain ⟨voices, rx, rx', es', rfl, -, hstep, rfl, -, htx⟩ := rxStep_does hs
  refine h.keep rfl (fun _ => id) ?_ ?_
  · have hnone : Rx.outputs (rxEvents (es'.map (.rx j)) k) = [] := by
      rw [rxEvents_rx]
      split
      · rcases Rx.step_outputs hstep with ⟨_, _, rfl, -⟩ | ⟨-, hes⟩
        · exact absurd rfl hb
        · exact hes
      · rfl
    rw [hnone, List.append_nil]
    exact (pulled_congr rfl rfl).symm
  · rw [txEvents_rx, hand, htx]
    rfl

/-- A step of a send side takes the frame handed in on its way. -/
theorem hand_txStep {j : Nat} {b : TxAct} (hs : s.txStep j b = some (t, es)) :
    (Tx.calls (txEvents es k)).map Prod.fst ++ t.hand k = s.hand k ++ if j = k then b.handed else [] := by
  obtain ⟨voices, tx, tx', es', -, htx, hstep, rfl, htx', -⟩ := txStep_does hs
  rw [txEvents_tx, hand, hand, htx']
  by_cases hjk : j = k
  · subst hjk
    rw [if_pos rfl, if_pos rfl, Function.update_self, htx]
    exact (Tx.step_hand hstep).1
  · rw [if_neg hjk, if_neg hjk, Function.update_of_ne (Ne.symm hjk), List.append_nil]
    rfl

theorem Flows.tx (h : Flows M tr s k start len slot) {j : Nat} {b : TxAct} (hb : b.handed = [])
    (hs : s.txStep j b = some (t, es)) : Flows M (tr ++ es) t k start len slot := by
  have hhand := hand_txStep (k := k) hs
  rw [hb, ite_self, List.append_nil] at hhand
  obtain ⟨voices, tx, tx', es', rfl, -, -, rfl, -, -⟩ := txStep_does hs
  refine h.keep rfl (fun _ => id) ?_ ?_
  · rw [rxEvents_tx]
    exact (List.append_nil _).trans (pulled_congr rfl rfl).symm
  · rw [← List.append_assoc, hhand]
    rfl

/-- A tick comes to the port in slot `n`, of participant `j`. -/
theorem Flows.pull (h : Flows M tr s k start len slot) {n j : Nat} {got : List (Nat × Option (List Int16))}
    {frame : Option (List Int16)} (htick : s.tick = .getting got) (hj : s.ports.lookup n = some j) (hnew : n ∉ got.map Prod.fst)
    (htick' : t.tick = .getting (got ++ [(n, frame)])) (hmixes : t.mixes = s.mixes) (hports : t.ports = s.ports)
    (htx : t.txOf = s.txOf) (hframe : Rx.outputs (rxEvents es k) = if j = k then frame.toList else [])
    (hes : txEvents es k = []) : Flows M (tr ++ es) t k start len slot := by
  refine h.keep hmixes (fun n hn => hports ▸ hn) ?_ ?_
  · rw [pulled_getting htick, pulled_getting htick', hports, hframe]
    by_cases hk : s.ports.lookup slot = some k
    · rw [if_pos hk, if_pos hk, gave, gave, Alike.lookup_snoc]
      by_cases hn : slot = n
      · subst hn
        have hnone : got.lookup slot = none := by
          rw [List.lookup_eq_none_iff]
          intro p hp
          exact bne_iff_ne.mpr fun heq => hnew (heq ▸ List.mem_map_of_mem hp)
        rw [hnone, if_pos ((h.behind hj).mpr ⟨hk, rfl⟩), if_pos rfl]
        rfl
      · rw [if_neg fun hjk : j = k => hn ((h.behind hj).mp hjk).2, if_neg hn, Option.or_none, List.append_nil]
    · rw [if_neg hk, if_neg hk, if_neg fun hjk : j = k => hk ((h.behind hj).mp hjk).1]
      rfl
  · have hget : ∀ u : Room B, ∀ got, u.tick = .getting got → u.toPut k slot = [] := fun u got hu =>
      toPut_eq_nil fun left last hput => by rw [hput] at hu; cases hu
    rw [hes, hand, hand, htx, hget s _ htick, hget t _ htick']
    rfl

theorem Flows.get (h : Flows M tr s k start len slot) {n : Nat} {got : List (Nat × Option (List Int16))}
    (htick : s.tick = .getting got) (hs : s.getStep M n got = some (t, es)) : Flows M (tr ++ es) t k start len slot := by
  obtain ⟨j, hj, hnew, ⟨-, u, hu, rfl⟩ | ⟨-, rfl, rfl⟩⟩ := getStep_inv hs
  · obtain ⟨voices, rx, rx', es', rfl, -, hstep, rfl, -, htx⟩ := rxStep_does hu
    obtain ⟨frame, popped, -, rfl⟩ | ⟨hne, -⟩ := Rx.step_outputs hstep
    · refine h.pull htick hj hnew rfl rfl rfl htx ?_ (txEvents_rx _ _ _)
      rw [rxEvents_rx]
      split <;> rfl
    · exact absurd rfl hne
  · refine h.pull htick hj hnew rfl rfl rfl rfl ?_ rfl
    rw [Option.toList_none, ite_self]
    rfl

theorem Flows.mix (h : Flows M tr s k start len slot) {got : List (Nat × Option (List Int16))}
    (htick : s.tick = .getting got) (hs : s.mixStep M got = some (t, es)) : ∃ len, Flows M (tr ++ es) t k start len slot := by
  obtain ⟨rfl, mixes, rfl, rfl⟩ := mixStep_inv hs
  have hput : s.toPut k slot = [] := toPut_eq_nil fun left last hput => by rw [hput] at htick; cases htick
  have htaken := h.taken
  have hhanded := h.handed
  rw [pulled_getting htick] at htaken
  rw [hput, List.append_nil] at hhanded
  rw [List.append_nil]
  by_cases hk : s.ports.lookup slot = some k
  · obtain ⟨-, hlen⟩ := h.now slot hk
    rw [if_pos hk] at htaken
    refine ⟨len + 1, ⟨by simp [hlen, Nat.add_assoc], fun i x hx n => ?_, fun n hn => ⟨(h.now n hn).1, by simp [hlen, Nat.add_assoc]⟩⟩, ?_, ?_⟩
    · rcases getElem?_snoc_some.mp hx with ⟨rfl, rfl⟩ | hx
      · refine ⟨fun hn => ⟨(h.now n hn).1, by omega, by omega⟩, fun hn => ?_⟩
        rw [hn.1]
        exact hk
      · have hlt := (List.getElem?_eq_some_iff.mp hx).1
        rw [h.port i x hx n]
        refine and_congr_right fun _ => and_congr_right fun _ => ⟨fun hi => by omega, fun hi => by omega⟩
    · rw [takenFrom_succ _ hlen, htaken]
      exact (List.append_nil _).symm
    · rw [mixedFor_succ _ hlen, ← hhanded, toPut_putting rfl, if_pos hk, Alike.lookup_map, hk, List.append_assoc]
      rfl
  · rw [if_neg hk, List.append_nil] at htaken
    have hnone : ∀ n, s.ports.lookup n ≠ some k := fun n hn => hk ((h.now n hn).1 ▸ hn)
    refine ⟨len, ⟨(by rw [List.length_append]; exact Nat.le_add_right_of_le h.bound), fun i x hx n => ?_,
      fun n hn => absurd hn (hnone n)⟩, ?_, ?_⟩
    · rcases getElem?_snoc_some.mp hx with ⟨rfl, rfl⟩ | hx
      · refine ⟨fun hn => absurd hn (hnone n), fun hn => ?_⟩
        exact absurd h.bound (by omega)
      · exact h.port i x hx n
    · rw [takenFrom_snoc _ h.bound, htaken]
      exact (List.append_nil _).symm
    · rw [mixedFor_snoc _ h.bound, ← hhanded, toPut_putting rfl, if_neg hk, List.append_nil]
      rfl

/-- A tick hands a frame to the port in a slot. -/
theorem Flows.put (h : Flows M tr s k start len slot) {n : Nat} {left : List (Nat × PjFrame)} {last : Option Nat}
    (htick : s.tick = .putting left last) (hs : s.putStep n left last = some (t, es)) :
    Flows M (tr ++ es) t k start len slot := by
  obtain ⟨j, frame, u, hj, hframe, -, hu, rfl⟩ := putStep_inv hs
  have hhand := hand_txStep (k := k) hu
  obtain ⟨voices, tx, tx', es', rfl, -, -, rfl, -, -⟩ := txStep_does hu
  have hpulled : ∀ u : Room B, ∀ left last, u.tick = .putting left last → u.pulled k slot = [] := fun u left last hu =>
    pulled_eq_nil fun got hget => by rw [hget] at hu; cases hu
  refine h.keep rfl (fun _ => id) ?_ ?_
  · rw [rxEvents_tx, hpulled s _ _ htick, hpulled _ _ _ rfl]
    rfl
  · rw [← List.append_assoc]
    refine (congrArg (· ++ _) hhand).trans ?_
    rw [toPut_putting htick, toPut_putting rfl, lookup_filter_ne, List.append_assoc]
    refine congrArg _ ?_
    by_cases hk : s.ports.lookup slot = some k
    · by_cases hn : slot = n
      · subst hn
        rw [if_pos hk, if_pos hk, if_pos ((h.behind hj).mpr ⟨hk, rfl⟩), if_pos rfl, hframe]
        rfl
      · rw [if_pos hk, if_pos hk, if_neg fun hjk : j = k => hn ((h.behind hj).mp hjk).2, if_neg hn]
        rfl
    · rw [if_neg hk, if_neg hk, if_neg fun hjk : j = k => hk ((h.behind hj).mp hjk).1]
      rfl

/-- A call on the meeting goes on, and may give `k` its port or take it away. -/
theorem Flows.go (h : Flows M tr s k start len slot) (hs : Steady P s) (ht : Inv P t) {i : Nat} {ok : Bool}
    (hgo : s.goOn P i ok = some (t, es)) : ∃ start len slot, Flows M (tr ++ es) t k start len slot := by
  have hstill := hs.toInv.still hgo
  obtain ⟨pc, pc', c, es', hi, -, rfl, heq⟩ := goOn_inv hgo
  obtain ⟨htick, hmixes, hports, hhand⟩ : t.tick = s.tick ∧ t.mixes = s.mixes ∧ t.ports = portsAfter s.ports i pc pc' ∧
      t.hand k = s.hand k := by
    rw [heq]
    exact ⟨rfl, rfl, rfl, rfl⟩
  by_cases hnew : ∃ n, t.ports.lookup n = some k ∧ s.ports.lookup n ≠ some k
  · obtain ⟨n, hn, hold⟩ := hnew
    have hidle : s.tick = .idle := hstill.resolve_left fun hsame => hold (hsame ▸ hn)
    obtain ⟨rfl, hbefore, -⟩ := (lookup_portsAfter (hports ▸ hn)).resolve_right hold
    -- A participant had no port before its call adds it.
    have hzero : len = 0 := by
      by_contra hne
      have hlt : start < s.mixes.length := Nat.lt_of_lt_of_le (Nat.lt_add_of_pos_right (Nat.pos_of_ne_zero hne)) h.bound
      obtain ⟨pcj, hj, hpast⟩ := hs.pastMix _ (List.getElem_mem hlt) slot k
        ((h.port start _ (List.getElem?_eq_getElem hlt) slot).mpr ⟨rfl, Nat.le_refl _, by omega⟩)
      obtain rfl := Option.some.inj (hi.symm.trans hj)
      rw [hbefore] at hpast
      cases hpast
    subst hzero
    refine ⟨s.mixes.length, 0, n, ⟨hmixes.symm ▸ Nat.le_refl _, fun i x hx m => ?_, fun m hm => ?_⟩, ?_, ?_⟩
    · rw [hmixes] at hx
      have hlt := (List.getElem?_eq_some_iff.mp hx).1
      rw [h.port i x hx m]
      exact ⟨fun hm => absurd hm.2 (by omega), fun hm => absurd hm.2 (by omega)⟩
    · exact ⟨ht.unique hm hn, congrArg _ hmixes⟩
    · rw [rxEvents_append, rxEvents_meeting, List.append_nil, h.taken, pulled_idle hidle, pulled_idle (htick.trans hidle)]
      rfl
    · rw [txEvents_append, txEvents_meeting, List.append_nil, hhand, toPut_idle (htick.trans hidle), ← toPut_idle hidle,
        h.handed]
      rfl
  · have hpulled : t.pulled k slot = s.pulled k slot := by
      rcases hstill with hsame | hidle
      · exact pulled_congr htick hsame
      · rw [pulled_idle hidle, pulled_idle (htick.trans hidle)]
    have hput : t.toPut k slot = s.toPut k slot := by
      rcases hstill with hsame | hidle
      · exact toPut_congr htick hsame
      · rw [toPut_idle hidle, toPut_idle (htick.trans hidle)]
    refine ⟨start, len, slot, h.keep hmixes (fun n hn => not_not.mp fun hold => hnew ⟨n, hn, hold⟩) ?_ ?_⟩
    · rw [rxEvents_meeting, hpulled]
      exact List.append_nil _
    · rw [txEvents_meeting, hhand, hput]
      rfl

theorem hand_snoc {session : Session B} {v : Voice} (hv : v.tx.put = .idle) :
    hand { s with session, voices := s.voices ++ [v] } k = s.hand k := by
  rw [hand, hand, txOf_snoc]
  by_cases hk : k = s.voices.length
  · have hnone : s.txOf k = none := by rw [txOf, hk, List.getElem?_eq_none (Nat.le_refl _), Option.map_none]
    rw [hk, Function.update_self, ← hk, hnone]
    exact congrArg PutPc.hand hv
  · rw [Function.update_of_ne hk]

/-- A tick begins, or ends with nothing in hand. -/
theorem Flows.tick (h : Flows M tr s k start len slot) {tick : TickPc} (hs : s.tickStep P tick = some (t, es))
    (hpulled : s.pulled k slot = []) (hput : s.toPut k slot = []) (htick : tick = .idle ∨ tick = .getting []) :
    Flows M (tr ++ es) t k start len slot := by
  obtain ⟨⟨session, es'⟩, -, heq⟩ := Option.map_eq_some_iff.mp hs
  cases heq
  refine h.keep rfl (fun _ => id) ?_ ?_
  · rw [hpulled]
    rcases htick with rfl | rfl
    · rfl
    · rw [pulled_getting rfl, gave, List.lookup_nil, Option.join_none, Option.toList_none, ite_self]
      rfl
  · rw [hput]
    rcases htick with rfl | rfl
    · rfl
    · rfl

theorem Flows.step (h : Flows M tr s k start len slot) (hs : Steady P s) (ht : Inv P t)
    (hstep : s.step P M a = some (t, es)) : ∃ start len slot, Flows M (tr ++ es) t k start len slot := by
  cases step_does hstep with
  | call _ =>
    refine ⟨start, len, slot, h.keep rfl (fun _ => id) (List.append_nil _) ?_⟩
    rw [hand_snoc rfl]
    rfl
  | go hgo => exact h.go hs ht hgo
  | tickBegin htick htb => exact ⟨_, _, _, h.tick htb (pulled_idle htick) (toPut_idle htick) (Or.inr rfl)⟩
  | get htick hget => exact ⟨_, _, _, h.get htick hget⟩
  | mix htick hmix =>
    obtain ⟨len, hmix⟩ := h.mix htick hmix
    exact ⟨_, len, _, hmix⟩
  | put htick hput => exact ⟨_, _, _, h.put htick hput⟩
  | tickEnd htick hte =>
    refine ⟨_, _, _, h.tick hte (pulled_eq_nil fun got hget => ?_) ?_ (Or.inl rfl)⟩
    · rw [htick] at hget
      cases hget
    · rw [toPut_putting htick, List.lookup_nil, Option.toList_none, ite_self]
  | @rx j b t es hrx =>
    refine ⟨_, _, _, h.rx (fun hb => ?_) hrx⟩
    subst hb
    cases hstep
  | @tx j b t es htx =>
    refine ⟨_, _, _, h.tx ?_ htx⟩
    cases b with
    | putFrame frame => cases hstep
    | _ => rfl

theorem run_flows (hP : P.Lawful) (hrun : (machine P M).Run Any tr s) (k : Nat) :
    ∃ start len slot, Flows M tr s k start len slot := by
  suffices h : Steady P s ∧ ∃ start len slot, Flows M tr s k start len slot from h.2
  refine hrun.invariant (I := fun tr s => Steady P s ∧ ∃ start len slot, Flows M tr s k start len slot)
    (fun s hs => ⟨.init hs, 0, 0, 0, .init hs⟩) fun tr s a t es ⟨hs, start, len, slot, h⟩ _ hstep => ?_
  have ht := hs.step hP hstep
  exact ⟨ht, h.step hs ht.toInv hstep⟩

/-! ### Between two ticks -/

/-- Nobody but the participant that was handed a frame last is within `on_put_frame`. -/
def Settled (s : Room B) : Prop :=
  ∀ j tx, s.txOf j = some tx → (∀ left, s.tick ≠ .putting left (some j)) → tx.put = .idle

theorem put_of_ready {j : Nat} {tx : Tx} (h : s.ready (some j) = true) (hj : s.txOf j = some tx) : tx.put = .idle := by
  obtain ⟨v, hv, rfl⟩ := Option.map_eq_some_iff.mp hj
  simp only [ready, Option.bind_some, hv] at h
  cases hput : v.tx.put with
  | idle => rfl
  | checkStop frame | enqueue bytes =>
    rw [hput] at h
    cases h

/-- Once it is done with the frame, nobody is. -/
theorem Settled.idle (h : Settled s) {left : List (Nat × PjFrame)} {last : Option Nat} (htick : s.tick = .putting left last)
    (hready : s.ready last = true) {j : Nat} {tx : Tx} (hj : s.txOf j = some tx) : tx.put = .idle := by
  by_cases hlast : last = some j
  · exact put_of_ready (hlast ▸ hready) hj
  · refine h j tx hj fun left' hput => hlast ?_
    rw [htick] at hput
    exact (TickPc.putting.inj hput).2

theorem tickEnd_ready (hs : s.step P M .tickEnd = some (t, es)) :
    ∃ last, s.tick = .putting [] last ∧ s.ready last = true ∧ s.tickStep P .idle = some (t, es) := by
  rcases htick : s.tick with _ | got | ⟨_ | ⟨port, left⟩, last⟩ <;> simp only [Room.step, htick] at hs
  · cases hs
  · cases hs
  · split at hs
    · exact ⟨last, rfl, by assumption, hs⟩
    · cases hs
  · cases hs

theorem Settled.tx (h : Settled s) {j : Nat} {b : TxAct} (hs : s.txStep j b = some (t, es)) (hb : b.handed = []) :
    Settled t := by
  obtain ⟨voices, tx, tx', es', rfl, htx, hstep, -, htx', -⟩ := txStep_does hs
  intro i x hi hlast
  rw [htx'] at hi
  by_cases hij : i = j
  · subst hij
    rw [Function.update_self] at hi
    obtain rfl := Option.some.inj hi
    exact (Tx.step_hand hstep).2 hb (h i tx htx hlast)
  · rw [Function.update_of_ne hij] at hi
    exact h i x hi hlast

theorem Settled.step (h : Settled s) (hstep : s.step P M a = some (t, es)) : Settled t := by
  cases step_does hstep with
  | @call c ssrc session _ =>
    intro j tx hj hlast
    rw [txOf_snoc] at hj
    by_cases hk : j = s.voices.length
    · rw [hk, Function.update_self] at hj
      exact (Option.some.inj hj) ▸ rfl
    · rw [Function.update_of_ne hk] at hj
      exact h j tx hj hlast
  | go hgo =>
    obtain ⟨pc, pc', c, es', -, -, -, rfl⟩ := goOn_inv hgo
    exact h
  | tickBegin htick htb =>
    obtain ⟨⟨session, es'⟩, -, heq⟩ := Option.map_eq_some_iff.mp htb
    cases heq
    refine fun j tx hj _ => h j tx hj fun left hput => ?_
    rw [htick] at hput
    cases hput
  | get htick hget =>
    have hidle : ∀ j tx, s.txOf j = some tx → tx.put = .idle := fun j tx hj => h j tx hj fun left hput => by
      rw [htick] at hput
      cases hput
    obtain ⟨k, -, -, ⟨-, u, hu, rfl⟩ | ⟨-, rfl, rfl⟩⟩ := getStep_inv hget
    · obtain ⟨voices, rx, rx', es', rfl, -, -, -, -, htx⟩ := rxStep_does hu
      exact fun j tx hj _ => hidle j tx (htx ▸ hj)
    · exact fun j tx hj _ => hidle j tx hj
  | mix htick hmix =>
    obtain ⟨-, mixes, -, rfl⟩ := mixStep_inv hmix
    refine fun j tx hj _ => h j tx hj fun left hput => ?_
    rw [htick] at hput
    cases hput
  | @put n left last t es htick hput =>
    obtain ⟨k, frame, u, -, -, hready, hu, rfl⟩ := putStep_inv hput
    obtain ⟨voices, tx, tx', es', rfl, -, -, -, htx, -⟩ := txStep_does hu
    intro j x hj hlast
    have hjk : j ≠ k := fun hjk => hlast _ (by rw [hjk])
    have hold : Function.update s.txOf k (some tx') j = some x := (congrFun htx j).symm.trans hj
    rw [Function.update_of_ne hjk] at hold
    exact h.idle htick hready hold
  | tickEnd _ _ =>
    obtain ⟨last, htick, hready, hte⟩ := tickEnd_ready hstep
    obtain ⟨⟨session, es'⟩, -, heq⟩ := Option.map_eq_some_iff.mp hte
    cases heq
    exact fun j tx hj _ => h.idle htick hready hj
  | rx hrx =>
    obtain ⟨voices, rx, rx', es', rfl, -, -, -, -, htx⟩ := rxStep_does hrx
    exact fun j tx hj hlast => h j tx (htx ▸ hj) hlast
  | @tx j b t es htx =>
    refine h.tx htx ?_
    cases b with
    | putFrame frame => cases hstep
    | _ => rfl

theorem run_settled (hrun : (machine P M).Run Any tr s) : Settled s := by
  refine hrun.invariant (I := fun _ => Settled) ?_ fun _ _ _ _ _ h _ hstep => h.step hstep
  rintro s ⟨session, -, rfl⟩ j tx hj
  cases hj

theorem hand_idle (h : Settled s) (htick : s.tick = .idle) : s.hand k = [] := by
  rw [hand]
  cases hk : s.txOf k with
  | none => rfl
  | some tx =>
    have hput : tx.put = .idle := h k tx hk fun left hput => by rw [htick] at hput; cases hput
    rw [Option.elim_some, hput]
    rfl

/-! ### The law -/

/-- What every run of a meeting keeps of the audio of participant `k`. -/
structure AudioLaw (M : Mixer B) (tr : List RoomEvent) (s : Room B) (k start len slot : Nat) : Prop where
  /-- It has a port at the ticks from `start` on, `len` in number, and always in one slot. -/
  port : ∀ i x, s.mixes[i]? = some x → ∀ n, x.ports.lookup n = some k ↔ n = slot ∧ start ≤ i ∧ i < start + len
  /-- What these ticks took from the slot is what `on_get_frame` wrote, each frame once and in order; -/
  taken : takenFrom s.mixes slot start len <+: Rx.outputs (rxEvents tr k)
  taken_idle : s.tick = .idle → Rx.outputs (rxEvents tr k) = takenFrom s.mixes slot start len
  /-- apart from silence, these are frames that were received, in their order. -/
  received : ((takenFrom s.mixes slot start len).filter (· ≠ Rx.silence)).Sublist (Rx.pushed (rxEvents tr k))
  /-- Those are what the payloads that it received decode to, from the first one on. -/
  decoded : Rx.pushed (rxEvents tr k) <+: Rx.decodedFrames (Rx.payloads (rxEvents tr k))
  /-- `on_put_frame` is handed what these ticks made for the slot, each frame once and in order, -/
  handed : (Tx.calls (txEvents tr k)).map Prod.fst <+: mixedFor M s.mixes slot start len
  handed_idle : s.tick = .idle → (Tx.calls (txEvents tr k)).map Prod.fst = mixedFor M s.mixes slot start len
  /-- and packet `n` carries what two ticks in a row made. -/
  packet : ∃ first, ∀ n p, (Tx.built (txEvents tr k))[n]? = some p →
    first + 2 * n + 1 < len ∧ p.sequence = UInt16.ofNat n ∧ p.timestamp = UInt32.ofNat (160 * (first + 2 * n)) ∧
    p.payload = (Tx.samples (mixed M s.mixes slot (start + (first + 2 * n))) ++
      Tx.samples (mixed M s.mixes slot (start + (first + 2 * n + 1)))).map G711Alaw.encodeSample

/-- What a call was handed is what its tick made. -/
theorem call_mixed {tr : List TxEvent} (h : (Tx.calls tr).map Prod.fst <+: mixedFor M mixes slot start len) {i : Nat}
    {frame : PjFrame} {active : Bool} (hi : (Tx.calls tr)[i]? = some (frame, active)) :
    i < len ∧ frame = mixed M mixes slot (start + i) := by
  have hmap : ((Tx.calls tr).map Prod.fst)[i]? = some frame := by rw [List.getElem?_map, hi, Option.map_some]
  have hmixed := List.prefix_iff_getElem?.mp h i (List.getElem?_eq_some_iff.mp hmap).1
  rw [← List.getElem?_eq_getElem, hmap, mixedFor, List.getElem?_map] at hmixed
  obtain ⟨j, hj, hframe⟩ := Option.map_eq_some_iff.mp hmixed
  obtain ⟨hlt, rfl⟩ := List.getElem?_eq_some_iff.mp hj
  rw [List.length_range'] at hlt
  rw [List.getElem_range', Nat.one_mul] at hframe
  exact ⟨hlt, hframe.symm⟩

theorem Flows.taken_prefix (h : Flows M tr s k start len slot) : takenFrom s.mixes slot start len <+: Rx.outputs (rxEvents tr k) :=
  ⟨_, h.taken.symm⟩

theorem Flows.handed_prefix (h : Flows M tr s k start len slot) :
    (Tx.calls (txEvents tr k)).map Prod.fst <+: mixedFor M s.mixes slot start len := ⟨_, h.handed⟩

theorem Flows.received (h : Flows M tr s k start len slot) (hsides : Sides tr s) :
    ((takenFrom s.mixes slot start len).filter (· ≠ Rx.silence)).Sublist (Rx.pushed (rxEvents tr k)) := by
  refine (h.taken_prefix.sublist.filter _).trans ?_
  cases hk : s.rxOf k with
  | none =>
    rw [hsides.rx.silent hk]
    exact List.Sublist.refl _
  | some rx => exact Rx.outputs_sublist (hsides.rx.run hk)

theorem pushed_decoded (hsides : Sides tr s) :
    Rx.pushed (rxEvents tr k) <+: Rx.decodedFrames (Rx.payloads (rxEvents tr k)) := by
  cases hk : s.rxOf k with
  | none =>
    rw [hsides.rx.silent hk]
    exact List.nil_prefix
  | some rx => exact ⟨_, (Rx.run_decoded (hsides.rx.run hk)).frames⟩

/-- Packet `n` is made of the mixes of two ticks. -/
theorem Flows.packet (h : Flows M tr s k start len slot) (hsides : Sides tr s) :
    ∃ first, ∀ n p, (Tx.built (txEvents tr k))[n]? = some p →
      first + 2 * n + 1 < len ∧ p.sequence = UInt16.ofNat n ∧ p.timestamp = UInt32.ofNat (160 * (first + 2 * n)) ∧
      p.payload = (Tx.samples (mixed M s.mixes slot (start + (first + 2 * n))) ++
        Tx.samples (mixed M s.mixes slot (start + (first + 2 * n + 1)))).map G711Alaw.encodeSample := by
  cases hk : s.txOf k with
  | none =>
    refine ⟨0, fun n p hp => ?_⟩
    rw [hsides.tx.silent hk] at hp
    cases hp
  | some tx =>
    obtain ⟨first, hpacket⟩ := Tx.run_packets (hsides.tx.run hk)
    refine ⟨first, fun n p hp => ?_⟩
    obtain ⟨f, g, hf, hg, rfl⟩ := hpacket n p hp
    obtain ⟨-, rfl⟩ := call_mixed h.handed_prefix hf
    obtain ⟨hlt, rfl⟩ := call_mixed h.handed_prefix hg
    exact ⟨hlt, rfl, rfl, Tx.payload_packet⟩

/-- The audio of a meeting takes its way frame by frame, whatever else goes on. -/
theorem audio_law (hP : P.Lawful) (hrun : (machine P M).Run Any tr s) (k : Nat) :
    ∃ start len slot, AudioLaw M tr s k start len slot := by
  obtain ⟨start, len, slot, h⟩ := run_flows hP hrun k
  have hsides := run_sides hrun
  refine ⟨start, len, slot, h.port, h.taken_prefix, fun htick => ?_, h.received hsides, pushed_decoded hsides,
    h.handed_prefix, fun htick => ?_, h.packet hsides⟩
  · rw [h.taken, pulled_idle htick, List.append_nil]
  · rw [← h.handed, toPut_idle htick, hand_idle (run_settled hrun) htick]
    exact (List.append_nil _).symm

/-- Two participants join, the first speaks, and two ticks later each is sent a packet. -/
def twoTicks : List RoomAct :=
  [RoomAct.call (.add_participant (ascii "a") 10000) 7,
    .call (.add_passive_participant (ascii "b") (ascii "10.0.0.1") 80) 8] ++
  List.replicate 9 (RoomAct.go 0 true) ++ List.replicate 11 (RoomAct.go 1 true) ++
  [RoomAct.tx 1 .startTx, .tx 0 .startTx, .rx 0 .rxStart, .rx 0 .rxHead] ++ speaks ++ oneTick ++
  [.tickBegin, .get 1, .get 2, .mix, .put 1, .tx 0 .putStop, .tx 0 .putEnqueue, .put 2, .tx 1 .putStop,
    .tx 1 .putEnqueue, .tickEnd]

theorem audio_law_two : ∃ tr s start len slot, (Tx.built (txEvents tr 1)).length = 1 ∧
    (takenFrom s.mixes 1 0 2).filter (· ≠ Rx.silence) ≠ [] ∧ AudioLaw mixer tr s 1 start len slot := by
  obtain ⟨tr, s, hrun, hp⟩ := exists_run (machine Session.board mixer)
    { session := { conference := { meet_id_ := [], conf_ := .new } } } twoTicks
    ⟨_, ⟨[], .new, ⟨fun _ => beq_iff_eq, fun _ _ => nofun⟩, rfl⟩, rfl⟩ (meets_any ..)
    (fun r => (Tx.built (txEvents r.2 1)).length == 1 && !((takenFrom r.1.mixes 1 0 2).filter (· ≠ Rx.silence)).isEmpty)
    (by decide +kernel)
  simp only [Bool.and_eq_true, beq_iff_eq, Bool.not_eq_true', List.isEmpty_eq_false_iff] at hp
  obtain ⟨start, len, slot, hlaw⟩ := audio_law Session.board_lawful hrun 1
  exact ⟨tr, s, start, len, slot, hp.1, hp.2, hlaw⟩

end Mixes
end Room
end Live
end AudioMeet
