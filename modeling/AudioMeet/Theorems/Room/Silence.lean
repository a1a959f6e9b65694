import AudioMeet.Lib.Unwinding
import AudioMeet.Theorems.Room.Ports

/-! What the participants of a meeting cannot hear: one that is muted, and themselves. -/

namespace AudioMeet.Live
open Lib Machine

/-- What a meeting relies on in a mix: the frame for a slot depends on the frames of those slots alone that are connected
    to it and not muted. -/
structure Mixer.Lawful {B : Type} (P : Pjmedia B) (M : Mixer B) : Prop where
  mix : ∀ xs ys n, List.Forall₂ (fun x y => y.1 = x.1 ∧ ∀ m, P.connected x.1 m n → ¬P.Muted x.1 m → y.2 m = x.2 m) xs ys →
    M.mix ys n = M.mix xs n

namespace Room
variable {B : Type} {P : Pjmedia B} {M : Mixer B} {s t u v : Room B} {a : RoomAct} {es es' : List RoomEvent}

/-! ### The ports at each mix -/

/-- A participant had the slot at each mix that it has now, and no port was connected to itself. -/
structure Steady (P : Pjmedia B) (s : Room B) : Prop extends Inv P s where
  pastMix : ∀ x ∈ s.mixes, ∀ n k, x.ports.lookup n = some k → s.session.Past k
  slot : ∀ x ∈ s.mixes, ∀ m n k, x.ports.lookup m = some k → s.ports.lookup n = some k → m = n
  apart : ∀ x ∈ s.mixes, ∀ m n, P.connected x.conf_ m n → m ≠ n

theorem Steady.init (h : (machine P M).init s) : Steady P s := by
  have hinv := Inv.init h
  obtain ⟨session, -, rfl⟩ := h
  refine ⟨hinv, fun x hx => ?_, fun x hx => ?_, fun x hx => ?_⟩
  · cases hx
  · cases hx
  · cases hx

/-- Nothing but the ports, the mixes and the calls matters. -/
theorem Steady.of_same (h : Steady P s) (ht : Inv P t) (hports : t.ports = s.ports) (hmixes : t.mixes = s.mixes)
    (hcalls : t.session.calls = s.session.calls) : Steady P t := by
  refine ⟨ht, fun x hx n k hk => ?_, fun x hx m n k hm hn => ?_, fun x hx => h.apart x (hmixes ▸ hx)⟩
  · rw [Session.Past, hcalls]
    exact h.pastMix x (hmixes ▸ hx) n k hk
  · exact h.slot x (hmixes ▸ hx) m n k hm (hports ▸ hn)

theorem Steady.mix (h : Steady P s) {got : List (Nat × Option (List Int16))} (ht : Inv P t)
    (hstep : s.mixStep M got = some (t, es)) : Steady P t := by
  obtain ⟨-, mixes, rfl, rfl⟩ := mixStep_inv hstep
  refine ⟨ht, fun x hx n k hk => ?_, fun x hx m n k hm hn => ?_, fun x hx m n hmn => ?_⟩ <;>
    rcases List.mem_append.mp hx with hx | hx
  · exact h.pastMix x hx n k hk
  · obtain rfl := List.mem_singleton.mp hx
    exact h.past n k hk
  · exact h.slot x hx m n k hm hn
  · obtain rfl := List.mem_singleton.mp hx
    exact h.unique hm hn
  · exact h.apart x hx m n hmn
  · obtain rfl := List.mem_singleton.mp hx
    exact (h.session.mirrors.sound m n hmn).1

theorem Steady.go (h : Steady P s) (ht : Inv P t) {k : Nat} {ok : Bool} (hstep : s.goOn P k ok = some (t, es)) :
    Steady P t := by
  obtain ⟨pc, pc', c, es', hk, hgo, -, rfl⟩ := goOn_inv hstep
  refine ⟨ht, fun x hx n j hj => (h.pastMix x hx n j hj).go hk hgo, fun x hx m n j hm hn => ?_, h.apart⟩
  rcases lookup_portsAfter hn with ⟨rfl, hbefore, -⟩ | hn
  · -- A call adds its port once.
    obtain ⟨pcj, hj, hpast⟩ := h.pastMix x hx m _ hm
    obtain rfl := Option.some.inj (hk.symm.trans hj)
    rw [hbefore] at hpast
    cases hpast
  · exact h.slot x hx m n j hm hn

theorem Steady.step (hP : P.Lawful) (h : Steady P s) (hstep : s.step P M a = some (t, es)) : Steady P t := by
  have ht := h.toInv.step hP hstep
  cases step_does hstep with
  | call hs =>
    subst hs
    exact ⟨ht, fun x hx n k hk => (h.pastMix x hx n k hk).snoc _, h.slot, h.apart⟩
  | go hgo => exact h.go ht hgo
  | tickBegin htick hs | tickEnd htick hs =>
    obtain ⟨⟨session, es'⟩, hs, heq⟩ := Option.map_eq_some_iff.mp hs
    obtain ⟨m, -, hsession⟩ := Option.map_eq_some_iff.mp hs
    cases heq
    cases hsession
    exact h.of_same ht rfl rfl rfl
  | get htick hget =>
    obtain ⟨k, -, -, ⟨-, u, hu, rfl⟩ | ⟨-, -, rfl⟩⟩ := getStep_inv hget
    · obtain ⟨v, rx, es', -, -, -, rfl⟩ := rxStep_inv hu
      exact h.of_same ht rfl rfl rfl
    · exact h.of_same ht rfl rfl rfl
  | mix htick hmix => exact h.mix ht hmix
  | put htick hput =>
    obtain ⟨k, frame, u, -, -, -, hu, rfl⟩ := putStep_inv hput
    obtain ⟨v, tx, es', -, -, -, rfl⟩ := txStep_inv hu
    exact h.of_same ht rfl rfl rfl
  | rx hrx =>
    obtain ⟨v, rx, es', -, -, -, rfl⟩ := rxStep_inv hrx
    exact h.of_same ht rfl rfl rfl
  | tx htx =>
    obtain ⟨v, tx, es', -, -, -, rfl⟩ := txStep_inv htx
    exact h.of_same ht rfl rfl rfl

theorem run_steady (hP : P.Lawful) {tr : List RoomEvent} (hrun : (machine P M).Run Any tr s) : Steady P s :=
  hrun.invariant (I := fun _ s => Steady P s) (fun _ hs => .init hs) fun _ _ _ _ _ h _ hstep => h.step hP hstep

/-! ### Rooms that differ in what a participant receives -/

def rxOf (s : Room B) (j : Nat) : Option Rx := s.voices[j]?.map Voice.rx

def txOf (s : Room B) (j : Nat) : Option Tx := s.voices[j]?.map Voice.tx

/-- Mixes that differ at most in what participant `k` gave, and then only where `quiet` holds. -/
def AlikeMix (quiet : B → List (Nat × Nat) → Prop) (k : Nat) (x y : Mix B) : Prop :=
  y.conf_ = x.conf_ ∧ y.ports = x.ports ∧
    (y.frames = x.frames ∨ quiet x.conf_ x.ports ∧ ∀ m, x.ports.lookup m ≠ some k → y.frames m = x.frames m)

/-- Ticks that differ at most in what `k` gave, and in the frames for those that are not watched. -/
def AlikeTick (k : Nat) (watched : Nat → Bool) (ports : List (Nat × Nat)) : TickPc → TickPc → Prop
  | .idle, .idle => True
  | .getting got, .getting got' => ∀ n, ports.lookup n ≠ some k → got'.lookup n = got.lookup n
  | .putting left _, .putting left' _ =>
    ∀ n j, ports.lookup n = some j → watched j = true → left'.lookup n = left.lookup n
  | _, _ => False

theorem AlikeTick.refl (k : Nat) (watched : Nat → Bool) (ports : List (Nat × Nat)) (tick : TickPc) :
    AlikeTick k watched ports tick tick := by
  cases tick with
  | idle => trivial
  | getting got => exact fun _ _ => rfl
  | putting left last => exact fun _ _ _ _ => rfl

/-- Rooms that differ at most in the receive side of `k` and in the send sides that are not watched. -/
structure Alike (quiet : B → List (Nat × Nat) → Prop) (k : Nat) (watched : Nat → Bool) (s u : Room B) : Prop where
  session : u.session = s.session
  ports : u.ports = s.ports
  history : u.history = s.history
  rx : ∀ j, j ≠ k → u.rxOf j = s.rxOf j
  tx : ∀ j, watched j = true → u.txOf j = s.txOf j
  mixes : List.Forall₂ (AlikeMix quiet k) s.mixes u.mixes
  tick : AlikeTick k watched s.ports s.tick u.tick

/-- Whether an action is none of those by which alike rooms may come to differ. -/
def RoomAct.seen (k : Nat) (watched : Nat → Bool) : RoomAct → Bool
  | .rx j _ => j ≠ k
  | .tx j _ => watched j
  | _ => true

def RoomEvent.seen (k : Nat) (watched : Nat → Bool) : RoomEvent → Bool
  | .meeting _ => true
  | .rx j _ => j ≠ k
  | .tx j _ => watched j

theorem map_set {α : Type} {f : Voice → α} {l : List Voice} {j : Nat} {v w : Voice} (hv : l[j]? = some v) :
    (fun i : Nat => (l.set j w)[i]?.map f) = Function.update (fun i => l[i]?.map f) j (some (f w)) := by
  funext i
  by_cases hi : i = j
  · subst hi
    rw [Function.update_self, (getElem?_set_some hv).mpr (Or.inl ⟨rfl, rfl⟩), Option.map_some]
  · rw [Function.update_of_ne hi, List.getElem?_set_ne (Ne.symm hi)]

theorem map_set_eq {α : Type} {f : Voice → α} {l : List Voice} {j : Nat} {v w : Voice} (hv : l[j]? = some v)
    (hf : f w = f v) : (fun i : Nat => (l.set j w)[i]?.map f) = fun i => l[i]?.map f := by
  rw [map_set hv, hf, Function.update_eq_self_iff, hv, Option.map_some]

theorem rxStep_does {j : Nat} {a : RxAct} (h : s.rxStep j a = some (t, es)) :
    ∃ voices rx rx' es', t = { s with voices } ∧ s.rxOf j = some rx ∧ rx.step a = some (rx', es') ∧
      es = es'.map (.rx j) ∧ t.rxOf = Function.update s.rxOf j (some rx') ∧ t.txOf = s.txOf := by
  obtain ⟨v, rx', es', hv, hstep, rfl, rfl⟩ := rxStep_inv h
  exact ⟨_, v.rx, rx', es', rfl, by rw [rxOf, hv, Option.map_some], hstep, rfl, map_set hv, map_set_eq hv rfl⟩

theorem txStep_does {j : Nat} {a : TxAct} (h : s.txStep j a = some (t, es)) :
    ∃ voices tx tx' es', t = { s with voices } ∧ s.txOf j = some tx ∧ tx.step a = some (tx', es') ∧
      es = es'.map (.tx j) ∧ t.txOf = Function.update s.txOf j (some tx') ∧ t.rxOf = s.rxOf := by
  obtain ⟨v, tx', es', hv, hstep, rfl, rfl⟩ := txStep_inv h
  exact ⟨_, v.tx, tx', es', rfl, by rw [txOf, hv, Option.map_some], hstep, rfl, map_set hv, map_set_eq hv rfl⟩

namespace Alike
variable {quiet : B → List (Nat × Nat) → Prop} {j k : Nat} {watched : Nat → Bool}

theorem refl (s : Room B) : Alike quiet k watched s s where
  session := rfl
  ports := rfl
  history := rfl
  rx _ _ := rfl
  tx _ _ := rfl
  mixes := List.forall₂_same.mpr fun _ _ => ⟨rfl, rfl, Or.inl rfl⟩
  tick := .refl ..

theorem symm (h : Alike quiet k watched s u) : Alike quiet k watched u s where
  session := h.session.symm
  ports := h.ports.symm
  history := h.history.symm
  rx j hj := (h.rx j hj).symm
  tx j hj := (h.tx j hj).symm
  mixes := by
    refine h.mixes.flip.imp fun y x hxy => ?_
    obtain ⟨hconf, hports, hframes | ⟨hq, hframes⟩⟩ := hxy
    · exact ⟨hconf.symm, hports.symm, Or.inl hframes.symm⟩
    · exact ⟨hconf.symm, hports.symm, Or.inr ⟨by rwa [hconf, hports], fun m hm => (hframes m (hports ▸ hm)).symm⟩⟩
  tick := by
    have htick := h.tick
    rw [h.ports]
    cases hs : s.tick <;> cases hu : u.tick <;> rw [hs, hu] at htick
    case idle.idle => trivial
    case getting.getting => exact fun n hn => (htick n hn).symm
    case putting.putting => exact fun n j hj hw => (htick n j hj hw).symm
    all_goals cases htick

/-! #### What each step does to alike rooms -/

/-- What is received by `k` shows in no other. -/
theorem rx_hidden (h : Alike quiet k watched s u) {a : RxAct} (hstep : s.rxStep k a = some (t, es)) :
    Alike quiet k watched t u ∧ es.filter (RoomEvent.seen k watched) = [] := by
  obtain ⟨voices, rx, rx', es', rfl, -, -, rfl, hrx, htx⟩ := rxStep_does hstep
  refine ⟨⟨h.session, h.ports, h.history, fun j hj => ?_, fun j hj => ?_, h.mixes, h.tick⟩, ?_⟩
  · rw [hrx, Function.update_of_ne hj]
    exact h.rx j hj
  · rw [htx]
    exact h.tx j hj
  · simp [List.filter_map, RoomEvent.seen]

theorem tx_hidden (h : Alike quiet k watched s u) {a : TxAct} (hj : watched j = false)
    (hstep : s.txStep j a = some (t, es)) :
    Alike quiet k watched t u ∧ es.filter (RoomEvent.seen k watched) = [] := by
  obtain ⟨voices, tx, tx', es', rfl, -, -, rfl, htx, hrx⟩ := txStep_does hstep
  refine ⟨⟨h.session, h.ports, h.history, fun i hi => ?_, fun i hi => ?_, h.mixes, h.tick⟩, ?_⟩
  · rw [hrx]
    exact h.rx i hi
  · rw [htx, Function.update_of_ne fun hij => by rw [hij, hj] at hi; cases hi]
    exact h.tx i hi
  · simp [List.filter_map, RoomEvent.seen, Function.comp_def, hj]

/-- The same step of the receive side of both. -/
theorem rx_seen (h : Alike quiet k watched s u) (hj : j ≠ k) {a : RxAct} (hs : s.rxStep j a = some (t, es))
    (hu : u.rxStep j a = some (v, es')) : Alike quiet k watched t v ∧ es = es' := by
  obtain ⟨voices, rx, rx', es₁, rfl, hold, hstep, rfl, hrx, htx⟩ := rxStep_does hs
  obtain ⟨voices', rx₁, rx₁', es₂, rfl, hold', hstep', rfl, hrx', htx'⟩ := rxStep_does hu
  obtain rfl : rx = rx₁ := Option.some.inj (hold.symm.trans ((h.rx j hj).symm.trans hold'))
  cases hstep.symm.trans hstep'
  refine ⟨⟨h.session, h.ports, h.history, fun i hi => ?_, fun i hi => ?_, h.mixes, h.tick⟩, rfl⟩
  · rw [hrx, hrx']
    by_cases hij : i = j
    · rw [hij, Function.update_self, Function.update_self]
    · rw [Function.update_of_ne hij, Function.update_of_ne hij]
      exact h.rx i hi
  · rw [htx, htx']
    exact h.tx i hi

/-- A step of the send side of both, which is the same if that side is watched. -/
theorem tx_seen (h : Alike quiet k watched s u) {a b : TxAct} (hab : watched j = true → b = a)
    (hs : s.txStep j a = some (t, es)) (hu : u.txStep j b = some (v, es')) :
    Alike quiet k watched t v ∧
      es.filter (RoomEvent.seen k watched) = es'.filter (RoomEvent.seen k watched) := by
  cases hj : watched j with
  | false =>
    obtain ⟨h', hes⟩ := h.tx_hidden hj hs
    obtain ⟨h'', hes'⟩ := h'.symm.tx_hidden hj hu
    exact ⟨h''.symm, hes.trans hes'.symm⟩
  | true =>
    obtain rfl := hab hj
    obtain ⟨voices, tx, tx', es₁, rfl, hold, hstep, rfl, htx, hrx⟩ := txStep_does hs
    obtain ⟨voices', tx₁, tx₁', es₂, rfl, hold', hstep', rfl, htx', hrx'⟩ := txStep_does hu
    obtain rfl : tx = tx₁ := Option.some.inj (hold.symm.trans ((h.tx j hj).symm.trans hold'))
    cases hstep.symm.trans hstep'
    refine ⟨⟨h.session, h.ports, h.history, fun i hi => ?_, fun i hi => ?_, h.mixes, h.tick⟩, rfl⟩
    · rw [hrx, hrx']
      exact h.rx i hi
    · rw [htx, htx']
      by_cases hij : i = j
      · rw [hij, Function.update_self, Function.update_self]
      · rw [Function.update_of_ne hij, Function.update_of_ne hij]
        exact h.tx i hi

theorem call (h : Alike quiet k watched s u) (hs : Inv P s) (hu : Inv P u) (c : Call) (ssrc : UInt32) {session : Session B} :
    Alike quiet k watched { s with session, voices := s.voices ++ [{ part_id_ := c.part_id, tx := { ssrc_ := ssrc } }] }
      { u with session, voices := u.voices ++ [{ part_id_ := c.part_id, tx := { ssrc_ := ssrc } }] } := by
  have hlen : u.voices.length = s.voices.length := by rw [hu.length, h.session, hs.length]
  have hold : ∀ (l : List Voice) (w : Voice) (j : Nat), (l ++ [w])[j]? = if j < l.length then l[j]? else [w][j - l.length]? :=
    fun l w j => List.getElem?_append
  refine ⟨rfl, h.ports, h.history, fun j hj => ?_, fun j hj => ?_, h.mixes, h.tick⟩
  · have hrx := h.rx j hj
    simp only [rxOf, hold, hlen] at hrx ⊢
    split <;> first | exact hrx | rfl
  · have htx := h.tx j hj
    simp only [txOf, hold, hlen] at htx ⊢
    split <;> first | exact htx | rfl

theorem go (h : Alike quiet k watched s u) (hs : Inv P s) {i : Nat} {ok : Bool} (hstep : s.goOn P i ok = some (t, es))
    (hstep' : u.goOn P i ok = some (v, es')) : Alike quiet k watched t v ∧ es = es' := by
  have hstill := hs.still hstep
  obtain ⟨pc, pc', c, es₁, hk, hgo, rfl, rfl⟩ := goOn_inv hstep
  obtain ⟨pc₁, pc₁', c₁, es₂, hk', hgo', rfl, rfl⟩ := goOn_inv hstep'
  rw [h.session, hk] at hk'
  cases hk'
  rw [h.session, hgo] at hgo'
  cases hgo'
  refine ⟨⟨by rw [h.session], by rw [h.ports], by rw [h.history], h.rx, h.tx, h.mixes, ?_⟩, rfl⟩
  have htick := h.tick
  rcases hstill with hports | hidle
  · exact (congrArg (fun ports => AlikeTick k watched ports s.tick u.tick) hports).mpr htick
  · simp only [hidle] at htick ⊢
    cases hu : u.tick <;> rw [hu] at htick <;> exact htick

theorem tickStep (h : Alike quiet k watched s u) {tick : TickPc} (htick : AlikeTick k watched s.ports tick tick)
    (hs : s.tickStep P tick = some (t, es)) (hu : u.tickStep P tick = some (v, es')) :
    Alike quiet k watched t v ∧ es = es' := by
  obtain ⟨⟨session, es₁⟩, hs, heq⟩ := Option.map_eq_some_iff.mp hs
  obtain ⟨⟨session', es₂⟩, hu, heq'⟩ := Option.map_eq_some_iff.mp hu
  rw [h.session, hs] at hu
  cases hu
  cases heq
  cases heq'
  exact ⟨⟨rfl, h.ports, h.history, h.rx, h.tx, h.mixes, htick⟩, rfl⟩

theorem getting (h : Alike quiet k watched s u) {got got' : List (Nat × Option (List Int16))}
    (hgot : ∀ n, s.ports.lookup n ≠ some k → got'.lookup n = got.lookup n) :
    Alike quiet k watched { s with tick := .getting got } { u with tick := .getting got' } :=
  ⟨h.session, h.ports, h.history, h.rx, h.tx, h.mixes, hgot⟩

theorem lookup_snoc (l : List (Nat × Option (List Int16))) (n slot : Nat) (x : Option (List Int16)) :
    (l ++ [(slot, x)]).lookup n = (l.lookup n).or (if n = slot then some x else none) := by
  rw [List.lookup_append]
  by_cases hn : n = slot
  · simp [hn]
  · simp [hn, List.lookup_cons, beq_eq_false_iff_ne.mpr hn]

theorem get (h : Alike quiet k watched s u) {slot : Nat} {got got' : List (Nat × Option (List Int16))}
    (htick : s.tick = .getting got) (htick' : u.tick = .getting got') (hs : s.getStep M slot got = some (t, es))
    (hu : u.getStep M slot got' = some (v, es')) :
    Alike quiet k watched t v ∧
      es.filter (RoomEvent.seen k watched) = es'.filter (RoomEvent.seen k watched) := by
  have hgot : ∀ n, s.ports.lookup n ≠ some k → got'.lookup n = got.lookup n := by
    have := h.tick
    rwa [htick, htick'] at this
  obtain ⟨j, hj, -, hs⟩ := getStep_inv hs
  obtain ⟨j', hj', -, hu⟩ := getStep_inv hu
  rw [h.ports, hj] at hj'
  cases hj'
  rcases hs with ⟨hpulls, t', ht, rfl⟩ | ⟨hpulls, rfl, rfl⟩ <;> rcases hu with ⟨hpulls', v', hv, rfl⟩ | ⟨hpulls', rfl, rfl⟩
  · by_cases hjk : j = k
    · subst hjk
      obtain ⟨h', hes⟩ := h.rx_hidden ht
      obtain ⟨h'', hes'⟩ := h'.symm.rx_hidden hv
      refine ⟨h''.symm.getting fun n hn => ?_, hes.trans hes'.symm⟩
      obtain ⟨_, _, _, _, rfl, -⟩ := rxStep_does ht
      have hne : n ≠ slot := fun hns => hn (hns ▸ hj)
      rw [lookup_snoc, lookup_snoc, if_neg hne, if_neg hne, hgot n hn]
    · obtain ⟨h', rfl⟩ := h.rx_seen hjk ht hv
      refine ⟨h'.getting fun n hn => ?_, rfl⟩
      obtain ⟨_, _, _, _, rfl, -⟩ := rxStep_does ht
      rw [lookup_snoc, lookup_snoc, hgot n hn]
  · rw [h.session, hpulls] at hpulls'
    cases hpulls'
  · rw [h.session, hpulls] at hpulls'
    cases hpulls'
  · refine ⟨h.getting fun n hn => ?_, rfl⟩
    rw [lookup_snoc, lookup_snoc, hgot n hn]

theorem lookup_map (ports : List (Nat × Nat)) (f : Nat → PjFrame) (n : Nat) :
    (ports.map fun port => (port.1, f port.1)).lookup n = (ports.lookup n).map fun _ => f n := by
  induction ports with
  | nil => rfl
  | cons port ports ih =>
    rw [List.map_cons, List.lookup_cons, List.lookup_cons, ih]
    by_cases hn : n = port.1
    · simp [hn]
    · simp [beq_eq_false_iff_ne.mpr hn]

/-- A mix for those watched, which hear nothing of `k` where it is quiet. -/
theorem mix (hM : M.Lawful P) (h : Alike quiet k watched s u) {got got' : List (Nat × Option (List Int16))}
    (htick : s.tick = .getting got) (htick' : u.tick = .getting got')
    (hquiet : quiet s.session.conference.conf_ s.ports) (hs : s.mixStep M got = some (t, es))
    (hu : u.mixStep M got' = some (v, es'))
    (hheard : ∀ x ∈ t.mixes, quiet x.conf_ x.ports → ∀ m n j, x.ports.lookup m = some k → t.ports.lookup n = some j →
      watched j = true → P.connected x.conf_ m n → P.Muted x.conf_ m) :
    Alike quiet k watched t v ∧ es = es' := by
  have hgot : ∀ n, s.ports.lookup n ≠ some k → got'.lookup n = got.lookup n := by
    have := h.tick
    rwa [htick, htick'] at this
  obtain ⟨rfl, mixes, hmixes, rfl⟩ := mixStep_inv hs
  obtain ⟨rfl, mixes', hmixes', rfl⟩ := mixStep_inv hu
  have hall : List.Forall₂ (AlikeMix quiet k) mixes mixes' := by
    rw [hmixes, hmixes', h.session, h.ports]
    exact List.rel_append h.mixes (.cons ⟨rfl, rfl, Or.inr ⟨hquiet, fun m hm => by simp only [gave, hgot m hm]⟩⟩ .nil)
  refine ⟨⟨h.session, h.ports, h.history, h.rx, h.tx, hall, fun n j hj hw => ?_⟩, rfl⟩
  rw [lookup_map, lookup_map, h.ports, hj, Option.map_some, Option.map_some]
  refine congrArg some (hM.mix _ _ n ?_)
  rw [List.forall₂_map_left_iff, List.forall₂_map_right_iff]
  refine ((List.forall₂_and_left _ _).mpr ⟨fun x hx => hheard x hx, hall⟩).imp fun x y hxy => ?_
  obtain ⟨hx, hconf, -, hframes | ⟨hq, hframes⟩⟩ := hxy
  · exact ⟨hconf, fun m _ _ => congrFun hframes m⟩
  · exact ⟨hconf, fun m hmn hmute => hframes m fun hm => hmute (hx hq m n j hm hj hw hmn)⟩

theorem put (h : Alike quiet k watched s u) {slot : Nat} {left left' : List (Nat × PjFrame)} {last last' : Option Nat}
    (htick : s.tick = .putting left last) (htick' : u.tick = .putting left' last')
    (hs : s.putStep slot left last = some (t, es)) (hu : u.putStep slot left' last' = some (v, es')) :
    Alike quiet k watched t v ∧
      es.filter (RoomEvent.seen k watched) = es'.filter (RoomEvent.seen k watched) := by
  have hleft : ∀ n j, s.ports.lookup n = some j → watched j = true → left'.lookup n = left.lookup n := by
    have := h.tick
    rwa [htick, htick'] at this
  obtain ⟨j, frame, t', hj, hframe, -, ht, rfl⟩ := putStep_inv hs
  obtain ⟨j', frame', v', hj', hframe', -, hv, rfl⟩ := putStep_inv hu
  rw [h.ports, hj] at hj'
  cases hj'
  have hsame : watched j = true → TxAct.putFrame frame' = .putFrame frame := fun hw => by
    rw [hleft slot j hj hw, hframe] at hframe'
    rw [Option.some.inj hframe']
  obtain ⟨h', hes⟩ := h.tx_seen hsame ht hv
  refine ⟨⟨h'.session, h'.ports, h'.history, h'.rx, h'.tx, h'.mixes, fun n i hi hw => ?_⟩, hes⟩
  obtain ⟨_, _, _, _, rfl, -⟩ := txStep_does ht
  rw [lookup_filter_ne, lookup_filter_ne, hleft n i hi hw]

end Alike

/-- What can be seen of an event. -/
def RoomEvent.view (k : Nat) (watched : Nat → Bool) (e : RoomEvent) : List RoomEvent := [e].filter (seen k watched)

theorem flatMap_view (k : Nat) (watched : Nat → Bool) (es : List RoomEvent) :
    es.flatMap (RoomEvent.view k watched) = es.filter (RoomEvent.seen k watched) := by
  induction es with
  | nil => rfl
  | cons e es ih =>
    rw [List.flatMap_cons, ih, RoomEvent.view, ← List.filter_append]
    rfl

/-- Alike rooms stay alike, where those watched hear nothing of `k` that is quiet. -/
theorem unwinds (hP : P.Lawful) (hM : M.Lawful P) {quiet : B → List (Nat × Nat) → Prop} {k : Nat} {watched : Nat → Bool}
    {ok : Room B → RoomAct → Prop} (hquiet : ∀ s, Steady P s → ok s .mix → quiet s.session.conference.conf_ s.ports)
    (hheard : ∀ s, Steady P s → ∀ x ∈ s.mixes, quiet x.conf_ x.ports → ∀ m n j, x.ports.lookup m = some k →
      s.ports.lookup n = some j → watched j = true → P.connected x.conf_ m n → P.Muted x.conf_ m) :
    Unwinding (machine P M) ok (RoomAct.seen k watched) (RoomEvent.view k watched)
      (fun s u => Steady P s ∧ Steady P u ∧ Alike quiet k watched s u) where
  symm s u h := ⟨h.2.1, h.1, h.2.2.symm⟩
  hidden s u a t es h _ ha hstep := by
    obtain ⟨hs, hu, h⟩ := h
    rw [flatMap_view]
    have ht := hs.step hP hstep
    cases step_does hstep with
    | @rx j a t es hrx =>
      obtain rfl : j = k := by simpa [RoomAct.seen] using ha
      obtain ⟨h', hes⟩ := h.rx_hidden hrx
      exact ⟨⟨ht, hu, h'⟩, hes⟩
    | tx htx =>
      obtain ⟨h', hes⟩ := h.tx_hidden ha htx
      exact ⟨⟨ht, hu, h'⟩, hes⟩
    | _ => cases ha
  seen s u a t es v es' h hok _ ha hstep hstep' := by
    obtain ⟨hs, hu, h⟩ := h
    rw [flatMap_view, flatMap_view]
    have ht := hs.step hP hstep
    have hv := hu.step hP hstep'
    suffices Alike quiet k watched t v ∧
        es.filter (RoomEvent.seen k watched) = es'.filter (RoomEvent.seen k watched) from ⟨⟨ht, hv, this.1⟩, this.2⟩
    have hsame : Alike quiet k watched t v ∧ es = es' → Alike quiet k watched t v ∧
        es.filter (RoomEvent.seen k watched) = es'.filter (RoomEvent.seen k watched) := fun h => ⟨h.1, by rw [h.2]⟩
    have hdoes : Does P M s a t es := step_does hstep
    have hdoes' : Does P M u a v es' := step_does hstep'
    cases hdoes with
    | @call c ssrc session hsession =>
      cases hdoes' with
      | call hsession' =>
        rw [h.session, ← hsession] at hsession'
        subst hsession'
        exact ⟨h.call hs.toInv hu.toInv c ssrc, rfl⟩
    | go hgo =>
      cases hdoes' with
      | go hgo' => exact hsame (h.go hs.toInv hgo hgo')
    | tickBegin htick htb =>
      cases hdoes' with
      | tickBegin htick' htb' => exact hsame (h.tickStep (.refl ..) htb htb')
    | get htick hget =>
      cases hdoes' with
      | get htick' hget' => exact h.get htick htick' hget hget'
    | mix htick hmix =>
      cases hdoes' with
      | mix htick' hmix' =>
        exact hsame (h.mix hM htick htick' (hquiet s hs hok) hmix hmix' fun x hx hq m n j => hheard t ht x hx hq m n j)
    | put htick hput =>
      cases hdoes' with
      | put htick' hput' => exact h.put htick htick' hput hput'
    | tickEnd htick hte =>
      cases hdoes' with
      | tickEnd htick' hte' => exact hsame (h.tickStep (.refl ..) hte hte')
    | @rx j a t es hrx =>
      cases hdoes' with
      | rx hrx' => exact hsame (h.rx_seen (by simpa [RoomAct.seen] using ha) hrx hrx')
    | tx htx =>
      cases hdoes' with
      | tx htx' => exact h.tx_seen (fun _ => rfl) htx htx'

/-! ### A mixer of 32 slots -/

/-- The frames that are mixed for a slot. -/
def heard (b : Session.Board) (frames : Frames) (slot : Nat) : List (List Int16) :=
  (List.range Session.MEETING_CONF_SLOTS).filterMap fun m =>
    if b.connected m slot ∧ b.rx_level m ≠ -128 then frames m else none

/-- The frames of a tick are added up. -/
def mixer : Mixer Session.Board where
  pulls _ _ := true
  mix xs slot :=
    let buf := ((xs.getLast?.map fun x => heard x.1 x.2 slot).getD []).foldl (List.zipWith (· + ·)) Rx.silence
    { audio := true, size := 2 * buf.length, buf, size_le := by rw [Nat.mul_div_cancel_left _ Nat.two_pos] }

theorem mixer_lawful : mixer.Lawful Session.board where
  mix xs ys n h := by
    suffices (ys.getLast?.map fun y => heard y.1 y.2 n) = xs.getLast?.map fun x => heard x.1 x.2 n by
      simp only [mixer, this]
    have hrev := List.forall₂_reverse_iff.mpr h
    rw [← List.head?_reverse, ← List.head?_reverse]
    generalize xs.reverse = xs, ys.reverse = ys at hrev
    cases hrev with
    | nil => rfl
    | cons hxy =>
      obtain ⟨hb, hframes⟩ := hxy
      refine congrArg some (List.filterMap_congr fun m _ => ?_)
      rw [hb]
      split
      · next hm => exact hframes m hm.1 hm.2
      · rfl

/-- Two participants join, the first is muted, and both sides of their calls are up. -/
def firstMuted : List RoomAct :=
  [RoomAct.call (.add_participant (ascii "a") 10000) 7,
    .call (.add_passive_participant (ascii "b") (ascii "10.0.0.1") 80) 8] ++
  List.replicate 9 (RoomAct.go 0 true) ++ List.replicate 11 (RoomAct.go 1 true) ++
  [RoomAct.call (.set_participant_mute (ascii "a") true) 0] ++ List.replicate 6 (RoomAct.go 2 true) ++
  [RoomAct.tx 1 .startTx, .tx 0 .startTx, .rx 0 .rxStart, .rx 0 .rxHead]

/-- The first speaks. -/
def speaks : List RoomAct :=
  let packet : RtpPacket := { payload_type := 8, payload := List.replicate FRAME_SAMPLES 0x2a }
  [.rx 0 .rxCall, .rx 0 (.rxRecv [0, 172]), .rx 0 .rxRead, .rx 0 .rxCall, .rx 0 (.rxRecv packet.serialize), .rx 0 .rxRead,
    .rx 0 .rxPush]

def oneTick : List RoomAct :=
  [.tickBegin, .get 1, .get 2, .mix, .put 1, .tx 0 .putStop, .put 2, .tx 1 .putStop, .tickEnd]

/-! ### What cannot be heard -/

/-- If `k` has a port when the frames are mixed, then `k` is muted. -/
def MutedAt (k : Nat) (s : Room B) : RoomAct → Prop
  | .mix => k ∈ s.ports.map Prod.snd → (s.name k).bind (Roster.after s.history) = some true
  | _ => True

instance (k : Nat) (s : Room B) : DecidablePred (MutedAt k s)
  | .mix => inferInstanceAs (Decidable (_ → _))
  | .call .. | .go .. | .tickBegin | .get _ | .put _ | .tickEnd | .rx .. | .tx .. => .isTrue trivial

/-- The first participant of `firstMuted` may speak or not before a tick. -/
theorem speaks_or_not : ∃ tr s t v es es', (machine Session.board mixer).Run Any tr s ∧
    (machine Session.board mixer).Meets (MutedAt 0) s (speaks ++ oneTick) ∧
    (machine Session.board mixer).Meets (MutedAt 0) s oneTick ∧
    (machine Session.board mixer).exec s (speaks ++ oneTick) = some (t, es) ∧
    (machine Session.board mixer).exec s oneTick = some (v, es') := by
  let S := machine Session.board mixer
  obtain ⟨tr, s, hrun, hs⟩ := exists_run S { session := { conference := { meet_id_ := [], conf_ := .new } } } firstMuted
    ⟨_, ⟨[], .new, ⟨fun _ => beq_iff_eq, fun _ _ => nofun⟩, rfl⟩, rfl⟩ (meets_any ..)
    (fun r => S.checks (MutedAt 0) r.1 (speaks ++ oneTick) && S.checks (MutedAt 0) r.1 oneTick &&
      (S.exec r.1 (speaks ++ oneTick)).isSome && (S.exec r.1 oneTick).isSome) (by decide +kernel)
  simp only [Bool.and_eq_true] at hs
  obtain ⟨⟨⟨hspeaks, hnot⟩, he⟩, he'⟩ := hs
  obtain ⟨⟨t, es⟩, he⟩ := Option.isSome_iff_exists.mp he
  obtain ⟨⟨v, es'⟩, he'⟩ := Option.isSome_iff_exists.mp he'
  exact ⟨tr, s, t, v, es, es', hrun, meets_of_checks hspeaks, meets_of_checks hnot, he, he'⟩

/-- The bridge mutes who is muted. -/
theorem Inv.muted (h : Inv P s) {k n : Nat} (hk : MutedAt k s .mix) (hn : s.ports.lookup n = some k) :
    P.Muted s.session.conference.conf_ n := by
  have hmem : k ∈ s.ports.map Prod.snd := by
    obtain ⟨l₁, l₂, hports, -⟩ := List.lookup_eq_some_iff.mp hn
    exact List.mem_map.mpr ⟨(n, k), by simp [hports], rfl⟩
  obtain ⟨i, hi, hmuted⟩ := Option.bind_eq_some_iff.mp (hk hmem)
  have hslot : s.session.conference.slot i = some n := by
    rcases h.placed n i (by rw [owner, hn, Option.bind_some, hi]) with hslot | ⟨hnone, -⟩
    · exact hslot
    · rw [h.session.mirrors.absent hnone] at hmuted
      cases hmuted
  exact (h.session.mirrors.level i n hslot).mpr hmuted

variable {k : Nat} {tr : List RoomEvent} {as bs : List RoomAct}

/-- While a participant is muted, what it receives from its peer reaches no other: two ways for the meeting to go on that
    differ in nothing else send the same to everyone. -/
theorem muted_is_silent (hP : P.Lawful) (hM : M.Lawful P) (hrun : (machine P M).Run Any tr s)
    (has : (machine P M).Meets (MutedAt k) s as) (hbs : (machine P M).Meets (MutedAt k) s bs)
    (hsame : as.filter (RoomAct.seen k fun _ => true) = bs.filter (RoomAct.seen k fun _ => true))
    (he : (machine P M).exec s as = some (t, es)) (he' : (machine P M).exec s bs = some (v, es')) :
    v.session = t.session ∧ v.txOf = t.txOf ∧
      es.filter (RoomEvent.seen k fun _ => true) = es'.filter (RoomEvent.seen k fun _ => true) := by
  have hs := run_steady hP hrun
  have hunwinds : Unwinding (machine P M) (MutedAt k) (RoomAct.seen k fun _ => true) (RoomEvent.view k fun _ => true)
      (fun s u => Steady P s ∧ Steady P u ∧
        Alike (fun b ports => ∀ n, ports.lookup n = some k → P.Muted b n) k (fun _ => true) s u) :=
    unwinds hP hM (fun _ hs hok _ hn => hs.muted hok hn) fun _ _ _ _ hq m _ _ hm _ _ _ => hq m hm
  obtain ⟨⟨-, -, h⟩, hes⟩ := hunwinds.exec hsame ⟨hs, hs, .refl s⟩ has hbs he he'
  rw [flatMap_view, flatMap_view] at hes
  exact ⟨h.session, funext fun j => h.tx j rfl, hes⟩

theorem muted_is_silent_two : ∃ s t v es es',
    (machine Session.board mixer).exec s (speaks ++ oneTick) = some (t, es) ∧
    (machine Session.board mixer).exec s oneTick = some (v, es') ∧ v.session = t.session ∧ v.txOf = t.txOf ∧
    es.filter (RoomEvent.seen 0 fun _ => true) = es'.filter (RoomEvent.seen 0 fun _ => true) := by
  obtain ⟨tr, s, t, v, es, es', hrun, hspeaks, hnot, he, he'⟩ := speaks_or_not
  exact ⟨s, t, v, es, es', he, he',
    muted_is_silent Session.board_lawful mixer_lawful hrun hspeaks hnot (by simp [speaks, RoomAct.seen]) he he'⟩

/-- Nobody hears itself: what a participant is sent does not depend on what it receives from its peer, muted or not, nor
    on how the others are sent theirs. -/
theorem no_echo (hP : P.Lawful) (hM : M.Lawful P) (hrun : (machine P M).Run Any tr s)
    (hsame : as.filter (RoomAct.seen k (· = k)) = bs.filter (RoomAct.seen k (· = k)))
    (he : (machine P M).exec s as = some (t, es)) (he' : (machine P M).exec s bs = some (v, es')) :
    v.session = t.session ∧ v.txOf k = t.txOf k ∧
      es.filter (RoomEvent.seen k (· = k)) = es'.filter (RoomEvent.seen k (· = k)) := by
  have hs := run_steady hP hrun
  have hunwinds : Unwinding (machine P M) Any (RoomAct.seen k (· = k)) (RoomEvent.view k (· = k))
      (fun s u => Steady P s ∧ Steady P u ∧ Alike (fun _ _ => True) k (· = k) s u) :=
    unwinds hP hM (fun _ _ _ => trivial) fun s hs x hx _ m n j hm hn hj hmn => by
      rw [of_decide_eq_true hj] at hn
      exact absurd (hs.slot x hx m n k hm hn) (hs.apart x hx m n hmn)
  obtain ⟨⟨-, -, h⟩, hes⟩ := hunwinds.exec hsame ⟨hs, hs, .refl s⟩ (meets_any ..) (meets_any ..) he he'
  rw [flatMap_view, flatMap_view] at hes
  exact ⟨h.session, h.tx k (decide_eq_true rfl), hes⟩

theorem no_echo_two : ∃ s t v es es',
    (machine Session.board mixer).exec s (speaks ++ oneTick) = some (t, es) ∧
    (machine Session.board mixer).exec s oneTick = some (v, es') ∧ v.session = t.session ∧ v.txOf 0 = t.txOf 0 ∧
    es.filter (RoomEvent.seen 0 (· = 0)) = es'.filter (RoomEvent.seen 0 (· = 0)) := by
  obtain ⟨tr, s, t, v, es, es', hrun, -, -, he, he'⟩ := speaks_or_not
  exact ⟨s, t, v, es, es', he, he',
    no_echo Session.board_lawful mixer_lawful hrun (by simp [speaks, RoomAct.seen]) he he'⟩

end Room
end AudioMeet.Live
