import AudioMeet.Room
import AudioMeet.Theorems.Live.Bridge

/-! The ports of the bridge and the participants behind them: each port is in the slot that the map records for
    its participant, or in the hands of the call that adds or removes it. -/

namespace AudioMeet.Live
open Lib Machine

namespace CallPc

/-- A call that adds a participant makes the one named so. -/
def Makes (part_id : Bytes) : CallPc → Prop
  | .addLock p | .addCount p | .addStart p | .addMediaPort p | .addConfLock p | .addPort p | .addConfUnlock p _
  | .addConnect p _ _ | .addConnectBack p _ _ _ => p.part_id_ = part_id
  | _ => True

/-- The slot of the port that a call adds, as long as the map lacks it. -/
def joins : CallPc → Option Nat
  | .addConfUnlock _ (some slot) | .addConnect _ slot _ | .addConnectBack _ slot _ _ => some slot
  | _ => none

/-- A call that may yet add a port. -/
def before : CallPc → Bool
  | .addLock _ | .addCount _ | .addStart _ | .addMediaPort _ | .addConfLock _ | .addPort _ => true
  | _ => false

theorem parts_of_joins {pc : CallPc} {n : Nat} (h : pc.joins = some n) : pc.parts = some .exclusive := by
  cases pc with
  | addConfUnlock | addConnect | addConnectBack => rfl
  | _ => cases h

end CallPc

theorem begin_makes (c : Call) (meet_id : Bytes) : (c.begin meet_id).Makes c.part_id := by cases c <;> first | rfl | trivial

theorem begin_joins (c : Call) (meet_id : Bytes) : (c.begin meet_id).joins = none := by cases c <;> rfl

/-- Each port is where the map says its participant is, or in hand. -/
def Placed (slots : Bytes → Option Nat) (hand : Option Nat) (owner : Nat → Option Bytes) : Prop :=
  ∀ n i, owner n = some i → slots i = some n ∨ slots i = none ∧ hand = some n

namespace Room

/-- What the participant that call `k` makes is named. -/
def name {B : Type} (s : Room B) (k : Nat) : Option Bytes := s.voices[k]?.map Voice.part_id_

/-- The participant behind the port in a slot. -/
def owner {B : Type} (s : Room B) (n : Nat) : Option Bytes := (s.ports.lookup n).bind s.name

theorem lookup_filter_ne {α : Type} (ports : List (Nat × α)) (slot n : Nat) :
    (ports.filter (·.1 ≠ slot)).lookup n = if n = slot then none else ports.lookup n := by
  induction ports with
  | nil => simp
  | cons port ports ih =>
    obtain ⟨m, k⟩ := port
    by_cases hm : m = slot
    · subst hm
      rw [List.filter_cons_of_neg (by simp), ih]
      by_cases hn : n = m
      · simp [hn]
      · simp [hn, List.lookup_cons, beq_eq_false_iff_ne.mpr hn]
    · rw [List.filter_cons_of_pos (by simpa using hm), List.lookup_cons, List.lookup_cons, ih]
      by_cases hn : n = m
      · subst hn
        simp [hm]
      · simp [beq_eq_false_iff_ne.mpr hn]

theorem portsAfter_of_parts {ports : List (Nat × Nat)} {k : Nat} {pc pc' : CallPc} (h : pc.parts = none) :
    portsAfter ports k pc pc' = ports := by
  cases pc with
  | addPort | removePort => cases h
  | _ => rfl

end Room

namespace Conference
variable {B : Type} {P : Pjmedia B} {c c' : Conference B} {t : Thread} {ok : Bool} {pc pc' : CallPc} {es : List Event}
  {ports : List (Nat × Nat)} {name : Nat → Option Bytes} {k : Nat} {i : Bytes}

/-- What a step of call `k`, which is about participant `i`, leaves of the ports. -/
structure Keeps (slots : Bytes → Option Nat) (ports : List (Nat × Nat)) (name : Nat → Option Bytes) (k : Nat) (i : Bytes)
    (pc : CallPc) : Prop where
  placed : Placed slots (pc.gap.map Gap.slot) fun n => (ports.lookup n).bind name
  makes : pc.Makes i
  joins : ∀ n, pc.joins = some n → ports.lookup n = some k

theorem Keeps.idle {slots : Bytes → Option Nat} (hplaced : Placed slots (pc.gap.map Gap.slot) fun n => (ports.lookup n).bind name)
    (hmakes : pc.Makes i) (hjoins : pc.joins = none) : Keeps slots ports name k i pc :=
  ⟨hplaced, hmakes, fun n hn => by
    rw [hjoins] at hn
    cases hn⟩

theorem go_keeps (h : c.go P t ok pc = some (c', pc', es)) (hknows : pc.Knows c.slot) (hname : name k = some i)
    (hkeeps : Keeps c.slot ports name k i pc) : Keeps c'.slot (Room.portsAfter ports k pc pc') name k i pc' := by
  obtain ⟨hplaced, hmakes, hjoins⟩ := hkeeps
  cases pc with
  | addLock p | muteLock part_id mute | removeLock part_id | addUnlock p | muteUnlock n =>
    obtain ⟨m, -, rfl, rfl, rfl⟩ := onParts_inv h
    exact .idle hplaced hmakes rfl
  | removeUnlock p =>
    cases p <;> obtain ⟨m, -, rfl, rfl, rfl⟩ := onParts_inv h
    · exact .idle hplaced trivial rfl
    · exact .idle hplaced trivial rfl
  | addConfLock p | muteConfLock part_id mute slot | muteConfUnlock | removeConfUnlock p | removeConfLock p slot =>
    obtain ⟨m, -, rfl, rfl, rfl⟩ := onConf_inv h
    exact .idle hplaced hmakes rfl
  | addConfUnlock p new_slot =>
    cases new_slot <;> obtain ⟨m, -, rfl, rfl, rfl⟩ := onConf_inv h
    · exact .idle hplaced trivial rfl
    · exact ⟨hplaced, hmakes, hjoins⟩
  | addCount p | addStart p | addMediaPort p => 
    cases h
    split
    · exact .idle hplaced (by first | exact hmakes | trivial) rfl
    · exact .idle hplaced (by first | exact hmakes | trivial) rfl
  | addPort p =>
    rcases hadd : P.conf_add_port c.conf_ with ⟨b, _ | slot⟩ <;> rw [go, hadd] at h <;> cases h
    · exact .idle hplaced hmakes rfl
    · refine ⟨fun n j hj => ?_, hmakes, ?_⟩
      · by_cases hn : n = slot
        · subst hn
          have hji : j = i := by simpa [Room.portsAfter, hname, eq_comm] using hj
          have hslot : c.slot p.part_id_ = none := hknows
          rw [hji, ← show p.part_id_ = i from hmakes]
          exact Or.inr ⟨hslot, rfl⟩
        · have hold : (ports.lookup n).bind name = some j := by
            simpa [Room.portsAfter, List.lookup_cons, beq_eq_false_iff_ne.mpr hn] using hj
          exact Or.inl ((hplaced n j hold).resolve_right (by simp [CallPc.gap]))
      · rintro n ⟨⟩
        simp [Room.portsAfter]
  | addConnect p slot existing =>
    cases existing <;> cases h
    · refine .idle (fun n j hj => ?_) trivial rfl
      rw [slot_insert]
      by_cases hjp : j = p.part_id_
      · -- The port of the participant that joins is the one in hand.
        have hslot : c.slot p.part_id_ = none := hknows.1
        rcases hplaced n j hj with hold | ⟨-, hhand⟩
        · rw [hjp, hslot] at hold
          cases hold
        · rw [hjp, Function.update_self]
          exact Or.inl hhand
      · rw [Function.update_of_ne hjp]
        refine Or.inl ((hplaced n j hj).resolve_right fun hhand => hjp ?_)
        obtain rfl : slot = n := Option.some.inj hhand.2
        have hown : name k = some j := by simpa [Room.portsAfter, hjoins slot rfl] using hj
        rw [show p.part_id_ = i from hmakes]
        exact Option.some.inj (hown.symm.trans hname)
    · exact ⟨hplaced, hmakes, hjoins⟩
  | addConnectBack p n e existing =>
    cases h
    exact ⟨hplaced, hmakes, hjoins⟩
  | muteFind part_id mute =>
    rcases hslot : c.slot part_id with _ | n <;> rw [go, hslot] at h <;> cases h
    · exact .idle hplaced trivial rfl
    · exact .idle hplaced trivial rfl
  | muteAdjust part_id mute slot =>
    cases h
    exact .idle hplaced trivial rfl
  | removeFind part_id =>
    rcases hfound : c.participants_[part_id]? with _ | ⟨p, slot⟩ <;> rw [go, hfound] at h <;> cases h
    · exact .idle hplaced trivial rfl
    · refine .idle (fun n j hj => ?_) trivial rfl
      have hold := (hplaced n j hj).resolve_right (by simp [CallPc.gap])
      rw [slot_erase]
      by_cases hjp : j = part_id
      · have hslot : c.slot part_id = some slot := by rw [Conference.slot, hfound, Option.map_some]
        rw [hjp, hslot] at hold
        rw [hjp, Function.update_self]
        exact Or.inr ⟨rfl, hold⟩
      · rw [Function.update_of_ne hjp]
        exact Or.inl hold
  | removePort p slot =>
    cases h
    refine .idle (fun n j hj => ?_) trivial rfl
    simp only [Room.portsAfter, Room.lookup_filter_ne] at hj
    split at hj
    · cases hj
    · next hne =>
      refine Or.inl ((hplaced n j hj).resolve_right fun hhand => hne ?_)
      exact (Option.some.inj hhand.2).symm
  | removeStop p =>
    cases h
    exact .idle hplaced trivial rfl
  | returned r => cases h

theorem go_before (h : c.go P t ok pc = some (c', pc', es)) (hbefore : pc.before = false) : pc'.before = false := by
  cases pc with
  | addLock | addCount | addStart | addMediaPort | addConfLock | addPort => cases hbefore
  | addUnlock | muteLock | muteUnlock | removeLock =>
    obtain ⟨m, -, -, rfl, -⟩ := onParts_inv h
    rfl
  | muteConfLock | muteConfUnlock | removeConfLock | removeConfUnlock =>
    obtain ⟨m, -, -, rfl, -⟩ := onConf_inv h
    rfl
  | removeUnlock p =>
    cases p <;> obtain ⟨m, -, -, rfl, -⟩ := onParts_inv h
    · rfl
    · rfl
  | addConfUnlock p new_slot =>
    cases new_slot <;> obtain ⟨m, -, -, rfl, -⟩ := onConf_inv h
    · rfl
    · rfl
  | addConnect p slot existing => cases existing <;> cases h <;> rfl
  | addConnectBack | muteAdjust | removePort | removeStop =>
    cases h
    rfl
  | muteFind part_id mute =>
    rcases hslot : c.slot part_id with _ | n <;> rw [go, hslot] at h <;> cases h <;> rfl
  | removeFind part_id =>
    rcases hfound : c.participants_[part_id]? with _ | ⟨p, slot⟩ <;> rw [go, hfound] at h <;> cases h <;> rfl
  | returned r => cases h

end Conference

/-! ### Along a run -/

namespace Session
variable {B : Type} {P : Pjmedia B} {s : Session B} {x : Roster} {es : List Event}

/-- Call `k` will add no port any more. -/
def Past (s : Session B) (k : Nat) : Prop := ∃ pc, s.calls[k]? = some pc ∧ pc.before = false

theorem Past.snoc {k : Nat} (h : s.Past k) (pc : CallPc) : Past { s with calls := s.calls ++ [pc] } k := by
  obtain ⟨pc', hk, hbefore⟩ := h
  exact ⟨pc', getElem?_snoc_some.mpr (Or.inr hk), hbefore⟩

theorem Past.go {j k : Nat} {ok : Bool} {pc pc' : CallPc} {c : Conference B} (h : s.Past j) (hk : s.calls[k]? = some pc)
    (hgo : s.conference.go P (.call k) ok pc = some (c, pc', es)) :
    Past { s with conference := c, calls := s.calls.set k pc' } j := by
  obtain ⟨pcj, hj, hbefore⟩ := h
  by_cases hjk : j = k
  · subst hjk
    obtain rfl := Option.some.inj (hk.symm.trans hj)
    exact ⟨pc', (getElem?_set_some hk).mpr (Or.inl ⟨rfl, rfl⟩), Conference.go_before hgo hbefore⟩
  · exact ⟨pcj, (getElem?_set_some hk).mpr (Or.inr ⟨hjk, hj⟩), hbefore⟩

/-- The port in hand is that of the call that goes on, unless that call has nothing to do with the meeting. -/
theorem gap_go (h : Locked s) {k : Nat} {pc pc' : CallPc} {c : Conference B} (hk : s.calls[k]? = some pc)
    (hdoes : s.conference.Does P (.call k) pc c pc' es) :
    (pc.parts = none ∧ pc'.parts = none ∧ c = s.conference ∧
      gap { s with conference := c, calls := s.calls.set k pc' } = s.gap) ∨
    (s.gap = pc.gap ∧ gap { s with conference := c, calls := s.calls.set k pc' } = pc'.gap) := by
  have hlocked := h.go hk hdoes
  by_cases hidle : pc.parts = none ∧ pc'.parts = none
  · obtain ⟨rfl, -⟩ := hdoes.idle hidle.1 hidle.2
    refine Or.inl ⟨hidle.1, hidle.2, rfl, gap_congr rfl fun j hown => ?_⟩
    have hjk : j ≠ k := by
      rintro rfl
      have := (h.parts.owner _).mp hown
      rw [partsHeld, holds_call hk, hidle.1] at this
      cases this
    rw [List.getElem?_set_ne (Ne.symm hjk)]
  · refine Or.inr ⟨?_, ?_⟩
    · by_cases hp : pc.parts = none
      · rw [gap_eq_none ((hp ▸ hdoes.parts).owner_before fun hp' => hidle ⟨hp, hp'⟩), CallPc.gap_eq_none]
        simp [hp]
      · exact gap_eq h.parts hk hp
    · by_cases hp' : pc'.parts = none
      · rw [gap_eq_none ((hp' ▸ hdoes.parts).owner_after fun hp => hidle ⟨hp, hp'⟩), CallPc.gap_eq_none]
        simp [hp']
      · exact gap_eq hlocked.parts ((getElem?_set_some hk).mpr (Or.inl ⟨rfl, rfl⟩)) hp'

end Session

/-- Whether the clock is within `on_clock_tick`. -/
def TickPc.within : TickPc → Bool
  | .idle => false
  | _ => true

namespace Room
variable {B : Type} {P : Pjmedia B} {M : Mixer B} {s t : Room B} {a : RoomAct} {es tr : List RoomEvent}

structure Inv (P : Pjmedia B) (s : Room B) : Prop where
  session : Session.Inv P s.session (Roster.after s.history)
  ticking : s.session.ticking = s.tick.within
  length : s.voices.length = s.session.calls.length
  past : ∀ n k, s.ports.lookup n = some k → s.session.Past k
  makes : ∀ (k : Nat) (pc : CallPc) (v : Voice), s.session.calls[k]? = some pc → s.voices[k]? = some v → pc.Makes v.part_id_
  joins : ∀ (k : Nat) (pc : CallPc) (n : Nat), s.session.calls[k]? = some pc → pc.joins = some n →
    s.ports.lookup n = some k
  placed : Placed s.session.conference.slot (s.session.gap.map Gap.slot) s.owner

theorem Inv.known (h : Inv P s) {n k : Nat} (hk : s.ports.lookup n = some k) : k < s.voices.length := by
  obtain ⟨pc, hpc, -⟩ := h.past n k hk
  rw [h.length]
  exact (List.getElem?_eq_some_iff.mp hpc).1

theorem Inv.init (h : (machine P M).init s) : Inv P s := by
  obtain ⟨session, hinit, rfl⟩ := h
  have hinv := Session.Inv.init hinit
  obtain ⟨meet_id, b, -, rfl⟩ := hinit
  refine ⟨hinv, rfl, rfl, fun n k hk => ?_, fun k pc v hk => ?_, fun k pc n hk => ?_, fun n i hi => ?_⟩
  · cases hk
  · cases hk
  · cases hk
  · cases hi

/-- The voices may change in all but their names. -/
theorem Inv.voices (h : Inv P s) {voices : List Voice} {tick : TickPc} {mixes : List (Mix B)}
    (hnames : voices.map Voice.part_id_ = s.voices.map Voice.part_id_) (htick : tick.within = s.tick.within) :
    Inv P { s with voices, tick, mixes } := by
  have hlen : voices.length = s.voices.length := by simpa using congrArg List.length hnames
  have hname : ∀ k, voices[k]?.map Voice.part_id_ = s.voices[k]?.map Voice.part_id_ := fun k => by
    rw [← List.getElem?_map, hnames, List.getElem?_map]
  refine ⟨h.session, h.ticking.trans htick.symm, hlen.trans h.length, h.past, ?_, h.joins, ?_⟩
  · intro k pc v hk hv
    obtain ⟨w, hw, hname⟩ := Option.map_eq_some_iff.mp ((hname k).symm.trans (congrArg _ hv))
    exact hname ▸ h.makes k pc w hk hw
  · have hsame : name { s with voices, tick, mixes } = s.name := funext hname
    have howner : owner { s with voices, tick, mixes } = s.owner := funext fun n => congrArg _ hsame
    rw [howner]
    exact h.placed

theorem Inv.call (h : Inv P s) (c : Call) (ssrc : UInt32) {session : Session B}
    (hs : session = { s.session with calls := s.session.calls ++ [c.begin s.session.conference.meet_id_] }) :
    Inv P { s with session, voices := s.voices ++ [{ part_id_ := c.part_id, tx := { ssrc_ := ssrc } }] } := by
  subst hs
  have hgap : (c.begin s.session.conference.meet_id_).gap = none := CallPc.gap_eq_none (by simp [Session.begin_parts])
  refine ⟨h.session.call c, h.ticking, by simp [h.length], fun n k hk => (h.past n k hk).snoc _, ?_, ?_, ?_⟩
  · intro k pc v hk hv
    rcases getElem?_snoc_some.mp hk with ⟨rfl, rfl⟩ | hk
    · rcases getElem?_snoc_some.mp hv with ⟨-, rfl⟩ | hv
      · exact begin_makes c _
      · rw [List.getElem?_eq_none (Nat.le_of_eq h.length)] at hv
        cases hv
    · rcases getElem?_snoc_some.mp hv with ⟨rfl, -⟩ | hv
      · rw [List.getElem?_eq_none (Nat.le_of_eq h.length.symm)] at hk
        cases hk
      · exact h.makes k pc v hk hv
  · intro k pc n hk hn
    rcases getElem?_snoc_some.mp hk with ⟨rfl, rfl⟩ | hk
    · rw [begin_joins] at hn
      cases hn
    · exact h.joins k pc n hk hn
  · have hgap' : Session.gap { s.session with calls := s.session.calls ++ [c.begin s.session.conference.meet_id_] } =
        s.session.gap := Session.gap_congr rfl fun k _ => bind_snoc hgap k
    have howner : owner { s with
        session := { s.session with calls := s.session.calls ++ [c.begin s.session.conference.meet_id_] }
        voices := s.voices ++ [{ part_id_ := c.part_id, tx := { ssrc_ := ssrc } }] } = s.owner := by
      funext n
      rw [owner, owner]
      rcases hk : s.ports.lookup n with _ | k
      · rfl
      · simp only [Option.bind_some]
        rw [name, name, List.getElem?_append_left (h.known hk)]
    rw [hgap', howner]
    exact h.placed

theorem goOn_inv {k : Nat} {ok : Bool} (h : s.goOn P k ok = some (t, es)) :
    ∃ pc pc' c es', s.session.calls[k]? = some pc ∧ s.session.conference.go P (.call k) ok pc = some (c, pc', es') ∧
      es = es'.map .meeting ∧
      t = { s with
        session := { s.session with conference := c, calls := s.session.calls.set k pc' }
        ports := portsAfter s.ports k pc pc'
        history := s.history ++ es' } := by
  simp only [goOn, Option.bind_eq_bind, Option.bind_eq_some_iff, Prod.exists, pure, Option.some.injEq, Prod.mk.injEq,
    Session.step] at h
  obtain ⟨pc, hk, session, es', ⟨_, hk', c, pc', _, hgo, rfl, rfl⟩, _, hpc, rfl, rfl⟩ := h
  obtain rfl := Option.some.inj (hk.symm.trans hk')
  obtain rfl := Option.some.inj (((getElem?_set_some hk).mpr (Or.inl ⟨rfl, rfl⟩)).symm.trans hpc)
  exact ⟨pc, pc', c, _, hk, hgo, rfl, rfl⟩

/-- A call that goes on keeps its own part of the invariant. -/
theorem Inv.keeps (h : Inv P s) {k : Nat} {ok : Bool} {pc pc' : CallPc} {c : Conference B} {es : List Event} {v : Voice}
    (hk : s.session.calls[k]? = some pc) (hv : s.voices[k]? = some v)
    (hgo : s.session.conference.go P (.call k) ok pc = some (c, pc', es)) :
    Placed c.slot (Session.gap { s.session with conference := c, calls := s.session.calls.set k pc' } |>.map Gap.slot)
        (fun n => ((portsAfter s.ports k pc pc').lookup n).bind s.name) ∧
      pc'.Makes v.part_id_ ∧ ∀ n, pc'.joins = some n → (portsAfter s.ports k pc pc').lookup n = some k := by
  have hknows := h.session.knows k pc hk
  have hname : s.name k = some v.part_id_ := by rw [name, hv, Option.map_some]
  have hmakes := h.makes k pc v hk hv
  rcases Session.gap_go h.session.toLocked hk (Conference.go_does hgo) with ⟨hp, hp', rfl, hgap⟩ | ⟨hgap, hgap'⟩
  · -- The call holds no mutex, and knows of no port.
    have hkeeps : Conference.Keeps s.session.conference.slot [] s.name k v.part_id_ pc := ⟨nofun, hmakes, fun n hn => by
      rw [CallPc.parts_of_joins hn] at hp
      cases hp⟩
    obtain ⟨-, hmakes', -⟩ := Conference.go_keeps hgo hknows hname hkeeps
    refine ⟨?_, hmakes', fun n hn => ?_⟩
    · rw [hgap, portsAfter_of_parts hp]
      exact h.placed
    · rw [CallPc.parts_of_joins hn] at hp'
      cases hp'
  · obtain ⟨hplaced, hmakes', hjoins⟩ := Conference.go_keeps hgo hknows hname
      ⟨hgap ▸ h.placed, hmakes, fun n hn => h.joins k pc n hk hn⟩
    rw [hgap']
    exact ⟨hplaced, hmakes', hjoins⟩

/-- A port is new only if the call makes it, and then it belongs to the call. -/
theorem lookup_portsAfter {ports : List (Nat × Nat)} {k j n : Nat} {pc pc' : CallPc}
    (h : (portsAfter ports k pc pc').lookup n = some j) :
    j = k ∧ pc.before = true ∧ pc'.before = false ∨ ports.lookup n = some j := by
  unfold portsAfter at h
  split at h
  · rw [List.lookup_cons] at h
    split at h
    · exact Or.inl ⟨(Option.some.inj h).symm, rfl, rfl⟩
    · exact Or.inr h
  · rw [lookup_filter_ne] at h
    split at h
    · cases h
    · exact Or.inr h
  · exact Or.inr h

theorem Inv.go (hP : P.Lawful) (h : Inv P s) {k : Nat} {ok : Bool} (hstep : s.goOn P k ok = some (t, es)) : Inv P t := by
  obtain ⟨pc, pc', c, es', hk, hgo, -, rfl⟩ := goOn_inv hstep
  have hlt : k < s.voices.length := by
    rw [h.length]
    exact (List.getElem?_eq_some_iff.mp hk).1
  obtain ⟨hplaced, hmakes, hjoins⟩ := h.keeps hk (List.getElem?_eq_getElem hlt) hgo
  obtain ⟨y, hsteps, hinv⟩ := h.session.go hP hk (Conference.go_does hgo)
  obtain rfl := (Roster.steps_eq hsteps).trans (Roster.after_append ..).symm
  refine ⟨hinv, h.ticking, ?_, fun n j hj => ?_, fun j pcj v hj hv => ?_, fun j pcj n hj hn => ?_, hplaced⟩
  · rw [List.length_set]
    exact h.length
  · rcases lookup_portsAfter hj with ⟨rfl, -, hbefore⟩ | hj
    · exact ⟨pc', (getElem?_set_some hk).mpr (Or.inl ⟨rfl, rfl⟩), hbefore⟩
    · exact (h.past n j hj).go hk hgo
  · rcases (getElem?_set_some hk).mp hj with ⟨rfl, rfl⟩ | ⟨-, hj⟩
    · obtain rfl : _ = v := Option.some.inj ((List.getElem?_eq_getElem hlt).symm.trans hv)
      exact hmakes
    · exact h.makes j pcj v hj hv
  · rcases (getElem?_set_some hk).mp hj with ⟨rfl, rfl⟩ | ⟨hne, hj⟩
    · exact hjoins n hn
    · -- Only one call at a time has a port in hand.
      have hparts : pc.parts = none := by
        have := h.session.parts.excludes (u := .call k) ((holds_call hj).trans (CallPc.parts_of_joins hn))
          (by simpa using hne.symm)
        rwa [Session.partsHeld, holds_call hk] at this
      rw [portsAfter_of_parts hparts]
      exact h.joins j pcj n hj hn

theorem Inv.tick (h : Inv P s) {tick : TickPc} (htick : tick.within = !s.tick.within)
    (hstep : s.tickStep P tick = some (t, es)) : Inv P t := by
  obtain ⟨⟨session, es'⟩, hs, heq⟩ := Option.map_eq_some_iff.mp hstep
  cases heq
  have hdoes := Session.step_does hs
  obtain ⟨m, hm, hsession⟩ := Option.map_eq_some_iff.mp hs
  cases hsession
  exact ⟨⟨h.session.toLocked.step hdoes, h.session.mirrors⟩, by rw [htick, ← h.ticking], h.length, h.past, h.makes,
    h.joins, h.placed⟩

theorem rxStep_inv {k : Nat} {a : RxAct} (h : s.rxStep k a = some (t, es)) :
    ∃ v rx es', s.voices[k]? = some v ∧ v.rx.step a = some (rx, es') ∧ es = es'.map (.rx k) ∧
      t = { s with voices := s.voices.set k { v with rx } } := by
  simp only [rxStep, Option.bind_eq_bind, Option.bind_eq_some_iff, Prod.exists, pure, Option.some.injEq,
    Prod.mk.injEq] at h
  obtain ⟨v, hv, rx, es', hstep, rfl, rfl⟩ := h
  exact ⟨v, rx, es', hv, hstep, rfl, rfl⟩

theorem txStep_inv {k : Nat} {a : TxAct} (h : s.txStep k a = some (t, es)) :
    ∃ v tx es', s.voices[k]? = some v ∧ v.tx.step a = some (tx, es') ∧ es = es'.map (.tx k) ∧
      t = { s with voices := s.voices.set k { v with tx } } := by
  simp only [txStep, Option.bind_eq_bind, Option.bind_eq_some_iff, Prod.exists, pure, Option.some.injEq,
    Prod.mk.injEq] at h
  obtain ⟨v, hv, tx, es', hstep, rfl, rfl⟩ := h
  exact ⟨v, tx, es', hv, hstep, rfl, rfl⟩

theorem map_set_same {k : Nat} {v w : Voice} (hv : s.voices[k]? = some v) (hw : w.part_id_ = v.part_id_) :
    (s.voices.set k w).map Voice.part_id_ = s.voices.map Voice.part_id_ := by
  obtain ⟨hlt, rfl⟩ := List.getElem?_eq_some_iff.mp hv
  rw [List.map_set, hw, ← List.getElem_map Voice.part_id_ (h := by simpa using hlt), List.set_getElem_self]

theorem Inv.rx (h : Inv P s) {k : Nat} {a : RxAct} (hstep : s.rxStep k a = some (t, es)) : Inv P t := by
  obtain ⟨v, rx, es', hv, -, -, rfl⟩ := rxStep_inv hstep
  exact h.voices (map_set_same hv rfl) rfl

theorem Inv.tx (h : Inv P s) {k : Nat} {a : TxAct} (hstep : s.txStep k a = some (t, es)) : Inv P t := by
  obtain ⟨v, tx, es', hv, -, -, rfl⟩ := txStep_inv hstep
  exact h.voices (map_set_same hv rfl) rfl

theorem getStep_inv {slot : Nat} {got : List (Nat × Option (List Int16))} (h : s.getStep M slot got = some (t, es)) :
    ∃ k, s.ports.lookup slot = some k ∧ slot ∉ got.map Prod.fst ∧
      ((M.pulls s.session.conference.conf_ slot = true ∧ ∃ u, s.rxStep k .getFrame = some (u, es) ∧
        t = { u with tick := .getting (got ++ [(slot, frameOf es)]) }) ∨
      (M.pulls s.session.conference.conf_ slot = false ∧ es = [] ∧
        t = { s with tick := .getting (got ++ [(slot, none)]) })) := by
  simp only [getStep, Option.bind_eq_bind, Option.bind_eq_some_iff] at h
  obtain ⟨k, hk, h⟩ := h
  split at h
  · cases h
  next hnew =>
    refine ⟨k, hk, hnew, ?_⟩
    split at h
    next hpulls =>
      obtain ⟨⟨u, es'⟩, hu, h⟩ := Option.bind_eq_some_iff.mp h
      cases h
      exact Or.inl ⟨hpulls, u, hu, rfl⟩
    next hpulls =>
      cases h
      exact Or.inr ⟨Bool.eq_false_iff.mpr hpulls, rfl, rfl⟩

theorem mixStep_inv {got : List (Nat × Option (List Int16))} (h : s.mixStep M got = some (t, es)) :
    es = [] ∧ ∃ mixes, mixes = s.mixes ++
        [{ conf_ := s.session.conference.conf_, ports := s.ports, frames := gave got }] ∧
      t = { s with
        mixes
        tick := .putting (s.ports.map fun port => (port.1, M.mix (mixes.map fun x => (x.conf_, x.frames)) port.1)) none } := by
  unfold mixStep at h
  split at h
  · cases h
    exact ⟨rfl, _, rfl, rfl⟩
  · cases h

theorem putStep_inv {slot : Nat} {left : List (Nat × PjFrame)} {last : Option Nat}
    (h : s.putStep slot left last = some (t, es)) :
    ∃ k frame u, s.ports.lookup slot = some k ∧ left.lookup slot = some frame ∧ s.ready last = true ∧
      s.txStep k (.putFrame frame) = some (u, es) ∧ t = { u with tick := .putting (left.filter (·.1 ≠ slot)) (some k) } := by
  simp only [putStep, Option.bind_eq_bind, Option.bind_eq_some_iff] at h
  obtain ⟨k, hk, frame, hframe, h⟩ := h
  split at h
  next hready =>
    obtain ⟨⟨u, es'⟩, hu, h⟩ := Option.bind_eq_some_iff.mp h
    cases h
    exact ⟨k, frame, u, hk, hframe, hready, hu, rfl⟩
  · cases h

/-- The next part of a tick may come. -/
theorem Inv.within (h : Inv P s) {tick : TickPc} {mixes : List (Mix B)} (htick : tick.within = s.tick.within) :
    Inv P { s with tick, mixes } :=
  h.voices rfl htick

/-- The cases of a step. -/
inductive Does (P : Pjmedia B) (M : Mixer B) (s : Room B) : RoomAct → Room B → List RoomEvent → Prop
  | call {c : Call} {ssrc : UInt32} {session : Session B} :
      session = { s.session with calls := s.session.calls ++ [c.begin s.session.conference.meet_id_] } →
      Does P M s (.call c ssrc)
        { s with session, voices := s.voices ++ [{ part_id_ := c.part_id, tx := { ssrc_ := ssrc } }] } []
  | go {k : Nat} {ok : Bool} {t : Room B} {es : List RoomEvent} : s.goOn P k ok = some (t, es) → Does P M s (.go k ok) t es
  | tickBegin {t : Room B} {es : List RoomEvent} :
      s.tick = .idle → s.tickStep P (.getting []) = some (t, es) → Does P M s .tickBegin t es
  | get {slot : Nat} {got : List (Nat × Option (List Int16))} {t : Room B} {es : List RoomEvent} :
      s.tick = .getting got → s.getStep M slot got = some (t, es) → Does P M s (.get slot) t es
  | mix {got : List (Nat × Option (List Int16))} {t : Room B} {es : List RoomEvent} :
      s.tick = .getting got → s.mixStep M got = some (t, es) → Does P M s .mix t es
  | put {slot : Nat} {left : List (Nat × PjFrame)} {last : Option Nat} {t : Room B} {es : List RoomEvent} :
      s.tick = .putting left last → s.putStep slot left last = some (t, es) → Does P M s (.put slot) t es
  | tickEnd {last : Option Nat} {t : Room B} {es : List RoomEvent} :
      s.tick = .putting [] last → s.tickStep P .idle = some (t, es) → Does P M s .tickEnd t es
  | rx {k : Nat} {a : RxAct} {t : Room B} {es : List RoomEvent} : s.rxStep k a = some (t, es) → Does P M s (.rx k a) t es
  | tx {k : Nat} {a : TxAct} {t : Room B} {es : List RoomEvent} : s.txStep k a = some (t, es) → Does P M s (.tx k a) t es

theorem step_does (h : s.step P M a = some (t, es)) : Does P M s a t es := by
  cases a with
  | call c ssrc =>
    cases h
    exact .call rfl
  | go k ok => exact .go h
  | tickBegin =>
    rcases htick : s.tick with _ | got | ⟨left, last⟩ <;> simp only [Room.step, htick] at h
    · exact .tickBegin htick h
    · cases h
    · cases h
  | get slot =>
    rcases htick : s.tick with _ | got | ⟨left, last⟩ <;> simp only [Room.step, htick] at h
    · cases h
    · exact .get htick h
    · cases h
  | mix =>
    rcases htick : s.tick with _ | got | ⟨left, last⟩ <;> simp only [Room.step, htick] at h
    · cases h
    · exact .mix htick h
    · cases h
  | put slot =>
    rcases htick : s.tick with _ | got | ⟨left, last⟩ <;> simp only [Room.step, htick] at h
    · cases h
    · cases h
    · exact .put htick h
  | tickEnd =>
    rcases htick : s.tick with _ | got | ⟨_ | ⟨port, left⟩, last⟩ <;> simp only [Room.step, htick] at h
    · cases h
    · cases h
    · split at h
      · exact .tickEnd htick h
      · cases h
    · cases h
  | rx k a => cases a <;> first | exact .rx h | cases h
  | tx k a => cases a <;> first | exact .tx h | cases h

theorem Inv.step (hP : P.Lawful) (h : Inv P s) (hstep : s.step P M a = some (t, es)) : Inv P t := by
  cases step_does hstep with
  | @call c ssrc session hs => exact h.call c ssrc hs
  | go hgo => exact h.go hP hgo
  | tickBegin htick hs => exact h.tick (by rw [htick]; rfl) hs
  | get htick hget =>
    obtain ⟨k, -, -, ⟨-, u, hu, rfl⟩ | ⟨-, -, rfl⟩⟩ := getStep_inv hget
    · refine (h.rx hu).within ?_
      obtain ⟨v, rx, es', -, -, -, rfl⟩ := rxStep_inv hu
      exact (congrArg TickPc.within htick).symm
    · exact h.within (congrArg TickPc.within htick).symm
  | mix htick hmix =>
    obtain ⟨-, mixes, -, rfl⟩ := mixStep_inv hmix
    exact h.within (congrArg TickPc.within htick).symm
  | put htick hput =>
    obtain ⟨k, frame, u, -, -, -, hu, rfl⟩ := putStep_inv hput
    refine (h.tx hu).within ?_
    obtain ⟨v, tx, es', -, -, -, rfl⟩ := txStep_inv hu
    exact (congrArg TickPc.within htick).symm
  | tickEnd htick hs => exact h.tick (by rw [htick]; rfl) hs
  | rx hrx => exact h.rx hrx
  | tx htx => exact h.tx htx

/-- A participant has one port. -/
theorem Inv.unique (h : Inv P s) {k m n : Nat} (hm : s.ports.lookup m = some k) (hn : s.ports.lookup n = some k) :
    m = n := by
  obtain ⟨i, hi⟩ : ∃ i, s.name k = some i := ⟨_, by rw [name, List.getElem?_eq_getElem (h.known hm), Option.map_some]⟩
  have hmi : s.owner m = some i := by rw [owner, hm, Option.bind_some, hi]
  have hni : s.owner n = some i := by rw [owner, hn, Option.bind_some, hi]
  rcases h.placed m i hmi with hm' | ⟨hm', hhand⟩ <;> rcases h.placed n i hni with hn' | ⟨hn', hhand'⟩
  · exact Option.some.inj (hm'.symm.trans hn')
  · cases hm'.symm.trans hn'
  · cases hm'.symm.trans hn'
  · exact Option.some.inj (hhand.symm.trans hhand')

/-- The ports do not change within a tick. -/
theorem Inv.still (h : Inv P s) {k : Nat} {ok : Bool} (hstep : s.goOn P k ok = some (t, es)) :
    t.ports = s.ports ∨ s.tick = .idle := by
  obtain ⟨pc, pc', c, es', hk, hgo, -, rfl⟩ := goOn_inv hstep
  by_cases hc : pc.conf = some .exclusive
  · right
    have hclock : s.session.confHeld .clock = none := h.session.conf.excludes ((holds_call hk).trans hc) nofun
    have hticking := h.ticking
    rcases htick : s.tick with _ | got | ⟨left, last⟩
    · rfl
    · rw [htick] at hticking
      simp [Session.confHeld, holds, hticking, TickPc.within] at hclock
    · rw [htick] at hticking
      simp [Session.confHeld, holds, hticking, TickPc.within] at hclock
  · left
    cases pc with
    | addPort | removePort => exact absurd rfl hc
    | _ => rfl

end Room
end AudioMeet.Live
