import AudioMeet.Theorems.Live.Locks

/-! The bridge of a live meeting mirrors its roster, whatever the order of the steps of the calls. -/

namespace AudioMeet.Live
open Lib Machine

namespace Session
variable {B : Type} {P : Pjmedia B} {s t : Session B} {es tr : List Event} {x : Roster}

/-! ### The bridge and the roster -/

/-- The port that the call in its section has in hand. -/
def gap (s : Session B) : Option Gap :=
  match s.conference.parts_mutex_.owner with
  | some (.call k) => s.calls[k]?.bind CallPc.gap
  | _ => none

structure Inv (P : Pjmedia B) (s : Session B) (x : Roster) : Prop extends Locked s where
  mirrors : Mirrors P s.conference.conf_ s.conference.slot x s.gap

theorem gap_eq_none (h : s.conference.parts_mutex_.owner = none) : s.gap = none := by
  rw [gap, h]

theorem gap_congr (hown : t.conference.parts_mutex_.owner = s.conference.parts_mutex_.owner)
    (h : ∀ k, s.conference.parts_mutex_.owner = some (.call k) →
      t.calls[k]?.bind CallPc.gap = s.calls[k]?.bind CallPc.gap) : t.gap = s.gap := by
  unfold gap
  rw [hown]
  split
  · next k hk => exact h k hk
  · rfl

theorem gap_eq {k : Nat} {pc : CallPc} (hs : s.conference.parts_mutex_.Tracks s.partsHeld)
    (hk : s.calls[k]? = some pc) (hp : pc.parts ≠ none) : s.gap = pc.gap := by
  have hheld : s.partsHeld (.call k) = pc.parts := holds_call hk
  rcases hparts : pc.parts with _ | mode
  · exact absurd hparts hp
  · cases mode with
    | exclusive =>
      rw [gap, (hs.owner _).mpr (hheld.trans hparts)]
      exact (congrArg (Option.bind · CallPc.gap) hk).trans (Option.bind_some ..)
    | shared =>
      rw [gap_eq_none (hs.owner_of_sharer (hheld.trans hparts)), CallPc.gap_eq_none]
      simp [hparts]

namespace Inv

theorem init (h : (machine P).init s) : Inv P s fun _ => none := by
  refine ⟨.init h, ?_⟩
  obtain ⟨meet_id, b, hb, rfl⟩ := h
  rw [gap_eq_none rfl]
  convert Mirrors.init hb using 1
  funext i
  simp [Conference.slot]

theorem call (h : Inv P s x) (c : Call) :
    Inv P { s with calls := s.calls ++ [c.begin s.conference.meet_id_] } x := by
  refine ⟨h.toLocked.call c, ?_⟩
  have hgap : (c.begin s.conference.meet_id_).gap = none := CallPc.gap_eq_none (by simp [begin_parts])
  convert h.mirrors using 1
  exact gap_congr rfl fun k _ => bind_snoc hgap k

theorem go (hP : P.Lawful) (h : Inv P s x) {k : Nat} {pc pc' : CallPc} {c : Conference B}
    (hk : s.calls[k]? = some pc) (hdoes : s.conference.Does P (.call k) pc c pc' es) :
    ∃ y, Roster.machine.Steps Any x es y ∧ Inv P { s with conference := c, calls := s.calls.set k pc' } y := by
  have hlocked := h.toLocked.go hk hdoes
  by_cases hidle : pc.parts = none ∧ pc'.parts = none
  · obtain ⟨rfl, rfl⟩ := hdoes.idle hidle.1 hidle.2
    refine ⟨x, .refl, hlocked, ?_⟩
    convert h.mirrors using 1
    refine gap_congr rfl fun j hown => ?_
    have hjk : j ≠ k := by
      rintro rfl
      have := (h.parts.owner _).mp hown
      rw [partsHeld, holds_call hk, hidle.1] at this
      cases this
    rw [List.getElem?_set_ne (Ne.symm hjk)]
  · have hgap : s.gap = pc.gap := by
      by_cases hp : pc.parts = none
      · rw [gap_eq_none ((hp ▸ hdoes.parts).owner_before fun hp' => hidle ⟨hp, hp'⟩), CallPc.gap_eq_none]
        simp [hp]
      · exact gap_eq h.parts hk hp
    obtain ⟨y, hsteps, hm⟩ := hdoes.mirrors hP (h.knows k pc hk) (hgap ▸ h.mirrors)
    refine ⟨y, hsteps, hlocked, ?_⟩
    convert hm using 1
    by_cases hp' : pc'.parts = none
    · rw [gap_eq_none ((hp' ▸ hdoes.parts).owner_after fun hp => hidle ⟨hp, hp'⟩), CallPc.gap_eq_none]
      simp [hp']
    · exact gap_eq hlocked.parts ((getElem?_set_some hk).mpr (Or.inl ⟨rfl, rfl⟩)) hp'

end Inv

/-! ### What the bridge is when nobody is in a section -/

/-- `q` hears `p`: the bridge mixes the port of `p` into that of `q`. -/
def Hears (P : Pjmedia B) (c : Conference B) (q p : Bytes) : Prop :=
  ∃ m n, c.slot p = some m ∧ c.slot q = some n ∧ P.connected c.conf_ m n ∧ ¬P.Muted c.conf_ m

/-- The bridge is that of the roster: a full mesh of its participants, of which some are muted. -/
structure Refines (P : Pjmedia B) (c : Conference B) (x : Roster) : Prop where
  members : ∀ i, (c.slot i).isSome = (x i).isSome
  distinct : ∀ i j n, c.slot i = some n → c.slot j = some n → i = j
  occupied : ∀ n, P.occupied c.conf_ n ∧ n ≠ MASTER_SLOT ↔ ∃ i, c.slot i = some n
  connected : ∀ m n, P.connected c.conf_ m n ↔ m ≠ n ∧ (∃ i, c.slot i = some m) ∧ ∃ j, c.slot j = some n
  muted : ∀ i n, c.slot i = some n → (P.Muted c.conf_ n ↔ x i = some true)
  hears : ∀ q p, Hears P c q p ↔ (x q).isSome ∧ (x p).isSome ∧ p ≠ q ∧ x p ≠ some true

theorem Inv.refines (h : Inv P s x) (hfree : s.conference.parts_mutex_.Free) : Refines P s.conference x := by
  have hm := h.mirrors
  rw [gap_eq_none hfree.1] at hm
  have hconnected : ∀ m n, P.connected s.conference.conf_ m n ↔
      m ≠ n ∧ (∃ i, s.conference.slot i = some m) ∧ ∃ j, s.conference.slot j = some n := fun m n =>
    ⟨fun hmn => by simpa [Recorded] using hm.sound m n hmn,
      fun ⟨hne, hi, hj⟩ => hm.complete m n hne (ports_none.mpr hi) (ports_none.mpr hj) nofun⟩
  refine ⟨hm.members, hm.distinct, fun n => ?_, hconnected, hm.level, fun q p => ?_⟩
  · rw [hm.occupied, ports_none]
    have hmaster := hm.master
    rw [ports_none] at hmaster
    constructor
    · rintro ⟨hn, hne⟩
      exact hn.resolve_left hne
    · exact fun hn => ⟨Or.inr hn, fun hne => hmaster (hne ▸ hn)⟩
  · rw [← hm.members, ← hm.members, Option.isSome_iff_exists, Option.isSome_iff_exists]
    constructor
    · rintro ⟨m, n, hp, hq, hmn, hmute⟩
      refine ⟨⟨n, hq⟩, ⟨m, hp⟩, ?_, fun hx => hmute ((hm.level p m hp).mpr hx)⟩
      rintro rfl
      exact ((hconnected m n).mp hmn).1 (Option.some.inj (hp.symm.trans hq))
    · rintro ⟨⟨n, hq⟩, ⟨m, hp⟩, hne, hx⟩
      have hmn : m ≠ n := fun hmn => hne (hm.distinct p q n (hmn ▸ hp) hq)
      exact ⟨m, n, hp, hq, (hconnected m n).mpr ⟨hmn, ⟨p, hp⟩, ⟨q, hq⟩⟩, fun hmute => hx ((hm.level p m hp).mp hmute)⟩

/-! ### A bridge of 32 slots -/

structure Board where
  occupied : Nat → Bool
  connected : Nat → Nat → Bool
  rx_level : Nat → Int

def MEETING_CONF_SLOTS : Nat := 32

/-- A new port gets the first free slot. -/
def Board.add (b : Board) : Board × Option Nat :=
  match (List.range MEETING_CONF_SLOTS).find? fun n => !b.occupied n with
  | none => (b, none)
  | some slot =>
    ({ occupied := Function.update b.occupied slot true
       connected := fun m n => b.connected m n && m != slot && n != slot
       rx_level := Function.update b.rx_level slot 0 }, some slot)

def board : Pjmedia Board where
  conf_add_port := Board.add
  conf_connect_port b src sink _ := { b with connected := fun m n => b.connected m n || m == src && n == sink }
  conf_remove_port b slot :=
    { b with
      occupied := Function.update b.occupied slot false
      connected := fun m n => b.connected m n && m != slot && n != slot }
  conf_adjust_rx_level b slot level := { b with rx_level := Function.update b.rx_level slot level }
  occupied := Board.occupied
  connected := Board.connected
  rx_level := Board.rx_level

def Board.new : Board where
  occupied n := n == MASTER_SLOT
  connected _ _ := false
  rx_level _ := 0

theorem board_lawful : board.Lawful where
  add_fails b b' h := by
    simp only [board, Board.add] at h
    split at h <;> cases h
    exact ⟨rfl, rfl, rfl⟩
  add b b' slot h := by
    simp only [board, Board.add] at h
    split at h <;> cases h
    next hfind =>
      refine ⟨by simpa [board] using List.find?_some hfind, by simp [Pjmedia.Muted, board], fun n => ?_, fun m n => ?_,
        fun n hn => Function.update_of_ne hn ..⟩
      · by_cases hn : n = slot <;> simp [board, hn]
      · simp [board, and_assoc]
  connect b src sink level _ _ := ⟨rfl, fun m n => by simp [board], rfl⟩
  remove b slot _ := by
    refine ⟨fun n => ?_, fun m n => by simp [board, and_assoc], fun _ _ => rfl⟩
    by_cases hn : n = slot <;> simp [board, hn]
  adjust b slot level _ := ⟨rfl, rfl, rfl⟩

/-- Two participants join, and the first is muted. -/
def twoJoin : List SessionAct :=
  [SessionAct.call (.add_participant (ascii "a") 10000), .call (.add_passive_participant (ascii "b") (ascii "10.0.0.1") 80)] ++
  List.replicate 9 (SessionAct.go 0 true) ++ [SessionAct.tick, .tick] ++ List.replicate 11 (SessionAct.go 1 true) ++
  [SessionAct.call (.set_participant_mute (ascii "a") true)] ++ List.replicate 6 (SessionAct.go 2 true)

end Session
end AudioMeet.Live
