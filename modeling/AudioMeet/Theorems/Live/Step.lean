import AudioMeet.Theorems.Live.Mirrors
import AudioMeet.Theorems.Meeting

/-! What a step of a call can do to the mutexes, the map and the bridge. -/

namespace AudioMeet.Live
open Lib

namespace CallPc

/-- How a call holds `parts_mutex_`. -/
def parts : CallPc → Option LockMode
  | .addLock _ | .muteLock _ _ | .removeLock _ | .removeStop _ | .returned _ => none
  | .muteFind _ _ | .muteConfLock _ _ _ | .muteAdjust _ _ _ | .muteConfUnlock | .muteUnlock _ => some .shared
  | _ => some .exclusive

/-- How a call holds `conf_mutex_`. -/
def conf : CallPc → Option LockMode
  | .addPort _ | .addConfUnlock _ _ | .muteAdjust _ _ _ | .muteConfUnlock | .removePort _ _ | .removeConfUnlock _ =>
    some .exclusive
  | _ => none

/-- The port that a call has in hand. -/
def gap : CallPc → Option Gap
  | .addConfUnlock _ (some slot) => some { slot, joining := true, out := fun _ => True, back := fun _ => True }
  | .addConnect _ slot existing => some { slot, joining := true, out := (· ∈ existing), back := (· ∈ existing) }
  | .addConnectBack _ slot existing_slot existing =>
    some { slot, joining := true, out := (· ∈ existing), back := (· ∈ existing_slot :: existing) }
  | .removeConfLock _ slot | .removePort _ slot => some { slot, joining := false }
  | _ => none

/-- What a call learned of the map. -/
def Knows (slots : Bytes → Option Nat) : CallPc → Prop
  | .addStart p | .addMediaPort p | .addConfLock p | .addPort p | .addConfUnlock p _ => slots p.part_id_ = none
  | .addConnect p _ existing => slots p.part_id_ = none ∧ ∀ n ∈ existing, Recorded slots n
  | .addConnectBack p _ existing_slot existing =>
    slots p.part_id_ = none ∧ ∀ n ∈ existing_slot :: existing, Recorded slots n
  | .muteConfLock part_id _ slot | .muteAdjust part_id _ slot => slots part_id = some slot
  | _ => True

theorem gap_eq_none {pc : CallPc} (h : pc.parts ≠ some .exclusive) : pc.gap = none := by
  cases pc <;> first | rfl | exact absurd rfl h

theorem knows_of_parts {pc : CallPc} (h : pc.parts = none) (slots : Bytes → Option Nat) : pc.Knows slots := by
  cases pc <;> trivial

end CallPc

namespace Conference
variable {B : Type} {P : Pjmedia B} {c c' : Conference B} {t : Thread} {ok : Bool} {pc pc' : CallPc} {es : List Event}

/-! ### The map -/

theorem slot_insert (c : Conference B) (p : Participant) (n : Nat) :
    slot { c with participants_ := c.participants_.insert p.part_id_ (p, n) } =
      Function.update c.slot p.part_id_ (some n) := by
  funext i
  by_cases hi : i = p.part_id_
  · simp [slot, hi]
  · simp [slot, Std.ExtTreeMap.getElem?_insert, hi, Ne.symm hi]

theorem slot_erase (c : Conference B) (part_id : Bytes) :
    slot { c with participants_ := c.participants_.erase part_id } = Function.update c.slot part_id none := by
  funext i
  by_cases hi : i = part_id
  · simp [slot, hi]
  · simp [slot, Std.ExtTreeMap.getElem?_erase, hi, Ne.symm hi]

theorem mem_slots {n : Nat} : n ∈ c.slots ↔ Recorded c.slot n := by
  simp only [slots, List.mem_map, Prod.exists, Recorded, slot, Option.map_eq_some_iff,
    Std.ExtTreeMap.mem_toList_iff_getElem?_eq_some]

theorem slot_eq_none {part_id : Bytes} (h : ¬c.participants_.contains part_id) : c.slot part_id = none := by
  simpa [slot] using h

/-! ### The cases of a step -/

/-- What a step can do. -/
inductive Does (P : Pjmedia B) (c : Conference B) (t : Thread) : CallPc → Conference B → CallPc → List Event → Prop
  | onParts {pc pc' : CallPc} {m : SharedMutex Thread} :
      c.parts_mutex_.Shifts t pc.parts pc'.parts m → pc.parts ≠ pc'.parts → pc.conf = pc'.conf → pc.gap = none → pc'.gap = none →
      (∀ slots, pc'.Knows slots) → Does P c t pc { c with parts_mutex_ := m } pc' []
  | onConf {pc pc' : CallPc} {m : SharedMutex Thread} :
      c.conf_mutex_.Shifts t pc.conf pc'.conf m → pc.parts = pc'.parts → pc.parts ≠ none → pc.gap = pc'.gap →
      (∀ slots, pc.Knows slots → pc'.Knows slots) → Does P c t pc { c with conf_mutex_ := m } pc' []
  | moved {pc pc' : CallPc} :
      pc.parts = pc'.parts → pc.conf = pc'.conf → pc.gap = none → pc'.gap = none → (pc.Knows c.slot → pc'.Knows c.slot) →
      Does P c t pc c pc' []
  | refused {p : Participant} {b : B} :
      P.conf_add_port c.conf_ = (b, none) →
      Does P c t (.addPort p) { c with conf_ := b } (.addConfUnlock p none) []
  | ported {p : Participant} {b : B} {n : Nat} :
      P.conf_add_port c.conf_ = (b, some n) →
      Does P c t (.addPort p) { c with conf_ := b } (.addConfUnlock p (some n)) []
  | connects {p : Participant} {n : Nat} {m : SharedMutex Thread} :
      c.conf_mutex_.Shifts t (some .exclusive) none m →
      Does P c t (.addConfUnlock p (some n)) { c with conf_mutex_ := m } (.addConnect p n c.slots) []
  | connected {p : Participant} {n e : Nat} {existing : List Nat} :
      Does P c t (.addConnect p n (e :: existing)) { c with conf_ := P.conf_connect_port c.conf_ n e 0 }
        (.addConnectBack p n e existing) []
  | connectedBack {p : Participant} {n e : Nat} {existing : List Nat} :
      Does P c t (.addConnectBack p n e existing) { c with conf_ := P.conf_connect_port c.conf_ e n 0 }
        (.addConnect p n existing) []
  | joined {p : Participant} {n : Nat} :
      Does P c t (.addConnect p n []) { c with participants_ := c.participants_.insert p.part_id_ (p, n) }
        (.addUnlock (some p)) [.joined p.part_id_]
  | muted {part_id : Bytes} {mute : Bool} {n : Nat} :
      Does P c t (.muteAdjust part_id mute n)
        { c with conf_ := P.conf_adjust_rx_level c.conf_ n (if mute then -128 else 0) } .muteConfUnlock
        [.muted part_id mute]
  | left {part_id : Bytes} {p : Participant} {n : Nat} :
      c.participants_[part_id]? = some (p, n) →
      Does P c t (.removeFind part_id) { c with participants_ := c.participants_.erase part_id }
        (.removeConfLock p n) [.left part_id]
  | freed {p : Participant} {n : Nat} :
      Does P c t (.removePort p n) { c with conf_ := P.conf_remove_port c.conf_ n } (.removeConfUnlock p) []

theorem onParts_inv {m : Option (SharedMutex Thread)} (h : c.onParts m pc = some (c', pc', es)) :
    ∃ m', m = some m' ∧ c' = { c with parts_mutex_ := m' } ∧ pc' = pc ∧ es = [] := by
  obtain ⟨m', rfl, h⟩ := Option.map_eq_some_iff.mp h
  cases h
  exact ⟨m', rfl, rfl, rfl, rfl⟩

theorem onConf_inv {m : Option (SharedMutex Thread)} (h : c.onConf m pc = some (c', pc', es)) :
    ∃ m', m = some m' ∧ c' = { c with conf_mutex_ := m' } ∧ pc' = pc ∧ es = [] := by
  obtain ⟨m', rfl, h⟩ := Option.map_eq_some_iff.mp h
  cases h
  exact ⟨m', rfl, rfl, rfl, rfl⟩

theorem go_does (h : c.go P t ok pc = some (c', pc', es)) : Does P c t pc c' pc' es := by
  cases pc with
  | addLock p | muteLock part_id mute | removeLock part_id | addUnlock p | muteUnlock n =>
    obtain ⟨m, hm, rfl, rfl, rfl⟩ := onParts_inv h
    first
      | exact .onParts (.lock hm) nofun rfl rfl rfl fun _ => trivial
      | exact .onParts (.unlock hm) nofun rfl rfl rfl fun _ => trivial
      | exact .onParts (.lock_shared hm) nofun rfl rfl rfl fun _ => trivial
      | exact .onParts (.unlock_shared hm) nofun rfl rfl rfl fun _ => trivial
  | removeUnlock p =>
    cases p <;> obtain ⟨m, hm, rfl, rfl, rfl⟩ := onParts_inv h
    · exact .onParts (.unlock hm) nofun rfl rfl rfl fun _ => trivial
    · exact .onParts (.unlock hm) nofun rfl rfl rfl fun _ => trivial
  | addConfLock p | muteConfLock part_id mute slot | removeConfLock p slot =>
    obtain ⟨m, hm, rfl, rfl, rfl⟩ := onConf_inv h
    exact .onConf (.lock hm) rfl nofun rfl fun _ => id
  | muteConfUnlock | removeConfUnlock p =>
    obtain ⟨m, hm, rfl, rfl, rfl⟩ := onConf_inv h
    exact .onConf (.unlock hm) rfl nofun rfl fun _ => id
  | addConfUnlock p new_slot =>
    cases new_slot <;> obtain ⟨m, hm, rfl, rfl, rfl⟩ := onConf_inv h
    · exact .onConf (.unlock hm) rfl nofun rfl fun _ _ => trivial
    · exact .connects (.unlock hm)
  | addCount p =>
    cases h
    split
    · exact .moved rfl rfl rfl rfl fun _ => trivial
    · next hc => exact .moved rfl rfl rfl rfl fun _ => slot_eq_none hc
  | addStart p | addMediaPort p =>
    cases h
    cases ok
    · exact .moved rfl rfl rfl rfl fun _ => trivial
    · exact .moved rfl rfl rfl rfl id
  | addPort p =>
    rcases hadd : P.conf_add_port c.conf_ with ⟨b, _ | n⟩ <;> rw [go, hadd] at h <;> cases h
    · exact .refused hadd
    · exact .ported hadd
  | addConnect p n existing =>
    cases existing <;> cases h
    · exact .joined
    · exact .connected
  | addConnectBack p n e existing =>
    cases h
    exact .connectedBack
  | muteFind part_id mute =>
    rcases hs : c.slot part_id with _ | n <;> rw [go, hs] at h <;> cases h
    · exact .moved rfl rfl rfl rfl fun _ => trivial
    · exact .moved rfl rfl rfl rfl fun _ => hs
  | muteAdjust part_id mute slot =>
    cases h
    exact .muted
  | removeFind part_id =>
    rcases hs : c.participants_[part_id]? with _ | ⟨p, n⟩ <;> rw [go, hs] at h <;> cases h
    · exact .moved rfl rfl rfl rfl fun _ => trivial
    · exact .left hs
  | removePort p slot =>
    cases h
    exact .freed
  | removeStop p =>
    cases h
    exact .moved rfl rfl rfl rfl fun _ => trivial
  | returned r => cases h

/-! ### The mutexes -/

theorem Does.parts (h : Does P c t pc c' pc' es) : c.parts_mutex_.Shifts t pc.parts pc'.parts c'.parts_mutex_ := by
  cases h with
  | onParts hm => exact hm
  | onConf _ hp => exact hp ▸ .stay
  | moved hp => exact hp ▸ .stay
  | _ => exact .stay

theorem Does.conf (h : Does P c t pc c' pc' es) : c.conf_mutex_.Shifts t pc.conf pc'.conf c'.conf_mutex_ := by
  cases h with
  | onParts _ _ hc => exact hc ▸ .stay
  | onConf hm => exact hm
  | moved _ hc => exact hc ▸ .stay
  | connects hm => exact hm
  | _ => exact .stay

/-- A call that neither has nor takes `parts_mutex_` does nothing to the meeting. -/
theorem Does.idle (h : Does P c t pc c' pc' es) (hp : pc.parts = none) (hp' : pc'.parts = none) :
    c' = c ∧ es = [] := by
  cases h with
  | onParts _ hne => exact absurd (hp.trans hp'.symm) hne
  | onConf _ _ hne => exact absurd hp hne
  | moved => exact ⟨rfl, rfl⟩
  | _ => cases hp

/-- Only a call that holds `parts_mutex_` alone changes the map. -/
theorem Does.slot (h : Does P c t pc c' pc' es) (hp : pc.parts ≠ some .exclusive) : c'.slot = c.slot := by
  cases h with
  | joined => exact absurd rfl hp
  | left => exact absurd rfl hp
  | _ => rfl

/-- A call that learned of the map still knows after its step, the map of which it may have changed itself. -/
theorem Does.knows (h : Does P c t pc c' pc' es) (hk : pc.Knows c.slot) : pc'.Knows c'.slot := by
  cases h with
  | onParts _ _ _ _ _ hk' => exact hk' _
  | onConf _ _ _ _ hk' => exact hk' _ hk
  | moved _ _ _ _ hk' => exact hk' hk
  | refused => exact hk
  | ported => exact hk
  | connects => exact ⟨hk, fun n hn => mem_slots.mp hn⟩
  | connected => exact hk
  | connectedBack => exact ⟨hk.1, fun n hn => hk.2 n (.tail _ hn)⟩
  | _ => trivial

/-! ### The bridge and the roster -/

/-- The bridge mirrors the roster before a step, so it does after the step, up to what the call has in hand. -/
theorem Does.mirrors {x : Roster} (hP : P.Lawful) (h : Does P c t pc c' pc' es) (hk : pc.Knows c.slot)
    (hm : Mirrors P c.conf_ c.slot x pc.gap) :
    ∃ y, Roster.machine.Steps Machine.Any x es y ∧ Mirrors P c'.conf_ c'.slot y pc'.gap := by
  cases h with
  | onParts _ _ _ hg hg' => exact ⟨x, .refl, hg' ▸ hg ▸ hm⟩
  | onConf _ _ _ hg => exact ⟨x, .refl, hg ▸ hm⟩
  | moved _ _ hg hg' => exact ⟨x, .refl, hg' ▸ hg ▸ hm⟩
  | refused hadd =>
    obtain ⟨hocc, hcon, hlev⟩ := hP.add_fails _ _ hadd
    exact ⟨x, .refl, hm.of_same hocc hcon hlev⟩
  | ported hadd => exact ⟨x, .refl, hm.addPort hP hadd⟩
  | connects =>
    refine ⟨x, .refl, hm.narrow rfl rfl ?_⟩
    rintro k l hne hk hl (⟨rfl, -⟩ | ⟨rfl, -⟩)
    · exact Or.inl ⟨rfl, mem_slots.mpr ((ports_some.mp hl).resolve_right hne.symm)⟩
    · exact Or.inr ⟨rfl, mem_slots.mpr ((ports_some.mp hk).resolve_right hne)⟩
  | @connected p n e existing =>
    have he : Recorded c.slot e := hk.2 e (by simp)
    have hne : n ≠ e := fun hne => hm.apart _ rfl (hne ▸ he)
    refine ⟨x, .refl, hm.connect hP rfl rfl hne (by simp) (by simp [he]) ?_⟩
    rintro k l (⟨rfl, hl⟩ | hback)
    · rcases List.mem_cons.mp hl with rfl | hl
      · exact Or.inr ⟨rfl, rfl⟩
      · exact Or.inl (Or.inl ⟨rfl, hl⟩)
    · exact Or.inl (Or.inr hback)
  | @connectedBack p n e existing =>
    have he : Recorded c.slot e := hk.2 e (by simp)
    have hne : e ≠ n := fun hne => hm.apart _ rfl (hne ▸ he)
    refine ⟨x, .refl, hm.connect hP rfl rfl hne (by simp [he]) (by simp) ?_⟩
    rintro k l (hout | ⟨rfl, hk⟩)
    · exact Or.inl (Or.inl hout)
    · rcases List.mem_cons.mp hk with rfl | hk
      · exact Or.inr ⟨rfl, rfl⟩
      · exact Or.inl (Or.inr ⟨rfl, hk⟩)
  | @joined p n =>
    refine ⟨_, Roster.join (hm.absent hk.1), ?_⟩
    rw [slot_insert]
    refine hm.join rfl hk.1 fun k l hkl => ?_
    simp [Gap.Lacks] at hkl
  | @muted part_id mute n =>
    exact ⟨_, Roster.mute (hm.present hk) mute, hm.adjust hP hk mute⟩
  | @left part_id p n hfound =>
    have hn : c.slot part_id = some n := by
      rw [Conference.slot, hfound]
      rfl
    refine ⟨_, Roster.leave (hm.present hn), ?_⟩
    rw [slot_erase]
    exact hm.leave hn
  | @freed p n =>
    refine ⟨x, .refl, hm.removePort hP fun k l hkl => ?_⟩
    simp [Gap.Lacks] at hkl

end Conference
end AudioMeet.Live
