import AudioMeet.Theorems.Lifetime.Placed

/-! What a step of a call can do to what the meeting owns. -/

namespace AudioMeet.Lifetime
open Lib
open Live (Thread)

namespace CallPc

/-- How a call holds `parts_mutex_`. -/
def parts : CallPc → Option LockMode
  | .addLock _ | .muteLock _ | .removeLock _ | .removeStop _ | .getLock _ | .returned _ | .stopClock | .stopWait
  | .stopDestroyClock | .stopLock | .stopReturned => none
  | .muteFind _ | .muteConfLock _ | .muteAdjust _ | .muteConfUnlock | .muteUnlock | .getFind _ | .getUnlock _ => some .shared
  | _ => some .exclusive

def hand : CallPc → Hand
  | .addStart part_id p | .addMediaPort part_id p | .addConfLock part_id p | .addPort part_id p => .new part_id p
  | .addConfUnlock part_id p (some slot) | .addConnect part_id p slot _ | .addConnectBack part_id p slot _ _ =>
    .carries (some part_id) p slot
  | .addConfUnlock _ p none | .addStop p | .addDrop p => .out p
  | .removeConfLock p slot | .removePort p slot => .carries none p slot
  | .removeConfUnlock p | .removeUnlock (some p) => .out p
  | .stopRemove rest => .freeing rest
  | .stopParts _ => .freed
  | .stopClear rest => .clearing rest
  | .stopConf | .stopPool | .stopUnlock => .clearing []
  | _ => .none

/-- The participant that the call has a pointer to. -/
def owned : CallPc → Option Nat
  | .addStart _ p | .addMediaPort _ p | .addConfLock _ p | .addPort _ p | .addConfUnlock _ p _ | .addConnect _ p _ _
  | .addConnectBack _ p _ _ _ | .addStop p | .addDrop p | .removeConfLock p _ | .removePort p _ | .removeConfUnlock p
  | .removeStop p => some p
  | .addUnlock p | .removeUnlock p | .getUnlock p | .returned p => p
  | _ => none

/-- The participant that nobody else knows of yet. -/
def fresh : CallPc → Option Nat
  | .addStart _ p | .addMediaPort _ p | .addConfLock _ p | .addPort _ p => some p
  | _ => none

/-- The participant that the call will stop once it has no lock. -/
def gone : CallPc → Option Nat
  | .removeStop p => some p
  | _ => none

/-- The call is about to call PJMEDIA on the bridge or the pool. -/
def needs : CallPc → Bool
  | .addMediaPort _ _ | .addConfLock _ _ | .addPort _ _ | .addConfUnlock _ _ (some _) | .addConnect _ _ _ _
  | .addConnectBack _ _ _ _ _ | .muteConfLock _ | .muteAdjust _ | .removeConfLock _ _ | .removePort _ _ => true
  | _ => false

/-- A `stop` that destroyed the bridge, or found it destroyed. -/
def ended : CallPc → Bool
  | .stopPool | .stopUnlock | .stopReturned => true
  | _ => false

/-- What a call knows of the clock, the bridge and the pool. -/
def Stands (s : Life) : CallPc → Prop
  | .stopWait => s.running = false ∧ s.clock_ = true
  | .stopDestroyClock => s.running = false ∧ s.clock_ = true ∧ s.tick = .idle
  | .stopLock | .stopRemove _ | .stopParts _ | .stopClear _ | .stopConf => s.clock_ = false
  | .stopPool => s.clock_ = false ∧ s.conf_ = false
  | .stopUnlock => s.clock_ = false ∧ s.conf_ = false ∧ s.pool_ = false
  | pc => pc.needs = true → s.conf_ = true ∧ s.pool_ = true

end CallPc

/-! ### The cases of a step -/

/-- The calls of PJMEDIA that change no slot and destroy nothing. -/
def Event.Idle : Event → Prop
  | .zalloc | .bridge | .refused => True
  | _ => False

/-- What a call that only goes on keeps. -/
structure Moves (s : Life) (pc pc' : CallPc) : Prop where
  hand : Placed s.participants_ s.slots pc.hand → Placed s.participants_ s.slots pc'.hand
  owned : ∀ p, pc'.owned = some p → pc.owned = some p
  fresh : ∀ p, pc'.fresh = some p → pc.fresh = some p
  gone : ∀ p, pc'.gone = some p → pc.hand = .out p
  stands : ((∃ (part_id : Bytes) (x : Nat × Nat), s.participants_[part_id]? = some x) → s.conf_ = true ∧ s.pool_ = true) →
    pc.Stands s → pc'.Stands s
  stopping : pc'.stopping = true → pc.stopping = true
  ended : pc.ended = true → pc'.ended = true

/-- What a step of call `k` can do. -/
inductive Does (s : Life) (k : Nat) (ans : Answer) : CallPc → Life → CallPc → List Event → Prop
  | moved {pc pc' : CallPc} {m₁ m₂ : SharedMutex Thread} {crashed : Bool} {es : List Event} :
      s.parts_mutex_.Shifts (.call k) pc.parts pc'.parts m₁ → Moves s pc pc' →
      es = [] ∨ pc.needs = true ∧ (∃ e : Event, es = [e] ∧ e.Idle) →
      Does s k ans pc { s with parts_mutex_ := m₁, conf_mutex_ := m₂, crashed } pc' es
  | made {part_id : Bytes} :
      s.participants_[part_id]? = none →
      Does s k ans (.addCount part_id) { s with objects := s.objects ++ [PartObject.new k] }
        (.addStart part_id s.objects.length) []
  | started {part_id : Bytes} {p : Nat} :
      ans.ok = true → Does s k ans (.addStart part_id p) s (.addMediaPort part_id p) []
  | ported {part_id : Bytes} {p slot : Nat} {crashed : Bool} :
      s.slots slot = none →
      Does s k ans (.addPort part_id p) { s with slots := Function.update s.slots slot (some p), crashed }
        (.addConfUnlock part_id p (some slot)) [.added p slot]
  | joined {part_id : Bytes} {p slot : Nat} :
      Does s k ans (.addConnect part_id p slot [])
        ({ s with participants_ := s.participants_.insert part_id (p, slot) }.own p .map) (.addUnlock (some p)) []
  | stops {pc pc' : CallPc} {p : Nat} :
      (pc = .addStop p ∧ pc' = .addDrop p) ∨ (pc = .removeStop p ∧ pc' = .returned (some p)) →
      Does s k ans pc (s.stopPart p) pc' []
  | drops {pc pc' : CallPc} {p : Nat} :
      (pc = .addDrop p ∧ pc' = .addUnlock none) ∨ (pc = .returned (some p) ∧ pc' = .returned none) →
      Does s k ans pc (s.disown p (.call k)) pc' []
  | left {part_id : Bytes} {p slot : Nat} :
      s.participants_[part_id]? = some (p, slot) →
      Does s k ans (.removeFind part_id)
        (({ s with participants_ := s.participants_.erase part_id }.own p (.call k)).disown p .map)
        (.removeConfLock p slot) []
  | freed {p slot : Nat} {crashed : Bool} :
      Does s k ans (.removePort p slot) { s with slots := Function.update s.slots slot none, crashed }
        (.removeConfUnlock p) [.removed (s.slots slot) slot]
  | copied {part_id : Bytes} {p slot : Nat} :
      s.participants_[part_id]? = some (p, slot) →
      Does s k ans (.getFind part_id) (s.own p (.call k)) (.getUnlock (some p)) []
  | clockStopped : s.clock_ = true → Does s k ans .stopClock { s with running := false } .stopWait []
  | clockGone : s.clock_ = false → Does s k ans .stopClock s .stopLock []
  | waited : s.tick = .idle → Does s k ans .stopWait s .stopDestroyClock []
  | clockDestroyed : Does s k ans .stopDestroyClock { s with clock_ := false } .stopLock [.clockDestroyed]
  | slotFreed {part_id : Bytes} {rest : List Bytes} {p slot : Nat} {crashed : Bool} :
      s.participants_[part_id]? = some (p, slot) →
      Does s k ans (.stopRemove (part_id :: rest)) { s with slots := Function.update s.slots slot none, crashed }
        (.stopRemove rest) [.removed (s.slots slot) slot]
  | stopped {part_id : Bytes} {rest : List Bytes} {p slot : Nat} :
      s.participants_[part_id]? = some (p, slot) →
      Does s k ans (.stopParts (part_id :: rest)) (s.stopPart p) (.stopParts rest) []
  | cleared {part_id : Bytes} {rest : List Bytes} {p slot : Nat} :
      s.participants_[part_id]? = some (p, slot) →
      Does s k ans (.stopClear (part_id :: rest))
        ({ s with participants_ := s.participants_.erase part_id }.disown p .map) (.stopClear rest) []
  | confDestroyed :
      Does s k ans .stopConf { s with conf_ := false } .stopPool (if s.conf_ then [.confDestroyed] else [])
  | poolReleased :
      Does s k ans .stopPool { s with pool_ := false } .stopUnlock (if s.pool_ then [.poolReleased] else [])

section Moves
variable {s s' : Life} {k : Nat} {ans : Answer} {pc pc' : CallPc} {es : List Event}

theorem onParts_inv {m : Option (SharedMutex Thread)} (h : s.onParts m pc = some (s', pc', es)) :
    ∃ m', m = some m' ∧ s' = { s with parts_mutex_ := m' } ∧ pc' = pc ∧ es = [] := by
  obtain ⟨m', rfl, h⟩ := Option.map_eq_some_iff.mp h
  cases h
  exact ⟨m', rfl, rfl, rfl, rfl⟩

theorem onConf_inv {m : Option (SharedMutex Thread)} (h : s.onConf m pc = some (s', pc', es)) :
    ∃ m', s' = { s with conf_mutex_ := m' } ∧ pc' = pc ∧ es = [] := by
  obtain ⟨m', rfl, h⟩ := Option.map_eq_some_iff.mp h
  cases h
  exact ⟨m', rfl, rfl, rfl⟩

/-- A call that goes on with the same in hand. -/
theorem Moves.keep (hhand : pc'.hand = pc.hand) (howned : pc'.owned = pc.owned) (hfresh : pc'.fresh = pc.fresh)
    (hgone : pc'.gone = none) (hstands : pc.Stands s → pc'.Stands s) (hstop : pc'.stopping = pc.stopping)
    (hended : pc'.ended = pc.ended) : Moves s pc pc' where
  hand := hhand ▸ id
  owned := fun _ => howned ▸ id
  fresh := fun _ => hfresh ▸ id
  gone := fun _ h => absurd (hgone.symm.trans h) nofun
  stands := fun _ => hstands
  stopping := fun h => hstop ▸ h
  ended := fun h => hended ▸ h

/-- An add gives its new participant up. -/
theorem Moves.give_up {part_id : Bytes} {p : Nat} (hhand : pc.hand = .new part_id p) (howned : pc.owned = some p)
    (hhand' : pc'.hand = .out p) (howned' : pc'.owned = some p) (hfresh : pc'.fresh = none) (hgone : pc'.gone = none)
    (hstands : pc'.Stands s) (hstop : pc'.stopping = false) (hended : pc.ended = false) : Moves s pc pc' where
  hand := by
    rw [hhand, hhand']
    exact Placed.gives_up
  owned := fun _ h => howned.trans (howned'.symm.trans h)
  fresh := fun _ h => absurd (hfresh.symm.trans h) nofun
  gone := fun _ h => absurd (hgone.symm.trans h) nofun
  stands := fun _ _ => hstands
  stopping := fun h => absurd (hstop.symm.trans h) nofun
  ended := fun h => absurd (hended.symm.trans h) nofun

/-- `stop` goes from one loop to the next. -/
theorem Moves.stop (hhand : Placed s.participants_ s.slots pc.hand → Placed s.participants_ s.slots pc'.hand)
    (howned : pc'.owned = none) (hfresh : pc'.fresh = none) (hgone : pc'.gone = none)
    (hstands : pc.Stands s → pc'.Stands s) (hstop : pc'.stopping = pc.stopping) (hended : pc'.ended = pc.ended) :
    Moves s pc pc' where
  hand := hhand
  owned := fun _ h => absurd (howned.symm.trans h) nofun
  fresh := fun _ h => absurd (hfresh.symm.trans h) nofun
  gone := fun _ h => absurd (hgone.symm.trans h) nofun
  stands := fun _ => hstands
  stopping := fun h => hstop ▸ h
  ended := fun h => hended ▸ h

/-- A call that only goes on, and holds `parts_mutex_` as before. -/
theorem Does.goes {m₂ : SharedMutex Thread} {crashed : Bool} (hparts : pc'.parts = pc.parts) (h : Moves s pc pc')
    (hes : es = [] ∨ pc.needs = true ∧ (∃ e : Event, es = [e] ∧ e.Idle)) :
    Does s k ans pc { s with conf_mutex_ := m₂, crashed } pc' es := by
  have hshift : s.parts_mutex_.Shifts (.call k) pc.parts pc'.parts s.parts_mutex_ := hparts ▸ .stay
  exact .moved hshift h hes

theorem go_does (h : s.go k ans pc = some (s', pc', es)) : Does s k ans pc s' pc' es := by
  cases pc with
  -- an add, which gives its participant up after a call that fails
  | addLock part_id =>
    obtain ⟨m, hm, rfl, rfl, rfl⟩ := onParts_inv h
    exact .moved (.lock hm) (.keep rfl rfl rfl rfl id rfl rfl) (Or.inl rfl)
  | addCount part_id =>
    simp only [Life.go] at h
    split at h <;> cases h
    · exact .goes rfl (.keep rfl rfl rfl rfl id rfl rfl) (Or.inl rfl)
    · rename_i hout
      exact .made (by simpa using hout)
  | addStart part_id p =>
    cases hok : ans.ok <;> simp only [Life.go, hok] at h <;> cases h
    · exact .goes rfl (.give_up rfl rfl rfl rfl rfl rfl nofun rfl rfl) (Or.inl rfl)
    · exact .started hok
  | addMediaPort part_id p =>
    cases hok : ans.ok <;> simp only [Life.go, hok] at h <;> cases h
    · exact .goes rfl (.give_up rfl rfl rfl rfl rfl rfl nofun rfl rfl) (Or.inr ⟨rfl, _, rfl, trivial⟩)
    · exact .goes rfl (.keep rfl rfl rfl rfl id rfl rfl) (Or.inr ⟨rfl, _, rfl, trivial⟩)
  | addConfLock part_id p =>
    obtain ⟨m, rfl, rfl, rfl⟩ := onConf_inv h
    exact .goes rfl (.keep rfl rfl rfl rfl id rfl rfl) (Or.inl rfl)
  | addPort part_id p =>
    simp only [Life.go] at h
    split at h
    · cases h
      exact .goes rfl (.give_up rfl rfl rfl rfl rfl rfl nofun rfl rfl) (Or.inr ⟨rfl, _, rfl, trivial⟩)
    · split at h
      · rename_i hslot
        cases h
        exact .ported hslot
      · cases h
  | addConfUnlock part_id p new_slot =>
    cases new_slot <;> obtain ⟨m, rfl, rfl, rfl⟩ := onConf_inv h
    · exact .goes rfl (.keep rfl rfl rfl rfl id rfl rfl) (Or.inl rfl)
    · exact .goes rfl (.keep rfl rfl rfl rfl id rfl rfl) (Or.inl rfl)
  | addConnect part_id p slot existing =>
    cases existing <;> cases h
    · exact .joined
    · exact .goes rfl (.keep rfl rfl rfl rfl id rfl rfl) (Or.inr ⟨rfl, _, rfl, trivial⟩)
  | addConnectBack part_id p slot existing_slot existing =>
    cases h
    exact .goes rfl (.keep rfl rfl rfl rfl id rfl rfl) (Or.inr ⟨rfl, _, rfl, trivial⟩)
  -- after a failure: `stop`, and then the pointer goes
  | addStop p =>
    cases h
    exact .stops (Or.inl ⟨rfl, rfl⟩)
  | addDrop p =>
    cases h
    exact .drops (Or.inl ⟨rfl, rfl⟩)
  | addUnlock p =>
    obtain ⟨m, hm, rfl, rfl, rfl⟩ := onParts_inv h
    exact .moved (.unlock hm) (.keep rfl rfl rfl rfl id rfl rfl) (Or.inl rfl)
  -- the two readers, which share the lock
  | muteLock part_id | getLock part_id =>
    obtain ⟨m, hm, rfl, rfl, rfl⟩ := onParts_inv h
    exact .moved (.lock_shared hm) (.keep rfl rfl rfl rfl id rfl rfl) (Or.inl rfl)
  | muteFind part_id =>
    simp only [Life.go] at h
    split at h <;> cases h
    · exact .goes rfl (.keep rfl rfl rfl rfl id rfl rfl) (Or.inl rfl)
    · rename_i hx
      exact .goes rfl ⟨id, nofun, nofun, nofun, fun hmap _ _ => hmap ⟨_, _, hx⟩, nofun, nofun⟩ (Or.inl rfl)
  | muteConfLock slot =>
    obtain ⟨m, rfl, rfl, rfl⟩ := onConf_inv h
    exact .goes rfl (.keep rfl rfl rfl rfl id rfl rfl) (Or.inl rfl)
  | muteAdjust slot =>
    cases h
    exact .goes rfl (.keep rfl rfl rfl rfl (fun _ => nofun) rfl rfl) (Or.inr ⟨rfl, _, rfl, trivial⟩)
  | muteConfUnlock =>
    obtain ⟨m, rfl, rfl, rfl⟩ := onConf_inv h
    exact .goes rfl (.keep rfl rfl rfl rfl id rfl rfl) (Or.inl rfl)
  | muteUnlock | getUnlock p =>
    obtain ⟨m, hm, rfl, rfl, rfl⟩ := onParts_inv h
    exact .moved (.unlock_shared hm) (.keep rfl rfl rfl rfl id rfl rfl) (Or.inl rfl)
  -- a removal: out of the map, out of the bridge, and `stop` after the section
  | removeLock part_id =>
    obtain ⟨m, hm, rfl, rfl, rfl⟩ := onParts_inv h
    exact .moved (.lock hm) (.keep rfl rfl rfl rfl id rfl rfl) (Or.inl rfl)
  | removeFind part_id =>
    simp only [Life.go] at h
    split at h <;> cases h
    · exact .goes rfl (.keep rfl rfl rfl rfl id rfl rfl) (Or.inl rfl)
    · exact .left ‹_›
  | removeConfLock p slot =>
    obtain ⟨m, rfl, rfl, rfl⟩ := onConf_inv h
    exact .goes rfl (.keep rfl rfl rfl rfl id rfl rfl) (Or.inl rfl)
  | removePort p slot =>
    cases h
    exact .freed
  | removeConfUnlock p =>
    obtain ⟨m, rfl, rfl, rfl⟩ := onConf_inv h
    exact .goes rfl (.keep rfl rfl rfl rfl id rfl rfl) (Or.inl rfl)
  | removeUnlock p =>
    cases p <;> obtain ⟨m, hm, rfl, rfl, rfl⟩ := onParts_inv h
    · exact .moved (.unlock hm) (.keep rfl rfl rfl rfl id rfl rfl) (Or.inl rfl)
    · refine .moved (.unlock hm) ⟨Placed.lets_go, fun _ => id, nofun, fun _ h => ?_, fun _ _ => nofun, nofun, nofun⟩ (Or.inl rfl)
      rw [Option.some.inj h]
      rfl
  | removeStop p =>
    cases h
    exact .stops (Or.inr ⟨rfl, rfl⟩)
  -- `get_participant` copies the pointer, and its caller lets it go
  | getFind part_id =>
    simp only [Life.go] at h
    split at h <;> cases h
    · exact .goes rfl (.keep rfl rfl rfl rfl id rfl rfl) (Or.inl rfl)
    · exact .copied ‹_›
  | returned p =>
    cases p <;> cases h
    exact .drops (Or.inr ⟨rfl, rfl⟩)
  -- `stop`: the clock, and in its section the slots, the participants, the map, the bridge and the pool
  | stopClock =>
    simp only [Life.go] at h
    split at h <;> cases h
    · exact .clockStopped ‹_›
    · rename_i hclock
      exact .clockGone (Bool.eq_false_iff.mpr hclock)
  | stopWait =>
    simp only [Life.go] at h
    split at h <;> cases h
    exact .waited ‹_›
  | stopDestroyClock =>
    cases h
    exact .clockDestroyed
  | stopLock =>
    obtain ⟨m, hm, rfl, rfl, rfl⟩ := onParts_inv h
    exact .moved (.lock hm) (.stop Placed.begins rfl rfl rfl id rfl rfl) (Or.inl rfl)
  | stopRemove rest =>
    cases rest with
    | nil =>
      cases h
      exact .goes rfl (.stop Placed.frees_all rfl rfl rfl id rfl rfl) (Or.inl rfl)
    | cons part_id rest =>
      simp only [Life.go] at h
      split at h <;> cases h
      · exact .goes rfl (.stop (fun hp => hp.frees_next ‹_›) rfl rfl rfl id rfl rfl) (Or.inl rfl)
      · exact .slotFreed ‹_›
  | stopParts rest =>
    cases rest with
    | nil =>
      cases h
      exact .goes rfl (.stop Placed.clears rfl rfl rfl id rfl rfl) (Or.inl rfl)
    | cons part_id rest =>
      simp only [Life.go] at h
      split at h <;> cases h
      · exact .goes rfl (.stop id rfl rfl rfl id rfl rfl) (Or.inl rfl)
      · exact .stopped ‹_›
  | stopClear rest =>
    cases rest with
    | nil =>
      cases h
      exact .goes rfl (.stop id rfl rfl rfl id rfl rfl) (Or.inl rfl)
    | cons part_id rest =>
      simp only [Life.go] at h
      split at h <;> cases h
      · exact .goes rfl (.stop (fun hp => hp.clears_next ‹_›) rfl rfl rfl id rfl rfl) (Or.inl rfl)
      · exact .cleared ‹_›
  | stopConf =>
    cases h
    exact .confDestroyed
  | stopPool =>
    cases h
    exact .poolReleased
  | stopUnlock =>
    obtain ⟨m, hm, rfl, rfl, rfl⟩ := onParts_inv h
    exact .moved (.unlock hm) ⟨Placed.ends, nofun, nofun, nofun, fun _ _ => nofun, nofun, fun _ => rfl⟩ (Or.inl rfl)
  | stopReturned => cases h

end Moves

end AudioMeet.Lifetime
