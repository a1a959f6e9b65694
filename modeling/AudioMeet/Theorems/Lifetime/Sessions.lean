import AudioMeet.Theorems.Live.Locks
import AudioMeet.Theorems.Lifetime.Events

/-! No tick meets a participant that was stopped, and what the meeting owns is destroyed once and in order. -/

namespace AudioMeet.Lifetime
open Lib Machine
open Live (Thread holds holds_nil holds_call holds_snoc holds_set)

namespace CallPc

theorem owned_of_hand {pc : CallPc} {p : Nat} (h : pc.hand.part = some p) : pc.owned = some p := by
  cases pc with
  | addConfUnlock part_id q new_slot => cases new_slot <;> exact h
  | removeUnlock q => cases q <;> exact h
  | _ => first | exact h | cases h

/-- The add is about to start its participant. -/
def starting : CallPc → Bool
  | .addStart _ _ => true
  | _ => false

theorem of_ended {pc : CallPc} (h : pc.ended = true) : pc = .stopReturned ∨ pc.parts = some .exclusive := by
  cases pc <;> first | exact Or.inl rfl | exact Or.inr rfl | cases h

theorem begin_parts (c : Call) : c.begin.parts = none := by cases c <;> rfl

theorem begin_has (s : Life) (k : Nat) (c : Call) : Has s k c.begin := by
  cases c <;> exact ⟨nofun, nofun, nofun⟩

theorem begin_stands (s : Life) (c : Call) : c.begin.Stands s := by
  cases c <;> exact nofun

theorem begin_stopping {c : Call} (h : c.begin.stopping = true) : c = .stop := by
  cases c <;> first | rfl | cases h

end CallPc

namespace Session
variable {s t : Session} {a : LifeAct} {es tr : List Event}

/-! ### The cases of a step -/

inductive Does (s : Session) : LifeAct → Session → List Event → Prop
  | call {c : Call} : (c = .stop → ∀ pc ∈ s.calls, pc.stopping = false) →
      Does s (.call c) { s with calls := s.calls ++ [c.begin] } []
  | go {k : Nat} {ans : Answer} {pc pc' : CallPc} {life : Life} {es : List Event} :
      s.calls[k]? = some pc → Lifetime.Does s.life k ans pc life pc' es →
      Does s (.go k ans) { life, calls := s.calls.set k pc' } es
  | tick {life : Life} {es : List Event} : Ticks s.life life es → Does s .tick { s with life } es

theorem step_does (h : s.step a = some (t, es)) : Does s a t es := by
  unfold step at h
  split at h
  · cases h
  cases a with
  | call c =>
    dsimp only at h
    split at h <;> cases h
    rename_i hstop
    refine .call fun hc pc hpc => ?_
    by_contra hne
    exact hstop ⟨hc, List.any_eq_true.mpr ⟨pc, hpc, by simpa using hne⟩⟩
  | go k ans =>
    simp only [Option.bind_eq_bind, Option.bind_eq_some_iff] at h
    obtain ⟨pc, hk, ⟨life, pc', es'⟩, hgo, h⟩ := h
    cases h
    exact .go hk (go_does hgo)
  | tick =>
    obtain ⟨⟨life, es'⟩, htick, h⟩ := Option.map_eq_some_iff.mp h
    cases h
    exact .tick (goTick_ticks htick)

/-! ### Along a run -/

def partsHeld (s : Session) : Thread → Option LockMode := holds CallPc.parts none s.calls

structure Inv (s : Session) : Prop where
  parts : s.life.parts_mutex_.Tracks s.partsHeld
  /-- at most one `stop` is under way -/
  stopping : ∀ (j k : Nat) (pc pc' : CallPc), s.calls[j]? = some pc → s.calls[k]? = some pc' → pc.stopping = true →
    pc'.stopping = true → j = k
  placed : s.life.parts_mutex_.owner = none → Placed s.life.participants_ s.life.slots .none
  hand : ∀ (k : Nat) (pc : CallPc), s.calls[k]? = some pc → pc.parts = some .exclusive →
    Placed s.life.participants_ s.life.slots pc.hand
  owners : Owners s.life
  has : ∀ (k : Nat) (pc : CallPc), s.calls[k]? = some pc → Has s.life k pc
  stands : ∀ (k : Nat) (pc : CallPc), s.calls[k]? = some pc → pc.Stands s.life
  teardown : Teardown s.life
  ended : s.life.conf_ = false → ∃ pc ∈ s.calls, pc.ended = true

namespace Inv

theorem init : Inv {} := by
  have hparts : SharedMutex.Tracks {} (partsHeld {}) := by
    rw [partsHeld, holds_nil]
    exact .of_free
  have hnone : ∀ (k : Nat) (pc : CallPc), ([] : List CallPc)[k]? ≠ some pc := fun k pc => by simp
  refine ⟨hparts, fun j _ pc _ hj => absurd hj (hnone j pc), fun _ => ?_, fun k pc hk => absurd hk (hnone k pc), ⟨?_, nofun⟩,
    fun k pc hk => absurd hk (hnone k pc), fun k pc hk => absurd hk (hnone k pc), ⟨nofun, nofun, nofun⟩, nofun⟩
  · exact ⟨fun slot p => by simp, by simp, nofun, nofun, nofun, nofun⟩
  · simp

/-- Who is in a slot is in the map, or in the hand of the call that has the map alone. -/
theorem owner_of_slot (h : Inv s) {slot p : Nat} (hslot : s.life.slots slot = some p) :
    ∃ o, s.life.Owns p o ∧ (o = .map ∨ ∃ j pc, o = .call j ∧ s.calls[j]? = some pc ∧ pc.parts = some .exclusive) := by
  rcases hown : s.life.parts_mutex_.owner with _ | t
  · rcases ((h.placed hown).occupied slot p).mp hslot with ⟨part_id, hx, -⟩ | ⟨part_id, hx⟩
    · exact ⟨.map, h.owners.map _ _ _ hx, Or.inl rfl⟩
    · cases hx
  · have hheld := (h.parts.owner t).mp hown
    cases t with
    | clock => cases hheld
    | call j =>
      obtain ⟨pc, hj, hexcl⟩ := Option.bind_eq_some_iff.mp hheld
      rcases ((h.hand j pc hj hexcl).occupied slot p).mp hslot with ⟨part_id, hx, -⟩ | ⟨part_id, hx⟩
      · exact ⟨.map, h.owners.map _ _ _ hx, Or.inl rfl⟩
      · exact ⟨.call j, (h.has j pc hj).owned p (CallPc.owned_of_hand (hx ▸ rfl)), Or.inr ⟨j, pc, rfl, hj, hexcl⟩⟩

theorem call (h : Inv s) {c : Call} (hc : c = .stop → ∀ pc ∈ s.calls, pc.stopping = false) :
    Inv { s with calls := s.calls ++ [c.begin] } where
  parts := by
    rw [partsHeld, holds_snoc (CallPc.begin_parts c)]
    exact h.parts
  stopping j k pc pc' hj hk hp hp' := by
    have hlast : ∀ {i : Nat} {pci : CallPc}, s.calls[i]? = some pci → pci.stopping = true → c.begin.stopping = true → False := by
      intro i pci hi hpi hbegin
      exact absurd (hpi.symm.trans (hc (CallPc.begin_stopping hbegin) pci (List.mem_of_getElem? hi))) nofun
    rcases getElem?_snoc_some.mp hj with ⟨rfl, rfl⟩ | hj <;> rcases getElem?_snoc_some.mp hk with ⟨rfl, rfl⟩ | hk
    · rfl
    · exact (hlast hk hp' hp).elim
    · exact (hlast hj hp hp').elim
    · exact h.stopping j k pc pc' hj hk hp hp'
  placed := h.placed
  hand k pc hk hexcl := by
    rcases getElem?_snoc_some.mp hk with ⟨-, rfl⟩ | hk
    · rw [CallPc.begin_parts] at hexcl
      cases hexcl
    · exact h.hand k pc hk hexcl
  owners := h.owners
  has k pc hk := by
    rcases getElem?_snoc_some.mp hk with ⟨-, rfl⟩ | hk
    · exact CallPc.begin_has ..
    · exact h.has k pc hk
  stands k pc hk := by
    rcases getElem?_snoc_some.mp hk with ⟨-, rfl⟩ | hk
    · exact CallPc.begin_stands ..
    · exact h.stands k pc hk
  teardown := h.teardown
  ended hconf := by
    obtain ⟨pc, hpc, hended⟩ := h.ended hconf
    exact ⟨pc, List.mem_append_left _ hpc, hended⟩

/-- While a call has the map alone no other call has it. -/
theorem others (h : Inv s) {j k : Nat} {pc pcj : CallPc} (hk : s.calls[k]? = some pc) (hexcl : pc.parts = some .exclusive)
    (hjk : j ≠ k) (hj : s.calls[j]? = some pcj) : pcj.parts = none := by
  have hheld : s.partsHeld (.call k) = pc.parts := holds_call hk
  have := h.parts.excludes (u := .call j) (hheld.trans hexcl) (by simpa using hjk)
  rwa [partsHeld, holds_call hj] at this

/-- An add that starts its participant finds no `stop` that destroyed the bridge, but those that have returned. -/
theorem bridge_there (h : Inv s) {k : Nat} {part_id : Bytes} {p : Nat} (hk : s.calls[k]? = some (.addStart part_id p))
    (hstart : .stopReturned ∉ s.calls) : s.life.conf_ = true ∧ s.life.pool_ = true := by
  have hconf : s.life.conf_ = true := by
    by_contra hne
    obtain ⟨pcj, hmem, hended⟩ := h.ended (Bool.eq_false_iff.mpr hne)
    rcases CallPc.of_ended hended with rfl | hexcl
    · exact hstart hmem
    · obtain ⟨j, hj⟩ := List.mem_iff_getElem?.mp hmem
      have hjk : j ≠ k := by
        rintro rfl
        obtain rfl := Option.some.inj (hk.symm.trans hj)
        cases hended
      exact absurd ((h.others hk rfl hjk hj).symm.trans hexcl) nofun
  refine ⟨hconf, ?_⟩
  by_contra hne
  exact absurd (hconf.symm.trans (h.teardown.pool (Bool.eq_false_iff.mpr hne))) nofun

theorem go (h : Inv s) {k : Nat} {ans : Answer} {pc pc' : CallPc} {life : Life} (hk : s.calls[k]? = some pc)
    (hdoes : Lifetime.Does s.life k ans pc life pc' es)
    (hstart : ∀ part_id p, pc = .addStart part_id p → ans.ok = true → .stopReturned ∉ s.calls) :
    Inv { life, calls := s.calls.set k pc' } := by
  have hheld : s.partsHeld (.call k) = pc.parts := holds_call hk
  have hp := h.hand k pc hk
  have hparts : life.parts_mutex_.Tracks (holds CallPc.parts none (s.calls.set k pc')) := by
    rw [holds_set hk]
    refine h.parts.shifts ?_
    rw [hheld]
    exact hdoes.shifts
  have hself : (s.calls.set k pc')[k]? = some pc' := (getElem?_set_some hk).mpr (Or.inl ⟨rfl, rfl⟩)
  have hplaced : pc'.parts = some .exclusive → Placed life.participants_ life.slots pc'.hand := by
    intro hexcl'
    refine hdoes.placed h.owners ?_
    rcases (hexcl' ▸ hdoes.shifts).to_exclusive with hexcl | ⟨hnone, hown⟩
    · exact hp hexcl
    · rw [CallPc.hand_eq_none (hnone ▸ nofun)]
      exact h.placed hown
  refine ⟨hparts, ?_, fun hown => ?_, ?_, ?_, ?_, ?_, ?_, ?_⟩
  · intro i j pci pcj hi hj hsi hsj
    rcases (getElem?_set_some hk).mp hi with ⟨rfl, rfl⟩ | ⟨-, hi'⟩ <;>
      rcases (getElem?_set_some hk).mp hj with ⟨rfl, rfl⟩ | ⟨-, hj'⟩
    · rfl
    · exact h.stopping _ j pc pcj hk hj' (hdoes.stopping hsi) hsj
    · exact h.stopping i _ pci pc hi' hk hsi (hdoes.stopping hsj)
    · exact h.stopping i j pci pcj hi' hj' hsi hsj
  · have hexcl' : pc'.parts ≠ some .exclusive := by
      intro hexcl'
      exact absurd (hown.symm.trans ((hparts.owner (.call k)).mpr ((holds_call hself).trans hexcl'))) nofun
    by_cases hexcl : pc.parts = some .exclusive
    · rw [← CallPc.hand_eq_none hexcl']
      exact hdoes.placed h.owners (hp hexcl)
    · obtain ⟨hmap, hslots⟩ := hdoes.same hexcl
      rw [hmap, hslots]
      exact h.placed ((hdoes.shifts.owner_eq hexcl hexcl').symm.trans hown)
  · intro j pcj hj hexclj
    rcases (getElem?_set_some hk).mp hj with ⟨-, rfl⟩ | ⟨hjk, hj⟩
    · exact hplaced hexclj
    · have hexcl : pc.parts ≠ some .exclusive := fun hexcl => absurd ((h.others hk hexcl hjk hj).symm.trans hexclj) nofun
      obtain ⟨hmap, hslots⟩ := hdoes.same hexcl
      rw [hmap, hslots]
      exact h.hand j pcj hj hexclj
  · refine hdoes.owners h.owners (h.has k pc hk) hp fun hexcl slot p hslot => ?_
    obtain ⟨o, howns, ho⟩ := h.owner_of_slot hslot
    refine ⟨o, ?_, howns⟩
    rintro rfl
    rcases ho with ho | ⟨j, pcj, ho, hj, hexclj⟩
    · cases ho
    · cases ho
      exact hexcl (Option.some.inj (hk.symm.trans hj) ▸ hexclj)
  · intro j pcj hj
    rcases (getElem?_set_some hk).mp hj with ⟨rfl, rfl⟩ | ⟨hjk, hj⟩
    · exact hdoes.mine h.owners (h.has _ pc hk) hp
    · exact hdoes.has h.owners (h.has k pc hk) hjk (h.has j pcj hj)
  · intro j pcj hj
    rcases (getElem?_set_some hk).mp hj with ⟨rfl, rfl⟩ | ⟨hjk, hj⟩
    · exact hdoes.stands h.teardown (h.stands _ pc hk) fun part_id p hpc hok => h.bridge_there (hpc ▸ hk) (hstart part_id p hpc hok)
    · refine hdoes.stands_other (fun hstop => ?_) (fun hexcl => h.others hk hexcl hjk hj) (h.stands j pcj hj)
      by_contra hne
      exact hjk (h.stopping j k pcj pc hj hk (by simpa using hne) hstop)
  · exact hdoes.teardown h.teardown (h.stands k pc hk) hp
  · intro hconf
    rcases hdoes.conf hconf with hconf | hended
    · obtain ⟨pcj, hmem, hended⟩ := h.ended hconf
      obtain ⟨j, hj⟩ := List.mem_iff_getElem?.mp hmem
      by_cases hjk : j = k
      · subst hjk
        obtain rfl := Option.some.inj (hk.symm.trans hj)
        exact ⟨pc', List.mem_of_getElem? hself, hdoes.ended hended⟩
      · exact ⟨pcj, List.mem_of_getElem? ((getElem?_set_some hk).mpr (Or.inr ⟨hjk, hj⟩)), hended⟩
    · exact ⟨pc', List.mem_of_getElem? hself, hended⟩

theorem tick (h : Inv s) {life : Life} (hticks : Ticks s.life life es) : Inv { s with life } := by
  have hstands : ∀ (k : Nat) (pc : CallPc), s.calls[k]? = some pc → pc.Stands life :=
    fun k pc hk => hticks.stands (h.stands k pc hk)
  have hteardown := hticks.teardown h.teardown
  have hhas : ∀ (k : Nat) (pc : CallPc), s.calls[k]? = some pc → Has life k pc := by
    intro k pc hk
    obtain ⟨howned, hfresh, hgone⟩ := h.has k pc hk
    cases hticks <;> exact ⟨howned, hfresh, hgone⟩
  cases hticks <;> exact ⟨h.parts, h.stopping, h.placed, h.hand, ⟨h.owners.map, h.owners.stopped⟩, hhas, hstands, hteardown, h.ended⟩

end Inv

/-- No add starts its participant once a `stop` has returned. -/
def NoLateStart (s : Session) : LifeAct → Prop
  | .go k ans => s.calls[k]?.any (·.starting) = true → ans.ok = true → .stopReturned ∉ s.calls
  | _ => True

/-- No add is called once a `stop` was called. -/
def NoAddAfterStop (s : Session) : LifeAct → Prop
  | .call (.add _) => ∀ pc ∈ s.calls, pc.stopping = false ∧ pc ≠ .stopReturned
  | _ => True

instance (s : Session) : DecidablePred (NoLateStart s)
  | .go _ _ => inferInstanceAs (Decidable (_ → _ → _))
  | .call _ | .tick => .isTrue trivial

instance (s : Session) : DecidablePred (NoAddAfterStop s)
  | .call (.add _) => inferInstanceAs (Decidable (∀ pc ∈ s.calls, _))
  | .call .stop | .call (.set_participant_mute _) | .call (.remove_participant _) | .call (.get_participant _)
  | .go _ _ | .tick => .isTrue trivial

theorem run_inv (hrun : machine.Run NoLateStart tr s) : Inv s ∧ Told tr s.life ∧ OnceInOrder tr := by
  refine hrun.invariant (I := fun tr s => Inv s ∧ Told tr s.life ∧ OnceInOrder tr) ?_ ?_
  · rintro _ rfl
    exact ⟨.init, ⟨by simp, by simp, by simp, rfl⟩, .nil⟩
  · rintro tr s a t es ⟨hi, htold, honce⟩ hok hstep
    cases step_does hstep with
    | call hc =>
      rw [List.append_nil]
      exact ⟨hi.call hc, htold, honce⟩
    | go hk hdoes =>
      refine ⟨hi.go hk hdoes ?_, hdoes.told hi.teardown (hi.stands _ _ hk) (hi.hand _ _ hk) htold honce⟩
      rintro part_id p rfl
      exact hok (by rw [hk]; rfl)
    | tick hticks => exact ⟨hi.tick hticks, hticks.told hi.teardown htold honce⟩

end Session

/-- A tick that calls the bridge finds it there, and in its slots nobody who was stopped or whom nobody owns. -/
def Life.TickSafe (s : Life) : Prop :=
  s.tick ≠ .idle → s.conf_ = true ∧ ∀ slot p, s.slots slot = some p →
    ∃ x, s.objects[p]? = some x ∧ x.owners ≠ [] ∧ x.stopped = false

namespace Session
variable {s : Session} {tr : List Event}

theorem Inv.tickSafe (h : Inv s) : s.life.TickSafe := by
  refine fun htick => ⟨h.teardown.conf_of_tick htick, fun slot p hslot => ?_⟩
  obtain ⟨o, ⟨x, hx, hmem⟩, -⟩ := h.owner_of_slot hslot
  refine ⟨x, hx, List.ne_nil_of_mem hmem, ?_⟩
  by_contra hne
  exact h.owners.stopped p x hx (by simpa using hne) slot hslot

/-- However ticks and calls interleave: as long as no add starts its participant after a `stop` has returned, the ticks
    meet only participants that are held alive and not stopped, and the clock, the ports, the bridge and the pool go once
    each and in that order. -/
theorem torn_down_once (hrun : machine.Run NoLateStart tr s) : s.life.TickSafe ∧ OnceInOrder tr :=
  ⟨(run_inv hrun).1.tickSafe, (run_inv hrun).2.2⟩

/-- Two participants join, the first is removed, and a `stop` waits for a tick. -/
def stopWaits : List LifeAct :=
  [LifeAct.call (.add (ascii "a"))] ++ List.replicate 10 (LifeAct.go 0 {}) ++
  [LifeAct.call (.add (ascii "b")), .tick, .tick] ++ List.replicate 7 (LifeAct.go 1 { slot := some 2 }) ++
  List.replicate 3 LifeAct.tick ++ List.replicate 5 (LifeAct.go 1 {}) ++
  [LifeAct.call (.remove_participant (ascii "a"))] ++ List.replicate 7 (LifeAct.go 2 {}) ++
  List.replicate 3 LifeAct.tick ++ [LifeAct.call .stop, .go 3 {}]

theorem torn_down_once_waiting : ∃ tr s, machine.Run NoLateStart tr s ∧
    tr = [.zalloc, .added 0 1, .bridge, .zalloc, .added 1 2, .bridge, .bridge, .bridge, .removed (some 0) 1, .bridge] ∧
    s.life.tick = .getFrame ∧ s.life.slots 2 = some 1 ∧ s.life.TickSafe ∧ OnceInOrder tr := by
  have hmeets : machine.Meets NoLateStart {} stopWaits := meets_of_checks (by decide +kernel)
  obtain ⟨tr, s, hrun, hs⟩ := exists_run machine {} stopWaits rfl hmeets (fun r =>
    r.2 == [.zalloc, .added 0 1, .bridge, .zalloc, .added 1 2, .bridge, .bridge, .bridge, .removed (some 0) 1, .bridge] &&
      r.1.life.tick == .getFrame && r.1.life.slots 2 == some 1) (by decide +kernel)
  simp only [Bool.and_eq_true, beq_iff_eq] at hs
  obtain ⟨⟨htr, htick⟩, hslot⟩ := hs
  exact ⟨tr, s, hrun, htr, htick, hslot, torn_down_once hrun⟩

/-- An add was called before a `stop` and takes `parts_mutex_` after it. -/
def addOvertaken : List LifeAct :=
  [LifeAct.call (.add (ascii "a")), .call .stop] ++ List.replicate 10 (LifeAct.go 1 {}) ++ List.replicate 4 (LifeAct.go 0 {})

/-- It asks the pool for memory that was released. -/
theorem add_uses_released_pool :
    ¬∀ tr s, machine.Run NoAddAfterStop tr s → s.life.TickSafe ∧ OnceInOrder tr := by
  intro h
  have hmeets : machine.Meets NoAddAfterStop {} addOvertaken := meets_of_checks (by decide +kernel)
  obtain ⟨tr, s, hrun, htr⟩ := exists_run machine {} addOvertaken rfl hmeets
    (fun r => r.2 == [.clockDestroyed, .confDestroyed, .poolReleased, .zalloc]) (by decide +kernel)
  have hlawful := (h tr s hrun).2 [.clockDestroyed, .confDestroyed, .poolReleased] .zalloc [] (beq_iff_eq.mp htr)
  exact hlawful (by decide)

end Session
end AudioMeet.Lifetime
