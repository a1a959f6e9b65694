import AudioMeet.Theorems.Lifetime.Owners

/-! The clock, the bridge and the pool go one after the other, and PJMEDIA is not called on what is gone. -/

namespace AudioMeet.Lifetime
open Lib

/-! ### The calls of PJMEDIA -/

def Event.occupy (slots : Nat → Option Nat) : Event → Nat → Option Nat
  | .added p slot => Function.update slots slot (some p)
  | .removed _ slot => Function.update slots slot none
  | _ => slots

/-- Whose ports are in the slots after these calls. -/
def occupied (tr : List Event) : Nat → Option Nat := tr.foldl Event.occupy fun _ => none

/-- This call may follow those of `tr`: what it is about is there, it destroys nothing twice, and the clock goes before
    the bridge and the bridge, which is empty by then, before the pool. -/
def Event.Lawful (tr : List Event) : Event → Prop
  | .zalloc => .poolReleased ∉ tr
  | .bridge => .confDestroyed ∉ tr
  | .added _ slot => .confDestroyed ∉ tr ∧ .poolReleased ∉ tr ∧ occupied tr slot = none
  | .refused => .confDestroyed ∉ tr ∧ .poolReleased ∉ tr
  | .removed p slot => .confDestroyed ∉ tr ∧ p ≠ none ∧ occupied tr slot = p
  | .clockDestroyed => .clockDestroyed ∉ tr
  | .confDestroyed => .confDestroyed ∉ tr ∧ .clockDestroyed ∈ tr ∧ ∀ slot, occupied tr slot = none
  | .poolReleased => .poolReleased ∉ tr ∧ .confDestroyed ∈ tr

def OnceInOrder (tr : List Event) : Prop := ∀ tr₁ e tr₂, tr = tr₁ ++ e :: tr₂ → e.Lawful tr₁

/-- The meeting knows what was destroyed, and who is in the slots. -/
structure Told (tr : List Event) (s : Life) : Prop where
  clock : s.clock_ = true ↔ .clockDestroyed ∉ tr
  conf : s.conf_ = true ↔ .confDestroyed ∉ tr
  pool : s.pool_ = true ↔ .poolReleased ∉ tr
  slots : s.slots = occupied tr

section Traces
variable {tr : List Event} {e : Event} {s s' : Life}

theorem Event.Idle.lawful (he : e.Idle) (hconf : .confDestroyed ∉ tr) (hpool : .poolReleased ∉ tr) : e.Lawful tr := by
  cases e with
  | zalloc => exact hpool
  | bridge => exact hconf
  | refused => exact ⟨hconf, hpool⟩
  | _ => exact he.elim

theorem OnceInOrder.nil : OnceInOrder [] := by
  intro tr₁ e tr₂ h
  simp at h

theorem OnceInOrder.snoc (h : OnceInOrder tr) (he : e.Lawful tr) : OnceInOrder (tr ++ [e]) := by
  intro tr₁ e' tr₂ heq
  rcases List.eq_nil_or_concat tr₂ with rfl | ⟨tr₃, e'', htr⟩
  · obtain ⟨rfl, h'⟩ := List.append_inj' heq rfl
    rwa [← List.singleton_inj.mp h']
  · rw [htr, List.concat_eq_append, ← List.cons_append, ← List.append_assoc] at heq
    exact h tr₁ e' tr₃ (List.append_inj' heq rfl).1

theorem occupied_snoc : occupied (tr ++ [e]) = e.occupy (occupied tr) := by
  simp [occupied]

theorem Told.idle (h : Told tr s) (he : e.Idle) (hclock : s'.clock_ = s.clock_) (hconf : s'.conf_ = s.conf_)
    (hpool : s'.pool_ = s.pool_) (hslots : s'.slots = s.slots) : Told (tr ++ [e]) s' := by
  refine ⟨?_, ?_, ?_, ?_⟩
  · rw [hclock, h.clock]
    cases e <;> first | exact he.elim | simp
  · rw [hconf, h.conf]
    cases e <;> first | exact he.elim | simp
  · rw [hpool, h.pool]
    cases e <;> first | exact he.elim | simp
  · rw [hslots, h.slots, occupied_snoc]
    cases e <;> first | rfl | exact he.elim

end Traces

/-! ### The clock, the bridge and the pool -/

/-- Each goes after the one before, and the bridge after the participants. -/
structure Teardown (s : Life) : Prop where
  clock : s.clock_ = false → s.running = false ∧ s.tick = .idle
  conf : s.conf_ = false → s.clock_ = false ∧ ∀ part_id : Bytes, s.participants_[part_id]? = none
  pool : s.pool_ = false → s.conf_ = false

section Steps
variable {s s' : Life} {k : Nat} {ans : Answer} {pc pc' : CallPc} {es tr : List Event}

theorem Teardown.of_part (h : Teardown s) {part_id : Bytes} {x : Nat × Nat} (hx : s.participants_[part_id]? = some x) :
    s.conf_ = true ∧ s.pool_ = true := by
  have hconf : s.conf_ = true := by
    by_contra hne
    have hnone := (h.conf (Bool.eq_false_iff.mpr hne)).2 part_id
    rw [hx] at hnone
    cases hnone
  refine ⟨hconf, ?_⟩
  by_contra hne
  rw [h.pool (Bool.eq_false_iff.mpr hne)] at hconf
  cases hconf

namespace CallPc

theorem parts_of_needs (h : pc.needs = true) : pc.parts ≠ none := by
  cases pc <;> first | exact Option.some_ne_none _ | cases h

theorem stands_iff (h : pc.stopping = false) : pc.Stands s ↔ (pc.needs = true → s.conf_ = true ∧ s.pool_ = true) := by
  cases pc <;> first | exact Iff.rfl | cases h

theorem Stands.of_needs (h : pc.Stands s) (hneeds : pc.needs = true) : s.conf_ = true ∧ s.pool_ = true := by
  cases pc <;> first | exact h hneeds | cases hneeds

theorem Stands.congr (h : pc.Stands s) (hrun : s'.running = s.running) (hclock : s'.clock_ = s.clock_)
    (htick : s.running = false → s.tick = .idle → s'.tick = .idle) (hconf : s'.conf_ = s.conf_)
    (hpool : s'.pool_ = s.pool_) : pc.Stands s' := by
  cases pc <;> simp only [Stands, hrun, hclock, hconf, hpool] at h ⊢ <;> first | exact h | exact ⟨h.1, h.2.1, htick h.1 h.2.2⟩

end CallPc

/-- `stop` is in order: each destroys what the one before left. -/
theorem Does.teardown (h : Does s k ans pc s' pc' es) (ht : Teardown s) (hst : pc.Stands s)
    (hp : pc.parts = some .exclusive → Placed s.participants_ s.slots pc.hand) : Teardown s' := by
  have herase : ∀ {part_id : Bytes}, s.conf_ = false →
      s.clock_ = false ∧ ∀ i : Bytes, (s.participants_.erase part_id)[i]? = none := by
    intro part_id hconf
    refine ⟨(ht.conf hconf).1, fun i => ?_⟩
    rw [Option.eq_none_iff_forall_ne_some]
    intro x hx
    exact absurd (((ht.conf hconf).2 i).symm.trans (Placed.get_erase.mp hx).2) nofun
  cases h with
  | joined => exact ⟨ht.clock, fun hconf => absurd ((hst rfl).1.symm.trans hconf) nofun, ht.pool⟩
  | left _ => exact ⟨ht.clock, herase, ht.pool⟩
  | clockStopped _ => exact ⟨fun hclock => ⟨rfl, (ht.clock hclock).2⟩, ht.conf, ht.pool⟩
  | clockDestroyed => exact ⟨fun _ => ⟨hst.1, hst.2.2⟩, fun hconf => ⟨rfl, (ht.conf hconf).2⟩, ht.pool⟩
  | cleared _ => exact ⟨ht.clock, herase, ht.pool⟩
  | confDestroyed => exact ⟨ht.clock, fun _ => ⟨hst, (hp rfl).cleared_none⟩, fun _ => rfl⟩
  | poolReleased => exact ⟨ht.clock, ht.conf, fun _ => hst.2⟩
  | _ => exact ⟨ht.clock, ht.conf, ht.pool⟩

/-- What the call knows afterwards. -/
theorem Does.stands (h : Does s k ans pc s' pc' es) (ht : Teardown s) (hst : pc.Stands s)
    (hstart : ∀ part_id p, pc = .addStart part_id p → ans.ok = true → s.conf_ = true ∧ s.pool_ = true) :
    pc'.Stands s' := by
  cases h with
  | moved _ hmoves _ =>
    have hmap : (∃ (part_id : Bytes) (x : Nat × Nat), s.participants_[part_id]? = some x) →
        s.conf_ = true ∧ s.pool_ = true := fun ⟨_, _, hx⟩ => ht.of_part hx
    exact (hmoves.stands hmap hst).congr rfl rfl (fun _ => id) rfl rfl
  | made _ => exact nofun
  | started hok => exact fun _ => hstart _ _ rfl hok
  | ported _ => exact fun _ => hst rfl
  | joined => exact nofun
  | stops hpc =>
    rcases hpc with ⟨rfl, rfl⟩ | ⟨rfl, rfl⟩
    · exact nofun
    · exact nofun
  | drops hpc =>
    rcases hpc with ⟨rfl, rfl⟩ | ⟨rfl, rfl⟩
    · exact nofun
    · exact nofun
  | left hx => exact fun _ => ht.of_part hx
  | freed => exact nofun
  | copied _ => exact nofun
  | clockStopped hclock => exact ⟨rfl, hclock⟩
  | clockGone hclock => exact hclock
  | waited htick => exact ⟨hst.1, hst.2, htick⟩
  | clockDestroyed => exact rfl
  | slotFreed _ => exact hst
  | stopped _ => exact hst
  | cleared _ => exact hst
  | confDestroyed => exact ⟨hst, rfl⟩
  | poolReleased => exact ⟨hst.1, hst.2, rfl⟩

/-- What the other calls know stays so. -/
theorem Does.stands_other (h : Does s k ans pc s' pc' es) {pcj : CallPc}
    (hstop : pc.stopping = true → pcj.stopping = false) (hparts : pc.parts = some .exclusive → pcj.parts = none)
    (hj : pcj.Stands s) : pcj.Stands s' := by
  have hneeds : pc.parts = some .exclusive → pcj.needs ≠ true :=
    fun hexcl hneeds => CallPc.parts_of_needs hneeds (hparts hexcl)
  cases h with
  | clockStopped _ =>
    have hkeeps := (CallPc.stands_iff (hstop rfl)).mp hj
    exact (CallPc.stands_iff (hstop rfl)).mpr hkeeps
  | clockDestroyed =>
    have hkeeps := (CallPc.stands_iff (hstop rfl)).mp hj
    exact (CallPc.stands_iff (hstop rfl)).mpr hkeeps
  | confDestroyed => exact (CallPc.stands_iff (hstop rfl)).mpr fun hn => absurd hn (hneeds rfl)
  | poolReleased => exact (CallPc.stands_iff (hstop rfl)).mpr fun hn => absurd hn (hneeds rfl)
  | _ => exact hj.congr rfl rfl (fun _ => id) rfl rfl

/-- Every call of PJMEDIA is lawful, and the meeting knows what it did. -/
theorem Does.told (h : Does s k ans pc s' pc' es) (ht : Teardown s) (hst : pc.Stands s)
    (hp : pc.parts = some .exclusive → Placed s.participants_ s.slots pc.hand) (htold : Told tr s)
    (honce : OnceInOrder tr) : Told (tr ++ es) s' ∧ OnceInOrder (tr ++ es) := by
  have hfreed : ∀ {slot p : Nat} {crashed : Bool}, s.conf_ = true → s.slots slot = some p →
      Told (tr ++ [.removed (s.slots slot) slot]) { s with slots := Function.update s.slots slot none, crashed } ∧
        OnceInOrder (tr ++ [.removed (s.slots slot) slot]) := by
    intro slot p crashed hconf hslot
    refine ⟨⟨by simpa using htold.clock, by simpa using htold.conf, by simpa using htold.pool, ?_⟩,
      honce.snoc ⟨htold.conf.mp hconf, by simp [hslot], by rw [htold.slots]⟩⟩
    rw [occupied_snoc, ← htold.slots]
    rfl
  cases h with
  | moved _ _ hes =>
    rcases hes with rfl | ⟨hneeds, e, rfl, he⟩
    · rw [List.append_nil]
      exact ⟨⟨htold.clock, htold.conf, htold.pool, htold.slots⟩, honce⟩
    · obtain ⟨hconf, hpool⟩ := hst.of_needs hneeds
      exact ⟨htold.idle he rfl rfl rfl rfl, honce.snoc (he.lawful (htold.conf.mp hconf) (htold.pool.mp hpool))⟩
  | ported hslot =>
    obtain ⟨hconf, hpool⟩ := hst rfl
    refine ⟨⟨by simpa using htold.clock, by simpa using htold.conf, by simpa using htold.pool, ?_⟩,
      honce.snoc ⟨htold.conf.mp hconf, htold.pool.mp hpool, htold.slots ▸ hslot⟩⟩
    rw [occupied_snoc, ← htold.slots]
    rfl
  | freed => exact hfreed (hst rfl).1 (hp rfl).slot_of_carries
  | clockDestroyed =>
    exact ⟨⟨by simp, by simpa using htold.conf, by simpa using htold.pool, by rw [occupied_snoc]; exact htold.slots⟩,
      honce.snoc (htold.clock.mp hst.2.1)⟩
  | slotFreed hx => exact hfreed (ht.of_part hx).1 ((hp rfl).slot_of_freeing hx)
  | confDestroyed =>
    have hclock : Event.clockDestroyed ∈ tr := by
      by_contra hne
      exact absurd (hst.symm.trans (htold.clock.mpr hne)) nofun
    cases hconf : s.conf_
    · rw [if_neg Bool.false_ne_true, List.append_nil]
      exact ⟨⟨htold.clock, hconf ▸ htold.conf, htold.pool, htold.slots⟩, honce⟩
    · rw [if_pos rfl]
      refine ⟨⟨by simpa using htold.clock, by simp, by simpa using htold.pool, ?_⟩,
        honce.snoc ⟨htold.conf.mp hconf, hclock, fun slot => ?_⟩⟩
      · rw [occupied_snoc]
        exact htold.slots
      · rw [← htold.slots]
        exact (hp rfl).slots_none (fun _ => id) slot
  | poolReleased =>
    have hgone : Event.confDestroyed ∈ tr := by
      by_contra hne
      exact absurd (hst.2.symm.trans (htold.conf.mpr hne)) nofun
    cases hpool : s.pool_
    · rw [if_neg Bool.false_ne_true, List.append_nil]
      exact ⟨⟨htold.clock, htold.conf, hpool ▸ htold.pool, htold.slots⟩, honce⟩
    · rw [if_pos rfl]
      refine ⟨⟨by simpa using htold.clock, by simpa using htold.conf, by simp, ?_⟩,
        honce.snoc ⟨htold.pool.mp hpool, hgone⟩⟩
      rw [occupied_snoc]
      exact htold.slots
  | _ =>
    rw [List.append_nil]
    exact ⟨⟨htold.clock, htold.conf, htold.pool, htold.slots⟩, honce⟩

theorem Does.shifts (h : Does s k ans pc s' pc' es) :
    s.parts_mutex_.Shifts (.call k) pc.parts pc'.parts s'.parts_mutex_ := by
  cases h with
  | moved hshift _ _ => exact hshift
  | stops hpc =>
    rcases hpc with ⟨rfl, rfl⟩ | ⟨rfl, rfl⟩
    · exact .stay
    · exact .stay
  | drops hpc =>
    rcases hpc with ⟨rfl, rfl⟩ | ⟨rfl, rfl⟩
    · exact .stay
    · exact .stay
  | _ => exact .stay

theorem Does.stopping (h : Does s k ans pc s' pc' es) (hstop : pc'.stopping = true) : pc.stopping = true := by
  cases h with
  | moved _ hmoves _ => exact hmoves.stopping hstop
  | stops hpc =>
    rcases hpc with ⟨rfl, rfl⟩ | ⟨rfl, rfl⟩
    · cases hstop
    · cases hstop
  | drops hpc =>
    rcases hpc with ⟨rfl, rfl⟩ | ⟨rfl, rfl⟩
    · cases hstop
    · cases hstop
  | _ => first | rfl | cases hstop

theorem Does.ended (h : Does s k ans pc s' pc' es) (hended : pc.ended = true) : pc'.ended = true := by
  cases h with
  | moved _ hmoves _ => exact hmoves.ended hended
  | stops hpc =>
    rcases hpc with ⟨rfl, rfl⟩ | ⟨rfl, rfl⟩
    · cases hended
    · cases hended
  | drops hpc =>
    rcases hpc with ⟨rfl, rfl⟩ | ⟨rfl, rfl⟩
    · cases hended
    · cases hended
  | _ => first | rfl | cases hended

theorem Does.conf (h : Does s k ans pc s' pc' es) (hconf : s'.conf_ = false) : s.conf_ = false ∨ pc'.ended = true := by
  cases h with
  | confDestroyed => exact Or.inr rfl
  | _ => exact Or.inl hconf

/-! ### The ticks -/

/-- What a step of `on_clock_tick` can do. -/
inductive Ticks (s : Life) : Life → List Event → Prop
  | begins : s.running = true → Ticks s { s with tick := .getMasterPort } []
  | goes {tick : TickPc} {m : SharedMutex Live.Thread} : s.tick ≠ .idle → Ticks s { s with tick, conf_mutex_ := m } []
  | calls {tick : TickPc} {crashed : Bool} : s.tick ≠ .idle → Ticks s { s with tick, crashed } [.bridge]

theorem goTick_ticks (h : s.goTick = some (s', es)) : Ticks s s' es := by
  unfold Life.goTick at h
  cases htick : s.tick <;> simp only [htick] at h
  · split at h <;> cases h
    exact .begins ‹_›
  · cases h
    exact .calls (htick ▸ nofun)
  · obtain ⟨m, -, h⟩ := Option.map_eq_some_iff.mp h
    cases h
    exact .goes (htick ▸ nofun)
  · cases h
    exact .calls (htick ▸ nofun)
  · obtain ⟨m, -, h⟩ := Option.map_eq_some_iff.mp h
    cases h
    exact .goes (htick ▸ nofun)

theorem Teardown.conf_of_tick (h : Teardown s) (htick : s.tick ≠ .idle) : s.conf_ = true := by
  by_contra hne
  exact htick (h.clock (h.conf (Bool.eq_false_iff.mpr hne)).1).2

theorem Ticks.teardown (h : Ticks s s' es) (ht : Teardown s) : Teardown s' := by
  cases h with
  | begins hrun => exact ⟨fun hclock => absurd ((ht.clock hclock).1.symm.trans hrun) nofun, ht.conf, ht.pool⟩
  | goes htick => exact ⟨fun hclock => absurd (ht.clock hclock).2 htick, ht.conf, ht.pool⟩
  | calls htick => exact ⟨fun hclock => absurd (ht.clock hclock).2 htick, ht.conf, ht.pool⟩

theorem Ticks.stands (h : Ticks s s' es) (hst : pc.Stands s) : pc.Stands s' := by
  cases h with
  | begins hrun => exact hst.congr rfl rfl (fun hstop => absurd (hstop.symm.trans hrun) nofun) rfl rfl
  | goes htick => exact hst.congr rfl rfl (fun _ hidle => absurd hidle htick) rfl rfl
  | calls htick => exact hst.congr rfl rfl (fun _ hidle => absurd hidle htick) rfl rfl

theorem Ticks.told (h : Ticks s s' es) (ht : Teardown s) (htold : Told tr s) (honce : OnceInOrder tr) :
    Told (tr ++ es) s' ∧ OnceInOrder (tr ++ es) := by
  cases h with
  | calls htick =>
    have hconf := htold.conf.mp (ht.conf_of_tick htick)
    exact ⟨htold.idle trivial rfl rfl rfl rfl, honce.snoc hconf⟩
  | _ =>
    rw [List.append_nil]
    exact ⟨⟨htold.clock, htold.conf, htold.pool, htold.slots⟩, honce⟩

end Steps
end AudioMeet.Lifetime
