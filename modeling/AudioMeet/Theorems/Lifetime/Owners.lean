import AudioMeet.Lib.Lists
import AudioMeet.Theorems.Lifetime.Step

/-! Who keeps a participant alive, and that the slots of the bridge hold nobody that was stopped. -/

namespace AudioMeet.Lifetime
open Lib

/-- The participant is there, and has this owner. -/
def Life.Owns (s : Life) (p : Nat) (o : Owner) : Prop := ∃ x, s.objects[p]? = some x ∧ o ∈ x.owners

/-- What a call has. -/
structure Has (s : Life) (k : Nat) (pc : CallPc) : Prop where
  owned : ∀ p, pc.owned = some p → s.Owns p (.call k)
  fresh : ∀ p, pc.fresh = some p → s.objects[p]? = some (PartObject.new k)
  gone : ∀ p, pc.gone = some p → ∀ slot, s.slots slot ≠ some p

structure Owners (s : Life) : Prop where
  map : ∀ (part_id : Bytes) (p slot : Nat), s.participants_[part_id]? = some (p, slot) → s.Owns p .map
  stopped : ∀ (p : Nat) (x : PartObject), s.objects[p]? = some x → x.stopped = true → ∀ slot, s.slots slot ≠ some p

/-- Call `k` changes only what it or the map owns, and no owner but those. -/
structure Kept (k : Nat) (x x' : PartObject) : Prop where
  owners : ∀ o ∈ x.owners, o ≠ .map → o ≠ .call k → o ∈ x'.owners
  same : x' = x ∨ .map ∈ x.owners ∨ .call k ∈ x.owners

section Objects
variable {s : Life} {p q k : Nat} {f : PartObject → PartObject}

theorem getElem?_object : (s.object p f).objects[q]? = if p = q then s.objects[q]?.map f else s.objects[q]? := by
  simp only [Life.object, List.getElem?_modify]
  split <;> simp

theorem getElem?_object_some {x : PartObject} (h : (s.object p f).objects[q]? = some x) :
    (p = q ∧ ∃ y, s.objects[q]? = some y ∧ x = f y) ∨ (p ≠ q ∧ s.objects[q]? = some x) := by
  rw [getElem?_object] at h
  split at h
  · obtain ⟨y, hy, rfl⟩ := Option.map_eq_some_iff.mp h
    exact Or.inl ⟨‹_›, y, hy, rfl⟩
  · exact Or.inr ⟨‹_›, h⟩

theorem owns_object {o o' : Owner} (hf : ∀ x : PartObject, o ∈ x.owners → p = q → o' ∈ (f x).owners)
    (ho : p ≠ q → o' = o) (h : s.Owns q o) : (s.object p f).Owns q o' := by
  obtain ⟨x, hx, hmem⟩ := h
  by_cases hpq : p = q
  · exact ⟨f x, by rw [getElem?_object, if_pos hpq, hx]; rfl, hf x hmem hpq⟩
  · exact ⟨x, by rw [getElem?_object, if_neg hpq, hx], ho hpq ▸ hmem⟩

theorem kept_object {x : PartObject} {o : Owner} (ho : o = .map ∨ o = .call k) (howns : s.Owns p o)
    (hf : ∀ x : PartObject, ∀ o ∈ x.owners, o ≠ .map → o ≠ .call k → o ∈ (f x).owners) (hx : s.objects[q]? = some x) :
    ∃ x', (s.object p f).objects[q]? = some x' ∧ Kept k x x' := by
  by_cases hpq : p = q
  · subst hpq
    obtain ⟨y, hy, hmem⟩ := howns
    obtain rfl := Option.some.inj (hx.symm.trans hy)
    refine ⟨f x, by rw [getElem?_object, if_pos rfl, hx]; rfl, hf x, Or.inr ?_⟩
    rcases ho with rfl | rfl
    · exact Or.inl hmem
    · exact Or.inr hmem
  · exact ⟨x, by rw [getElem?_object, if_neg hpq, hx], fun _ h _ _ => h, Or.inl rfl⟩

theorem Kept.refl (x : PartObject) : Kept k x x := ⟨fun _ h _ _ => h, Or.inl rfl⟩

theorem Kept.trans {x y z : PartObject} (h : Kept k x y) (h' : Kept k y z) : Kept k x z := by
  refine ⟨fun o ho hm hk => h'.owners o (h.owners o ho hm hk) hm hk, ?_⟩
  rcases h.same with rfl | hown
  · exact h'.same
  · exact Or.inr hown

theorem mem_erase {x : PartObject} {o o' : Owner} (h : o ∈ x.owners) (hne : o ≠ o') : o ∈ x.owners.erase o' :=
  (List.mem_erase_of_ne hne).mpr h

theorem Life.Owns.own {o : Owner} (h : s.Owns q o) (o' : Owner) : (s.own p o').Owns q o :=
  owns_object (fun _ hmem _ => List.mem_cons_of_mem _ hmem) (fun _ => rfl) h

theorem Life.Owns.owned {o : Owner} (h : s.Owns p o) (o' : Owner) : (s.own p o').Owns p o' :=
  owns_object (fun _ _ _ => List.mem_cons_self) (fun hne => absurd rfl hne) h

theorem Life.Owns.disown {o o' : Owner} (h : s.Owns q o) (hne : o ≠ o' ∨ p ≠ q) : (s.disown p o').Owns q o :=
  owns_object (fun _ hmem hpq => mem_erase hmem (hne.resolve_right (not_not_intro hpq))) (fun _ => rfl) h

theorem Life.Owns.stopPart {o : Owner} (h : s.Owns q o) : (s.stopPart p).Owns q o :=
  owns_object (fun _ hmem _ => hmem) (fun _ => rfl) h

end Objects

section Steps
variable {s s' : Life} {k : Nat} {ans : Answer} {pc pc' : CallPc} {es : List Event}

theorem CallPc.hand_eq_none (h : pc.parts ≠ some .exclusive) : pc.hand = .none := by
  cases pc <;> first | rfl | exact absurd rfl h

theorem owned_of_gone {p : Nat} (h : pc.gone = some p) : pc.owned = some p := by
  cases pc <;> first | exact h | cases h

/-- What happens to the participants that were there. -/
theorem Does.objects (h : Does s k ans pc s' pc' es) (hown : Owners s) (hhas : Has s k pc) {q : Nat} {x : PartObject}
    (hx : s.objects[q]? = some x) : ∃ x', s'.objects[q]? = some x' ∧ Kept k x x' := by
  have hcall : ∀ {p : Nat} {f : PartObject → PartObject}, pc.owned = some p →
      (∀ x : PartObject, ∀ o ∈ x.owners, o ≠ .map → o ≠ .call k → o ∈ (f x).owners) →
      ∃ x', (s.object p f).objects[q]? = some x' ∧ Kept k x x' :=
    fun hp hf => kept_object (Or.inr rfl) (hhas.owned _ hp) hf hx
  have hmap : ∀ (t : Life) {part_id : Bytes} {p slot : Nat} {f : PartObject → PartObject}, t.objects = s.objects →
      s.participants_[part_id]? = some (p, slot) →
      (∀ x : PartObject, ∀ o ∈ x.owners, o ≠ .map → o ≠ .call k → o ∈ (f x).owners) →
      ∃ x', (t.object p f).objects[q]? = some x' ∧ Kept k x x' := by
    intro t part_id p slot f ht hp hf
    obtain ⟨y, hy, hmem⟩ := hown.map _ _ _ hp
    exact kept_object (Or.inl rfl) ⟨y, ht ▸ hy, hmem⟩ hf (ht ▸ hx)
  cases h with
  | made _ => exact ⟨x, getElem?_snoc_some.mpr (Or.inr hx), .refl x⟩
  | joined => exact hcall rfl fun x o ho _ _ => List.mem_cons_of_mem _ ho
  | stops hpc =>
    rcases hpc with ⟨rfl, -⟩ | ⟨rfl, -⟩
    · exact hcall rfl fun x o ho _ _ => ho
    · exact hcall rfl fun x o ho _ _ => ho
  | drops hpc =>
    rcases hpc with ⟨rfl, -⟩ | ⟨rfl, -⟩
    · exact hcall rfl fun x o ho _ hk => mem_erase ho hk
    · exact hcall rfl fun x o ho _ hk => mem_erase ho hk
  | @left part_id p slot hp =>
    obtain ⟨y, hy, hkept⟩ := hmap { s with participants_ := s.participants_.erase part_id }
      (f := fun x => { x with owners := .call k :: x.owners }) rfl hp fun x o ho _ _ => List.mem_cons_of_mem _ ho
    have howns : ({ s with participants_ := s.participants_.erase part_id }.own p (.call k)).Owns p (.call k) :=
      Life.Owns.owned (hown.map _ _ _ hp) _
    obtain ⟨z, hz, hkept'⟩ := kept_object (f := fun x =>
      { owners := x.owners.erase .map, stopped := x.stopped || (x.owners.erase .map).isEmpty }) (Or.inr rfl) howns
      (fun x o ho hm _ => mem_erase ho hm) hy
    exact ⟨z, hz, hkept.trans hkept'⟩
  | copied hp => exact hmap _ rfl hp fun x o ho _ _ => List.mem_cons_of_mem _ ho
  | stopped hp => exact hmap _ rfl hp fun x o ho _ _ => ho
  | cleared hp => exact hmap _ rfl hp fun x o ho hm _ => mem_erase ho hm
  | _ => exact ⟨x, hx, .refl x⟩

/-- A slot fills only when an add puts its new participant into it. -/
theorem Does.slots (h : Does s k ans pc s' pc' es) {slot p : Nat} (hslot : s'.slots slot = some p) :
    s.slots slot = some p ∨ pc.fresh = some p := by
  cases h with
  | ported _ =>
    rcases update_some.mp hslot with ⟨-, hfresh⟩ | ⟨-, hslot⟩
    · exact Or.inr hfresh
    · exact Or.inl hslot
  | freed | slotFreed _ =>
    rcases update_some.mp hslot with ⟨-, hnone⟩ | ⟨-, hslot⟩
    · cases hnone
    · exact Or.inl hslot
  | _ => exact Or.inl hslot

/-- The map and the slots change only under the exclusive lock. -/
theorem Does.same (h : Does s k ans pc s' pc' es) (hparts : pc.parts ≠ some .exclusive) :
    s'.participants_ = s.participants_ ∧ s'.slots = s.slots := by
  cases h with
  | ported | joined | left | freed | slotFreed | cleared => exact absurd rfl hparts
  | _ => exact ⟨rfl, rfl⟩

/-- What the other calls have stays theirs. -/
theorem Does.has (h : Does s k ans pc s' pc' es) (hown : Owners s) (hhas : Has s k pc) {j : Nat} (hjk : j ≠ k)
    {pcj : CallPc} (hj : Has s j pcj) : Has s' j pcj where
  owned p hp := by
    obtain ⟨x, hx, hmem⟩ := hj.owned p hp
    obtain ⟨x', hx', hkept⟩ := h.objects hown hhas hx
    exact ⟨x', hx', hkept.owners _ hmem nofun (by simpa using hjk)⟩
  fresh p hp := by
    obtain ⟨x', hx', hkept⟩ := h.objects hown hhas (hj.fresh p hp)
    rcases hkept.same with rfl | hmem | hmem
    · exact hx'
    · simp [PartObject.new] at hmem
    · exact absurd (by simpa [PartObject.new] using hmem : k = j) (Ne.symm hjk)
  gone p hp slot hslot := by
    rcases h.slots hslot with hslot | hfresh
    · exact hj.gone p hp slot hslot
    · obtain ⟨x, hx, hmem⟩ := hj.owned p (owned_of_gone hp)
      obtain rfl := Option.some.inj ((hhas.fresh p hfresh).symm.trans hx)
      exact hjk (by simpa [PartObject.new] using hmem)

theorem Does.placed (h : Does s k ans pc s' pc' es) (hown : Owners s) (hp : Placed s.participants_ s.slots pc.hand) :
    Placed s'.participants_ s'.slots pc'.hand := by
  cases h with
  | moved _ hmoves _ => exact hmoves.hand hp
  | made hnone =>
    refine hp.takes hnone fun part_id slot hx => ?_
    obtain ⟨x, hx, -⟩ := hown.map _ _ _ hx
    exact absurd (List.getElem?_eq_some_iff.mp hx).1 (Nat.lt_irrefl _)
  | ported hslot => exact hp.plugs hslot
  | joined => exact hp.joins
  | stops hpc =>
    rcases hpc with ⟨rfl, rfl⟩ | ⟨rfl, rfl⟩
    · exact hp
    · exact hp
  | drops hpc =>
    rcases hpc with ⟨rfl, rfl⟩ | ⟨rfl, rfl⟩
    · exact hp.lets_go
    · exact hp
  | left hx => exact hp.leaves hx
  | freed => exact hp.unplugs
  | slotFreed hx => exact hp.frees hx
  | cleared _ => exact hp.erases
  | _ => exact hp

/-- What the call itself has afterwards. -/
theorem Does.mine (h : Does s k ans pc s' pc' es) (hown : Owners s) (hhas : Has s k pc)
    (hp : pc.parts = some .exclusive → Placed s.participants_ s.slots pc.hand) : Has s' k pc' := by
  cases h with
  | moved _ hmoves _ =>
    refine ⟨fun p h => hhas.owned p (hmoves.owned p h), fun p h => hhas.fresh p (hmoves.fresh p h), fun p h => ?_⟩
    have hout := hmoves.gone p h
    have hexcl : pc.parts = some .exclusive := by
      by_contra hne
      rw [CallPc.hand_eq_none hne] at hout
      cases hout
    exact (hout ▸ hp hexcl).not_in_slot
  | made _ =>
    have hnew : (s.objects ++ [PartObject.new k])[s.objects.length]? = some (PartObject.new k) :=
      getElem?_snoc_some.mpr (Or.inl ⟨rfl, rfl⟩)
    refine ⟨?_, ?_, nofun⟩
    · rintro _ ⟨⟩
      exact ⟨_, hnew, List.mem_singleton_self _⟩
    · rintro _ ⟨⟩
      exact hnew
  | started _ => exact ⟨hhas.owned, hhas.fresh, nofun⟩
  | ported _ => exact ⟨hhas.owned, nofun, nofun⟩
  | joined => exact ⟨fun p h => (hhas.owned p h).own _, nofun, nofun⟩
  | stops hpc =>
    rcases hpc with ⟨rfl, rfl⟩ | ⟨rfl, rfl⟩
    · exact ⟨fun p h => (hhas.owned p h).stopPart, nofun, nofun⟩
    · exact ⟨fun p h => (hhas.owned p h).stopPart, nofun, nofun⟩
  | drops hpc =>
    rcases hpc with ⟨rfl, rfl⟩ | ⟨rfl, rfl⟩
    · exact ⟨nofun, nofun, nofun⟩
    · exact ⟨nofun, nofun, nofun⟩
  | left hx =>
    refine ⟨?_, nofun, nofun⟩
    rintro _ ⟨⟩
    exact (Life.Owns.owned (hown.map _ _ _ hx) _).disown (Or.inl nofun)
  | freed => exact ⟨hhas.owned, nofun, nofun⟩
  | copied hx =>
    refine ⟨?_, nofun, nofun⟩
    rintro _ ⟨⟩
    exact (hown.map _ _ _ hx).owned _
  | _ => exact ⟨nofun, nofun, nofun⟩

/-- Who was stopped is in no slot, also after a change of one participant. -/
theorem stopped_object {p : Nat} {f : PartObject → PartObject}
    (hs : ∀ (q : Nat) (y : PartObject), s.objects[q]? = some y → y.stopped = true → ∀ slot, s.slots slot ≠ some q)
    (hf : ∀ y, s.objects[p]? = some y → (f y).stopped = true → y.stopped = true ∨ ∀ slot, s.slots slot ≠ some p)
    {q : Nat} {x : PartObject} (hx : (s.object p f).objects[q]? = some x) (hstop : x.stopped = true) (slot : Nat) :
    s.slots slot ≠ some q := by
  rcases getElem?_object_some hx with ⟨rfl, y, hy, rfl⟩ | ⟨-, hx⟩
  · rcases hf y hy hstop with hstop | hnone
    · exact hs _ y hy hstop slot
    · exact hnone slot
  · exact hs q x hx hstop slot

theorem stopped_own {p : Nat} {o : Owner}
    (hs : ∀ (q : Nat) (y : PartObject), s.objects[q]? = some y → y.stopped = true → ∀ slot, s.slots slot ≠ some q)
    {q : Nat} {x : PartObject} (hx : (s.own p o).objects[q]? = some x) (hstop : x.stopped = true) (slot : Nat) :
    s.slots slot ≠ some q := by
  rcases getElem?_object_some hx with ⟨rfl, y, hy, rfl⟩ | ⟨-, hx⟩
  · exact hs _ y hy hstop slot
  · exact hs q x hx hstop slot

/-- The last owner of a participant is not the one that goes. -/
theorem stopped_disown {p : Nat} {o o' : Owner} {y : PartObject} (howns : s.Owns p o) (hne : o ≠ o')
    (hy : s.objects[p]? = some y) (h : (y.stopped || (y.owners.erase o').isEmpty) = true) : y.stopped = true := by
  obtain ⟨y', hy', hmem⟩ := howns
  obtain rfl := Option.some.inj (hy.symm.trans hy')
  refine (Bool.or_eq_true_iff.mp h).resolve_right fun hempty => ?_
  exact List.ne_nil_of_mem (mem_erase hmem hne) (List.isEmpty_iff.mp hempty)

theorem Does.map (h : Does s k ans pc s' pc' es) (hown : Owners s) (hhas : Has s k pc)
    (hp : pc.parts = some .exclusive → Placed s.participants_ s.slots pc.hand) (part_id : Bytes) (p slot : Nat)
    (hx : s'.participants_[part_id]? = some (p, slot)) : s'.Owns p .map := by
  -- An id that leaves the map takes its participant with it.
  have herase : ∀ {i : Bytes} {q n : Nat}, pc.parts = some .exclusive → s.participants_[i]? = some (q, n) →
      (s.participants_.erase i)[part_id]? = some (p, slot) → q ≠ p ∧ s.Owns p .map := by
    intro i q n hexcl hi hx
    obtain ⟨hne, hx⟩ := Placed.get_erase.mp hx
    refine ⟨?_, hown.map _ _ _ hx⟩
    rintro rfl
    exact hne ((hp hexcl).apart _ _ _ _ _ hi hx)
  cases h with
  | made _ =>
    obtain ⟨x, hx, hmem⟩ := hown.map _ _ _ hx
    exact ⟨x, getElem?_snoc_some.mpr (Or.inr hx), hmem⟩
  | @joined i q n =>
    rcases ((hp rfl).get_insert _ _).mp hx with ⟨-, hx⟩ | hx
    · cases hx
      exact (hhas.owned _ rfl).owned _
    · exact (hown.map _ _ _ hx).own _
  | stops _ => exact (hown.map _ _ _ hx).stopPart
  | drops _ => exact (hown.map _ _ _ hx).disown (Or.inl nofun)
  | left hi =>
    obtain ⟨hne, howns⟩ := herase rfl hi hx
    exact (Life.Owns.own howns _).disown (Or.inr hne)
  | copied _ => exact (hown.map _ _ _ hx).own _
  | stopped _ => exact (hown.map _ _ _ hx).stopPart
  | cleared hi =>
    obtain ⟨hne, howns⟩ := herase rfl hi hx
    exact Life.Owns.disown howns (Or.inr hne)
  | _ => exact hown.map _ _ _ hx

/-- Nobody is stopped, or left by its last owner, while in a slot. -/
theorem Does.not_stopped (h : Does s k ans pc s' pc' es) (hown : Owners s) (hhas : Has s k pc)
    (hp : pc.parts = some .exclusive → Placed s.participants_ s.slots pc.hand)
    (hother : pc.parts ≠ some .exclusive → ∀ slot p, s.slots slot = some p → ∃ o, o ≠ .call k ∧ s.Owns p o)
    (q : Nat) (x : PartObject) (hx : s'.objects[q]? = some x) (hstop : x.stopped = true) (slot : Nat) :
    s'.slots slot ≠ some q := by
  cases h with
  | made _ =>
    rcases getElem?_snoc_some.mp hx with ⟨-, rfl⟩ | hx
    · cases hstop
    · exact hown.stopped q x hx hstop slot
  | ported _ =>
    intro hslot
    rcases update_some.mp hslot with ⟨-, hq⟩ | ⟨-, hslot⟩
    · cases hq
      obtain rfl := Option.some.inj ((hhas.fresh _ rfl).symm.trans hx)
      cases hstop
    · exact hown.stopped q x hx hstop slot hslot
  | joined =>
    have hs : ∀ (q : Nat) (y : PartObject), s.objects[q]? = some y → y.stopped = true → ∀ slot, s.slots slot ≠ some q :=
      hown.stopped
    exact stopped_own hs hx hstop slot
  | @stops _ _ p hpc =>
    refine stopped_object hown.stopped (fun _ _ _ => Or.inr ?_) hx hstop slot
    rcases hpc with ⟨rfl, -⟩ | ⟨rfl, -⟩
    · exact (hp rfl).not_in_slot
    · exact hhas.gone p rfl
  | @drops _ _ p hpc =>
    refine stopped_object hown.stopped (fun y hy hstop => ?_) hx hstop slot
    rcases hpc with ⟨rfl, -⟩ | ⟨rfl, -⟩
    · exact Or.inr (hp rfl).not_in_slot
    · by_cases hnone : ∀ slot, s.slots slot ≠ some p
      · exact Or.inr hnone
      · obtain ⟨slot, hslot⟩ := not_forall_not.mp hnone
        obtain ⟨o, hne, howns⟩ := hother nofun slot p hslot
        exact Or.inl (stopped_disown howns hne hy hstop)
  | @left part_id p n hi =>
    have howns : ({ s with participants_ := s.participants_.erase part_id }.own p (.call k)).Owns p (.call k) :=
      Life.Owns.owned (hown.map _ _ _ hi) _
    have hne : Owner.call k ≠ .map := nofun
    refine stopped_object (fun _ _ hy hstop => ?_) (fun y hy hstop => Or.inl (stopped_disown howns hne hy hstop)) hx
      hstop slot
    exact stopped_own hown.stopped hy hstop
  | freed | slotFreed _ =>
    intro hslot
    rcases update_some.mp hslot with ⟨-, hq⟩ | ⟨-, hslot⟩
    · cases hq
    · exact hown.stopped q x hx hstop slot hslot
  | copied _ => exact stopped_own hown.stopped hx hstop slot
  | stopped _ =>
    intro hslot
    exact absurd (((hp rfl).slots_none (fun _ => id) slot).symm.trans hslot) nofun
  | cleared _ =>
    intro hslot
    exact absurd (((hp rfl).slots_none (fun _ => id) slot).symm.trans hslot) nofun
  | _ => exact hown.stopped q x hx hstop slot

theorem Does.owners (h : Does s k ans pc s' pc' es) (hown : Owners s) (hhas : Has s k pc)
    (hp : pc.parts = some .exclusive → Placed s.participants_ s.slots pc.hand)
    (hother : pc.parts ≠ some .exclusive → ∀ slot p, s.slots slot = some p → ∃ o, o ≠ .call k ∧ s.Owns p o) :
    Owners s' := ⟨h.map hown hhas hp, h.not_stopped hown hhas hp hother⟩

end Steps
end AudioMeet.Lifetime
