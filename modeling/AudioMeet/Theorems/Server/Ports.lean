import AudioMeet.Theorems.Server.Step

/-! Who owns a port: a participant of a meeting, or an add request between `allocate` and its end. As long as
    `allocate` hands out no port that a delete or a destroy has still to release, a port has one owner and is
    marked used while it has. -/

namespace AudioMeet.Server
open Lib Machine

/-- The participant `q` with its slot is at `part_id` of the meeting at `m`. -/
def PartAt (s : Server) (m : Nat) (part_id : Bytes) (q : Participant) (slot : Nat) : Prop :=
  ∃ meeting, s.objects[m]? = some meeting ∧ meeting.participants_[part_id]? = some (q, slot)

def Present (s : Server) (m : Nat) (part_id : Bytes) : Prop := ∃ q slot, PartAt s m part_id q slot

inductive Owner
  | part (m : Nat) (part_id : Bytes)
  | request (i : Nat)

/-- The owners of a port. -/
def Owns (s : Server) (p : UInt16) : Owner → Prop
  | .part m part_id => ∃ q slot, PartAt s m part_id q slot ∧ q.port_ = p ∧ p ≠ 0
  | .request i => ∃ pc, s.requests[i]? = some pc ∧ pc.held = some p

/-- Some request is about to release the port. -/
def Pending (s : Server) (p : UInt16) : Prop :=
  ∃ (i : Nat) (pc : ReqPc), s.requests[i]? = some pc ∧ p ∈ pc.pending

/-- Some destroy collected the port from the meeting at `m`, which it did not stop yet. -/
def Collected (s : Server) (m : Nat) (p : UInt16) : Prop :=
  ∃ (i : Nat) (pc : ReqPc) (ports : List UInt16),
    s.requests[i]? = some pc ∧ pc.collected = some (m, ports) ∧ p ∈ ports

structure PortsInv (s : Server) : Prop where
  range : s.port_allocator_.InRange
  used : ∀ p o, Owns s p o → s.port_allocator_.isUsed p = true
  unique : ∀ p o o', Owns s p o → Owns s p o' → o = o'
  pending : ∀ p o, Pending s p → ¬ Owns s p o
  collected : ∀ m p o, Collected s m p → Owns s p o → ∃ part_id, o = .part m part_id

/-- `allocate` hands out no port that a delete or a destroy has still to release. -/
def NoEarlyReuse (s : Server) : ServerAct → Prop
  | .receive _ => True
  | .go i ans =>
    match s.requests[i]? with
    | some (.addAllocate _ _) => ∀ port ∈ (s.port_allocator_.allocate ans.is_port_available).2,
        ∀ pc ∈ s.requests, UInt16.ofNat port ∉ pc.toRelease
    | _ => True

instance (s : Server) : DecidablePred (NoEarlyReuse s)
  | .receive _ => .isTrue trivial
  | .go i ans => by
    unfold NoEarlyReuse
    dsimp only
    generalize s.requests[i]? = req
    rcases req with _ | pc
    · infer_instance
    · rcases pc <;> infer_instance

section Steps
variable {s t : Server} {a : ServerAct} {es : List ServerEvent}

theorem pending_subset_toRelease {pc : ReqPc} {p : UInt16} (h : p ∈ pc.pending) : p ∈ pc.toRelease := by
  cases pc <;> first | exact h | cases h

theorem collected_subset_toRelease {pc : ReqPc} {m : Nat} {ports : List UInt16} {p : UInt16}
    (h : pc.collected = some (m, ports)) (hp : p ∈ ports) : p ∈ pc.toRelease := by
  cases pc <;> cases h <;> exact hp

/-! ### Steps that give no port a new owner -/

/-- The parts of the meetings are parts they had before. -/
def PartsLeave (s t : Server) : Prop := ∀ m part_id q slot, PartAt t m part_id q slot → PartAt s m part_id q slot

theorem partsLeave_of_objects (h : t.objects = s.objects) : PartsLeave s t := by
  rintro m part_id q slot ⟨meeting, hm, hq⟩
  exact ⟨meeting, h ▸ hm, hq⟩

theorem partAt_set {m k : Nat} {meeting meeting' : Meeting} (h : s.objects[m]? = some meeting)
    (ht : t.objects = s.objects.set m meeting') {part_id : Bytes} {q : Participant} {slot : Nat} :
    PartAt t k part_id q slot ↔
      (k = m ∧ meeting'.participants_[part_id]? = some (q, slot)) ∨ (k ≠ m ∧ PartAt s k part_id q slot) := by
  simp only [PartAt, ht, getElem?_set_some h]
  constructor
  · rintro ⟨meeting₁, ⟨rfl, rfl⟩ | ⟨hne, hm⟩, hq⟩
    · exact Or.inl ⟨rfl, hq⟩
    · exact Or.inr ⟨hne, meeting₁, hm, hq⟩
  · rintro (⟨rfl, hq⟩ | ⟨hne, meeting₁, hm, hq⟩)
    · exact ⟨meeting', Or.inl ⟨rfl, rfl⟩, hq⟩
    · exact ⟨meeting₁, Or.inr ⟨hne, hm⟩, hq⟩

theorem partsLeave_set {m : Nat} {meeting meeting' : Meeting} (h : s.objects[m]? = some meeting)
    (ht : t.objects = s.objects.set m meeting')
    (hsub : ∀ (part_id : Bytes) (x : Participant × Nat), meeting'.participants_[part_id]? = some x → meeting.participants_[part_id]? = some x) :
    PartsLeave s t := by
  intro k part_id q slot hq
  rcases (partAt_set h ht).mp hq with ⟨rfl, hq⟩ | ⟨-, hq⟩
  · exact ⟨meeting, h, hsub part_id _ hq⟩
  · exact hq

theorem partsLeave_new {meet_id : Bytes} {pool conf clock : Bool}
    (ht : t.objects = s.objects ++ [Meeting.new meet_id pool conf clock]) : PartsLeave s t := by
  rintro m part_id q slot ⟨meeting, hm, hq⟩
  rw [ht, getElem?_snoc_some] at hm
  rcases hm with ⟨-, rfl⟩ | hm
  · simp [Meeting.new] at hq
  · exact ⟨meeting, hm, hq⟩

theorem owns_of_goes {i : Nat} {pc' : ReqPc} (hreq : Goes s t i pc') (hparts : PartsLeave s t) {p : UInt16} {o : Owner}
    (ho : Owns t p o) : (o = .request i ∧ pc'.held = some p) ∨ (o ≠ .request i ∧ Owns s p o) := by
  cases o with
  | part m part_id =>
    obtain ⟨q, slot, hq, hp⟩ := ho
    exact Or.inr ⟨nofun, q, slot, hparts m part_id q slot hq, hp⟩
  | request j =>
    obtain ⟨pc, hpc, hheld⟩ := ho
    rcases (hreq j pc).mp hpc with ⟨rfl, rfl⟩ | ⟨hne, hpc⟩
    · exact Or.inl ⟨rfl, hheld⟩
    · exact Or.inr ⟨by simpa using hne, pc, hpc, hheld⟩

theorem pending_of_goes {i : Nat} {pc' : ReqPc} (hreq : Goes s t i pc') {p : UInt16} (hp : Pending t p) :
    p ∈ pc'.pending ∨ Pending s p := by
  obtain ⟨j, pc, hpc, hmem⟩ := hp
  rcases (hreq j pc).mp hpc with ⟨-, rfl⟩ | ⟨-, hpc⟩
  · exact Or.inl hmem
  · exact Or.inr ⟨j, pc, hpc, hmem⟩

theorem collected_of_goes {i : Nat} {pc' : ReqPc} (hreq : Goes s t i pc') {m : Nat} {p : UInt16}
    (hp : Collected t m p) : (∃ ports, pc'.collected = some (m, ports) ∧ p ∈ ports) ∨ Collected s m p := by
  obtain ⟨j, pc, ports, hpc, hcoll, hmem⟩ := hp
  rcases (hreq j pc).mp hpc with ⟨-, rfl⟩ | ⟨-, hpc⟩
  · exact Or.inl ⟨ports, hcoll, hmem⟩
  · exact Or.inr ⟨j, pc, ports, hpc, hcoll, hmem⟩

/-- Owners may leave; a port that request `i` is now about to release has none left. -/
theorem PortsInv.leave (h : PortsInv s) {i : Nat} {pc' : ReqPc} (hreq : Goes s t i pc') (hparts : PartsLeave s t)
    (hrange : t.port_allocator_.InRange)
    (hused : ∀ p o, Owns t p o → s.port_allocator_.isUsed p = true → t.port_allocator_.isUsed p = true)
    (hheld : ∀ p, pc'.held = some p → Owns s p (.request i))
    (hpend : ∀ p ∈ pc'.pending, ∀ o, ¬ Owns t p o)
    (hcoll : ∀ m ports p o, pc'.collected = some (m, ports) → p ∈ ports → Owns s p o → ∃ part_id, o = .part m part_id) :
    PortsInv t := by
  have howns : ∀ p o, Owns t p o → Owns s p o := by
    intro p o ho
    rcases owns_of_goes hreq hparts ho with ⟨rfl, hp⟩ | ⟨-, ho⟩
    · exact hheld p hp
    · exact ho
  refine ⟨hrange, fun p o ho => hused p o ho (h.used p o (howns p o ho)), ?_, ?_, ?_⟩
  · exact fun p o o' ho ho' => h.unique p o o' (howns p o ho) (howns p o' ho')
  · intro p o hp ho
    rcases pending_of_goes hreq hp with hp | hp
    · exact hpend p hp o ho
    · exact h.pending p o hp (howns p o ho)
  · intro m p o hp ho
    rcases collected_of_goes hreq hp with ⟨ports, hc, hmem⟩ | hp
    · exact hcoll m ports p o hc hmem (howns p o ho)
    · exact h.collected m p o hp (howns p o ho)

/-- A request that goes on with nothing in its hands, or with what it had, gives no port an owner. -/
theorem PortsInv.quiet (h : PortsInv s) {i : Nat} {pc' : ReqPc} (hreq : Goes s t i pc') (hpc' : pc'.Quiet)
    (hparts : PartsLeave s t) (hrange : t.port_allocator_.InRange)
    (hused : ∀ p o, Owns t p o → s.port_allocator_.isUsed p = true → t.port_allocator_.isUsed p = true) :
    PortsInv t := by
  refine h.leave hreq hparts hrange hused ?_ ?_ ?_
  · rw [hpc'.held]
    exact nofun
  · rw [hpc'.pending]
    exact nofun
  · rw [hpc'.collected]
    exact nofun

theorem getElem?_erase_some {participants_ : Parts} {part_id part_id' : Bytes} {x : Participant × Nat} :
    (participants_.erase part_id)[part_id']? = some x ↔ part_id' ≠ part_id ∧ participants_[part_id']? = some x := by
  simp only [Std.ExtTreeMap.getElem?_erase, Std.LawfulEqCmp.compare_eq_iff_eq]
  split
  · rename_i heq
    simp [heq]
  · rename_i hne
    simp [Ne.symm hne]

/-- The port of a participant that leaves has no owner, and its delete is about to release it. -/
theorem PortsInv.removed (h : PortsInv s) {i m : Nat} {meeting : Meeting} {part_id : Bytes} {q : Participant} {slot : Nat}
    (hpc : s.requests[i]? = some (.deleteSection m part_id)) (hm : s.objects[m]? = some meeting)
    (hq : meeting.participants_[part_id]? = some (q, slot)) :
    PortsInv
      { s with
        objects := s.objects.set m { meeting with participants_ := meeting.participants_.erase part_id }
        requests := s.requests.set i (if 0 < q.port_ then .deleteRelease q.port_ else .done) } := by
  have hparts : PartsLeave s _ := partsLeave_set (t := { s with
    objects := s.objects.set m { meeting with participants_ := meeting.participants_.erase part_id }
    requests := s.requests.set i (if 0 < q.port_ then .deleteRelease q.port_ else .done) }) hm rfl
    fun _ _ hx => (getElem?_erase_some.mp hx).2
  split at hparts
  · rename_i hpos
    rw [if_pos hpos]
    refine h.leave (goes_set hpc rfl) hparts h.range (fun _ _ _ => id) nofun ?_ nofun
    intro p hp o ho
    obtain rfl := List.mem_singleton.mp hp
    have hleft : Owns s q.port_ (.part m part_id) :=
      ⟨q, slot, ⟨meeting, hm, hq⟩, rfl, fun h0 => by simp [h0] at hpos⟩
    rcases owns_of_goes (goes_set hpc rfl) hparts ho with ⟨-, hheld⟩ | ⟨-, hs⟩
    · cases hheld
    · obtain rfl := h.unique _ _ _ hs hleft
      obtain ⟨q', slot', hq', -⟩ := ho
      rcases (partAt_set hm rfl).mp hq' with ⟨-, hq'⟩ | ⟨hne, -⟩
      · exact (getElem?_erase_some.mp hq').1 rfl
      · exact hne rfl
  · rename_i hpos
    rw [if_neg hpos]
    exact h.quiet (goes_set hpc rfl) ⟨rfl, rfl, rfl, rfl⟩ hparts h.range fun _ _ _ => id

/-- Of a meeting that is stopped nothing is left, so the ports that were collected from it have no owner. -/
theorem PortsInv.stopped (h : PortsInv s) {i m : Nat} {meeting : Meeting} {ports : List UInt16}
    (hpc : s.requests[i]? = some (.destroySection m ports)) (hm : s.objects[m]? = some meeting) :
    PortsInv
      { s with objects := s.objects.set m meeting.stopSection, requests := s.requests.set i (.destroyRelease ports) } := by
  have hparts : PartsLeave s _ := partsLeave_set (t := { s with
    objects := s.objects.set m meeting.stopSection, requests := s.requests.set i (.destroyRelease ports) }) hm rfl
    fun _ _ hx => by simp [Meeting.stopSection] at hx
  refine h.leave (goes_set hpc rfl) hparts h.range (fun _ _ _ => id) nofun ?_ nofun
  intro p hp o ho
  rcases owns_of_goes (goes_set hpc rfl) hparts ho with ⟨-, hheld⟩ | ⟨-, hs⟩
  · cases hheld
  · obtain ⟨part_id, rfl⟩ := h.collected m p o ⟨i, _, ports, hpc, rfl, hp⟩ hs
    obtain ⟨q, slot, hq, -⟩ := ho
    rcases (partAt_set hm rfl).mp hq with ⟨-, hq⟩ | ⟨hne, -⟩
    · simp [Meeting.stopSection] at hq
    · exact hne rfl

/-- A port that is released has no owner any more. -/
theorem PortsInv.released (h : PortsInv s) {i : Nat} {pc' : ReqPc} {port : UInt16}
    (hreq : Goes s t i pc') (hobj : t.objects = s.objects)
    (halloc : t.port_allocator_ = s.port_allocator_.release port)
    (hheld : pc'.held = none) (hpend : ∀ p ∈ pc'.pending, Pending s p) (hcoll : pc'.collected = none)
    (hfree : ∀ o, o ≠ .request i → ¬ Owns s port o) : PortsInv t := by
  have hparts : PartsLeave s t := partsLeave_of_objects hobj
  have howns : ∀ p o, Owns t p o → (o = .request i ∧ pc'.held = some p) ∨ (o ≠ .request i ∧ Owns s p o) :=
    fun p o => owns_of_goes hreq hparts
  refine h.leave hreq hparts (halloc ▸ PortAllocator.inRange_release h.range port) ?_ ?_ ?_ ?_
  · intro p o ho hu
    rw [halloc]
    refine (PortAllocator.isUsed_release p port).mpr ⟨hu, ?_⟩
    rintro rfl
    rcases howns p o ho with ⟨-, hp⟩ | ⟨hne, ho⟩
    · rw [hheld] at hp
      cases hp
    · exact hfree o hne ho
  · rw [hheld]
    exact nofun
  · intro p hp o ho
    rcases howns p o ho with ⟨-, hh⟩ | ⟨-, ho⟩
    · rw [hheld] at hh
      cases hh
    · exact h.pending p o (hpend p hp) ho
  · rw [hcoll]
    exact nofun

/-! ### Steps that give a port an owner -/

theorem PortsInv.allocated (h : PortsInv s) {i m : Nat} {ans : Answer} {part : NewPart} {port : Nat}
    {alloc : PortAllocator} (hpc : s.requests[i]? = some (.addAllocate m part))
    (halloc : s.port_allocator_.allocate ans.is_port_available = (alloc, some port))
    (hfree : ∀ pc ∈ s.requests, UInt16.ofNat port ∉ pc.toRelease) :
    PortsInv { s with port_allocator_ := alloc, requests := s.requests.set i (.addSection m part port) } := by
  obtain ⟨hunused, -, hrange, hused⟩ := PortAllocator.allocate_some h.range halloc
  have hreq := goes_set (t := { s with port_allocator_ := alloc, requests := s.requests.set i (.addSection m part port) })
    hpc rfl
  have hnew : ∀ o, ¬ Owns s (UInt16.ofNat port) o := by
    intro o ho
    simp [h.used _ o ho] at hunused
  have hparts : PartsLeave s { s with port_allocator_ := alloc, requests := s.requests.set i (.addSection m part port) } :=
    partsLeave_of_objects rfl
  have howns := fun p o => owns_of_goes (p := p) (o := o) hreq hparts
  refine ⟨hrange, ?_, ?_, ?_, ?_⟩
  · intro p o ho
    rcases howns p o ho with ⟨-, hp⟩ | ⟨-, ho⟩
    · exact (hused p).mpr (Or.inr (Option.some.inj hp).symm)
    · exact (hused p).mpr (Or.inl (h.used p o ho))
  · intro p o o' ho ho'
    rcases howns p o ho with ⟨rfl, hp⟩ | ⟨-, ho⟩ <;> rcases howns p o' ho' with ⟨rfl, hp'⟩ | ⟨-, ho'⟩
    · rfl
    · exact absurd (Option.some.inj hp ▸ ho') (hnew o')
    · exact absurd (Option.some.inj hp' ▸ ho) (hnew o)
    · exact h.unique p o o' ho ho'
  · intro p o hp ho
    rcases pending_of_goes hreq hp with hp | hp
    · cases hp
    · rcases howns p o ho with ⟨-, hheld⟩ | ⟨-, ho⟩
      · obtain ⟨j, pc, hpc, hmem⟩ := hp
        refine hfree pc (List.mem_of_getElem? hpc) ?_
        rw [Option.some.inj hheld]
        exact pending_subset_toRelease hmem
      · exact h.pending p o hp ho
  · intro k p o hp ho
    rcases collected_of_goes hreq hp with ⟨ports, hc, -⟩ | hp
    · cases hc
    · rcases howns p o ho with ⟨-, hheld⟩ | ⟨-, ho⟩
      · obtain ⟨j, pc, ports, hpc, hc, hmem⟩ := hp
        refine absurd ?_ (hfree pc (List.mem_of_getElem? hpc))
        rw [Option.some.inj hheld]
        exact collected_subset_toRelease hc hmem
      · exact h.collected k p o hp ho

/-- The participant that an add inserts takes the port over from the request. -/
theorem PortsInv.added (h : PortsInv s) {i m : Nat} {meeting meeting' : Meeting} {part : NewPart} {port : Nat}
    {ans : AddAnswer} {calls : List AddCall} (hpc : s.requests[i]? = some (.addSection m part port))
    (hm : s.objects[m]? = some meeting) (hadd : addTo meeting part port ans = (.added meeting', calls)) :
    PortsInv { s with objects := s.objects.set m meeting', requests := s.requests.set i .done } := by
  rw [addTo_eq] at hadd
  obtain ⟨slot, -, hjoin, -⟩ := Meeting.add_joins hadd
  have hheld : Owns s (UInt16.ofNat port) (.request i) := ⟨_, hpc, rfl⟩
  have hreq := goes_set (t := { s with objects := s.objects.set m meeting', requests := s.requests.set i .done })
    hpc rfl
  -- the new owner is the new participant, and the request is none any more
  have howns : ∀ p o, Owns { s with objects := s.objects.set m meeting', requests := s.requests.set i .done } p o →
      (o = .part m part.part_id ∧ p = UInt16.ofNat port) ∨ (o ≠ .request i ∧ Owns s p o) := by
    intro p o ho
    cases o with
    | part k part_id =>
      obtain ⟨q, slot', hpart, hp⟩ := ho
      rcases (partAt_set hm rfl).mp hpart with ⟨rfl, hq⟩ | ⟨-, hold⟩
      · rcases (hjoin.getElem? part_id).mp hq with ⟨hid, heq⟩ | ⟨-, hold⟩
        · obtain ⟨rfl, -⟩ := Prod.mk.inj heq
          exact Or.inl ⟨congrArg _ hid, hp.1.symm⟩
        · exact Or.inr ⟨nofun, q, slot', ⟨meeting, hm, hold⟩, hp⟩
      · exact Or.inr ⟨nofun, q, slot', hold, hp⟩
    | request j =>
      obtain ⟨pc, hpc, hh⟩ := ho
      rcases (hreq j pc).mp hpc with ⟨-, rfl⟩ | ⟨hne, hpc⟩
      · cases hh
      · exact Or.inr ⟨by simpa using hne, pc, hpc, hh⟩
  -- no other owner than the request had the port
  have hother : ∀ o, o ≠ .request i → ¬ Owns s (UInt16.ofNat port) o :=
    fun o hne ho => hne (h.unique _ _ _ ho hheld)
  refine ⟨h.range, ?_, ?_, ?_, ?_⟩
  · intro p o ho
    rcases howns p o ho with ⟨-, rfl⟩ | ⟨-, ho⟩
    · exact h.used _ _ hheld
    · exact h.used p o ho
  · intro p o o' ho ho'
    rcases howns p o ho with ⟨rfl, hp⟩ | ⟨hne, ho⟩ <;> rcases howns p o' ho' with ⟨rfl, hp'⟩ | ⟨hne', ho'⟩
    · rfl
    · exact absurd (hp ▸ ho') (hother o' hne')
    · exact absurd (hp' ▸ ho) (hother o hne)
    · exact h.unique p o o' ho ho'
  · intro p o hp ho
    rcases pending_of_goes hreq hp with hp | hp
    · cases hp
    · rcases howns p o ho with ⟨-, rfl⟩ | ⟨-, ho⟩
      · exact h.pending _ _ hp hheld
      · exact h.pending p o hp ho
  · intro k p o hp ho
    rcases collected_of_goes hreq hp with ⟨ports, hc, -⟩ | hp
    · cases hc
    · rcases howns p o ho with ⟨-, rfl⟩ | ⟨-, ho⟩
      · obtain ⟨_, heq⟩ := h.collected k _ _ hp hheld
        cases heq
      · exact h.collected k p o hp ho

/-! ### The invariant along a run -/

theorem PortsInv.step (h : PortsInv s) (hd : Does s a t es) (hok : NoEarlyReuse s a) : PortsInv t := by
  cases hd with
  | received hq _ => exact h.quiet (goes_snoc rfl) hq (partsLeave_of_objects rfl) h.range fun _ _ _ => id
  | created hpc _ => exact h.quiet (goes_set hpc rfl) ⟨rfl, rfl, rfl, rfl⟩ (partsLeave_new rfl) h.range fun _ _ _ => id
  | moved hpc _ hq _ => exact h.quiet (goes_set hpc rfl) hq (partsLeave_of_objects rfl) h.range fun _ _ _ => id
  | allocated hpc halloc =>
    refine h.allocated hpc halloc ?_
    simp only [NoEarlyReuse, hpc, halloc, Option.mem_def, Option.some.injEq, forall_eq'] at hok
    exact hok
  | crashed _ _ _ => exact ⟨h.range, h.used, h.unique, h.pending, h.collected⟩
  | @refused i ans m meeting part port calls hpc hm _ =>
    refine h.leave (goes_set hpc rfl) (partsLeave_of_objects rfl) h.range (fun _ _ _ => id) ?_ nofun nofun
    exact fun p hp => ⟨_, hpc, hp⟩
  | added hpc hm hadd _ => exact h.added hpc hm hadd
  | @addReleased i ans m part port pc es hpc hq _ =>
    refine h.released (goes_set hpc rfl) rfl rfl hq.held (by rw [hq.pending]; exact nofun) hq.collected ?_
    exact fun o hne ho => hne (h.unique _ _ _ ho ⟨_, hpc, rfl⟩)
  | unregistered hpc _ =>
    exact h.leave (goes_set hpc rfl) (partsLeave_of_objects rfl) h.range (fun _ _ _ => id) nofun nofun nofun
  | @collected i ans m meeting hpc hm =>
    refine h.leave (goes_set hpc rfl) (partsLeave_of_objects rfl) h.range (fun _ _ _ => id) nofun nofun ?_
    intro k ports p o hc hp ho
    obtain ⟨rfl, rfl⟩ := Prod.mk.inj (Option.some.inj hc)
    obtain ⟨part_id, q, slot, hq, hport⟩ := Meeting.mem_participant_ports.mp hp
    exact ⟨part_id, h.unique p o _ ho ⟨q, slot, ⟨meeting, hm, hq⟩, hport⟩⟩
  | @clockStopped i ans m meeting ports hpc hm =>
    refine h.leave (goes_set hpc rfl) (partsLeave_set hm rfl fun _ _ => id) h.range (fun _ _ _ => id) nofun nofun ?_
    intro k ports' p o hc hp ho
    obtain ⟨rfl, rfl⟩ := Prod.mk.inj (Option.some.inj hc)
    exact h.collected _ p o ⟨i, _, ports, hpc, rfl, hp⟩ ho
  | stopped hpc hm => exact h.stopped hpc hm
  | @destroyReleased i ans port ports hpc =>
    refine h.released (goes_set hpc rfl) rfl rfl rfl ?_ rfl ?_
    · exact fun p hp => ⟨i, _, hpc, List.mem_cons_of_mem _ hp⟩
    · exact fun o _ => h.pending port o ⟨i, _, hpc, List.mem_cons_self⟩
  | destroyed hpc _ => exact h.quiet (goes_set hpc rfl) ⟨rfl, rfl, rfl, rfl⟩ (partsLeave_of_objects rfl) h.range fun _ _ _ => id
  | removed hpc hm hq hpc' _ => exact hpc' ▸ h.removed hpc hm hq
  | @deleteReleased i ans port es hpc _ =>
    refine h.released (goes_set hpc rfl) rfl rfl rfl (fun _ hp => nomatch hp) rfl ?_
    exact fun o _ => h.pending port o ⟨i, _, hpc, List.mem_singleton_self _⟩

end Steps
end AudioMeet.Server
