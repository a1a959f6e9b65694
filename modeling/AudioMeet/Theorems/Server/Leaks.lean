import AudioMeet.Theorems.Server.PortUse

/-! Where the ports in use are: with an owner, or with a request that is about to release them. As long as no
    add joins a meeting whose ports a destroy has collected, none is lost. -/

namespace AudioMeet

namespace Server
open Lib Machine

/-- The port has an owner, or will be released. -/
def Accounted (s : Server) (p : UInt16) : Prop := (∃ o, Owns s p o) ∨ Pending s p

structure Ledger (s : Server) : Prop where
  used : ∀ p, s.port_allocator_.isUsed p = true → Accounted s p
  /-- A destroy that collected the ports of its meeting has them all. -/
  collected : ∀ (i : Nat) (pc : ReqPc) (m : Nat) (ports : List UInt16) (p : UInt16) (part_id : Bytes),
    s.requests[i]? = some pc → pc.collected = some (m, ports) → Owns s p (.part m part_id) → p ∈ ports

/-- No add joins a meeting between `participant_ports` and the section of `stop` of a destroy. -/
def NoLateJoin (s : Server) : ServerAct → Prop
  | .receive _ => True
  | .go i ans =>
    match s.requests[i]? with
    | some (.addSection m part _) => ∀ meeting ∈ s.objects[m]?, meeting.admits part.part_id ans.add = true →
        ∀ pc ∈ s.requests, pc.collected.map Prod.fst ≠ some m
    | _ => True

instance (s : Server) : DecidablePred (NoLateJoin s)
  | .receive _ => .isTrue trivial
  | .go i ans => by
    unfold NoLateJoin
    dsimp only
    generalize s.requests[i]? = req
    rcases req with _ | pc
    · infer_instance
    · rcases pc <;> infer_instance

section Steps
variable {s t : Server} {a : ServerAct} {es : List ServerEvent}

/-! ### Ports after a step -/

theorem accounted_of_goes {i : Nat} {pc' : ReqPc} (hreq : Goes s t i pc') {p : UInt16} (h : Accounted s p)
    (hparts : ∀ m part_id q slot, PartAt s m part_id q slot → q.port_ = p → p ≠ 0 →
      PartAt t m part_id q slot ∨ Accounted t p)
    (hheld : ∀ pc, s.requests[i]? = some pc → pc.held = some p → Accounted t p)
    (hpend : ∀ pc, s.requests[i]? = some pc → p ∈ pc.pending → Accounted t p) : Accounted t p := by
  rcases h with ⟨m | j, ho⟩ | ⟨j, pc, hpc, hmem⟩
  · rename_i part_id
    obtain ⟨q, slot, hq, hp, hne⟩ := ho
    rcases hparts m part_id q slot hq hp hne with hq | h
    · exact Or.inl ⟨.part m part_id, q, slot, hq, hp, hne⟩
    · exact h
  · obtain ⟨pc, hpc, hh⟩ := ho
    by_cases hj : j = i
    · exact hheld pc (hj ▸ hpc) hh
    · exact Or.inl ⟨.request j, pc, (hreq j pc).mpr (Or.inr ⟨hj, hpc⟩), hh⟩
  · by_cases hj : j = i
    · exact hpend pc (hj ▸ hpc) hmem
    · exact Or.inr ⟨j, pc, (hreq j pc).mpr (Or.inr ⟨hj, hpc⟩), hmem⟩

/-- A request that had no port in its hands loses none by going on. -/
theorem accounted_of_quiet {i : Nat} {pc pc' : ReqPc} (hpc : s.requests[i]? = some pc) (hreq : Goes s t i pc')
    (hheld : pc.held = none) (hpend : pc.pending = [])
    (hparts : ∀ m part_id q slot, PartAt s m part_id q slot → PartAt t m part_id q slot) {p : UInt16}
    (h : Accounted s p) : Accounted t p := by
  refine accounted_of_goes hreq h (fun m part_id q slot hq _ _ => Or.inl (hparts m part_id q slot hq)) ?_ ?_
  · intro pc₁ hpc₁ hh
    obtain rfl := Option.some.inj (hpc.symm.trans hpc₁)
    rw [hheld] at hh
    cases hh
  · intro pc₁ hpc₁ hmem
    obtain rfl := Option.some.inj (hpc.symm.trans hpc₁)
    rw [hpend] at hmem
    cases hmem

/-- A destroy that did not collect its ports in this step, of a meeting that nobody joined, has them all still. -/
theorem Ledger.collected_of_goes (h : Ledger s) {i : Nat} {pc' : ReqPc} (hreq : Goes s t i pc') (hparts : PartsLeave s t)
    (hcoll : ∀ m ports, pc'.collected = some (m, ports) →
      ∃ pc, s.requests[i]? = some pc ∧ pc.collected = some (m, ports)) :
    ∀ (j : Nat) (pc : ReqPc) (m : Nat) (ports : List UInt16) (p : UInt16) (part_id : Bytes),
      t.requests[j]? = some pc → pc.collected = some (m, ports) → Owns t p (.part m part_id) → p ∈ ports := by
  intro j pc m ports p part_id hpc hc ⟨q, slot, hq, hp⟩
  have ho : Owns s p (.part m part_id) := ⟨q, slot, hparts m part_id q slot hq, hp⟩
  rcases (hreq j pc).mp hpc with ⟨-, rfl⟩ | ⟨-, hpc⟩
  · obtain ⟨pc, hpc, hc⟩ := hcoll m ports hc
    exact h.collected i pc m ports p part_id hpc hc ho
  · exact h.collected j pc m ports p part_id hpc hc ho

/-- A step that moves no participant, and after which the request has in its hands what it had. -/
theorem Ledger.keep (h : Ledger s) {i : Nat} {pc' : ReqPc} (hreq : Goes s t i pc')
    (hparts : ∀ m part_id q slot, PartAt t m part_id q slot ↔ PartAt s m part_id q slot)
    (hused : t.port_allocator_ = s.port_allocator_)
    (hheld : ∀ pc p, s.requests[i]? = some pc → pc.held = some p → pc'.held = some p)
    (hpend : ∀ pc, s.requests[i]? = some pc → ∀ p ∈ pc.pending, p ∈ pc'.pending)
    (hcoll : ∀ m ports, pc'.collected = some (m, ports) →
      ∃ pc, s.requests[i]? = some pc ∧ pc.collected = some (m, ports)) : Ledger t where
  used := by
    intro p hp
    refine accounted_of_goes hreq (h.used p (hused ▸ hp)) ?_ ?_ ?_
    · exact fun m part_id q slot hq _ _ => Or.inl ((hparts m part_id q slot).mpr hq)
    · exact fun pc hpc hh => Or.inl ⟨.request i, pc', (hreq i pc').mpr (Or.inl ⟨rfl, rfl⟩), hheld pc p hpc hh⟩
    · exact fun pc hpc hmem => Or.inr ⟨i, pc', (hreq i pc').mpr (Or.inl ⟨rfl, rfl⟩), hpend pc hpc p hmem⟩
  collected := h.collected_of_goes hreq (fun m part_id q slot => (hparts m part_id q slot).mp) hcoll

/-- A request that goes on with no port in its hands, and had none. -/
theorem Ledger.quiet (h : Ledger s) {i : Nat} {pc pc' : ReqPc} (hpc : s.requests[i]? = some pc) (hreq : Goes s t i pc')
    (hheld : pc.held = none) (hpend : pc.pending = []) (hcoll : pc'.collected = pc.collected ∨ pc'.collected = none)
    (hparts : ∀ m part_id q slot, PartAt t m part_id q slot ↔ PartAt s m part_id q slot)
    (hused : t.port_allocator_ = s.port_allocator_) : Ledger t := by
  refine h.keep hreq hparts hused ?_ ?_ ?_
  · intro pc₁ p hpc₁ hh
    obtain rfl := Option.some.inj (hpc.symm.trans hpc₁)
    rw [hheld] at hh
    cases hh
  · intro pc₁ hpc₁ p hmem
    obtain rfl := Option.some.inj (hpc.symm.trans hpc₁)
    rw [hpend] at hmem
    cases hmem
  · intro m ports hc
    rcases hcoll with heq | heq
    · exact ⟨pc, hpc, heq ▸ hc⟩
    · rw [heq] at hc
      cases hc

/-- The request gives its port back. -/
theorem Ledger.released (h : Ledger s) {i : Nat} {pc pc' : ReqPc} {port : UInt16} (hpc : s.requests[i]? = some pc)
    (hreq : Goes s t i pc') (hobj : t.objects = s.objects)
    (halloc : t.port_allocator_ = s.port_allocator_.release port) (hcoll : pc'.collected = none)
    (hheld : ∀ p, pc.held = some p → p = port) (hpend : ∀ p ∈ pc.pending, p = port ∨ p ∈ pc'.pending) : Ledger t where
  used := by
    intro p hp
    rw [halloc] at hp
    obtain ⟨hp, hne⟩ := (PortAllocator.isUsed_release p port).mp hp
    refine accounted_of_goes hreq (h.used p hp) ?_ ?_ ?_
    · exact fun m part_id q slot hq _ _ => Or.inl (partsLeave_of_objects hobj.symm m part_id q slot hq)
    · intro pc₁ hpc₁ hh
      obtain rfl := Option.some.inj (hpc.symm.trans hpc₁)
      exact absurd (hheld p hh) hne
    · intro pc₁ hpc₁ hmem
      obtain rfl := Option.some.inj (hpc.symm.trans hpc₁)
      rcases hpend p hmem with heq | hmem
      · exact absurd heq hne
      · exact Or.inr ⟨i, pc', (hreq i pc').mpr (Or.inl ⟨rfl, rfl⟩), hmem⟩
  collected := by
    refine h.collected_of_goes hreq (partsLeave_of_objects hobj) fun m ports hc => ?_
    rw [hcoll] at hc
    cases hc

/-- Participants whose ports the request has now in its hands leave. -/
theorem Ledger.left (h : Ledger s) {i m : Nat} {pc pc' : ReqPc} {meeting meeting' : Meeting} (hpc : s.requests[i]? = some pc)
    (hm : s.objects[m]? = some meeting) (hreq : Goes s t i pc') (hobj : t.objects = s.objects.set m meeting')
    (halloc : t.port_allocator_ = s.port_allocator_) (hcoll : pc'.collected = none) (hheld : pc.held = none)
    (hpend : pc.pending = [])
    (hsub : ∀ (part_id : Bytes) (x : Participant × Nat), meeting'.participants_[part_id]? = some x →
      meeting.participants_[part_id]? = some x)
    (hleft : ∀ (part_id : Bytes) (q : Participant) (slot : Nat), meeting.participants_[part_id]? = some (q, slot) →
      q.port_ ≠ 0 → meeting'.participants_[part_id]? = some (q, slot) ∨ q.port_ ∈ pc'.pending) : Ledger t where
  used := by
    intro p hp
    refine accounted_of_goes hreq (h.used p (halloc ▸ hp)) ?_ ?_ ?_
    · rintro k part_id q slot ⟨x, hx, hq⟩ rfl hne
      by_cases hk : k = m
      · subst hk
        obtain rfl := Option.some.inj (hm.symm.trans hx)
        rcases hleft part_id q slot hq hne with hq' | hmem
        · exact Or.inl ((partAt_set hm hobj).mpr (Or.inl ⟨rfl, hq'⟩))
        · exact Or.inr (Or.inr ⟨i, pc', (hreq i pc').mpr (Or.inl ⟨rfl, rfl⟩), hmem⟩)
      · exact Or.inl ((partAt_set hm hobj).mpr (Or.inr ⟨hk, x, hx, hq⟩))
    · intro pc₁ hpc₁ hh
      obtain rfl := Option.some.inj (hpc.symm.trans hpc₁)
      rw [hheld] at hh
      cases hh
    · intro pc₁ hpc₁ hmem
      obtain rfl := Option.some.inj (hpc.symm.trans hpc₁)
      rw [hpend] at hmem
      cases hmem
  collected := by
    refine h.collected_of_goes hreq (partsLeave_set hm hobj hsub) fun k ports hc => ?_
    rw [hcoll] at hc
    cases hc

theorem Ledger.allocated (h : Ledger s) {i m : Nat} {ans : Answer} {part : NewPart} {port : Nat} {alloc : PortAllocator}
    (hpc : s.requests[i]? = some (.addAllocate m part)) (hrange : s.port_allocator_.InRange)
    (halloc : s.port_allocator_.allocate ans.is_port_available = (alloc, some port)) :
    Ledger { s with port_allocator_ := alloc, requests := s.requests.set i (.addSection m part port) } := by
  obtain ⟨-, -, -, hused⟩ := PortAllocator.allocate_some hrange halloc
  have hreq : Goes s { s with port_allocator_ := alloc, requests := s.requests.set i (.addSection m part port) } i
    (.addSection m part port) := goes_set hpc rfl
  constructor
  · intro p hp
    rcases (hused p).mp hp with hp | rfl
    · exact accounted_of_quiet hpc hreq rfl rfl (partsLeave_of_objects rfl) (h.used p hp)
    · exact Or.inl ⟨.request i, _, (hreq i _).mpr (Or.inl ⟨rfl, rfl⟩), rfl⟩
  · exact h.collected_of_goes hreq (partsLeave_of_objects rfl) nofun

theorem Ledger.added (h : Ledger s) {i m : Nat} {meeting meeting' : Meeting} {part : NewPart} {port : Nat}
    {ans : AddAnswer} {calls : List AddCall} (hpc : s.requests[i]? = some (.addSection m part port))
    (hm : s.objects[m]? = some meeting) (hadd : addTo meeting part port ans = (.added meeting', calls))
    (hne : UInt16.ofNat port ≠ 0)
    (hlate : meeting.admits part.part_id ans = true → ∀ pc ∈ s.requests, pc.collected.map Prod.fst ≠ some m) :
    Ledger { s with objects := s.objects.set m meeting', requests := s.requests.set i .done } := by
  rw [addTo_eq] at hadd
  obtain ⟨slot, -, hjoin, -⟩ := Meeting.add_joins hadd
  have hnone := hlate (Meeting.admits_of_add hadd)
  have hreq : Goes s { s with objects := s.objects.set m meeting', requests := s.requests.set i .done } i .done :=
    goes_set hpc rfl
  have hpart : ∀ k part_id q slot', PartAt
      { s with objects := s.objects.set m meeting', requests := s.requests.set i .done } k part_id q slot' ↔
      (k = m ∧ meeting'.participants_[part_id]? = some (q, slot')) ∨ (k ≠ m ∧ PartAt s k part_id q slot') :=
    fun k part_id q slot' => partAt_set hm rfl
  constructor
  · intro p hp
    refine accounted_of_goes hreq (h.used p hp) ?_ ?_ (fun pc hpc' hmem => ?_)
    · rintro k part_id q slot' ⟨x, hx, hq⟩ - -
      refine Or.inl ((hpart k part_id q slot').mpr ?_)
      by_cases hk : k = m
      · subst hk
        obtain rfl := Option.some.inj (hm.symm.trans hx)
        refine Or.inl ⟨rfl, (hjoin.getElem? part_id).mpr (Or.inr ⟨?_, hq⟩)⟩
        rintro rfl
        rw [hjoin.absent] at hq
        cases hq
      · exact Or.inr ⟨hk, x, hx, hq⟩
    · intro pc hpc' hh
      obtain rfl := Option.some.inj (hpc.symm.trans hpc')
      obtain rfl := Option.some.inj hh
      exact Or.inl ⟨.part m part.part_id, _, slot,
        (hpart m part.part_id _ slot).mpr (Or.inl ⟨rfl, (hjoin.getElem? _).mpr (Or.inl ⟨rfl, rfl⟩)⟩), rfl, hne⟩
    · obtain rfl := Option.some.inj (hpc.symm.trans hpc')
      cases hmem
  · intro j pc k ports p part_id hpc' hc ⟨q, slot', hq, hp⟩
    rcases (hreq j pc).mp hpc' with ⟨-, rfl⟩ | ⟨-, hold⟩
    · cases hc
    · rcases (hpart k part_id q slot').mp hq with ⟨rfl, -⟩ | ⟨-, hq⟩
      · refine absurd ?_ (hnone pc (List.mem_of_getElem? hold))
        rw [hc]
        rfl
      · exact h.collected j pc k ports p part_id hold hc ⟨q, slot', hq, hp⟩

theorem Ledger.collects (h : Ledger s) {i m : Nat} {meeting : Meeting} (hpc : s.requests[i]? = some (.destroyPorts m))
    (hm : s.objects[m]? = some meeting) :
    Ledger { s with requests := s.requests.set i (.destroyClock m meeting.participant_ports) } := by
  have hreq : Goes s { s with requests := s.requests.set i (.destroyClock m meeting.participant_ports) } i
    (.destroyClock m meeting.participant_ports) := goes_set hpc rfl
  constructor
  · exact fun p hp => accounted_of_quiet hpc hreq rfl rfl (partsLeave_of_objects rfl) (h.used p hp)
  · intro j pc k ports p part_id hpc' hc ho
    rcases (hreq j pc).mp hpc' with ⟨-, rfl⟩ | ⟨-, hold⟩
    · obtain ⟨rfl, rfl⟩ := Prod.mk.inj (Option.some.inj hc)
      obtain ⟨q, slot, ⟨x, hx, hq⟩, hp⟩ := ho
      obtain rfl := Option.some.inj (hm.symm.trans hx)
      exact Meeting.mem_participant_ports.mpr ⟨part_id, q, slot, hq, hp⟩
    · exact h.collected j pc k ports p part_id hold hc ho

/-! ### The invariant along a run -/

theorem Ledger.step (h : Ledger s) (hports : PortsInv s) (hd : Does s a t es) (hok : NoLateJoin s a) : Ledger t := by
  have hsame : ∀ {u : Server}, u.objects = s.objects → ∀ m part_id q slot,
      PartAt u m part_id q slot ↔ PartAt s m part_id q slot :=
    fun hu m part_id q slot => ⟨partsLeave_of_objects hu m part_id q slot, partsLeave_of_objects hu.symm m part_id q slot⟩
  cases hd with
  | @received req pc es hq _ =>
    have hnone : ∀ pc, s.requests[s.requests.length]? ≠ some pc := by simp
    refine h.keep (goes_snoc rfl) (hsame rfl) rfl ?_ ?_ ?_
    · exact fun pc _ hpc => absurd hpc (hnone pc)
    · exact fun pc hpc => absurd hpc (hnone pc)
    · rw [hq.collected]
      simp
  | created hpc _ =>
    refine h.quiet hpc (goes_set hpc rfl) rfl rfl (Or.inl rfl) (fun m part_id q slot => ⟨?_, ?_⟩) rfl
    · exact partsLeave_new rfl m part_id q slot
    · rintro ⟨meeting, hm, hq⟩
      exact ⟨meeting, getElem?_snoc_some.mpr (Or.inr hm), hq⟩
  | moved hpc hq hq' _ =>
    exact h.quiet hpc (goes_set hpc rfl) hq.held hq.pending (Or.inr hq'.collected) (hsame rfl) rfl
  | allocated hpc halloc => exact h.allocated hpc hports.range halloc
  | crashed _ _ _ => exact ⟨h.used, h.collected⟩
  | refused hpc _ _ =>
    refine h.keep (goes_set hpc rfl) (hsame rfl) rfl ?_ ?_ (by simp [ReqPc.collected])
    · intro pc p hpc' hh
      obtain rfl := Option.some.inj (hpc.symm.trans hpc')
      exact hh
    · intro pc hpc' p hmem
      obtain rfl := Option.some.inj (hpc.symm.trans hpc')
      cases hmem
  | @added i ans m meeting meeting' part port calls es hpc hm hadd _ =>
    have hne := PortAllocator.ne_zero_of_isUsed hports.range (hports.used _ (.request i) ⟨_, hpc, rfl⟩)
    refine h.added hpc hm hadd hne ?_
    simpa only [NoLateJoin, hpc, hm, Option.mem_def, Option.some.injEq, forall_eq'] using hok
  | addReleased hpc hq _ =>
    exact h.released hpc (goes_set hpc rfl) rfl rfl hq.collected (fun p hp => (Option.some.inj hp).symm) (by simp [ReqPc.pending])
  | unregistered hpc _ => exact h.quiet hpc (goes_set hpc rfl) rfl rfl (Or.inl rfl) (hsame rfl) rfl
  | collected hpc hm => exact h.collects hpc hm
  | @clockStopped i ans m meeting ports hpc hm =>
    refine h.quiet hpc (goes_set hpc rfl) rfl rfl (Or.inl rfl) (fun k part_id q slot => ⟨?_, ?_⟩) rfl
    · intro hpart
      rcases (partAt_set hm rfl).mp hpart with ⟨rfl, hq⟩ | ⟨-, hold⟩
      · exact ⟨meeting, hm, hq⟩
      · exact hold
    · rintro ⟨x, hx, hq⟩
      refine (partAt_set hm rfl).mpr ?_
      by_cases hk : k = m
      · subst hk
        obtain rfl := Option.some.inj (hm.symm.trans hx)
        exact Or.inl ⟨rfl, hq⟩
      · exact Or.inr ⟨hk, x, hx, hq⟩
  | @stopped i ans m meeting ports hpc hm =>
    refine h.left hpc hm (goes_set hpc rfl) rfl rfl rfl rfl rfl ?_ ?_
    · exact fun _ _ hx => by simp [Meeting.stopSection] at hx
    · intro part_id q slot hq hne
      exact Or.inr (h.collected i _ m ports q.port_ part_id hpc rfl ⟨q, slot, ⟨meeting, hm, hq⟩, rfl, hne⟩)
  | destroyReleased hpc =>
    exact h.released hpc (goes_set hpc rfl) rfl rfl rfl (by simp [ReqPc.held]) fun p hp => List.mem_cons.mp hp
  | destroyed hpc _ => exact h.quiet hpc (goes_set hpc rfl) rfl rfl (Or.inl rfl) (hsame rfl) rfl
  | @removed i ans m meeting part_id q slot pc es hpc hm hq hpc' _ =>
    refine h.left hpc hm (goes_set hpc rfl) rfl rfl ?_ rfl rfl (fun _ _ hx => (getElem?_erase_some.mp hx).2) ?_
    · subst hpc'
      split <;> rfl
    · intro part_id' q' slot' hq' hne
      by_cases hid : part_id' = part_id
      · subst hid
        obtain ⟨rfl, rfl⟩ := Prod.mk.inj (Option.some.inj (hq.symm.trans hq'))
        rw [if_pos (UInt16.pos_iff_ne_zero.mpr hne)] at hpc'
        exact Or.inr (hpc' ▸ List.mem_singleton_self _)
      · exact Or.inl (getElem?_erase_some.mpr ⟨hid, hq'⟩)
  | deleteReleased hpc _ =>
    exact h.released hpc (goes_set hpc rfl) rfl rfl rfl (by simp [ReqPc.held]) fun p hp => Or.inl (List.mem_singleton.mp hp)

theorem run_ledger {base count : UInt16} {tr : List ServerEvent} (hbase : 1 ≤ base.toNat)
    (hcount : base.toNat + count.toNat ≤ 65536)
    (h : (machine base count).Run (fun s a => NoEarlyReuse s a ∧ NoLateJoin s a) tr s) : PortsInv s ∧ Ledger s := by
  refine h.invariant (I := fun _ s => PortsInv s ∧ Ledger s) (fun s hs => ?_) ?_
  · obtain ⟨listen_ip, rfl⟩ := hs
    refine ⟨portsInv_init hbase hcount, fun p hp => ?_, nofun⟩
    simp [PortAllocator.new, PortAllocator.isUsed, List.getElem?_replicate] at hp
  · intro _ s a t es hinv hok hs
    have hd := (step_does hs).2
    exact ⟨hinv.1.step hd hok.1, hinv.2.step hinv.1 hd hok.2⟩

end Steps

/-! ### When no request is in flight -/

variable {s : Server} {tr : List ServerEvent} {base count : UInt16}

/-- No request is in flight. -/
def Idle (s : Server) : Prop := ∀ pc ∈ s.requests, pc = .done

def isDone : ReqPc → Bool
  | .done => true
  | _ => false

theorem idle_of_test (h : s.requests.all isDone = true) : Idle s := by
  intro pc hpc
  have hdone := List.all_eq_true.mp h pc hpc
  cases pc <;> first | rfl | cases hdone

/-- A participant of a registered meeting listens on the port with the index. -/
def ListensOn (s : Server) (i : Nat) (x : Nat × Bytes) : Prop :=
  (∃ meet_id : Bytes, s.meetings_[meet_id]? = some x.1) ∧
  ∃ q slot, PartAt s x.1 x.2 q slot ∧ q.port_.toNat = s.port_allocator_.base_ + i

structure Balanced (s : Server) : Prop where
  used : ∀ i : Nat, s.port_allocator_.used_[i]? = some true → ∃! x, ListensOn s i x
  free : (∀ meet_id : Bytes, s.meetings_[meet_id]? = none) →
    ∀ i < s.port_allocator_.count_, s.port_allocator_.used_[i]? = some false

/-- The meeting of a participant is registered when no request is in flight. -/
theorem MeetingsInv.registered (h : MeetingsInv s) (hidle : Idle s) {m slot : Nat} {part_id : Bytes} {q : Participant}
    (hq : PartAt s m part_id q slot) : ∃ meet_id : Bytes, s.meetings_[meet_id]? = some m := by
  obtain ⟨meeting, hm, hq⟩ := hq
  have hlive : meeting.stopped = false := by
    by_contra hstop
    rw [(h.stopped m meeting hm (Bool.not_eq_false _ ▸ hstop)).2] at hq
    simp at hq
  obtain ⟨meet_id | j, ho⟩ := h.live m meeting hm hlive
  · exact ⟨meet_id, ho⟩
  · obtain ⟨pc, hpc, hd⟩ := ho
    obtain rfl := hidle pc (List.mem_of_getElem? hpc)
    cases hd

theorem Ledger.listens (h : Ledger s) (hmeet : MeetingsInv s) (hrange : s.port_allocator_.InRange) (hidle : Idle s)
    {i : Nat} (hi : s.port_allocator_.used_[i]? = some true) : ∃ x, ListensOn s i x := by
  have hlt : i < s.port_allocator_.count_ := by
    rw [← s.port_allocator_.length_used]
    exact (List.getElem?_eq_some_iff.mp hi).1
  have hused := (PortAllocator.isUsed_port hrange hlt).mpr hi
  rcases h.used _ hused with ⟨m | j, ho⟩ | ⟨j, pc, hpc, hmem⟩
  · rename_i part_id
    obtain ⟨q, slot, hq, hp, -⟩ := ho
    exact ⟨(m, part_id), hmeet.registered hidle hq, q, slot, hq, by rw [hp, PortAllocator.toNat_port hrange hlt]⟩
  · obtain ⟨pc, hpc, hh⟩ := ho
    obtain rfl := hidle pc (List.mem_of_getElem? hpc)
    cases hh
  · obtain rfl := hidle pc (List.mem_of_getElem? hpc)
    cases hmem

theorem PortsInv.listens_unique (h : PortsInv s) {i : Nat} {x y : Nat × Bytes} (hx : ListensOn s i x)
    (hy : ListensOn s i y) : x = y := by
  obtain ⟨-, q, slot, hq, hp⟩ := hx
  obtain ⟨-, q', slot', hq', hp'⟩ := hy
  have hne : q.port_ ≠ 0 := by
    have := h.range.1
    intro h0
    rw [h0] at hp
    simp at hp
    omega
  have heq : q'.port_ = q.port_ := UInt16.toNat_inj.mp (hp'.trans hp.symm)
  have howner := h.unique q.port_ (.part x.1 x.2) (.part y.1 y.2) ⟨q, slot, hq, rfl, hne⟩ ⟨q', slot', hq', heq, hne⟩
  obtain ⟨h1, h2⟩ := Owner.part.inj howner
  exact Prod.ext h1 h2

/-- One participant. -/
def joined : List ServerAct :=
  request 0 .createAudioMeet 1 { random := 1 } ++
  request 1 (.addAudioMeetPart { meetId := some (hexId 1), partId := some (ascii "a") }) 3

/-- As long as `allocate` hands out no port that is still to be released, and no add joins a meeting between
    `participant_ports` and `stop` of a destroy: when no request is in flight, each port in use is the port of
    one participant of a registered meeting, and all ports are free when no meeting is registered. -/
theorem no_port_is_lost (hbase : 1 ≤ base.toNat) (hcount : base.toNat + count.toNat ≤ 65536)
    (h : (machine base count).Run (fun s a => FreshIds s a ∧ NoEarlyReuse s a ∧ NoLateJoin s a) tr s)
    (hidle : Idle s) : Balanced s := by
  obtain ⟨hports, hledger⟩ := run_ledger hbase hcount (h.mono fun _ _ hok => hok.2)
  have hmeet := run_meetingsInv (h.mono fun _ _ hok => hok.1)
  constructor
  · intro i hi
    obtain ⟨x, hx⟩ := hledger.listens hmeet hports.range hidle hi
    exact ⟨x, hx, fun y hy => hports.listens_unique hy hx⟩
  · intro hnone i hi
    have hlt : i < s.port_allocator_.used_.length := s.port_allocator_.length_used ▸ hi
    cases hu : s.port_allocator_.used_[i] with
    | false => rw [List.getElem?_eq_getElem hlt, hu]
    | true =>
      obtain ⟨x, ⟨meet_id, hid⟩, -⟩ := hledger.listens hmeet hports.range hidle
        (List.getElem?_eq_some_iff.mpr ⟨hlt, hu⟩)
      rw [hnone meet_id] at hid
      cases hid

/-- One participant, and no request in flight. -/
theorem no_port_is_lost_one : ∃ tr s,
    (machine 10000 4).Run (fun s a => FreshIds s a ∧ NoEarlyReuse s a ∧ NoLateJoin s a) tr s ∧
    s.port_allocator_.used_[0]? = some true ∧ Balanced s := by
  have hmeets : (machine 10000 4).Meets (fun s a => FreshIds s a ∧ NoEarlyReuse s a ∧ NoLateJoin s a)
      { listen_ip_ := [], port_allocator_ := .new 10000 4 } joined := meets_of_checks (by decide +kernel)
  obtain ⟨tr, s, hrun, hs⟩ := exists_run (machine 10000 4) _ joined ⟨[], rfl⟩ hmeets
    (fun r => r.1.requests.all isDone && r.1.port_allocator_.used_[0]? == some true) (by decide +kernel)
  simp only [Bool.and_eq_true, beq_iff_eq] at hs
  exact ⟨tr, s, hrun, hs.2, no_port_is_lost (by decide) (by decide) hrun (idle_of_test hs.1)⟩

/-- An add that found the meeting before a destroy joins it after `participant_ports`. -/
def joinedLate : List ServerAct :=
  request 0 .createAudioMeet 1 { random := 1 } ++
  request 1 (.addAudioMeetPart { meetId := some (hexId 1), partId := some (ascii "a") }) 2 ++
  request 2 (.destroyAudioMeet { meetId := some (hexId 1) }) 2 ++
  [.go 1 {}, .go 2 {}, .go 2 {}, .go 2 {}]

theorem port_is_lost : ¬ ∀ (base count : UInt16) (tr : List ServerEvent) (s : Server),
    1 ≤ base.toNat → base.toNat + count.toNat ≤ 65536 → (machine base count).Run FreshIds tr s → Idle s →
    Balanced s := by
  intro hall
  have hmeets : (machine 10000 1).Meets FreshIds { listen_ip_ := [], port_allocator_ := .new 10000 1 } joinedLate :=
    meets_of_checks (by decide +kernel)
  obtain ⟨tr, s, hrun, hs⟩ := exists_run (machine 10000 1) _ joinedLate ⟨[], rfl⟩ hmeets
    (fun r => r.1.requests.all isDone && (r.1.port_allocator_.used_[0]? == some true && r.1.meetings_.isEmpty))
    (by decide +kernel)
  simp only [Bool.and_eq_true, beq_iff_eq] at hs
  obtain ⟨hidle, hused, hempty⟩ := hs
  obtain ⟨x, ⟨⟨meet_id, hid⟩, -⟩, -⟩ := (hall 10000 1 tr s (by decide) (by decide) hrun (idle_of_test hidle)).used 0 hused
  rw [Std.ExtTreeMap.isEmpty_iff.mp hempty] at hid
  simp at hid

end Server
end AudioMeet
