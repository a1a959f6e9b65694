import AudioMeet.Theorems.Process.AddCodes
import AudioMeet.Theorems.Process.Deletes

/-! The port in the response to an add. It is the port that the participant listens on, and comes back to the pool,
    exactly when every port of the pool is a port number: `base + i` is reported as it is by one handler, and narrowed
    to 16 bits everywhere else, and a participant with port 0 is one that does not listen. -/

namespace AudioMeet.Server
open Lib Machine

/-- The port in the response among the events. -/
def portOf (es : List ServerEvent) : Option Nat :=
  es.findSome? fun
    | .responded _ response => response.port
    | _ => none

/-- The add from `s` to `t` marked `index`, and reported the port that its participant binds, which is `port_` in
    `start` and in `startSplit`. -/
structure Reported (s t : Server) (m : Nat) (part_id : Bytes) (es : List ServerEvent) (index : Nat) : Prop where
  port : ∃ port q slot, portOf es = some port ∧ 1 ≤ port ∧ port ≤ 65535 ∧ PartAt t m part_id q slot ∧
    port = q.port_.toNat
  free : s.port_allocator_.used_[index]? = some false
  marked : t.port_allocator_.used_ = s.port_allocator_.used_.set index true

/-- A delete of the participant, and a destroy of its meeting, mark `index` as free. The delete changes nothing else,
    and the destroy nothing but the indices of the other participants. -/
structure ComesBack (u : Server) (m : Nat) (meet_id part_id : Bytes) (index : Nat) : Prop where
  used : u.port_allocator_.used_[index]? = some true
  delete : ∀ req ans, req.deletes = some (meet_id, part_id) → ∃ v es, Serves u req ans v es ∧
    v.port_allocator_.used_ = u.port_allocator_.used_.set index false
  destroy : ∀ req ans, req.destroys = some meet_id → ∃ v es, Serves u req ans v es ∧
    v.port_allocator_.used_[index]? = some false ∧
    ∀ k, v.port_allocator_.used_[k]? ≠ u.port_allocator_.used_[k]? → ∃ part_id' q slot, PartAt u m part_id' q slot ∧
      q.port_.toNat = u.port_allocator_.base_ + k

/-- Every add that succeeds reports the port of its participant, and the port comes back whenever the participant
    goes. -/
def RealPorts (base count : UInt16) : Prop :=
  ∀ (s t : Server) (req : Request) (ans : Answer) (es : List ServerEvent), Sequential base count s → req.isAdd = true →
    Serves s req ans t es → codeOf es = some 0 →
    ∃ meet_id part m index, ValidAdd req meet_id part ∧ s.meetings_[meet_id]? = some m ∧
      Reported s t m part.part_id es index ∧
      ∀ u, Stays m part.part_id t u → u.crashed = false → u.meetings_[meet_id]? = some m →
        ComesBack u m meet_id part.part_id index

section Ports
variable {s t u : Server} {base count : UInt16} {req : Request} {ans : Answer} {es : List ServerEvent} {m : Nat}
  {meet_id part_id : Bytes} {part : NewPart}

theorem code_refusal (meeting : Meeting) (part : NewPart) :
    (respond (refusal meeting part)).code = some 2 ∨ (respond (refusal meeting part)).code = some 5 := by
  unfold refusal
  split
  · exact Or.inl (code_null 2 _ (by decide) (by decide))
  · split
    · exact Or.inl (code_null 2 _ (by decide) (by decide))
    · exact Or.inr (code_null 5 _ (by decide) (by decide))

/-- An add that is answered with code 0 added its participant. -/
theorem AddEnds.of_code (h : AddEnds s meet_id part ans t es) (hcode : codeOf es = some 0) :
    ∃ (m port : Nat) (meeting meeting' : Meeting) (alloc : PortAllocator) (calls : List AddCall),
      s.meetings_[meet_id]? = some m ∧ s.port_allocator_.allocate ans.is_port_available = (alloc, some port) ∧
      s.objects[m]? = some meeting ∧ addTo meeting part port ans.add = (.added meeting', calls) ∧
      t.port_allocator_ = alloc ∧ t.objects = s.objects.set m meeting' ∧
      portOf es = (respond (s.success part port)).port ∧ (respond (s.success part port)).code = some 0 := by
  cases h with
  | unknown _ =>
    rw [codeOf_responded] at hcode
    exact absurd ((code_respond_null (by decide) (by decide)).mp hcode) (by decide)
  | noPort _ _ =>
    rw [codeOf_responded] at hcode
    exact absurd ((code_respond_null (by decide) (by decide)).mp hcode) (by decide)
  | crashed _ _ _ _ => cases hcode
  | @refused m port meeting alloc calls _ _ _ _ =>
    have hcode : (respond (refusal meeting part)).code = some 0 := by simpa [codeOf] using hcode
    rcases code_refusal meeting part with h | h <;> rw [h] at hcode <;> cases hcode
  | added hm halloc hobj hadd =>
    exact ⟨_, _, _, _, _, _, hm, halloc, hobj, hadd, rfl, rfl, by simp [portOf], by simpa [codeOf] using hcode⟩

/-- A response with a code tells the port. -/
theorem port_respond {port : Nat} (hreport : reportedPort part port = (k : Nat))
    (hcode : (respond (s.success part port)).code = some 0) : (respond (s.success part port)).port = some k := by
  revert hcode
  unfold respond
  split
  · rename_i text hdump
    rw [success, hreport] at hdump
    exact fun _ => port_success hdump
  · rintro ⟨⟩

theorem validate_of_deletes (h : req.deletes = some (meet_id, part_id)) :
    validate req = .inl (.deleteLookup meet_id part_id) := by
  cases req with
  | delAudioMeetPart params =>
    simp only [Request.deletes, Option.bind_eq_bind, Option.pure_def, Option.bind_eq_some_iff, Option.some.injEq,
      Prod.mk.injEq] at h
    obtain ⟨_, hm, _, hp, rfl, rfl⟩ := h
    simp only [validate, hm, hp]
  | _ => cases h

theorem validate_of_destroys (h : req.destroys = some meet_id) : validate req = .inl (.destroyLookup meet_id) := by
  cases req with
  | destroyAudioMeet params =>
    have h : given params.meetId = some meet_id := h
    simp only [validate, h]
  | _ => cases h

/-! ### A port that is released comes back -/

theorem used_release {a : PortAllocator} (h : a.InRange) {i : Nat} (hi : i < a.count_) :
    (a.release (UInt16.ofNat (a.base_ + i))).used_ = a.used_.set i false := by
  have hnat := PortAllocator.toNat_port h hi
  unfold PortAllocator.release
  rw [if_neg (by omega)]
  show a.used_.set ((UInt16.ofNat (a.base_ + i)).toNat - a.base_) false = _
  rw [hnat, Nat.add_sub_cancel_left]

theorem config_releases (ports : List UInt16) (a : PortAllocator) :
    (ports.foldl PortAllocator.release a).base_ = a.base_ ∧ (ports.foldl PortAllocator.release a).count_ = a.count_ := by
  induction ports generalizing a with
  | nil => exact ⟨rfl, rfl⟩
  | cons port ports ih =>
    have hone : (a.release port).base_ = a.base_ ∧ (a.release port).count_ = a.count_ := by
      unfold PortAllocator.release
      split <;> exact ⟨rfl, rfl⟩
    exact ⟨(ih _).1.trans hone.1, (ih _).2.trans hone.2⟩

theorem isUsed_releases (ports : List UInt16) (a : PortAllocator) (p : UInt16) :
    (ports.foldl PortAllocator.release a).isUsed p = true ↔ a.isUsed p = true ∧ p ∉ ports := by
  induction ports generalizing a with
  | nil => simp
  | cons port ports ih =>
    rw [List.foldl_cons, ih, PortAllocator.isUsed_release, List.mem_cons, not_or, and_assoc]

/-- After the releases an index is used when it was and its port is not among them. -/
theorem used_releases {a : PortAllocator} (h : a.InRange) (ports : List UInt16) {i : Nat} (hi : i < a.count_) :
    (ports.foldl PortAllocator.release a).used_[i]? = some true ↔
      a.used_[i]? = some true ∧ UInt16.ofNat (a.base_ + i) ∉ ports := by
  obtain ⟨hb, hc⟩ := config_releases ports a
  have hrange : (ports.foldl PortAllocator.release a).InRange := by
    unfold PortAllocator.InRange
    rw [hb, hc]
    exact h
  rw [← PortAllocator.isUsed_port hrange (hc ▸ hi), hb, isUsed_releases, PortAllocator.isUsed_port h hi]

theorem used_false {a : PortAllocator} {i : Nat} (hi : i < a.count_) :
    a.used_[i]? = some false ↔ ¬ a.used_[i]? = some true := by
  rw [List.getElem?_eq_getElem (a.length_used.symm ▸ hi)]
  simp

/-- The participant that an add inserted listens on the port of `index`; from then on the index comes back. -/
theorem comesBack {q : Participant} {slot index : Nat} {meeting : Meeting} (hinv : PortsInv u) (hc : u.crashed = false)
    (hm : u.meetings_[meet_id]? = some m) (hobj : u.objects[m]? = some meeting)
    (hq : meeting.participants_[part_id]? = some (q, slot)) (hindex : index < u.port_allocator_.count_)
    (hport : q.port_ = UInt16.ofNat (u.port_allocator_.base_ + index)) (hne : q.port_ ≠ 0) :
    ComesBack u m meet_id part_id index := by
  have howns : Owns u q.port_ (.part m part_id) := ⟨q, slot, ⟨meeting, hobj, hq⟩, rfl, hne⟩
  refine ⟨?_, fun req ans hreq => ?_, fun req ans hreq => ?_⟩
  · have hused := hinv.used q.port_ _ howns
    rwa [hport, PortAllocator.isUsed_port hinv.range hindex] at hused
  · obtain ⟨es, hserves⟩ := serves_delete ans hc hm hobj hq hne (validate_of_deletes hreq)
    refine ⟨_, es, hserves, ?_⟩
    show (u.port_allocator_.release q.port_).used_ = _
    rw [hport]
    exact used_release hinv.range hindex
  · obtain ⟨es, hserves⟩ := serves_destroy ans hc hm hobj (validate_of_destroys hreq)
    obtain ⟨hb, hcount⟩ := config_releases meeting.participant_ports u.port_allocator_
    have hmem : UInt16.ofNat (u.port_allocator_.base_ + index) ∈ meeting.participant_ports :=
      Meeting.mem_participant_ports.mpr ⟨part_id, q, slot, hq, hport, hport ▸ hne⟩
    refine ⟨_, es, hserves, (used_false (hcount.symm ▸ hindex)).mpr fun h => ?_, fun k hk => ?_⟩
    · exact ((used_releases hinv.range _ hindex).mp h).2 hmem
    · have hlt : k < u.port_allocator_.count_ := by
        by_contra hge
        have hnone : ∀ a : PortAllocator, a.count_ = u.port_allocator_.count_ → a.used_[k]? = none := by
          intro a ha
          exact List.getElem?_eq_none (a.length_used ▸ ha ▸ Nat.not_lt.mp hge)
        exact hk ((hnone _ hcount).trans (hnone _ rfl).symm)
      have hiff := used_releases hinv.range meeting.participant_ports hlt
      by_cases hin : UInt16.ofNat (u.port_allocator_.base_ + k) ∈ meeting.participant_ports
      · obtain ⟨part_id', q', slot', hq', hport', -⟩ := Meeting.mem_participant_ports.mp hin
        refine ⟨part_id', q', slot', ⟨meeting, hobj, hq'⟩, ?_⟩
        rw [hport', PortAllocator.toNat_port hinv.range hlt]
      · rw [and_iff_left hin] at hiff
        refine absurd ?_ hk
        show (meeting.participant_ports.foldl PortAllocator.release u.port_allocator_).used_[k]? = _
        cases hused : u.port_allocator_.used_[k]? with
        | none => exact absurd hused (by simp [u.port_allocator_.length_used, hlt])
        | some b =>
          cases b with
          | false => exact (used_false (hcount.symm ▸ hlt)).mpr fun h => by simp [hiff.mp h] at hused
          | true => exact hiff.mpr hused

/-! ### The result -/

theorem Serves.alive (h : Serves s req ans t es) : s.crashed = false := by
  obtain ⟨u, es₁, es₂, hreceive, -⟩ := h
  exact (step_does hreceive).1

theorem Sequential.registryInv (h : Sequential base count s) : RegistryInv s := by
  obtain ⟨tr, hrun⟩ := h.run
  exact run_registryInv hrun

/-- An add that is answered with code 0 had valid parameters and went to its end. -/
theorem Serves.add_ends (h : Serves s req ans t es) (hreg : RegistryInv s) (hadd : req.isAdd = true)
    (hcode : codeOf es = some 0) : ∃ meet_id part, ValidAdd req meet_id part ∧ AddEnds s meet_id part ans t es := by
  rcases validate_add hadd with ⟨meet_id, part, hv, hvalid⟩ | ⟨-, msg, hmsg, hvalid⟩
  · obtain ⟨t', es', hserves, hends⟩ := serves_add ans h.alive
      (fun m hm => (hreg.keyed meet_id m hm).imp fun _ => And.left) hvalid
    obtain ⟨rfl, rfl⟩ := hserves.unique h
    exact ⟨meet_id, part, hv, hends⟩
  · obtain ⟨-, rfl⟩ := (receive_refuses h.alive hvalid).unique h
    rw [codeOf_responded] at hcode
    exact absurd ((code_respond_null (by decide) hmsg).mp hcode) (by decide)

/-- Every port of the pool is a port number. -/
theorem realPorts_of_range (hbase : 1 ≤ base.toNat) (hcount : base.toNat + count.toNat ≤ 65536) :
    RealPorts base count := by
  intro s t req ans es hseq hadd hserves hcode
  obtain ⟨meet_id, part, hv, hends⟩ := hserves.add_ends hseq.registryInv hadd hcode
  obtain ⟨m, port, meeting, meeting', alloc, calls, hm, halloc, hobj, hadded, hpool, hobjects, hport, hcode⟩ :=
    hends.of_code hcode
  have hrange := (hseq.portsInv hbase hcount).range
  rcases PortAllocator.allocate_cases halloc with ⟨-, hr⟩ | ⟨index, hindex, hfree, rfl, hr⟩
  · cases hr
  obtain rfl := Option.some.inj hr
  have hnat := PortAllocator.toNat_port hrange hindex
  rw [addTo_eq] at hadded
  obtain ⟨slot, -, hjoin, -⟩ := Meeting.add_joins hadded
  have hq : PartAt t m part.part_id (part.participant meeting.meet_id_ (UInt16.ofNat (s.port_allocator_.base_ + index))) slot :=
    (partAt_set hobj hobjects).mpr (Or.inl ⟨rfl, (hjoin.getElem? _).mpr (Or.inl ⟨rfl, rfl⟩)⟩)
  have hreport : reportedPort part (s.port_allocator_.base_ + index) = (s.port_allocator_.base_ + index : Nat) := by
    unfold reportedPort
    split
    · rfl
    · rw [hnat]
  have hpos := hrange.1
  refine ⟨meet_id, part, m, index, hv, hm, ⟨⟨_, _, _, hport.trans (port_respond hreport hcode), ?_, ?_, hq, hnat.symm⟩,
    hfree, by rw [hpool]; rfl⟩, fun u hstays hc hm' => ?_⟩
  · omega
  · have := hrange.2
    omega
  · have hseq' := hstays.sequential (hseq.serve hserves)
    obtain ⟨meeting₁, hobj₁, hq₁⟩ := hstays.same hq
    obtain ⟨hb, hcnt⟩ := hseq.config
    obtain ⟨hb', hcnt'⟩ := hseq'.config
    refine comesBack (hseq'.portsInv hbase hcount) hc hm' hobj₁ hq₁ ?_ ?_ ?_
    · rwa [hcnt', ← hcnt]
    · rw [hb', ← hb]
      rfl
    · intro h0
      have h0' := congrArg UInt16.toNat (show UInt16.ofNat (s.port_allocator_.base_ + index) = 0 from h0)
      rw [hnat] at h0'
      exact absurd h0' (by simp; omega)

/-- The pool hands out the port that narrows to 0 when no other is free. -/
theorem allocate_zero {i : Nat} (hi : i < count.toNat) (hzero : UInt16.ofNat (base.toNat + i) = 0) :
    ∃ alloc port, (PortAllocator.new base count).allocate (· == 0) = (alloc, some port) ∧ UInt16.ofNat port = 0 := by
  unfold PortAllocator.allocate
  split
  · rename_i j hj
    have hfree := List.find?_some hj
    simp only [PortAllocator.isFree, Bool.and_eq_true, beq_iff_eq] at hfree
    exact ⟨_, _, rfl, hfree.2⟩
  · rename_i hnone
    refine absurd ?_ (List.find?_eq_none.mp hnone i (List.mem_range.mpr hi))
    have hprobe : (PortAllocator.new base count).probe i = i := by
      simp only [PortAllocator.probe, PortAllocator.new, Nat.zero_add]
      exact Nat.mod_eq_of_lt hi
    rw [hprobe]
    simp [PortAllocator.isFree, PortAllocator.new, hi, hzero]

/-- A meeting that was just created, as the first. -/
theorem created_first (base count : UInt16) : ∃ s meeting, Sequential base count s ∧ s.crashed = false ∧
    s.listen_ip_ = [] ∧ s.port_allocator_ = .new base count ∧ s.meetings_[hexId 1]? = some 0 ∧
    s.objects[0]? = some meeting ∧ meeting.participants_.contains (ascii "a") = false ∧ meeting.pool_ = true ∧
    meeting.conf_ = true := by
  obtain ⟨es, hserves⟩ := serves_create (s := { listen_ip_ := [], port_allocator_ := .new base count })
    { random := 1 } rfl
  refine ⟨_, .new (hexId 1) true true true, .serve .start hserves, rfl, rfl, rfl, ?_, rfl, ?_, rfl, rfl⟩
  · simp [withRequest]
  · simp [Meeting.new]

/-- A port that narrows to 0 is reported, and nobody listens on it. -/
theorem not_realPorts {i : Nat} (hi : i < count.toNat) (hzero : UInt16.ofNat (base.toNat + i) = 0) :
    ¬ RealPorts base count := by
  intro hreal
  obtain ⟨alloc, port, halloc, hport⟩ := allocate_zero hi hzero
  obtain ⟨s, meeting, hseq, hc, hip, hpool, hm, hobj, habsent, hmpool, hconf⟩ := created_first base count
  have hvalid : validate addA = .inl (.addLookup (hexId 1) { part_id := ascii "a" }) := rfl
  obtain ⟨t, es, hserves, hends⟩ := serves_add { is_port_available := (· == 0) } hc
    (fun m hm => (hseq.registryInv.keyed _ m hm).imp fun _ => And.left) hvalid
  have hsection : ∀ {m' port' : Nat} {meeting' : Meeting} {alloc' : PortAllocator} {result : AddResult}
      {calls : List AddCall}, s.meetings_[hexId 1]? = some m' →
      s.port_allocator_.allocate (· == 0) = (alloc', some port') → s.objects[m']? = some meeting' →
      addTo meeting' { part_id := ascii "a" } port' ⟨true, true, some 1⟩ = (result, calls) →
      port' = port ∧ ∃ added, result = .added added := by
    intro m' port' meeting' alloc' result calls hm' halloc' hobj' hadd'
    obtain rfl := Option.some.inj (hm.symm.trans hm')
    obtain rfl := Option.some.inj (hobj.symm.trans hobj')
    rw [hpool, halloc] at halloc'
    refine ⟨(Option.some.inj (Prod.mk.inj halloc').2).symm, ?_⟩
    simp only [addTo, Meeting.add_participant, Meeting.add, NewPart.participant, habsent, hmpool, hconf, Bool.not_true,
      Bool.false_eq_true, if_false, Prod.mk.injEq] at hadd'
    exact ⟨_, hadd'.1.symm⟩
  have hcode : codeOf es = some 0 := by
    cases hends with
    | unknown hm' =>
      rw [hm] at hm'
      cases hm'
    | noPort _ halloc' =>
      rw [hpool, halloc] at halloc'
      cases halloc'
    | crashed hm' halloc' hobj' hadd' => obtain ⟨-, _, ⟨⟩⟩ := hsection hm' halloc' hobj' hadd'
    | refused hm' halloc' hobj' hadd' => obtain ⟨-, _, ⟨⟩⟩ := hsection hm' halloc' hobj' hadd'
    | added _ _ _ _ =>
      have hutf8 : Utf8.Valid s.listen_ip_ := hip ▸ (by decide)
      simpa [codeOf] using code_success.mpr hutf8
  obtain ⟨meet_id, part, m, index, hv, hm', hreported, -⟩ := hreal s t addA _ es hseq rfl hserves hcode
  obtain ⟨rfl, rfl⟩ := validAdd_addA.unique hv
  obtain ⟨reported, q, slot, -, hpos, -, hq, rfl⟩ := hreported.port
  obtain ⟨m₁, port₁, meeting₁, meeting', alloc₁, calls, hm₁, halloc₁, hobj₁, hadd₁, -, hobjects, -⟩ := hends.of_code hcode
  obtain ⟨rfl, -⟩ := hsection hm₁ halloc₁ hobj₁ hadd₁
  obtain rfl := Option.some.inj (hm₁.symm.trans hm')
  rw [addTo_eq] at hadd₁
  obtain ⟨slot', -, hjoin, -⟩ := Meeting.add_joins hadd₁
  have hq' : PartAt t _ (ascii "a") _ slot' :=
    (partAt_set hobj₁ hobjects).mpr (Or.inl ⟨rfl, (hjoin.getElem? _).mpr (Or.inl ⟨rfl, rfl⟩)⟩)
  obtain ⟨rfl, -⟩ := partAt_of_present hq' hq
  have hzero' : UInt16.ofNat port₁ = 0 := hport
  simp [NewPart.participant, hzero'] at hpos

/-- No add succeeds on an empty pool. -/
theorem realPorts_of_empty (base : UInt16) : RealPorts base 0 := by
  intro s t req ans es hseq hadd hserves hcode
  obtain ⟨meet_id, part, -, hends⟩ := hserves.add_ends hseq.registryInv hadd hcode
  obtain ⟨m, port, meeting, meeting', alloc, calls, -, halloc, -⟩ := hends.of_code hcode
  rcases PortAllocator.allocate_cases halloc with ⟨-, hr⟩ | ⟨index, hindex, -⟩
  · cases hr
  · rw [hseq.config.2] at hindex
    exact absurd hindex (Nat.not_lt_zero index)

end Ports

/-- The reported ports are real, and come back, exactly when the pool is empty or all of it are port numbers. -/
theorem reports_real_ports (base count : UInt16) :
    RealPorts base count ↔ count = 0 ∨ (1 ≤ base.toNat ∧ base.toNat + count.toNat ≤ 65536) := by
  constructor
  · intro hreal
    by_contra hout
    simp only [not_or, not_and, Nat.not_le] at hout
    obtain ⟨hne, hrange⟩ := hout
    have hpos : 0 < count.toNat := UInt16.pos_iff_ne_zero.mpr hne
    by_cases hbase : base.toNat = 0
    · exact not_realPorts hpos (by rw [hbase]; rfl) hreal
    · have hwrap := hrange (Nat.pos_of_ne_zero hbase)
      have hlt := base.toNat_lt
      have hport : base.toNat + (65536 - base.toNat) = 65536 := by omega
      exact not_realPorts (show 65536 - base.toNat < count.toNat by omega) (by rw [hport]; rfl) hreal
  · rintro (rfl | ⟨hbase, hcount⟩)
    · exact realPorts_of_empty base
    · exact realPorts_of_range hbase hcount

/-- The second port of the pool is 65536. -/
theorem reports_no_port : ¬ ∀ base count : UInt16, RealPorts base count := by
  intro hall
  have hindex : 1 < (2 : UInt16).toNat := by decide
  exact not_realPorts hindex (show UInt16.ofNat ((65535 : UInt16).toNat + 1) = 0 from rfl) (hall 65535 2)

end AudioMeet.Server
