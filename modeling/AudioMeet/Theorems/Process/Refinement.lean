import AudioMeet.Theorems.PortHistory
import AudioMeet.Theorems.Process.Answers
import AudioMeet.Theorems.Process.Represents

/-! Requests that come one after the other are answered as the directory answers them, and leave the state that stands
    for the directory afterwards. -/

namespace AudioMeet.Server
open Lib Machine Directory

/-! ### How a request that runs alone is answered -/

/-- The last request goes on alone from `pc` and is answered with `json`, in `u` and nothing else. -/
def Concludes (s : Server) (pc : ReqPc) (ans : Answer) (u : Server) (json : Json) : Prop :=
  ∃ es, Finishes s.requests.length ans (s.withRequest pc) (u.withRequest .done) es ∧
    responses es = [(s.requests.length, respond json)]

section Concluding
variable {s u : Server} {pc : ReqPc} {ans : Answer} {json : Json} {req : Request} (s' : Server) (pc' : ReqPc)

/-- A section that takes the state without the request to `s'`. -/
theorem Concludes.go (es : List ServerEvent) (hc : s.crashed = false) (hreqs : s'.requests = s.requests)
    (hes : responses es = []) (hgo : (s.withRequest pc).goOn s.requests.length ans pc = some (s'.withRequest pc', es))
    (h : Concludes s' pc' ans u json) : Concludes s pc ans u json := by
  obtain ⟨es', hrest, hanswer⟩ := h
  rw [hreqs] at hrest hanswer
  exact ⟨es ++ es', go_finishes es hc hgo hrest, by rw [responses_append, hes, hanswer, List.nil_append]⟩

/-- The last section. -/
theorem Concludes.last (hc : s.crashed = false) (hreqs : s'.requests = s.requests)
    (hgo : (s.withRequest pc).goOn s.requests.length ans pc = some ((s'.withRequest pc).finish s.requests.length json)) :
    Concludes s pc ans s' json := by
  rw [← hreqs, finish_withRequest, hreqs] at hgo
  have hdone : (s'.withRequest .done).requests[s.requests.length]? = some .done := hreqs ▸ getElem?_withRequest s' .done
  exact ⟨_, go_ends hc hgo (Or.inl hdone), rfl⟩

theorem Concludes.serves (hc : s.crashed = false) (hv : validate req = .inl pc) (h : Concludes s pc ans u json) :
    ∃ es, Serves s req ans (u.withRequest .done) es ∧ responses es = [(s.requests.length, respond json)] := by
  obtain ⟨es, hf, hes⟩ := h
  exact ⟨es, receive_finishes hc hv hf, hes⟩

/-- `goto` in a section that takes the rest of the state to `s'`. -/
theorem goto_concludes (hreqs : s'.requests = s.requests) :
    some ((s'.withRequest pc).goto s.requests.length pc') = some (s'.withRequest pc', []) := by
  rw [← hreqs, goto_withRequest]

/-- `get_meeting`, where it finds the meeting. -/
theorem get_meeting_concludes {meet_id : Bytes} {m : Nat} (hm : s.meetings_[meet_id]? = some m) (next : Nat → ReqPc) :
    some ((s.withRequest pc).get_meeting s.requests.length meet_id next) = some (s.withRequest (next m), []) := by
  rw [get_meeting, show (s.withRequest pc).meetings_[meet_id]? = some m from hm]
  exact goto_concludes s _ rfl

/-! ### Each of them -/

theorem concludes_create (ans : Answer) (hc : s.crashed = false) :
    Concludes s .create ans { s with
      objects := s.objects ++ [Meeting.new (hexId ans.random) ans.pool ans.conf ans.clock]
      meetings_ := s.meetings_.insert (hexId ans.random) s.objects.length }
      (Directory.success (.ofMembers [("meetId", .string (hexId ans.random))])) :=
  .last _ hc rfl rfl

/-- A request for a meeting that is not registered. -/
theorem concludes_unknown (op : Op) {meet_id : Bytes} (ans : Answer) (hc : s.crashed = false)
    (hop : op.meeting = some meet_id) (hm : s.meetings_[meet_id]? = none) :
    Concludes s op.entry ans s (body 1 "meetId not found" .null) := by
  have hm' : ∀ pc, (s.withRequest pc).meetings_[meet_id]? = none := fun _ => hm
  cases op with
  | create | list => cases hop
  | destroy id =>
    obtain rfl := Option.some.inj hop
    refine .last s hc rfl ?_
    simp only [Op.entry, goOn, destroyLookup, hm']
  | _ =>
    obtain rfl := Option.some.inj hop
    refine .last s hc rfl ?_
    simp only [Op.entry, goOn, get_meeting, hm']

section Member
variable {meet_id part_id : Bytes} {m : Nat} {meeting : Meeting}

/-- A delete or a mute of a participant that is not there. -/
theorem concludes_absent (op : Op) (ans : Answer) (hc : s.crashed = false) (hop : op.member = some (meet_id, part_id))
    (hm : s.meetings_[meet_id]? = some m) (hobj : s.objects[m]? = some meeting)
    (hq : meeting.participants_[part_id]? = none) :
    Concludes s op.entry ans s (body 2 "partId not found" .null) := by
  have hobj' : ∀ pc, (s.withRequest pc).objects[m]? = some meeting := fun _ => hobj
  cases op with
  | delete meet_id' part_id' =>
    obtain ⟨rfl, rfl⟩ := Prod.mk.inj (Option.some.inj hop)
    have hget : meeting.get_participant part_id' = none := by rw [Meeting.get_participant, hq]; rfl
    refine .go s (.deleteGet m meet_id' part_id') [] hc rfl rfl (get_meeting_concludes hm _) (.last s hc rfl ?_)
    simp only [goOn, hobj', Option.bind_eq_bind, Option.bind_some, deleteGet, hget]
  | mute meet_id' part_id' value =>
    obtain ⟨rfl, rfl⟩ := Prod.mk.inj (Option.some.inj hop)
    have hmute : meeting.set_participant_mute part_id' = false := by
      rw [Meeting.set_participant_mute, Std.ExtTreeMap.contains_eq_isSome_getElem?, hq]
      rfl
    refine .go s (.muteSection m part_id' value) [] hc rfl rfl (get_meeting_concludes hm _) (.last s hc rfl ?_)
    simp only [goOn, hobj', Option.bind_eq_bind, Option.bind_some, muteSection, hmute, Bool.false_eq_true, if_false]
  | _ => cases hop

theorem concludes_mute {x : Participant × Nat} (ans : Answer) (mute : Bool) (hc : s.crashed = false)
    (hm : s.meetings_[meet_id]? = some m) (hobj : s.objects[m]? = some meeting)
    (hq : meeting.participants_[part_id]? = some x) :
    Concludes s (.muteLookup meet_id part_id mute) ans s (Directory.success .null) := by
  have hobj' : ∀ pc, (s.withRequest pc).objects[m]? = some meeting := fun _ => hobj
  have hmute : meeting.set_participant_mute part_id = true := by
    rw [Meeting.set_participant_mute, Std.ExtTreeMap.contains_eq_isSome_getElem?, hq]
    rfl
  refine .go s (.muteSection m part_id mute) [] hc rfl rfl (get_meeting_concludes hm _) (.last s hc rfl ?_)
  simp only [goOn, hobj', Option.bind_eq_bind, Option.bind_some, muteSection, hmute, if_true]
  rfl

/-- A delete that finds its participant, with a port. -/
theorem concludes_delete {q : Participant} {slot : Nat} (ans : Answer) (hc : s.crashed = false)
    (hm : s.meetings_[meet_id]? = some m) (hobj : s.objects[m]? = some meeting)
    (hq : meeting.participants_[part_id]? = some (q, slot)) (hport : q.port_ ≠ 0) :
    Concludes s (.deleteLookup meet_id part_id) ans { s with
      objects := s.objects.set m { meeting with participants_ := meeting.participants_.erase part_id }
      port_allocator_ := s.port_allocator_.release q.port_ } (Directory.success .null) := by
  have hpos : 0 < q.port_ := UInt16.pos_iff_ne_zero.mpr hport
  have hget : meeting.get_participant part_id = some q := by rw [Meeting.get_participant, hq]; rfl
  have hm' : ∀ pc, (s.withRequest pc).meetings_[meet_id]? = some m := fun _ => hm
  have hobj' : ∀ pc, (s.withRequest pc).objects[m]? = some meeting := fun _ => hobj
  let left : Server := { s with
    objects := s.objects.set m { meeting with participants_ := meeting.participants_.erase part_id } }
  refine .go s (.deleteGet m meet_id part_id) [] hc rfl rfl (get_meeting_concludes hm _)
    (.go s (.deleteAgain meet_id part_id) [] hc rfl rfl ?_ (.go s (.deleteSection m part_id) [] hc rfl rfl ?_
      (.go left (.deleteRelease q.port_) [] hc rfl rfl ?_ (.last _ hc rfl rfl))))
  · simp only [goOn, hobj', Option.bind_eq_bind, Option.bind_some, deleteGet, hget]
    exact goto_concludes s _ rfl
  · simp only [goOn, deleteAgain, hm']
    exact goto_concludes s _ rfl
  · simp only [goOn, hobj', Option.bind_eq_bind, Option.bind_some, deleteSection, Meeting.remove_participant, hq,
      if_pos hpos]
    exact goto_concludes left _ rfl

theorem concludes_release (ans : Answer) (ports : List UInt16) (hc : s.crashed = false) :
    Concludes s (.destroyRelease ports) ans
      { s with port_allocator_ := ports.foldl PortAllocator.release s.port_allocator_ } (Directory.success .null) := by
  induction ports generalizing s with
  | nil => exact .last s hc rfl rfl
  | cons port ports ih =>
    exact .go (s.releasePort port) (.destroyRelease ports) [] hc rfl rfl (goto_concludes (s.releasePort port) _ rfl) (ih hc)

/-- A destroy that finds its meeting. -/
theorem concludes_destroy (ans : Answer) (hc : s.crashed = false) (hm : s.meetings_[meet_id]? = some m)
    (hobj : s.objects[m]? = some meeting) :
    Concludes s (.destroyLookup meet_id) ans { s with
      meetings_ := s.meetings_.erase meet_id
      objects := (s.objects.set m meeting.stopClock).set m meeting.stopClock.stopSection
      port_allocator_ := meeting.participant_ports.foldl PortAllocator.release s.port_allocator_ }
      (Directory.success .null) := by
  have hlt := (List.getElem?_eq_some_iff.mp hobj).1
  have hm' : ∀ pc, (s.withRequest pc).meetings_[meet_id]? = some m := fun _ => hm
  let erased : Server := { s with meetings_ := s.meetings_.erase meet_id }
  let halted : Server := { erased with objects := s.objects.set m meeting.stopClock }
  let stopped : Server := { halted with objects := halted.objects.set m meeting.stopClock.stopSection }
  have herased : ∀ pc, (erased.withRequest pc).objects[m]? = some meeting := fun _ => hobj
  have hhalted : ∀ pc, (halted.withRequest pc).objects[m]? = some meeting.stopClock := fun _ => List.getElem?_set_self hlt
  have hrelease : Concludes stopped (.destroyRelease meeting.participant_ports) ans _ (Directory.success .null) :=
    concludes_release ans meeting.participant_ports hc
  refine .go erased (.destroyPorts m) [] hc rfl rfl ?_
    (.go erased (.destroyClock m meeting.participant_ports) [] hc rfl rfl ?_
    (.go halted (.destroySection m meeting.participant_ports) [] hc rfl rfl ?_
    (.go stopped (.destroyRelease meeting.participant_ports) [.stopped m] hc rfl rfl ?_ hrelease)))
  · simp only [goOn, destroyLookup, hm']
    exact goto_concludes erased _ rfl
  · simp only [goOn, herased, Option.bind_eq_bind, Option.bind_some]
    exact goto_concludes erased _ rfl
  · simp only [goOn, herased, Option.bind_eq_bind, Option.bind_some]
    exact goto_concludes halted _ rfl
  · simp only [goOn, hhalted, Option.bind_eq_bind, Option.bind_some, destroySection]
    rw [show s.requests = halted.requests from rfl, set_withRequest halted]
    rfl

end Member

/-- The loop over the meetings. -/
theorem concludes_listParticipants (ans : Answer) {rest : List Nat} (hc : s.crashed = false)
    (hobj : ∀ m ∈ rest, m < s.objects.length) (listed : List Json) :
    Concludes s (.listParticipants listed rest) ans s
      (Directory.success (.array (listed ++ rest.map s.objectJson))) := by
  induction rest generalizing listed with
  | nil =>
    rw [List.map_nil, List.append_nil]
    exact .last s hc rfl rfl
  | cons m rest ih =>
    obtain ⟨hm, hrest⟩ := List.forall_mem_cons.mp hobj
    have hget : ∀ pc, (s.withRequest pc).objects[m]? = some s.objects[m] := fun _ => List.getElem?_eq_getElem hm
    have hjson : s.objectJson m = meetingJson s.objects[m] := by
      rw [objectJson, List.getElem?_eq_getElem hm]
      rfl
    refine .go s (.listParticipants (listed ++ [s.objectJson m]) rest) [] hc rfl rfl ?_ ?_
    · simp only [goOn, hget, Option.bind_eq_bind, Option.bind_some, hjson]
      exact goto_concludes s _ rfl
    · have hnext := ih hrest (listed ++ [s.objectJson m])
      rw [List.append_assoc, List.singleton_append] at hnext
      exact hnext

theorem concludes_list (ans : Answer) (hc : s.crashed = false) (hobj : ∀ m ∈ s.list_meetings, m < s.objects.length) :
    Concludes s .listLookup ans s (Directory.success (.array (s.list_meetings.map s.objectJson))) :=
  .go s (.listParticipants [] s.list_meetings) [] hc rfl rfl (goto_concludes s _ rfl)
    (concludes_listParticipants ans hc hobj [])

end Concluding

/-! ### The directory answers the same -/

/-- What is known of a state between requests. -/
structure Settled (base count : UInt16) (s : Server) : Prop where
  registry : RegistryInv s
  ids : IdsInv s
  range : s.port_allocator_.InRange
  config : s.port_allocator_.base_ = base.toNat ∧ s.port_allocator_.count_ = count.toNat

/-- The ports of the pool. -/
def poolPorts (base count : UInt16) : Set UInt16 :=
  {port | base.toNat ≤ port.toNat ∧ port.toNat < base.toNat + count.toNat}

/-- The request is answered in `s` as in the directory, and the state afterwards shows the directory afterwards; or
    the process crashes. -/
def Refines (base count : UInt16) (s : Server) (d : Directory) (req : Request) (op : Op) (ans : Answer) : Prop :=
  ∃ t es, Serves s req ans t es ∧ (t.crashed = true ∧ responses es = [] ∨
    ∃ json d', responses es = [(s.requests.length, respond json)] ∧
      Directory.Does (poolPorts base count) s.listen_ip_ d ans op json d' ∧ t.Shows d' ∧ t.listen_ip_ = s.listen_ip_)

section Refining
variable {base count : UInt16} {s u : Server} {d d' : Directory} {req : Request} {op : Op} {ans : Answer} {json : Json}

theorem Concludes.refines (op : Op) (h : Concludes s op.entry ans u json) (hc : s.crashed = false)
    (hv : validate req = .inl op.entry) (hdoes : Directory.Does (poolPorts base count) s.listen_ip_ d ans op json d')
    (hshows : u.Shows d') (hip : u.listen_ip_ = s.listen_ip_) : Refines base count s d req op ans := by
  obtain ⟨es, hserves, hes⟩ := h.serves hc hv
  exact ⟨_, es, hserves, Or.inr ⟨json, d', hes, hdoes, ⟨hshows.meetings, hshows.held⟩, hip⟩⟩

/-- A meeting of the directory is registered, and its object is there. -/
theorem Shows.meeting (h : s.Shows d) (hs : Settled base count s) (meet_id : Bytes) :
    (s.meetings_[meet_id]? = none ∧ d.meetings[meet_id]? = none) ∨
    ∃ m meeting, s.meetings_[meet_id]? = some m ∧ s.objects[m]? = some meeting ∧
      d.meetings[meet_id]? = some meeting.members := by
  cases hm : s.meetings_[meet_id]? with
  | none => exact Or.inl ⟨rfl, h.meetings ▸ registered_none hm⟩
  | some m =>
    obtain ⟨meeting, hobj, -⟩ := hs.registry.keyed meet_id m hm
    exact Or.inr ⟨m, meeting, rfl, hobj, h.meetings ▸ registered_of hm hobj⟩

theorem refines_create (hs : Settled base count s) (h : s.Shows d) (hc : s.crashed = false)
    (hv : validate req = .inl .create) : Refines base count s d req .create ans := by
  have hcreate : Concludes s Op.create.entry ans _ _ := concludes_create ans hc
  refine hcreate.refines .create hc hv .create ⟨?_, h.held⟩ rfl
  show d.meetings.insert _ ∅ = _
  rw [h.meetings]
  exact (registered_create hs.registry rfl rfl).symm

theorem refines_list (hs : Settled base count s) (h : s.Shows d) (hc : s.crashed = false)
    (hv : validate req = .inl .listLookup) : Refines base count s d req .list ans := by
  have hobj : ∀ m ∈ s.list_meetings, m < s.objects.length := by
    intro m hm
    obtain ⟨meet_id, hm⟩ := mem_list_meetings.mp hm
    obtain ⟨meeting, hobj, -⟩ := hs.registry.keyed meet_id m hm
    exact (List.getElem?_eq_some_iff.mp hobj).1
  refine (concludes_list ans hc hobj).refines .list hc hv ?_ h rfl
  rw [← h.listing hs.range hs.registry hs.ids]
  exact .list

theorem refines_destroy {meet_id : Bytes} (hs : Settled base count s) (h : s.Shows d) (hc : s.crashed = false)
    (hv : validate req = .inl (.destroyLookup meet_id)) : Refines base count s d req (.destroy meet_id) ans := by
  rcases h.meeting hs meet_id with ⟨hm, hnone⟩ | ⟨m, meeting, hm, hobj, hsome⟩
  · exact (concludes_unknown (.destroy meet_id) ans hc rfl hm).refines _ hc hv (.unknown rfl hnone) h rfl
  · refine (concludes_destroy ans hc hm hobj).refines (.destroy meet_id) hc hv (.destroy hsome) ⟨?_, ?_⟩ rfl
    · show d.meetings.erase meet_id = _
      rw [h.meetings]
      refine (registered_erase hs.registry hm rfl fun n hn => ?_).symm
      rw [List.getElem?_set_ne hn.symm, List.getElem?_set_ne hn.symm]
    · intro port
      rw [isUsed_releases, ← h.held, Meeting.mem_participant_ports]
      refine and_congr_right fun hheld => not_congr ⟨?_, ?_⟩
      · rintro ⟨part_id, member, ⟨members, hmembers, hmember⟩, rfl⟩
        obtain rfl := Option.some.inj (hsome.symm.trans hmembers)
        rw [Meeting.getElem?_members] at hmember
        obtain ⟨⟨q, slot⟩, hq, rfl⟩ := Option.map_eq_some_iff.mp hmember
        exact ⟨part_id, q, slot, hq, rfl, (h.port_ne_zero hs.range hm hobj hq).2⟩
      · rintro ⟨part_id, q, slot, hq, rfl, -⟩
        exact ⟨part_id, q.member, (h.port_ne_zero hs.range hm hobj hq).1, rfl⟩

theorem refines_delete {meet_id part_id : Bytes} (hs : Settled base count s) (h : s.Shows d) (hc : s.crashed = false)
    (hv : validate req = .inl (.deleteLookup meet_id part_id)) :
    Refines base count s d req (.delete meet_id part_id) ans := by
  rcases h.meeting hs meet_id with ⟨hm, hnone⟩ | ⟨m, meeting, hm, hobj, hsome⟩
  · exact (concludes_unknown (.delete meet_id part_id) ans hc rfl hm).refines _ hc hv (.unknown rfl hnone) h rfl
  cases hq : meeting.participants_[part_id]? with
  | none =>
    refine (concludes_absent (.delete meet_id part_id) ans hc rfl hm hobj hq).refines _ hc hv (.absent rfl hsome ?_) h rfl
    rw [Meeting.getElem?_members, hq]
    rfl
  | some x =>
    obtain ⟨hhas, hport⟩ := h.port_ne_zero hs.range hm hobj hq
    refine (concludes_delete ans hc hm hobj hq hport).refines (.delete meet_id part_id) hc hv (.delete hhas)
      ⟨?_, fun port => ?_⟩ rfl
    · show d.meetings.modify meet_id _ = _
      rw [h.meetings]
      refine (registered_set hs.registry hm hobj members_erase ?_ ?_).symm
      · rfl
      · rfl
    · rw [PortAllocator.isUsed_release, ← h.held]
      exact Iff.rfl

theorem refines_mute {meet_id part_id : Bytes} {mute : Bool} (hs : Settled base count s) (h : s.Shows d)
    (hc : s.crashed = false) (hv : validate req = .inl (.muteLookup meet_id part_id mute)) :
    Refines base count s d req (.mute meet_id part_id mute) ans := by
  rcases h.meeting hs meet_id with ⟨hm, hnone⟩ | ⟨m, meeting, hm, hobj, hsome⟩
  · exact (concludes_unknown (.mute meet_id part_id mute) ans hc rfl hm).refines _ hc hv (.unknown rfl hnone) h rfl
  cases hq : meeting.participants_[part_id]? with
  | none =>
    refine (concludes_absent (.mute meet_id part_id mute) ans hc rfl hm hobj hq).refines _ hc hv
      (.absent rfl hsome ?_) h rfl
    rw [Meeting.getElem?_members, hq]
    rfl
  | some x =>
    obtain ⟨hhas, -⟩ := h.port_ne_zero hs.range hm hobj hq
    exact (concludes_mute ans mute hc hm hobj hq).refines (.mute meet_id part_id mute) hc hv (.mute hhas) h rfl

/-! ### An add -/

/-- A port that is allocated is of the pool, was available and not handed out; when there is none, no port is so. -/
theorem allocated_port (hs : Settled base count s) (h : s.Shows d) {avail : UInt16 → Bool} {alloc : PortAllocator}
    {port : Nat} (halloc : s.port_allocator_.allocate avail = (alloc, some port)) :
    UInt16.ofNat port ∈ poolPorts base count ∧ avail (UInt16.ofNat port) = true ∧ UInt16.ofNat port ∉ d.held ∧
      (UInt16.ofNat port).toNat = port ∧ ∀ p, alloc.isUsed p = true ↔ p ∈ insert (UInt16.ofNat port) d.held := by
  obtain ⟨hfree, -, -, hused⟩ := PortAllocator.allocate_some hs.range halloc
  obtain ⟨i, hscan, rfl, -⟩ := PortAllocator.scan_of_some (congrArg Prod.snd halloc)
  have hfirst := PortAllocator.firstFree_of_scan hscan
  have hnat := PortAllocator.toNat_port hs.range hfirst.lt
  refine ⟨?_, hfirst.available, fun hheld => ?_, hnat, fun p => ?_⟩
  · show _ ≤ (UInt16.ofNat _).toNat ∧ (UInt16.ofNat _).toNat < _
    rw [hnat, ← hs.config.1, ← hs.config.2]
    exact ⟨Nat.le_add_right _ _, Nat.add_lt_add_left hfirst.lt _⟩
  · rw [(h.held _).mp hheld] at hfree
    cases hfree
  · rw [hused, Set.mem_insert_iff, h.held, or_comm]

theorem no_port (hs : Settled base count s) (h : s.Shows d) {avail : UInt16 → Bool}
    (halloc : s.port_allocator_.allocate avail = (s.port_allocator_, none)) :
    ∀ port ∈ poolPorts base count, port ∉ d.held → avail port = false := by
  rintro port ⟨hle, hlt⟩ hheld
  obtain ⟨hb, hcount⟩ := hs.config
  have hport : s.port_allocator_.base_ + (port.toNat - s.port_allocator_.base_) = port.toNat :=
    Nat.add_sub_cancel' (hb ▸ hle)
  have hi : port.toNat - s.port_allocator_.base_ < s.port_allocator_.count_ := by omega
  rcases PortAllocator.allocate_eq_none_iff.mp (congrArg Prod.snd halloc) _ hi with hused | havail
  · exact absurd ((h.held port).mpr ((PortAllocator.isUsed_iff port).mpr ⟨hb ▸ hle, hused⟩)) hheld
  · rwa [hport, UInt16.ofNat_toNat] at havail

theorem member_participant {part : NewPart} {meet_id : Bytes} {port : Nat} (hpart : ∀ x ∈ part.remote, x.1 ≠ []) :
    (part.participant meet_id (UInt16.ofNat port)).member = ⟨UInt16.ofNat port, part.remote⟩ := by
  obtain ⟨part_id, remote⟩ := part
  cases remote with
  | none => rfl
  | some x => exact Member.ext rfl (if_neg (hpart x rfl))

theorem starts_of_admits {meeting : Meeting} {part_id : Bytes} (h : meeting.admits part_id ans.add = true) :
    Starts ans := by
  simp only [Meeting.admits, Bool.and_eq_true] at h
  exact ⟨h.1.1.1.1.2, h.1.1.2, h.2⟩

/-- An add that added nothing. -/
theorem does_refusal {meet_id : Bytes} {part : NewPart} {m port : Nat} {meeting : Meeting} {calls : List AddCall}
    (hs : Settled base count s) (h : s.Shows d) (hm : s.meetings_[meet_id]? = some m)
    (hobj : s.objects[m]? = some meeting) (hadd : addTo meeting part port ans.add = (.nullptr, calls)) :
    Directory.Does (poolPorts base count) s.listen_ip_ d ans (.add meet_id part) (refusal meeting part) d := by
  have hsome : d.meetings[meet_id]? = some meeting.members := h.meetings ▸ registered_of hm hobj
  rw [addTo_eq] at hadd
  cases hq : meeting.participants_[part.part_id]? with
  | some x =>
    have hjson : refusal meeting part = body 2 "partId already exists" .null := by
      unfold refusal
      rw [Meeting.get_participant, hq]
      cases part.remote <;> rfl
    rw [hjson]
    exact .taken (h.port_ne_zero hs.range hm hobj hq).1
  | none =>
    have hjson : refusal meeting part = if part.remote = none then body 2 "partId already exists" .null
        else body 5 "startSplit failed" .null := by
      unfold refusal
      rw [Meeting.get_participant, hq]
      cases part.remote <;> rfl
    rw [hjson]
    refine .failed hsome (by rw [Meeting.getElem?_members, hq]; rfl) ?_
    rcases Meeting.add_nullptr hadd with hcontains | ⟨-, -, hfails⟩
    · rw [Std.ExtTreeMap.contains_eq_isSome_getElem?] at hcontains
      rw [show meeting.participants_[(part.participant meeting.meet_id_ (UInt16.ofNat port)).part_id_]? = none from hq] at hcontains
      cases hcontains
    · exact hfails

theorem refines_add {meet_id : Bytes} {part : NewPart} (hs : Settled base count s) (h : s.Shows d)
    (hc : s.crashed = false) (hpart : ∀ x ∈ part.remote, x.1 ≠ []) (hv : validate req = .inl (.addLookup meet_id part)) :
    Refines base count s d req (.add meet_id part) ans := by
  obtain ⟨t, es, hserves, hends⟩ := serves_add ans hc (fun m hm => (hs.registry.keyed meet_id m hm).imp fun _ => And.left) hv
  refine ⟨t, es, hserves, ?_⟩
  cases hends with
  | unknown hm =>
    have hnone : d.meetings[meet_id]? = none := h.meetings ▸ registered_none hm
    exact Or.inr ⟨_, d, rfl, .unknown rfl hnone, ⟨h.meetings, h.held⟩, rfl⟩
  | noPort hm halloc =>
    obtain ⟨meeting, hobj, -⟩ := hs.registry.keyed meet_id _ hm
    have hsome : d.meetings[meet_id]? = some meeting.members := h.meetings ▸ registered_of hm hobj
    exact Or.inr ⟨_, d, rfl, .noPort hsome (no_port hs h halloc), ⟨h.meetings, h.held⟩, rfl⟩
  | crashed _ _ _ _ => exact Or.inl ⟨rfl, rfl⟩
  | @refused m port meeting alloc calls hm halloc hobj hadd =>
    obtain ⟨-, -, hfree, -, hused⟩ := allocated_port hs h halloc
    refine Or.inr ⟨_, d, rfl, does_refusal hs h hm hobj hadd, ⟨h.meetings, fun p => ?_⟩, rfl⟩
    -- The port was not handed out before, and is given back.
    show _ ↔ (alloc.release (UInt16.ofNat port)).isUsed p = true
    rw [PortAllocator.isUsed_release, hused, Set.mem_insert_iff]
    constructor
    · exact fun hp => ⟨Or.inr hp, fun heq => hfree (heq ▸ hp)⟩
    · exact fun ⟨hp, hne⟩ => hp.resolve_left hne
  | @added m port meeting meeting' alloc calls hm halloc hobj hadd =>
    obtain ⟨hrange, havail, hfree, hnat, hused⟩ := allocated_port hs h halloc
    have hsome : d.meetings[meet_id]? = some meeting.members := h.meetings ▸ registered_of hm hobj
    rw [addTo_eq] at hadd
    obtain ⟨slot, -, hjoin, -⟩ := Meeting.add_joins hadd
    have habsent : meeting.participants_[part.part_id]? = none := hjoin.absent
    have hreport : reportedPort part port = ((UInt16.ofNat port).toNat : Int) := by
      unfold reportedPort
      split
      · rw [hnat]
      · rfl
    refine Or.inr ⟨_, _, ?_, .add hsome ?_ (starts_of_admits (Meeting.admits_of_add hadd)) hrange havail hfree, ⟨?_, ?_⟩, rfl⟩
    · rw [Directory.success, ← hreport]
      rfl
    · rw [Meeting.getElem?_members, habsent]
      rfl
    · show d.meetings.modify meet_id _ = _
      rw [h.meetings]
      have hmembers : meeting'.members = meeting.members.insert part.part_id ⟨UInt16.ofNat port, part.remote⟩ := by
        rw [hjoin.eq, members_insert, member_participant hpart]
        rfl
      refine (registered_set (f := (·.insert part.part_id _)) hs.registry hm hobj hmembers ?_ ?_).symm
      · rfl
      · rfl
    · exact fun p => (hused p).symm

/-! ### Any request -/

/-- Parameters that pass are those of an operation; an address to connect to is not empty. -/
theorem validate_entry {pc : ReqPc} (hv : validate req = .inl pc) :
    ∃ op : Op, pc = op.entry ∧ ∀ meet_id part, op = .add meet_id part → ∀ x ∈ part.remote, x.1 ≠ [] := by
  have add : ∀ hadd : req.isAdd = true, ∃ op : Op, pc = op.entry ∧
      ∀ meet_id part, op = .add meet_id part → ∀ x ∈ part.remote, x.1 ≠ [] := by
    intro hadd
    rcases validate_add hadd with ⟨meet_id, part, hvalid, hv'⟩ | ⟨-, msg, -, hv'⟩
    · obtain rfl := Sum.inl.inj (hv.symm.trans hv')
      refine ⟨.add meet_id part, rfl, fun meet_id' part' heq x hx => ?_⟩
      obtain ⟨rfl, rfl⟩ := Op.add.inj heq
      cases hvalid with
      | active _ _ _ _ => cases hx
      | passive _ _ _ _ _ hip _ _ _ _ =>
        obtain rfl := Option.some.inj hx
        exact hip
    · rw [hv] at hv'
      cases hv'
  cases req with
  | addAudioMeetPart params => exact add rfl
  | addPassiveAudioMeetPart params => exact add rfl
  | createAudioMeet => exact ⟨.create, (Sum.inl.inj hv).symm, fun _ _ heq => by cases heq⟩
  | listAudioMeets => exact ⟨.list, (Sum.inl.inj hv).symm, fun _ _ heq => by cases heq⟩
  | destroyAudioMeet params =>
    simp only [validate] at hv
    split at hv
    · exact ⟨.destroy _, (Sum.inl.inj hv).symm, fun _ _ heq => by cases heq⟩
    · cases hv
  | delAudioMeetPart params =>
    simp only [validate] at hv
    split at hv
    · exact ⟨.delete _ _, (Sum.inl.inj hv).symm, fun _ _ heq => by cases heq⟩
    · cases hv
  | muteAudioMeetPart params =>
    simp only [validate] at hv
    split at hv
    · split at hv
      · exact ⟨.mute _ _ _, (Sum.inl.inj hv).symm, fun _ _ heq => by cases heq⟩
      · cases hv
    · cases hv

theorem refines_op (ans : Answer) (hs : Settled base count s) (h : s.Shows d) (hc : s.crashed = false)
    (hpart : ∀ meet_id part, op = .add meet_id part → ∀ x ∈ part.remote, x.1 ≠ [])
    (hv : validate req = .inl op.entry) : Refines base count s d req op ans := by
  cases op with
  | create => exact refines_create hs h hc hv
  | add meet_id part => exact refines_add hs h hc (hpart meet_id part rfl) hv
  | destroy meet_id => exact refines_destroy hs h hc hv
  | delete meet_id part_id => exact refines_delete hs h hc hv
  | mute meet_id part_id mute => exact refines_mute hs h hc hv
  | list => exact refines_list hs h hc hv

end Refining

/-! ### One request after the other -/

/-- The states after the exchanges. The destructor of a meeting that was replaced runs between two of them. -/
inductive Session (base count : UInt16) (listen_ip : Bytes) : List Exchange → Server → Prop
  | start : Session base count listen_ip [] { listen_ip_ := listen_ip, port_allocator_ := .new base count }
  | serve {exchanges : List Exchange} {s t : Server} {req : Request} {ans : Answer} {es : List ServerEvent} {i : Nat}
      {response : Response} :
      Session base count listen_ip exchanges s → Serves s req ans t es → responses es = [(i, response)] →
      Session base count listen_ip (exchanges ++ [⟨req, ans, response⟩]) t
  | destruct {exchanges : List Exchange} {s t : Server} {m : Nat} {es : List Account} :
      Session base count listen_ip exchanges s → s.destruct m = some (t, es) → Session base count listen_ip exchanges t

section Sessions
variable {base count : UInt16} {listen_ip : Bytes} {exchanges : List Exchange} {s : Server}

theorem Session.sequential (h : Session base count listen_ip exchanges s) : Sequential base count s := by
  induction h with
  | start => exact .start
  | serve _ hs _ ih => exact ih.serve hs
  | destruct _ hs ih => exact ih.destruct hs

theorem Sequential.settled (hbase : 1 ≤ base.toNat) (hcount : base.toNat + count.toNat ≤ 65536)
    (h : Sequential base count s) : Settled base count s := by
  obtain ⟨tr, hrun⟩ := h.run
  exact ⟨h.registryInv, run_idsInv hrun, (h.portsInv hbase hcount).range, h.config⟩

/-- An object that nothing refers to any more shows nothing. -/
theorem Shows.destruct {t : Server} {d : Directory} {m : Nat} {es : List Account} (h : s.Shows d)
    (hs : s.destruct m = some (t, es)) : t.Shows d ∧ t.listen_ip_ = s.listen_ip_ := by
  have hstep : (process 0 0).step s (.destruct m) = some (t, es) := hs
  cases process_does hstep with
  | destruct hm _ hkey _ =>
    refine ⟨⟨h.meetings.trans ?_, h.held⟩, rfl⟩
    refine Eq.symm ?_
    refine registered_unregistered hkey (fun n hn => ?_) fun _ => rfl
    exact List.getElem?_set_ne hn.symm

/-- The directory is answered the same responses, and the state shows it. -/
structure ServedAs (base count : UInt16) (listen_ip : Bytes) (exchanges : List Exchange) (s : Server) (d : Directory) :
    Prop where
  session : Directory.Session (poolPorts base count) listen_ip exchanges d
  shows : s.Shows d
  ip : s.listen_ip_ = listen_ip

theorem servedAs_start : ServedAs base count listen_ip [] { listen_ip_ := listen_ip, port_allocator_ := .new base count }
    .empty where
  session := .start
  shows := by
    refine ⟨?_, fun port => ?_⟩
    · exact (Std.ExtTreeMap.filterMap_eq_empty_iff.mpr fun _ hk => absurd hk Std.ExtTreeMap.not_mem_empty).symm
    · have hnone : (PortAllocator.new base count).isUsed port ≠ true := by
        rw [Ne, PortAllocator.isUsed_iff]
        exact fun hused => by simp [PortAllocator.new, List.getElem?_replicate] at hused
      exact iff_of_false id hnone
  ip := rfl

/-- The next request, which its handler serves alone, is answered as by the directory. -/
theorem ServedAs.serve {d : Directory} {t : Server} {req : Request} {ans : Answer} {es : List ServerEvent} {i : Nat}
    {response : Response} (h : ServedAs base count listen_ip exchanges s d) (hs : Settled base count s)
    (hserves : Serves s req ans t es) (hes : responses es = [(i, response)]) :
    ∃ d', ServedAs base count listen_ip (exchanges ++ [⟨req, ans, response⟩]) t d' := by
  have hc := hserves.alive
  cases hv : validate req with
  | inr json =>
    obtain ⟨rfl, rfl⟩ := (receive_refuses hc hv).unique hserves
    obtain ⟨-, rfl⟩ := Prod.mk.inj (List.singleton_inj.mp hes)
    exact ⟨d, .refused ans h.session hv, ⟨h.shows.meetings, h.shows.held⟩, h.ip⟩
  | inl pc =>
    obtain ⟨op, rfl, hpart⟩ := validate_entry hv
    obtain ⟨t', es', hserves', hend⟩ := refines_op ans hs h.shows hc hpart hv
    obtain ⟨rfl, rfl⟩ := hserves'.unique hserves
    rcases hend with ⟨-, hnone⟩ | ⟨json, d', hanswer, hdoes, hshows, hip⟩
    · rw [hnone] at hes
      cases hes
    · obtain ⟨-, rfl⟩ := Prod.mk.inj (List.singleton_inj.mp (hes.symm.trans hanswer))
      exact ⟨d', .served h.session hv (h.ip ▸ hdoes), hshows, hip.trans h.ip⟩

theorem run_servedAs (hbase : 1 ≤ base.toNat) (hcount : base.toNat + count.toNat ≤ 65536)
    (h : Session base count listen_ip exchanges s) : ∃ d, ServedAs base count listen_ip exchanges s d := by
  induction h with
  | start => exact ⟨.empty, servedAs_start⟩
  | serve hsession hserves hes ih =>
    obtain ⟨d, hd⟩ := ih
    exact hd.serve (hsession.sequential.settled hbase hcount) hserves hes
  | destruct _ hs ih =>
    obtain ⟨d, hd⟩ := ih
    obtain ⟨hshows, hip⟩ := hd.shows.destruct hs
    exact ⟨d, hd.session, hshows, hip.trans hd.ip⟩

/-- Requests one after the other, whatever the system answers to their handlers, are answered as by a directory of
    meetings and ports, and the state shows the directory that they leave. -/
theorem session_refines (hbase : 1 ≤ base.toNat) (hcount : base.toNat + count.toNat ≤ 65536)
    (h : Session base count listen_ip exchanges s) :
    ∃ d, Directory.Session (poolPorts base count) listen_ip exchanges d ∧ s.Shows d ∧ s.listen_ip_ = listen_ip := by
  obtain ⟨d, hd⟩ := run_servedAs hbase hcount h
  exact ⟨d, hd.session, hd.shows, hd.ip⟩

/-- Serves the requests one after the other, each with the number of its sections. -/
def replay (s : Server) : List (Request × Nat × Answer) → Option (Server × List Exchange)
  | [] => some (s, [])
  | (req, n, ans) :: reqs => do
    let (t, es) ← (machine 0 0).exec s (request s.requests.length req n ans)
    let (_, response) ← (responses es).head?
    if (responses es).length = 1 ∧ t.requests[s.requests.length]?.any ReqPc.isDone then
      let (u, exchanges) ← replay t reqs
      return (u, ⟨req, ans, response⟩ :: exchanges)
    else none

theorem session_of_replay {reqs : List (Request × Nat × Answer)} {t : Server} {more : List Exchange}
    (h : Session base count listen_ip exchanges s) (hr : s.replay reqs = some (t, more)) :
    Session base count listen_ip (exchanges ++ more) t := by
  induction reqs generalizing s exchanges more with
  | nil =>
    obtain ⟨rfl, rfl⟩ := Prod.mk.inj (Option.some.inj hr)
    rwa [List.append_nil]
  | cons x reqs ih =>
    obtain ⟨req, n, ans⟩ := x
    obtain ⟨⟨u, es⟩, hexec, hr⟩ := Option.bind_eq_some_iff.mp hr
    obtain ⟨⟨i, response⟩, hhead, hr⟩ := Option.bind_eq_some_iff.mp hr
    dsimp only at hr
    split at hr
    · rename_i hend
      obtain ⟨⟨u', rest⟩, hrest, hr⟩ := Option.bind_eq_some_iff.mp hr
      obtain ⟨rfl, rfl⟩ := Prod.mk.inj (Option.some.inj hr)
      obtain ⟨pc, hpc, hdone⟩ := (Option.any_eq_true _ _).mp hend.2
      have hes : responses es = [(i, response)] := by
        obtain ⟨x, hx⟩ := List.length_eq_one_iff.mp hend.1
        rw [hx] at hhead ⊢
        exact congrArg (fun y => [y]) (Option.some.inj hhead)
      have hserves := serves_of_exec hexec (Or.inl (ReqPc.isDone_iff.mp hdone ▸ hpc))
      rw [List.append_cons]
      exact ih (h.serve hserves hes) hrest
    · cases hr

/-- A meeting gets a participant that listens and one that connects too, of which the first leaves and its port is
    given to another. -/
def joinedInTurn : List (Request × Nat × Answer) :=
  let add part_id := Request.addAudioMeetPart { meetId := some (hexId 1), partId := some (ascii part_id) }
  [(.createAudioMeet, 1, { random := 1 }), (add "a", 3, {}),
    (.addPassiveAudioMeetPart
      { meetId := some (hexId 1), partId := some (ascii "b"), ip := some (ascii "10.0.0.1"), port := some (ascii "80") },
      3, {}),
    (.delAudioMeetPart { meetId := some (hexId 1), partId := some (ascii "a") }, 5, {}), (add "c", 3, {}),
    (.listAudioMeets, 3, {})]

theorem session_joinedInTurn : ∃ exchanges s, Session 20000 2 [] exchanges s ∧ exchanges.length = 6 ∧ HasPort s 20000 := by
  obtain ⟨⟨s, exchanges⟩, hr, hp⟩ := (Option.any_eq_true
    (fun r => r.2.length == 6 && hasPort r.1 (hexId 1) (ascii "c") 20000)
    (replay { listen_ip_ := [], port_allocator_ := .new 20000 2 } joinedInTurn)).mp (by decide +kernel)
  simp only [Bool.and_eq_true, beq_iff_eq] at hp
  exact ⟨_, s, session_of_replay .start hr, hp.1, hasPort_of_test (by decide) hp.2⟩

theorem session_refines_in_turn : ∃ exchanges s, Session 20000 2 [] exchanges s ∧ exchanges.length = 6 ∧ HasPort s 20000 ∧
    ∃ d, Directory.Session (poolPorts 20000 2) [] exchanges d ∧ s.Shows d ∧ s.listen_ip_ = [] := by
  obtain ⟨exchanges, s, hsession, hlen, hport⟩ := session_joinedInTurn
  exact ⟨exchanges, s, hsession, hlen, hport, session_refines (by decide) (by decide) hsession⟩

end Sessions
end AudioMeet.Server
