import AudioMeet.Lib.Utf8
import AudioMeet.Server

/-! The sections of the handlers, each with what it changes of what the requests share, what is seen of it, and where
    it leaves its request. -/

namespace AudioMeet
open Lib
/-- The texts that a request is refused with when a parameter is missing or wrong. -/
def Request.refusals : Request → List String
  | .createAudioMeet | .listAudioMeets => []
  | .addAudioMeetPart _ | .delAudioMeetPart _ => ["missing meetId or partId"]
  | .addPassiveAudioMeetPart _ => ["missing meetId, partId, ip or port", "port must be 1-65535"]
  | .destroyAudioMeet _ => ["missing meetId"]
  | .muteAudioMeetPart _ => ["missing meetId, partId or mute", "mute must be true or false"]

namespace Server

/-! ### The handlers, up to their first section -/

theorem given_eq_some {param : Option Bytes} {x : Bytes} : given param = some x ↔ param = some x ∧ x ≠ [] := by
  simp [given, Option.filter_eq_some_iff]

/-- Where a handler starts whose parameters pass its checks. -/
inductive Enters : Request → ReqPc → Prop
  | create : Enters .createAudioMeet .create
  | add {params : Params} {meet_id part_id : Bytes} :
      given params.meetId = some meet_id → given params.partId = some part_id →
      Enters (.addAudioMeetPart params) (.addLookup meet_id { part_id })
  | addPassive {params : Params} {meet_id part_id ip port : Bytes} :
      given params.meetId = some meet_id → given params.partId = some part_id → given params.ip = some ip →
      given params.port = some port →
      Enters (.addPassiveAudioMeetPart params)
        (.addLookup meet_id { part_id, remote := some (ip, UInt16.ofNat ((stoi port).getD 0).toNat) })
  | destroy {params : Params} {meet_id : Bytes} : given params.meetId = some meet_id →
      Enters (.destroyAudioMeet params) (.destroyLookup meet_id)
  | delete {params : Params} {meet_id part_id : Bytes} :
      given params.meetId = some meet_id → given params.partId = some part_id →
      Enters (.delAudioMeetPart params) (.deleteLookup meet_id part_id)
  | mute {params : Params} {meet_id part_id mute : Bytes} :
      given params.meetId = some meet_id → given params.partId = some part_id → given params.mute = some mute →
      Enters (.muteAudioMeetPart params) (.muteLookup meet_id part_id (mute == ascii "true"))
  | list : Enters .listAudioMeets .listLookup

/-- A request goes to its handler, or is refused with code 4. -/
theorem validate_cases (req : Request) : (∃ pc, Enters req pc ∧ validate req = .inl pc) ∨
    ∃ msg ∈ req.refusals, validate req = .inr (body 4 msg .null) := by
  cases req with
  | createAudioMeet => exact Or.inl ⟨_, .create, rfl⟩
  | addAudioMeetPart params =>
    simp only [validate]
    split
    · next hm hp => exact Or.inl ⟨_, .add hm hp, rfl⟩
    · exact Or.inr ⟨_, List.mem_cons_self, rfl⟩
  | addPassiveAudioMeetPart params =>
    simp only [validate]
    split
    · next hm hp hi hport =>
      split
      · exact Or.inr ⟨_, List.mem_cons_of_mem _ List.mem_cons_self, rfl⟩
      · exact Or.inl ⟨_, .addPassive hm hp hi hport, rfl⟩
    · exact Or.inr ⟨_, List.mem_cons_self, rfl⟩
  | destroyAudioMeet params =>
    simp only [validate]
    split
    · next hm => exact Or.inl ⟨_, .destroy hm, rfl⟩
    · exact Or.inr ⟨_, List.mem_cons_self, rfl⟩
  | delAudioMeetPart params =>
    simp only [validate]
    split
    · next hm hp => exact Or.inl ⟨_, .delete hm hp, rfl⟩
    · exact Or.inr ⟨_, List.mem_cons_self, rfl⟩
  | muteAudioMeetPart params =>
    simp only [validate]
    split
    · next hm hp hmute =>
      split
      · exact Or.inl ⟨_, .mute hm hp hmute, rfl⟩
      · exact Or.inr ⟨_, List.mem_cons_of_mem _ List.mem_cons_self, rfl⟩
    · exact Or.inr ⟨_, List.mem_cons_self, rfl⟩
  | listAudioMeets => exact Or.inl ⟨_, .list, rfl⟩

theorem validate_enters {req : Request} {pc : ReqPc} (h : validate req = .inl pc) : Enters req pc := by
  obtain ⟨pc', henters, hv⟩ | ⟨msg, -, hv⟩ := validate_cases req
  · exact Sum.inl.inj (hv.symm.trans h) ▸ henters
  · cases hv.symm.trans h

theorem validate_refuses {req : Request} {json : Json} (h : validate req = .inr json) :
    ∃ msg ∈ req.refusals, json = body 4 msg .null := by
  obtain ⟨pc', -, hv⟩ | ⟨msg, hmsg, hv⟩ := validate_cases req
  · cases hv.symm.trans h
  · exact ⟨msg, hmsg, (Sum.inr.inj (hv.symm.trans h)).symm⟩

/-- A request is received by itself, and a refusal is answered at once. -/
theorem receive_cases {s t : Server} {req : Request} {es : List ServerEvent} (hs : s.receive req = (t, es)) :
    (∃ pc, Enters req pc ∧ t = { s with requests := s.requests ++ [pc] } ∧ es = []) ∨
    ∃ msg ∈ req.refusals, t = { s with requests := s.requests ++ [.done] } ∧
      es = [.responded s.requests.length (respond (body 4 msg .null))] := by
  unfold receive at hs
  split at hs <;> obtain ⟨rfl, rfl⟩ := Prod.mk.inj hs
  · next hvalid => exact Or.inl ⟨_, validate_enters hvalid, rfl, rfl⟩
  · next hvalid =>
    obtain ⟨msg, hmsg, rfl⟩ := validate_refuses hvalid
    exact Or.inr ⟨msg, hmsg, rfl, rfl⟩

theorem valid_refusals {req : Request} {msg : String} (h : msg ∈ req.refusals) : Utf8.Valid (ascii msg) := by
  have hall : ∀ msg ∈ req.refusals, Utf8.Valid (ascii msg) := by cases req <;> simp only [Request.refusals] <;> decide
  exact hall msg h

/-! ### Their sections -/

/-- How a section leaves its request. -/
inductive Turn
  | goes (pc : ReqPc)
  | ends (json : Json)
  /-- in the midst of a section that followed a null pointer -/
  | crashes

/-- The server once request `i` is left so, and what is seen of it. -/
def Turn.leave (turn : Turn) (u : Server) (i : Nat) : Server × List ServerEvent :=
  match turn with
  | .goes pc => u.goto i pc
  | .ends json => u.finish i json
  | .crashes => ({ u with crashed := true }, [])

/-- Where the request stands then, which stood at `pc`. -/
def Turn.next (pc : ReqPc) : Turn → ReqPc
  | .goes pc' => pc'
  | .ends _ => .done
  | .crashes => pc

/-- Where it goes is of the kind `P`, and what it answers is of the kind `Q`. -/
def Turn.All (P : ReqPc → Prop) (Q : Json → Prop) : Turn → Prop
  | .goes pc => P pc
  | .ends json => Q json
  | .crashes => True

def unknownMeeting : Json := body 1 "meetId not found" .null

def plainSuccess : Json := body 0 "success" .null

def success (s : Server) (part : NewPart) (port : Nat) : Json :=
  body 0 "success" (.ofMembers [("ip", .string s.listen_ip_), ("port", .number (reportedPort part port))])

/-- A section of request `i` from its place `pc` makes `u` of what the requests share, and shows `es` before the request
    is left so. -/
inductive Section (s : Server) (i : Nat) (ans : Answer) : ReqPc → Server → List ServerEvent → Turn → Prop
  | created :
      Section s i ans .create
        { s with
          objects := s.objects ++ [Meeting.new (hexId ans.random) ans.pool ans.conf ans.clock]
          meetings_ := s.meetings_.insert (hexId ans.random) s.objects.length } []
        (.ends (body 0 "success" (.ofMembers [("meetId", .string (hexId ans.random))])))
  | addFound {meet_id : Bytes} {part : NewPart} {m : Nat} : s.meetings_[meet_id]? = some m →
      Section s i ans (.addLookup meet_id part) s [] (.goes (.addAllocate m part))
  | addUnknown {meet_id : Bytes} {part : NewPart} : s.meetings_[meet_id]? = none →
      Section s i ans (.addLookup meet_id part) s [] (.ends unknownMeeting)
  | allocated {m : Nat} {part : NewPart} {alloc : PortAllocator} {port : Nat} :
      s.port_allocator_.allocate ans.is_port_available = (alloc, some port) →
      Section s i ans (.addAllocate m part) { s with port_allocator_ := alloc } [] (.goes (.addSection m part port))
  | exhausted {m : Nat} {part : NewPart} {alloc : PortAllocator} :
      s.port_allocator_.allocate ans.is_port_available = (alloc, none) →
      Section s i ans (.addAllocate m part) { s with port_allocator_ := alloc } []
        (.ends (body 3 "no ports available" .null))
  | crashed {m : Nat} {part : NewPart} {port : Nat} {meeting : Meeting} {calls : List AddCall} :
      s.objects[m]? = some meeting → addTo meeting part port ans.add = (.crashed, calls) →
      Section s i ans (.addSection m part port) s [.add i m calls false] .crashes
  | refused {m : Nat} {part : NewPart} {port : Nat} {meeting : Meeting} {calls : List AddCall} :
      s.objects[m]? = some meeting → addTo meeting part port ans.add = (.nullptr, calls) →
      Section s i ans (.addSection m part port) s [.add i m calls false] (.goes (.addRelease m part port))
  | added {m : Nat} {part : NewPart} {port : Nat} {meeting meeting' : Meeting} {calls : List AddCall} :
      s.objects[m]? = some meeting → addTo meeting part port ans.add = (.added meeting', calls) →
      Section s i ans (.addSection m part port) { s with objects := s.objects.set m meeting' } [.add i m calls true]
        (.ends (s.success part port))
  | addFailed {m : Nat} {part : NewPart} {port : Nat} : part.remote = none →
      Section s i ans (.addRelease m part port) (s.releasePort (UInt16.ofNat port)) []
        (.ends (body 2 "partId already exists" .null))
  | splitFailed {m : Nat} {part : NewPart} {port : Nat} {remote : Bytes × UInt16} : part.remote = some remote →
      Section s i ans (.addRelease m part port) (s.releasePort (UInt16.ofNat port)) []
        (.goes (.addExisting m part.part_id))
  | existing {m : Nat} {part_id : Bytes} {meeting : Meeting} {p : Participant} :
      s.objects[m]? = some meeting → meeting.get_participant part_id = some p →
      Section s i ans (.addExisting m part_id) s [] (.ends (body 2 "partId already exists" .null))
  | notExisting {m : Nat} {part_id : Bytes} {meeting : Meeting} :
      s.objects[m]? = some meeting → meeting.get_participant part_id = none →
      Section s i ans (.addExisting m part_id) s [] (.ends (body 5 "startSplit failed" .null))
  | unregistered {meet_id : Bytes} {m : Nat} : s.meetings_[meet_id]? = some m →
      Section s i ans (.destroyLookup meet_id) { s with meetings_ := s.meetings_.erase meet_id } []
        (.goes (.destroyPorts m))
  | destroyUnknown {meet_id : Bytes} : s.meetings_[meet_id]? = none →
      Section s i ans (.destroyLookup meet_id) s [] (.ends unknownMeeting)
  | collected {m : Nat} {meeting : Meeting} : s.objects[m]? = some meeting →
      Section s i ans (.destroyPorts m) s [] (.goes (.destroyClock m meeting.participant_ports))
  | clockStopped {m : Nat} {ports : List UInt16} {meeting : Meeting} : s.objects[m]? = some meeting →
      Section s i ans (.destroyClock m ports) { s with objects := s.objects.set m meeting.stopClock } []
        (.goes (.destroySection m ports))
  | stopped {m : Nat} {ports : List UInt16} {meeting : Meeting} : s.objects[m]? = some meeting →
      Section s i ans (.destroySection m ports) { s with objects := s.objects.set m meeting.stopSection } [.stopped m]
        (.goes (.destroyRelease ports))
  | portReleased {port : UInt16} {ports : List UInt16} :
      Section s i ans (.destroyRelease (port :: ports)) (s.releasePort port) [] (.goes (.destroyRelease ports))
  | destroyed : Section s i ans (.destroyRelease []) s [] (.ends plainSuccess)
  | deleteFound {meet_id part_id : Bytes} {m : Nat} : s.meetings_[meet_id]? = some m →
      Section s i ans (.deleteLookup meet_id part_id) s [] (.goes (.deleteGet m meet_id part_id))
  | deleteUnknown {meet_id part_id : Bytes} : s.meetings_[meet_id]? = none →
      Section s i ans (.deleteLookup meet_id part_id) s [] (.ends unknownMeeting)
  | deleteChecked {m : Nat} {meet_id part_id : Bytes} {meeting : Meeting} {p : Participant} :
      s.objects[m]? = some meeting → meeting.get_participant part_id = some p →
      Section s i ans (.deleteGet m meet_id part_id) s [] (.goes (.deleteAgain meet_id part_id))
  | deleteAbsent {m : Nat} {meet_id part_id : Bytes} {meeting : Meeting} :
      s.objects[m]? = some meeting → meeting.get_participant part_id = none →
      Section s i ans (.deleteGet m meet_id part_id) s [] (.ends (body 2 "partId not found" .null))
  | deleteAgainFound {meet_id part_id : Bytes} {m : Nat} : s.meetings_[meet_id]? = some m →
      Section s i ans (.deleteAgain meet_id part_id) s [] (.goes (.deleteSection m part_id))
  /-- `delete_participant` found no meeting, and its handler does not look at that. -/
  | deleteAgainUnknown {meet_id part_id : Bytes} : s.meetings_[meet_id]? = none →
      Section s i ans (.deleteAgain meet_id part_id) s [] (.ends plainSuccess)
  | removed {m : Nat} {part_id : Bytes} {meeting meeting' : Meeting} {port : UInt16} :
      s.objects[m]? = some meeting → meeting.remove_participant part_id = some (meeting', port) → 0 < port →
      Section s i ans (.deleteSection m part_id) { s with objects := s.objects.set m meeting' } []
        (.goes (.deleteRelease port))
  | removedPortless {m : Nat} {part_id : Bytes} {meeting meeting' : Meeting} {port : UInt16} :
      s.objects[m]? = some meeting → meeting.remove_participant part_id = some (meeting', port) → ¬ 0 < port →
      Section s i ans (.deleteSection m part_id) { s with objects := s.objects.set m meeting' } [] (.ends plainSuccess)
  /-- nor here that it found no participant -/
  | notRemoved {m : Nat} {part_id : Bytes} {meeting : Meeting} :
      s.objects[m]? = some meeting → meeting.remove_participant part_id = none →
      Section s i ans (.deleteSection m part_id) s [] (.ends plainSuccess)
  | deleteReleased {port : UInt16} : Section s i ans (.deleteRelease port) (s.releasePort port) [] (.ends plainSuccess)
  | muteFound {meet_id part_id : Bytes} {mute : Bool} {m : Nat} : s.meetings_[meet_id]? = some m →
      Section s i ans (.muteLookup meet_id part_id mute) s [] (.goes (.muteSection m part_id mute))
  | muteUnknown {meet_id part_id : Bytes} {mute : Bool} : s.meetings_[meet_id]? = none →
      Section s i ans (.muteLookup meet_id part_id mute) s [] (.ends unknownMeeting)
  | muted {m : Nat} {part_id : Bytes} {mute : Bool} {meeting : Meeting} :
      s.objects[m]? = some meeting → meeting.set_participant_mute part_id = true →
      Section s i ans (.muteSection m part_id mute) s [] (.ends plainSuccess)
  | muteAbsent {m : Nat} {part_id : Bytes} {mute : Bool} {meeting : Meeting} :
      s.objects[m]? = some meeting → meeting.set_participant_mute part_id = false →
      Section s i ans (.muteSection m part_id mute) s [] (.ends (body 2 "partId not found" .null))
  | listLooked : Section s i ans .listLookup s [] (.goes (.listParticipants [] s.list_meetings))
  | listed {listed : List Json} {m : Nat} {rest : List Nat} {meeting : Meeting} : s.objects[m]? = some meeting →
      Section s i ans (.listParticipants listed (m :: rest)) s []
        (.goes (.listParticipants (listed ++ [meetingJson meeting]) rest))
  | listEnded {listed : List Json} :
      Section s i ans (.listParticipants listed []) s [] (.ends (body 0 "success" (.array listed)))

/-- What the events answer, and to which request. -/
def responses (es : List ServerEvent) : List (Nat × Response) :=
  es.filterMap fun
    | .responded i response => some (i, response)
    | _ => none

section Cases
variable {s t u : Server} {i : Nat} {ans : Answer} {pc : ReqPc} {es es' : List ServerEvent} {turn : Turn}

/-- A section came about so. -/
def Took (s : Server) (i : Nat) (ans : Answer) (pc : ReqPc) (t : Server) (es : List ServerEvent) : Prop :=
  ∃ u seen turn, s.Section i ans pc u seen turn ∧ t = (turn.leave u i).1 ∧ es = seen ++ (turn.leave u i).2

theorem Section.took (h : s.Section i ans pc u es' turn) : s.Took i ans pc (turn.leave u i).1 (es' ++ (turn.leave u i).2) :=
  ⟨u, es', turn, h, rfl, rfl⟩

theorem get_meeting_took {meet_id : Bytes} {next : Nat → ReqPc}
    (hfound : ∀ m, s.meetings_[meet_id]? = some m → s.Section i ans pc s [] (.goes (next m)))
    (hunknown : s.meetings_[meet_id]? = none → s.Section i ans pc s [] (.ends unknownMeeting)) :
    s.Took i ans pc (s.get_meeting i meet_id next).1 (s.get_meeting i meet_id next).2 := by
  unfold get_meeting
  split
  · next m hm => exact (hfound m hm).took
  · next hm => exact (hunknown hm).took

/-- Every step of a request is one of its sections. -/
theorem goOn_took (hs : s.goOn i ans pc = some (t, es)) : s.Took i ans pc t es := by
  have done : ∀ {r : Server × List ServerEvent}, s.Took i ans pc r.1 r.2 → some r = some (t, es) → s.Took i ans pc t es :=
    fun ht hr => by rwa [Option.some.inj hr] at ht
  cases pc with
  | create => exact done Section.created.took hs
  | addLookup meet_id part => exact done (get_meeting_took (fun _ => .addFound) .addUnknown) hs
  | addAllocate m part =>
    refine done ?_ hs
    unfold allocatePort
    split
    · next halloc => exact (Section.allocated halloc).took
    · next halloc => exact (Section.exhausted halloc).took
  | addSection m part port =>
    obtain ⟨meeting, hm, hs⟩ := Option.bind_eq_some_iff.mp hs
    refine done ?_ hs
    unfold addSection
    split
    · next hadd => exact (Section.crashed hm hadd).took
    · next hadd => exact (Section.refused hm hadd).took
    · next hadd => exact (Section.added hm hadd).took
  | addRelease m part port =>
    refine done ?_ hs
    unfold addRelease
    dsimp only
    split
    · next hremote => exact (Section.addFailed hremote).took
    · next hremote => exact (Section.splitFailed hremote).took
  | addExisting m part_id =>
    obtain ⟨meeting, hm, hs⟩ := Option.bind_eq_some_iff.mp hs
    refine done ?_ hs
    unfold addExisting
    split
    · next hp => exact (Section.existing hm hp).took
    · next hp => exact (Section.notExisting hm hp).took
  | destroyLookup meet_id =>
    refine done ?_ hs
    unfold destroyLookup
    split
    · next hm => exact (Section.unregistered hm).took
    · next hm => exact (Section.destroyUnknown hm).took
  | destroyPorts m =>
    obtain ⟨meeting, hm, hs⟩ := Option.bind_eq_some_iff.mp hs
    exact done (Section.collected hm).took hs
  | destroyClock m ports =>
    obtain ⟨meeting, hm, hs⟩ := Option.bind_eq_some_iff.mp hs
    exact done (Section.clockStopped hm).took hs
  | destroySection m ports =>
    obtain ⟨meeting, hm, hs⟩ := Option.bind_eq_some_iff.mp hs
    exact done (Section.stopped hm).took hs
  | destroyRelease ports =>
    cases ports with
    | nil => exact done Section.destroyed.took hs
    | cons port ports => exact done Section.portReleased.took hs
  | deleteLookup meet_id part_id => exact done (get_meeting_took (fun _ => .deleteFound) .deleteUnknown) hs
  | deleteGet m meet_id part_id =>
    obtain ⟨meeting, hm, hs⟩ := Option.bind_eq_some_iff.mp hs
    refine done ?_ hs
    unfold deleteGet
    split
    · next hp => exact (Section.deleteChecked hm hp).took
    · next hp => exact (Section.deleteAbsent hm hp).took
  | deleteAgain meet_id part_id =>
    refine done ?_ hs
    unfold deleteAgain
    split
    · next hm => exact (Section.deleteAgainFound hm).took
    · next hm => exact (Section.deleteAgainUnknown hm).took
  | deleteSection m part_id =>
    obtain ⟨meeting, hm, hs⟩ := Option.bind_eq_some_iff.mp hs
    refine done ?_ hs
    unfold deleteSection
    split
    · next hp =>
      dsimp only
      split
      · next hport => exact (Section.removed hm hp hport).took
      · next hport => exact (Section.removedPortless hm hp hport).took
    · next hp => exact (Section.notRemoved hm hp).took
  | deleteRelease port => exact done Section.deleteReleased.took hs
  | muteLookup meet_id part_id mute => exact done (get_meeting_took (fun _ => .muteFound) .muteUnknown) hs
  | muteSection m part_id mute =>
    obtain ⟨meeting, hm, hs⟩ := Option.bind_eq_some_iff.mp hs
    refine done ?_ hs
    unfold muteSection
    split
    · next hp => exact (Section.muted hm hp).took
    · next hp => exact (Section.muteAbsent hm (Bool.not_eq_true _ ▸ hp)).took
  | listLookup => exact done Section.listLooked.took hs
  | listParticipants listed rest =>
    cases rest with
    | nil => exact done Section.listEnded.took hs
    | cons m rest =>
      obtain ⟨meeting, hm, hs⟩ := Option.bind_eq_some_iff.mp hs
      exact done (Section.listed hm).took hs
  | done => cases hs

/-! ### What the cases have in common -/

/-- A request is left with what it shares as it is. -/
theorem Turn.leave_objects (turn : Turn) : (turn.leave u i).1.objects = u.objects := by cases turn <;> rfl

namespace Section

/-- A section changes no place but that of its request. -/
theorem requests (h : s.Section i ans pc u es' turn) : u.requests = s.requests := by cases h <;> rfl

theorem listen_ip (h : s.Section i ans pc u es' turn) : u.listen_ip_ = s.listen_ip_ := by cases h <;> rfl

/-- It is seen to answer nothing before its end. -/
theorem unanswered (h : s.Section i ans pc u es' turn) : responses es' = [] := by cases h <;> rfl

end Section

theorem responses_append (es es' : List ServerEvent) : responses (es ++ es') = responses es ++ responses es' :=
  List.filterMap_append

/-- What holds wherever a section leaves its request, of its next place or of its answer. -/
theorem Took.leaves {P : ReqPc → Prop} {Q : Json → Prop} (h : s.Took i ans pc t es)
    (hall : ∀ u seen turn, s.Section i ans pc u seen turn → turn.All P Q) :
    (t.crashed = true ∧ t.requests = s.requests ∧ responses es = []) ∨
    (∃ pc', P pc' ∧ t.requests = s.requests.set i pc' ∧ responses es = []) ∨
    ∃ json, Q json ∧ t.requests = s.requests.set i .done ∧ responses es = [(i, respond json)] := by
  obtain ⟨u, seen, turn, hsection, rfl, rfl⟩ := h
  have hturn := hall u seen turn hsection
  rw [responses_append, hsection.unanswered, List.nil_append, ← hsection.requests]
  cases turn with
  | goes pc' => exact Or.inr (Or.inl ⟨pc', hturn, rfl, rfl⟩)
  | ends json => exact Or.inr (Or.inr ⟨json, hturn, rfl, rfl⟩)
  | crashes => exact Or.inl ⟨rfl, rfl, rfl⟩

end Cases
end Server
end AudioMeet
