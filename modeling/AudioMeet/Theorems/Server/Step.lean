import AudioMeet.Lib.Lists
import AudioMeet.Theorems.Meeting
import AudioMeet.Theorems.PortAllocator
import AudioMeet.Theorems.Server.Sections

/-! What a step of a request can do to the ports, the meetings and the other requests. -/

namespace AudioMeet
open Lib Machine

/-! ### The ports and the meeting that a request stands for -/

namespace ReqPc

/-- The port that an add allocated and that no participant has yet. -/
def held : ReqPc → Option UInt16
  | .addSection _ _ port | .addRelease _ _ port => some (UInt16.ofNat port)
  | _ => none

/-- The ports that a delete or a destroy is about to release. -/
def pending : ReqPc → List UInt16
  | .destroyRelease ports => ports
  | .deleteRelease port => [port]
  | _ => []

/-- The meeting that a destroy is about to stop, and the ports that it collected before. -/
def collected : ReqPc → Option (Nat × List UInt16)
  | .destroyClock m ports | .destroySection m ports => some (m, ports)
  | _ => none

/-- The meeting whose ports a destroy has still to collect. -/
def unregistered : ReqPc → Option Nat
  | .destroyPorts m => some m
  | _ => none

/-- The ports that a delete or a destroy has still to release. -/
def toRelease : ReqPc → List UInt16
  | .destroyClock _ ports | .destroySection _ ports | .destroyRelease ports => ports
  | .deleteRelease port => [port]
  | _ => []

/-- The request has no port in its hands and stops no meeting. -/
structure Quiet (pc : ReqPc) : Prop where
  held : pc.held = none
  pending : pc.pending = []
  collected : pc.collected = none
  unregistered : pc.unregistered = none

/-- The meeting that a destroy took from the registry and did not stop yet. -/
def destroys : ReqPc → Option Nat
  | .destroyPorts m | .destroyClock m _ | .destroySection m _ => some m
  | _ => none

def isDone : ReqPc → Bool
  | .done => true
  | _ => false

theorem isDone_iff {pc : ReqPc} : pc.isDone = true ↔ pc = .done := by
  cases pc <;> simp [isDone]

theorem destroys_eq_some {pc : ReqPc} {m : Nat} :
    pc.destroys = some m ↔ pc.unregistered = some m ∨ ∃ ports, pc.collected = some (m, ports) := by
  cases pc <;> simp [destroys, unregistered, collected]

theorem Quiet.destroys {pc : ReqPc} (h : pc.Quiet) : pc.destroys = none := by
  refine Option.eq_none_iff_forall_ne_some.mpr fun m hm => ?_
  rw [destroys_eq_some, h.unregistered, h.collected] at hm
  simp at hm

end ReqPc

/-! ### The cases of a step -/

namespace Server

theorem addTo_eq (meeting : Meeting) (part : NewPart) (port : Nat) (ans : AddAnswer) :
    addTo meeting part port ans = meeting.add (part.participant meeting.meet_id_ (UInt16.ofNat port)) ans := by
  obtain ⟨part_id, remote⟩ := part
  cases remote <;> rfl

/-- The events are nothing but responses. -/
def Replies (es : List ServerEvent) : Prop := ∀ e ∈ es, ∃ i response, e = .responded i response

theorem replies_nil : Replies [] := by simp [Replies]

theorem replies_one (i : Nat) (response : Response) : Replies [.responded i response] := by simp [Replies]

/-- What a step can do. -/
inductive Does (s : Server) : ServerAct → Server → List ServerEvent → Prop
  | received {req : Request} {pc : ReqPc} {es : List ServerEvent} :
      pc.Quiet → Replies es → Does s (.receive req) { s with requests := s.requests ++ [pc] } es
  | created {i : Nat} {ans : Answer} {es : List ServerEvent} :
      s.requests[i]? = some .create → Replies es →
      Does s (.go i ans)
        { s with
          objects := s.objects ++ [Meeting.new (hexId ans.random) ans.pool ans.conf ans.clock]
          meetings_ := s.meetings_.insert (hexId ans.random) s.objects.length
          requests := s.requests.set i .done } es
  /-- a step that only moves the request on -/
  | moved {i : Nat} {ans : Answer} {pc pc' : ReqPc} {es : List ServerEvent} :
      s.requests[i]? = some pc → pc.Quiet → pc'.Quiet → Replies es →
      Does s (.go i ans) { s with requests := s.requests.set i pc' } es
  | allocated {i : Nat} {ans : Answer} {m : Nat} {part : NewPart} {port : Nat} {alloc : PortAllocator} :
      s.requests[i]? = some (.addAllocate m part) →
      s.port_allocator_.allocate ans.is_port_available = (alloc, some port) →
      Does s (.go i ans)
        { s with port_allocator_ := alloc, requests := s.requests.set i (.addSection m part port) } []
  | crashed {i : Nat} {ans : Answer} {m : Nat} {meeting : Meeting} {part : NewPart} {port : Nat}
      {calls : List AddCall} :
      s.requests[i]? = some (.addSection m part port) → s.objects[m]? = some meeting →
      addTo meeting part port ans.add = (.crashed, calls) →
      Does s (.go i ans) { s with crashed := true } [.add i m calls false]
  | refused {i : Nat} {ans : Answer} {m : Nat} {meeting : Meeting} {part : NewPart} {port : Nat}
      {calls : List AddCall} :
      s.requests[i]? = some (.addSection m part port) → s.objects[m]? = some meeting →
      addTo meeting part port ans.add = (.nullptr, calls) →
      Does s (.go i ans) { s with requests := s.requests.set i (.addRelease m part port) } [.add i m calls false]
  | added {i : Nat} {ans : Answer} {m : Nat} {meeting meeting' : Meeting} {part : NewPart} {port : Nat}
      {calls : List AddCall} {es : List ServerEvent} :
      s.requests[i]? = some (.addSection m part port) → s.objects[m]? = some meeting →
      addTo meeting part port ans.add = (.added meeting', calls) → Replies es →
      Does s (.go i ans)
        { s with objects := s.objects.set m meeting', requests := s.requests.set i .done }
        (.add i m calls true :: es)
  | addReleased {i : Nat} {ans : Answer} {m : Nat} {part : NewPart} {port : Nat} {pc : ReqPc}
      {es : List ServerEvent} :
      s.requests[i]? = some (.addRelease m part port) → pc.Quiet → Replies es →
      Does s (.go i ans)
        { s with port_allocator_ := s.port_allocator_.release (UInt16.ofNat port)
                 requests := s.requests.set i pc } es
  | unregistered {i : Nat} {ans : Answer} {meet_id : Bytes} {m : Nat} :
      s.requests[i]? = some (.destroyLookup meet_id) → s.meetings_[meet_id]? = some m →
      Does s (.go i ans)
        { s with meetings_ := s.meetings_.erase meet_id, requests := s.requests.set i (.destroyPorts m) } []
  | collected {i : Nat} {ans : Answer} {m : Nat} {meeting : Meeting} :
      s.requests[i]? = some (.destroyPorts m) → s.objects[m]? = some meeting →
      Does s (.go i ans) { s with requests := s.requests.set i (.destroyClock m meeting.participant_ports) } []
  | clockStopped {i : Nat} {ans : Answer} {m : Nat} {meeting : Meeting} {ports : List UInt16} :
      s.requests[i]? = some (.destroyClock m ports) → s.objects[m]? = some meeting →
      Does s (.go i ans)
        { s with objects := s.objects.set m meeting.stopClock
                 requests := s.requests.set i (.destroySection m ports) } []
  | stopped {i : Nat} {ans : Answer} {m : Nat} {meeting : Meeting} {ports : List UInt16} :
      s.requests[i]? = some (.destroySection m ports) → s.objects[m]? = some meeting →
      Does s (.go i ans)
        { s with objects := s.objects.set m meeting.stopSection
                 requests := s.requests.set i (.destroyRelease ports) } [.stopped m]
  | destroyReleased {i : Nat} {ans : Answer} {port : UInt16} {ports : List UInt16} :
      s.requests[i]? = some (.destroyRelease (port :: ports)) →
      Does s (.go i ans)
        { s with port_allocator_ := s.port_allocator_.release port
                 requests := s.requests.set i (.destroyRelease ports) } []
  | destroyed {i : Nat} {ans : Answer} {es : List ServerEvent} :
      s.requests[i]? = some (.destroyRelease []) → Replies es →
      Does s (.go i ans) { s with requests := s.requests.set i .done } es
  | removed {i : Nat} {ans : Answer} {m : Nat} {meeting : Meeting} {part_id : Bytes} {p : Participant}
      {slot : Nat} {pc : ReqPc} {es : List ServerEvent} :
      s.requests[i]? = some (.deleteSection m part_id) → s.objects[m]? = some meeting →
      meeting.participants_[part_id]? = some (p, slot) →
      pc = (if 0 < p.port_ then .deleteRelease p.port_ else .done) → Replies es →
      Does s (.go i ans)
        { s with
          objects := s.objects.set m { meeting with participants_ := meeting.participants_.erase part_id }
          requests := s.requests.set i pc } es
  | deleteReleased {i : Nat} {ans : Answer} {port : UInt16} {es : List ServerEvent} :
      s.requests[i]? = some (.deleteRelease port) → Replies es →
      Does s (.go i ans)
        { s with port_allocator_ := s.port_allocator_.release port, requests := s.requests.set i .done } es

section Cases
variable {s t : Server} {a : ServerAct} {es : List ServerEvent} {i : Nat} {ans : Answer}

theorem Enters.quiet {req : Request} {pc : ReqPc} (h : Enters req pc) : pc.Quiet := by
  cases h <;> exact ⟨rfl, rfl, rfl, rfl⟩

theorem Section.does {pc : ReqPc} {u : Server} {seen : List ServerEvent} {turn : Turn} (h : s.requests[i]? = some pc)
    (hs : s.Section i ans pc u seen turn) :
    Does s (.go i ans) (turn.leave u i).1 (seen ++ (turn.leave u i).2) := by
  have quiet : ∀ {pc : ReqPc}, pc.held = none → pc.pending = [] → pc.collected = none → pc.unregistered = none →
      pc.Quiet := fun h1 h2 h3 h4 => ⟨h1, h2, h3, h4⟩
  cases hs with
  | created => exact .created h (replies_one _ _)
  | addFound _ | deleteFound _ | deleteChecked _ _ | deleteAgainFound _ | muteFound _ | listLooked | listed _ =>
    exact .moved h (quiet rfl rfl rfl rfl) (quiet rfl rfl rfl rfl) replies_nil
  | addUnknown _ | existing _ _ | notExisting _ _ | destroyUnknown _ | deleteUnknown _ | deleteAbsent _ _
  | deleteAgainUnknown _ | notRemoved _ _ | muteUnknown _ | muted _ _ | muteAbsent _ _ | listEnded =>
    exact .moved h (quiet rfl rfl rfl rfl) (quiet rfl rfl rfl rfl) (replies_one _ _)
  | allocated halloc => exact .allocated h halloc
  | exhausted halloc =>
    rcases PortAllocator.allocate_cases halloc with ⟨rfl, -⟩ | ⟨_, -, -, -, hr⟩
    · exact .moved h (quiet rfl rfl rfl rfl) (quiet rfl rfl rfl rfl) (replies_one _ _)
    · cases hr
  | crashed hm hadd => exact .crashed h hm hadd
  | refused hm hadd => exact .refused h hm hadd
  | added hm hadd => exact .added h hm hadd (replies_one _ _)
  | addFailed _ => exact .addReleased h (quiet rfl rfl rfl rfl) (replies_one _ _)
  | splitFailed _ => exact .addReleased h (quiet rfl rfl rfl rfl) replies_nil
  | unregistered hm => exact .unregistered h hm
  | collected hm => exact .collected h hm
  | clockStopped hm => exact .clockStopped h hm
  | stopped hm => exact .stopped h hm
  | portReleased => exact .destroyReleased h
  | destroyed => exact .destroyed h (replies_one _ _)
  | removed hm hp hport =>
    obtain ⟨p, slot, hfound, rfl, rfl⟩ := Meeting.remove_participant_eq_some hp
    exact .removed h hm hfound (if_pos hport).symm replies_nil
  | removedPortless hm hp hport =>
    obtain ⟨p, slot, hfound, rfl, rfl⟩ := Meeting.remove_participant_eq_some hp
    exact .removed h hm hfound (if_neg hport).symm (replies_one _ _)
  | deleteReleased => exact .deleteReleased h (replies_one _ _)

theorem goOn_does {pc : ReqPc} (h : s.requests[i]? = some pc) (hs : s.goOn i ans pc = some (t, es)) :
    Does s (.go i ans) t es := by
  obtain ⟨u, seen, turn, hsection, rfl, rfl⟩ := goOn_took hs
  exact hsection.does h

theorem receive_does {req : Request} (hs : s.receive req = (t, es)) : Does s (.receive req) t es := by
  obtain ⟨pc, henters, rfl, rfl⟩ | ⟨msg, -, rfl, rfl⟩ := receive_cases hs
  · exact .received henters.quiet replies_nil
  · exact .received ⟨rfl, rfl, rfl, rfl⟩ (replies_one _ _)

/-- A step is a new request or a section of one, and none is taken after a null pointer was followed. -/
theorem receives_or_goes (hs : s.step a = some (t, es)) : s.crashed = false ∧
    ((∃ req, a = .receive req ∧ s.receive req = (t, es)) ∨
    ∃ i ans pc, a = .go i ans ∧ s.requests[i]? = some pc ∧ s.goOn i ans pc = some (t, es)) := by
  unfold step at hs
  split at hs
  · cases hs
  · rename_i hc
    refine ⟨by simpa using hc, ?_⟩
    cases a with
    | receive req => exact Or.inl ⟨req, rfl, Option.some.inj hs⟩
    | go i ans =>
      obtain ⟨pc, hpc, hgo⟩ := Option.bind_eq_some_iff.mp hs
      exact Or.inr ⟨i, ans, pc, rfl, hpc, hgo⟩

theorem go_goes (hs : s.step (.go i ans) = some (t, es)) :
    ∃ pc, s.requests[i]? = some pc ∧ s.goOn i ans pc = some (t, es) := by
  obtain ⟨-, ⟨_, ha, -⟩ | ⟨_, _, pc, ha, hpc, hgo⟩⟩ := receives_or_goes hs
  · cases ha
  · obtain ⟨rfl, rfl⟩ := ServerAct.go.inj ha
    exact ⟨pc, hpc, hgo⟩

/-- Every step is one of the cases. -/
theorem step_does (hs : step s a = some (t, es)) : s.crashed = false ∧ Does s a t es := by
  obtain ⟨hc, ⟨req, rfl, hreceive⟩ | ⟨i, ans, pc, rfl, hpc, hgo⟩⟩ := receives_or_goes hs
  · exact ⟨hc, receive_does hreceive⟩
  · exact ⟨hc, goOn_does hpc hgo⟩

/-! ### One request goes on -/

/-- Request `i` goes to `pc'`, and the others stay where they are. -/
def Goes (s t : Server) (i : Nat) (pc' : ReqPc) : Prop :=
  ∀ j pc, t.requests[j]? = some pc ↔ (j = i ∧ pc = pc') ∨ (j ≠ i ∧ s.requests[j]? = some pc)

theorem goes_set {i : Nat} {pc pc' : ReqPc} (h : s.requests[i]? = some pc)
    (ht : t.requests = s.requests.set i pc') : Goes s t i pc' := by
  intro j pc₁
  rw [ht, getElem?_set_some h]

theorem goes_same {i : Nat} {pc : ReqPc} (h : s.requests[i]? = some pc) (ht : t.requests = s.requests) :
    Goes s t i pc := by
  obtain ⟨hi, rfl⟩ := List.getElem?_eq_some_iff.mp h
  exact goes_set h (ht.trans (List.set_getElem_self hi).symm)

/-- A section leaves its request where it turns to, and the others where they are. -/
theorem Section.goes {pc : ReqPc} {u : Server} {seen : List ServerEvent} {turn : Turn}
    (hs : s.Section i ans pc u seen turn) (h : s.requests[i]? = some pc) : Goes s (turn.leave u i).1 i (turn.next pc) := by
  cases turn with
  | goes pc' => exact goes_set h (congrArg (·.set i pc') hs.requests)
  | ends json => exact goes_set h (congrArg (·.set i .done) hs.requests)
  | crashes => exact goes_same h hs.requests

theorem goes_snoc {pc' : ReqPc} (ht : t.requests = s.requests ++ [pc']) : Goes s t s.requests.length pc' := by
  intro j pc₁
  rw [ht, getElem?_snoc_some]
  constructor
  · rintro (h | h)
    · exact Or.inl h
    · exact Or.inr ⟨((List.getElem?_eq_some_iff.mp h).1).ne, h⟩
  · rintro (h | h)
    · exact Or.inl h
    · exact Or.inr h.2

end Cases
end Server
end AudioMeet
