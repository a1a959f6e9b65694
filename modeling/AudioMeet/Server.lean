import AudioMeet.Json
import AudioMeet.Lib.Machine
import AudioMeet.Meeting
import AudioMeet.PortAllocator

/-! The request handlers (`src/server.cpp`) over the meeting manager (`src/meeting_manager.cpp`). Any number
    of requests run at the same time; a section under one of the mutexes is one step. -/

namespace AudioMeet
open Lib Std

/-- The query parameters of a request. -/
structure Params where
  meetId : Option Bytes := none
  partId : Option Bytes := none
  ip : Option Bytes := none
  port : Option Bytes := none
  mute : Option Bytes := none

inductive Request
  | createAudioMeet
  | addAudioMeetPart (params : Params)
  | addPassiveAudioMeetPart (params : Params)
  | destroyAudioMeet (params : Params)
  | delAudioMeetPart (params : Params)
  | muteAudioMeetPart (params : Params)
  | listAudioMeets

/-- Where the handler of a request stands, with its local variables. A meeting is held by its place in
    `Server.objects`. -/
inductive ReqPc
  | create
  /-- `get_meeting` -/
  | addLookup (meet_id : Bytes) (part : NewPart)
  | addAllocate (m : Nat) (part : NewPart)
  | addSection (m : Nat) (part : NewPart) (port : Nat)
  /-- the add failed -/
  | addRelease (m : Nat) (part : NewPart) (port : Nat)
  /-- `get_participant` after a failed passive add -/
  | addExisting (m : Nat) (part_id : Bytes)
  | destroyLookup (meet_id : Bytes)
  | destroyPorts (m : Nat)
  | destroyClock (m : Nat) (ports : List UInt16)
  | destroySection (m : Nat) (ports : List UInt16)
  | destroyRelease (ports : List UInt16)
  | deleteLookup (meet_id part_id : Bytes)
  | deleteGet (m : Nat) (meet_id part_id : Bytes)
  /-- `get_meeting` in `delete_participant` -/
  | deleteAgain (meet_id part_id : Bytes)
  | deleteSection (m : Nat) (part_id : Bytes)
  | deleteRelease (port : UInt16)
  | muteLookup (meet_id part_id : Bytes) (mute : Bool)
  | muteSection (m : Nat) (part_id : Bytes) (mute : Bool)
  | listLookup
  | listParticipants (listed : List Json) (rest : List Nat)
  | done

inductive Response
  | content (text : Bytes)
  /-- the handler threw -/
  | internalServerError
deriving DecidableEq

inductive ServerEvent
  | responded (i : Nat) (response : Response)
  /-- the section of an add on the meeting at `m`, and whether it added the participant -/
  | add (i m : Nat) (calls : List AddCall) (added : Bool)
  | stopped (m : Nat)

/-- What the random generator, the constructor of a meeting, the probes of a port and the calls of an add
    answer in one step. -/
structure Answer where
  random : UInt64 := 0
  pool : Bool := true
  conf : Bool := true
  clock : Bool := true
  is_port_available : UInt16 → Bool := fun _ => true
  add : AddAnswer := ⟨true, true, some 1⟩

inductive ServerAct
  | receive (req : Request)
  | go (i : Nat) (ans : Answer)

/-- The allocator, the manager, and the state of all requests. `objects` holds every meeting ever made. -/
structure Server where
  listen_ip_ : Bytes
  port_allocator_ : PortAllocator
  meetings_ : ExtTreeMap Bytes Nat compare := ∅
  objects : List Meeting := []
  requests : List ReqPc := []
  /-- a null pointer was followed -/
  crashed : Bool := false

/-- `std::stoi`; nothing where it throws. -/
def stoi (s : Bytes) : Option Int :=
  let s := s.dropWhile fun b => (0x09 ≤ b && b ≤ 0x0D) || b == 0x20
  let negative := s.head? == some 0x2D
  let s := if negative || s.head? == some 0x2B then s.tail else s
  let digits := s.takeWhile fun b => 0x30 ≤ b && b ≤ 0x39
  let n : Nat := digits.foldl (fun n b => 10 * n + (b.toNat - 0x30)) 0
  let value : Int := if negative then -n else n
  if digits.isEmpty then none
  else if -2147483648 ≤ value ∧ value ≤ 2147483647 then some value
  else none

namespace Server

/-- `it == end || it->second.empty()` makes a parameter missing. -/
def given (param : Option Bytes) : Option Bytes := param.filter (!·.isEmpty)

/-- The 16 hexadecimal digits of a meeting id. -/
def hexId (random : UInt64) : Bytes :=
  (List.range 16).map fun k => Json.hexDigit (random.toNat / 16 ^ (15 - k) % 16)

def body (code : Int) (msg : String) (data : Json) : Json :=
  .ofMembers [("code", .number code), ("msg", .string (ascii msg)), ("data", data)]

/-- `set_content(body.dump(), …)`; a handler that throws is answered with status 500. -/
def respond (body : Json) : Response :=
  match body.dump with
  | .ok text => .content text
  | .error _ => .internalServerError

def goto (s : Server) (i : Nat) (pc : ReqPc) : Server × List ServerEvent :=
  ({ s with requests := s.requests.set i pc }, [])

def finish (s : Server) (i : Nat) (body : Json) : Server × List ServerEvent :=
  ({ s with requests := s.requests.set i .done }, [.responded i (respond body)])

/-! ### The handlers, up to their first section -/

/-- Where a handler goes with its parameters, or the body that it refuses them with. -/
def validate : Request → ReqPc ⊕ Json
  | .createAudioMeet => .inl .create
  | .addAudioMeetPart params =>
    match given params.meetId, given params.partId with
    | some meet_id, some part_id => .inl (.addLookup meet_id { part_id })
    | _, _ => .inr (body 4 "missing meetId or partId" .null)
  | .addPassiveAudioMeetPart params =>
    match given params.meetId, given params.partId, given params.ip, given params.port with
    | some meet_id, some part_id, some ip, some port =>
      let remote_port := (stoi port).getD 0
      if remote_port < 1 ∨ 65535 < remote_port then .inr (body 4 "port must be 1-65535" .null)
      else .inl (.addLookup meet_id { part_id, remote := some (ip, UInt16.ofNat remote_port.toNat) })
    | _, _, _, _ => .inr (body 4 "missing meetId, partId, ip or port" .null)
  | .destroyAudioMeet params =>
    match given params.meetId with
    | some meet_id => .inl (.destroyLookup meet_id)
    | none => .inr (body 4 "missing meetId" .null)
  | .delAudioMeetPart params =>
    match given params.meetId, given params.partId with
    | some meet_id, some part_id => .inl (.deleteLookup meet_id part_id)
    | _, _ => .inr (body 4 "missing meetId or partId" .null)
  | .muteAudioMeetPart params =>
    match given params.meetId, given params.partId, given params.mute with
    | some meet_id, some part_id, some mute =>
      if mute = ascii "true" ∨ mute = ascii "false" then
        .inl (.muteLookup meet_id part_id (mute == ascii "true"))
      else .inr (body 4 "mute must be true or false" .null)
    | _, _, _ => .inr (body 4 "missing meetId, partId or mute" .null)
  | .listAudioMeets => .inl .listLookup

def receive (s : Server) (req : Request) : Server × List ServerEvent :=
  match validate req with
  | .inl pc => ({ s with requests := s.requests ++ [pc] }, [])
  | .inr body =>
    ({ s with requests := s.requests ++ [.done] }, [.responded s.requests.length (respond body)])

/-! ### The sections of the handlers -/

def create_meeting (s : Server) (i : Nat) (ans : Answer) : Server × List ServerEvent :=
  let meet_id := hexId ans.random
  finish
    { s with
      objects := s.objects ++ [Meeting.new meet_id ans.pool ans.conf ans.clock]
      meetings_ := s.meetings_.insert meet_id s.objects.length }
    i (body 0 "success" (.ofMembers [("meetId", .string meet_id)]))

/-- `get_meeting`, and where the handler goes with the meeting. -/
def get_meeting (s : Server) (i : Nat) (meet_id : Bytes) (next : Nat → ReqPc) : Server × List ServerEvent :=
  match s.meetings_[meet_id]? with
  | some m => s.goto i (next m)
  | none => s.finish i (body 1 "meetId not found" .null)

def allocatePort (s : Server) (i m : Nat) (part : NewPart) (ans : Answer) : Server × List ServerEvent :=
  match s.port_allocator_.allocate ans.is_port_available with
  | (alloc, some port) => { s with port_allocator_ := alloc }.goto i (.addSection m part port)
  | (alloc, none) => { s with port_allocator_ := alloc }.finish i (body 3 "no ports available" .null)

/-- `add_participant` or `add_split_participant` -/
def addTo (meeting : Meeting) (part : NewPart) (port : Nat) : AddAnswer → AddResult × List AddCall :=
  match part.remote with
  | none => meeting.add_participant part.part_id (UInt16.ofNat port)
  | some (ip, remote_port) => meeting.add_split_participant part.part_id ip remote_port (UInt16.ofNat port)

/-- `data.port` is the `int` that `allocate` returned, or `rx_port`. -/
def reportedPort (part : NewPart) (port : Nat) : Int :=
  match part.remote with
  | none => port
  | some _ => (UInt16.ofNat port).toNat

def addSection (s : Server) (i m : Nat) (meeting : Meeting) (part : NewPart) (port : Nat) (ans : Answer) :
    Server × List ServerEvent :=
  match addTo meeting part port ans.add with
  | (.crashed, calls) => ({ s with crashed := true }, [.add i m calls false])
  | (.nullptr, calls) =>
    ({ s with requests := s.requests.set i (.addRelease m part port) }, [.add i m calls false])
  | (.added meeting, calls) =>
    let (s, es) := { s with objects := s.objects.set m meeting }.finish i
      (body 0 "success"
        (.ofMembers [("ip", .string s.listen_ip_), ("port", .number (reportedPort part port))]))
    (s, .add i m calls true :: es)

def releasePort (s : Server) (port : UInt16) : Server :=
  { s with port_allocator_ := s.port_allocator_.release port }

def addRelease (s : Server) (i m : Nat) (part : NewPart) (port : Nat) : Server × List ServerEvent :=
  let s := s.releasePort (UInt16.ofNat port)
  match part.remote with
  | none => s.finish i (body 2 "partId already exists" .null)
  | some _ => s.goto i (.addExisting m part.part_id)

def addExisting (s : Server) (i : Nat) (meeting : Meeting) (part_id : Bytes) : Server × List ServerEvent :=
  match meeting.get_participant part_id with
  | some _ => s.finish i (body 2 "partId already exists" .null)
  | none => s.finish i (body 5 "startSplit failed" .null)

def destroyLookup (s : Server) (i : Nat) (meet_id : Bytes) : Server × List ServerEvent :=
  match s.meetings_[meet_id]? with
  | some m => { s with meetings_ := s.meetings_.erase meet_id }.goto i (.destroyPorts m)
  | none => s.finish i (body 1 "meetId not found" .null)

def destroySection (s : Server) (i m : Nat) (meeting : Meeting) (ports : List UInt16) : Server × List ServerEvent :=
  ({ s with objects := s.objects.set m meeting.stopSection
            requests := s.requests.set i (.destroyRelease ports) }, [.stopped m])

def destroyRelease (s : Server) (i : Nat) : List UInt16 → Server × List ServerEvent
  | [] => s.finish i (body 0 "success" .null)
  | port :: ports => (s.releasePort port).goto i (.destroyRelease ports)

def deleteGet (s : Server) (i : Nat) (meeting : Meeting) (meet_id part_id : Bytes) : Server × List ServerEvent :=
  match meeting.get_participant part_id with
  | some _ => s.goto i (.deleteAgain meet_id part_id)
  | none => s.finish i (body 2 "partId not found" .null)

/-- The handler answers with code 0 whatever `delete_participant` returns. -/
def deleteAgain (s : Server) (i : Nat) (meet_id part_id : Bytes) : Server × List ServerEvent :=
  match s.meetings_[meet_id]? with
  | some m => s.goto i (.deleteSection m part_id)
  | none => s.finish i (body 0 "success" .null)

def deleteSection (s : Server) (i m : Nat) (meeting : Meeting) (part_id : Bytes) : Server × List ServerEvent :=
  match meeting.remove_participant part_id with
  | some (meeting, port) =>
    let s := { s with objects := s.objects.set m meeting }
    if 0 < port then s.goto i (.deleteRelease port) else s.finish i (body 0 "success" .null)
  | none => s.finish i (body 0 "success" .null)

def muteSection (s : Server) (i : Nat) (meeting : Meeting) (part_id : Bytes) : Server × List ServerEvent :=
  if meeting.set_participant_mute part_id then s.finish i (body 0 "success" .null)
  else s.finish i (body 2 "partId not found" .null)

def participantJson (p : Participant) : Json :=
  .ofMembers <| ("partId", .string p.part_id_) ::
    (if p.is_split then
      [("mode", .string (ascii "split")), ("localPort", .number p.port_.toNat),
        ("remoteIp", .string p.remote_ip_), ("remotePort", .number p.remote_port_.toNat)]
    else if p.is_passive then
      [("mode", .string (ascii "passive")), ("remoteIp", .string p.remote_ip_),
        ("remotePort", .number p.remote_port_.toNat)]
    else [("mode", .string (ascii "active")), ("localPort", .number p.port_.toNat)])

def meetingJson (meeting : Meeting) : Json :=
  .ofMembers [("meetId", .string meeting.meet_id_),
    ("participants", .array (meeting.participants.map participantJson))]

/-- `list_meetings`, in the order of the ids -/
def list_meetings (s : Server) : List Nat := s.meetings_.toList.map Prod.snd

/-- A step of request `i`, by where it stands. -/
def goOn (s : Server) (i : Nat) (ans : Answer) : ReqPc → Option (Server × List ServerEvent)
  | .create => some (s.create_meeting i ans)
  | .addLookup meet_id part => some (s.get_meeting i meet_id fun m => .addAllocate m part)
  | .addAllocate m part => some (s.allocatePort i m part ans)
  | .addSection m part port => do s.addSection i m (← s.objects[m]?) part port ans
  | .addRelease m part port => some (s.addRelease i m part port)
  | .addExisting m part_id => do s.addExisting i (← s.objects[m]?) part_id
  | .destroyLookup meet_id => some (s.destroyLookup i meet_id)
  | .destroyPorts m => do s.goto i (.destroyClock m (← s.objects[m]?).participant_ports)
  | .destroyClock m ports => do
    let meeting ← s.objects[m]?
    { s with objects := s.objects.set m meeting.stopClock }.goto i (.destroySection m ports)
  | .destroySection m ports => do s.destroySection i m (← s.objects[m]?) ports
  | .destroyRelease ports => some (s.destroyRelease i ports)
  | .deleteLookup meet_id part_id => some (s.get_meeting i meet_id fun m => .deleteGet m meet_id part_id)
  | .deleteGet m meet_id part_id => do s.deleteGet i (← s.objects[m]?) meet_id part_id
  | .deleteAgain meet_id part_id => some (s.deleteAgain i meet_id part_id)
  | .deleteSection m part_id => do s.deleteSection i m (← s.objects[m]?) part_id
  | .deleteRelease port => some ((s.releasePort port).finish i (body 0 "success" .null))
  | .muteLookup meet_id part_id mute => some (s.get_meeting i meet_id fun m => .muteSection m part_id mute)
  | .muteSection m part_id _ => do s.muteSection i (← s.objects[m]?) part_id
  | .listLookup => some (s.goto i (.listParticipants [] s.list_meetings))
  | .listParticipants listed [] => some (s.finish i (body 0 "success" (.array listed)))
  | .listParticipants listed (m :: rest) => do
    s.goto i (.listParticipants (listed ++ [meetingJson (← s.objects[m]?)]) rest)
  | .done => none

def step (s : Server) (a : ServerAct) : Option (Server × List ServerEvent) :=
  if s.crashed then none
  else
    match a with
    | .receive req => some (s.receive req)
    | .go i ans => do s.goOn i ans (← s.requests[i]?)

/-- A server that was just started with a pool of `count` ports from `base` on. -/
def machine (base count : UInt16) : Machine Server ServerAct ServerEvent where
  init s := ∃ listen_ip, s = { listen_ip_ := listen_ip, port_allocator_ := .new base count }
  step := step

end Server
end AudioMeet
