import AudioMeet.Lib.Prog
import AudioMeet.Server

/-! What blocks: every request with the calls it makes (`src/server.cpp`, `src/meeting_manager.cpp`, `src/meeting.cpp`,
    `src/port_allocator.cpp`), the clocks of the meetings, and the accept, rx and tx threads of the participants
    (`src/participant.cpp`), with all that they lock, join and wait for. A function is given what follows it. -/

namespace AudioMeet.Blocking
open Lib Std

inductive PartThread
  | accept
  | rx
  | tx
deriving DecidableEq

inductive Resource
  /-- of `MeetingManager` -/
  | mutex_
  /-- `mutex_` of `PortAllocator` -/
  | allocator
  | parts_mutex_ (m : Nat)
  | conf_mutex_ (m : Nat)
  /-- held by the clock thread within a tick -/
  | tick (m : Nat)
  | queue_mutex_ (p : Nat)
  | rx_buf_mutex_ (p : Nat)
  /-- held by the thread while it runs -/
  | thread (p : Nat) (t : PartThread)
deriving DecidableEq

inductive Kind
  | request (req : Request)
  | clock (m : Nat)
  | accept (p : Nat)
  | rx (p : Nat)
  | tx (p : Nat)
  /-- the tx thread in `queue_cv_.wait`, which locks the mutex again -/
  | wait (p : Nat)

/-- A meeting, held by its place in `Memory.meetings`. -/
structure MeetingObject where
  meet_id_ : Bytes
  /-- not null -/
  clock_ : Bool
  /-- `pjmedia_clock_stop` has not been called -/
  running : Bool
  /-- by their places in `Memory.parts` -/
  participants_ : ExtTreeMap Bytes Nat compare := ∅
  /-- the participants whose ports are in the bridge -/
  conf_ : List Nat := []
  use_count : Nat := 1

structure PartObject where
  part : Participant
  stop_flag_ : Bool := false
  tx_active_ : Bool := false
  /-- how many packets are in it -/
  send_queue_ : Nat := 0
  use_count : Nat := 1

/-- `meetings` and `parts` hold every meeting and every participant ever made. -/
structure Memory where
  port_allocator_ : PortAllocator
  meetings_ : ExtTreeMap Bytes Nat compare := ∅
  meetings : List MeetingObject := []
  parts : List PartObject := []

/-- What the random generator, the probes of a port, and the calls of the sockets and of PJMEDIA answer. -/
structure Answer where
  random : UInt64 := 0
  is_port_available : UInt16 → Bool := fun _ => true
  ok : Bool := true
  /-- how many frames a packet completes -/
  n_full : Nat := 0
  /-- the ports that the bridge calls in a tick, and whether it calls `put_frame` -/
  calls : List (Nat × Bool) := []

abbrev Code := Prog Memory Resource Kind Answer

namespace Memory

def meeting (s : Memory) (m : Nat) (f : MeetingObject → MeetingObject) : Memory := { s with meetings := s.meetings.modify m f }

def part (s : Memory) (p : Nat) (f : PartObject → PartObject) : Memory := { s with parts := s.parts.modify p f }

/-- The participants of the meeting, in the order of their ids. -/
def participants (s : Memory) (m : Nat) : List Nat := (s.meetings[m]?.map (·.participants_.toList.map Prod.snd)).getD []

def find (s : Memory) (m : Nat) (part_id : Bytes) : Option Nat := s.meetings[m]?.bind (·.participants_[part_id]?)

def stop_flag_ (s : Memory) (p : Nat) : Bool := s.parts[p]?.any (·.stop_flag_)

def tx_active_ (s : Memory) (p : Nat) : Bool := s.parts[p]?.any (·.tx_active_)

def port (s : Memory) (p : Nat) : UInt16 := (s.parts[p]?.map (·.part.port_)).getD 0

/-- A copy of a `std::shared_ptr<Meeting>`. -/
def copyMeeting (s : Memory) (m : Nat) : Memory := s.meeting m fun x => { x with use_count := x.use_count + 1 }

def copyPart (s : Memory) (p : Nat) : Memory := s.part p fun x => { x with use_count := x.use_count + 1 }

/-- Whether a pointer to the meeting is the last one. -/
def lastMeeting (s : Memory) (m : Nat) : Bool := s.meetings[m]?.any (·.use_count == 1)

def lastPart (s : Memory) (p : Nat) : Bool := s.parts[p]?.any (·.use_count == 1)

end Memory

/-- A scope that leaves no value. -/
def section_ (mode : LockMode) (r : Resource) (body : Code → Code) (next : Code) : Code :=
  .guarded mode r (fun next => body (next ())) fun _ => next

def read (next : Memory → Code) : Code := .act id next

def write (f : Memory → Memory) (next : Code) : Code := .act f fun _ => next

/-! ### The pool of ports -/

namespace PortAllocator

def allocate (next : Option Nat → Code) : Code :=
  .guarded .exclusive .allocator
    (fun next => .ask fun ans =>
      .act (fun s => { s with port_allocator_ := (s.port_allocator_.allocate ans.is_port_available).1 }) fun s =>
        next (s.port_allocator_.allocate ans.is_port_available).2)
    next

/-- The range is looked at before the mutex is taken. -/
def release (port : UInt16) (next : Code) : Code :=
  read fun s =>
    if port.toNat < s.port_allocator_.base_ ∨ s.port_allocator_.base_ + s.port_allocator_.count_ ≤ port.toNat then next
    else
      section_ .exclusive .allocator
        (write fun s => { s with port_allocator_ := s.port_allocator_.release port }) next

end PortAllocator

/-! ### A participant and its threads -/

namespace Participant

def start_tx_thread (p : Nat) (next : Code) : Code :=
  section_ .exclusive (.queue_mutex_ p)
    (fun next => read fun s =>
      if s.stop_flag_ p then next
      else write (·.part p fun x => { x with tx_active_ := true }) (.spawn (.tx p) next))
    next

def start (p : Nat) (next : Bool → Code) : Code :=
  .ask fun ans => if ans.ok then .spawn (.accept p) (next true) else next false

def startSplit (p : Nat) (next : Bool → Code) : Code :=
  .ask fun ans => if ans.ok then start_tx_thread p (.spawn (.accept p) (next true)) else next false

/-- A thread that was not started, or has ended, is not waited for. -/
def stop (p : Nat) (next : Code) : Code :=
  write (·.part p fun x => { x with stop_flag_ := true }) <|
    section_ .exclusive (.queue_mutex_ p) (write (·.part p fun x => { x with tx_active_ := false, send_queue_ := 0 })) <|
      .await (.thread p .accept) <| .await (.thread p .rx) <| .await (.thread p .tx) next

/-- The end of a `std::shared_ptr<Participant>`: the last one runs `~Participant`. -/
def drop (p : Nat) (next : Code) : Code :=
  .act (·.part p fun x => { x with use_count := x.use_count - 1 }) fun s => if s.lastPart p then stop p next else next

def on_get_frame (p : Nat) (next : Code) : Code := section_ .exclusive (.rx_buf_mutex_ p) id next

/-- `ok` answers whether the frame completes a batch. -/
def on_put_frame (p : Nat) (next : Code) : Code :=
  read fun s =>
    if !s.tx_active_ p || s.stop_flag_ p then next
    else .ask fun ans =>
      if ans.ok then
        section_ .exclusive (.queue_mutex_ p)
          (fun next => read fun s =>
            if !s.tx_active_ p || s.stop_flag_ p then next
            else write (·.part p fun x => { x with send_queue_ := min (x.send_queue_ + 1) 25 }) next)
          next
      else next

def accept_thread_func (p : Nat) : Code :=
  .ask fun ans =>
    if ans.ok then
      read fun s =>
        if s.parts[p]?.any (·.part.is_split) then .spawn (.rx p) .done
        else .spawn (.rx p) (start_tx_thread p .done)
    else .done

def rx_thread_func (p : Nat) : Code :=
  read fun s =>
    if s.stop_flag_ p then .done
    else .ask fun ans =>
      if ans.ok then
        .each (List.range ans.n_full) (fun _ => section_ .exclusive (.rx_buf_mutex_ p) id) (.goto (.rx p))
      else .done

/-- What follows the loop of `tx_thread_func`. -/
def tx_thread_end (p : Nat) : Code :=
  section_ .exclusive (.queue_mutex_ p) (write (·.part p fun x => { x with tx_active_ := false, send_queue_ := 0 })) .done

def tx_thread_func (p : Nat) : Code := read fun s => if s.stop_flag_ p then tx_thread_end p else .goto (.wait p)

/-- `queue_cv_.wait`, the rest of its section, and the calls of `write_exact`. -/
def tx_thread_wait (p : Nat) : Code :=
  .lock .exclusive (.queue_mutex_ p) <| read fun s =>
    if s.stop_flag_ p then .unlock (tx_thread_end p)
    else if s.parts[p]?.all (·.send_queue_ == 0) then .unlock (.goto (.wait p))
    else
      write (·.part p fun x => { x with send_queue_ := x.send_queue_ - 1 }) <| .unlock <|
        .ask fun ans => if ans.ok then .goto (.tx p) else tx_thread_end p

end Participant

/-! ### A meeting -/

namespace Meeting

/-- The bridge calls the ports that it has, in an order of its own. -/
def on_clock_tick (m : Nat) (next : Code) : Code :=
  section_ .shared (.conf_mutex_ m)
    (fun next => read fun s => .ask fun ans =>
      .each (ans.calls.filter fun x => s.meetings[m]?.any fun y => x.1 ∈ y.conf_)
        (fun x => if x.2 then Participant.on_put_frame x.1 else Participant.on_get_frame x.1) next)
    next

/-- One round of the clock thread. -/
def clock_thread (m : Nat) : Code :=
  .lock .exclusive (.tick m) <| read fun s =>
    if s.meetings[m]?.any (·.running) then on_clock_tick m (.unlock (.goto (.clock m))) else .unlock .done

/-- The section that `add_participant` and `add_split_participant` share. The first question is `create_media_port`, the
    second `pjmedia_conf_add_port`. -/
def addSection (m : Nat) (part : NewPart) (port : Nat) (start : Nat → (Bool → Code) → Code) (next : Option Nat → Code) :
    Code :=
  read fun s =>
    if (s.find m part.part_id).isSome then next none
    else
      .act (fun s => { s with
        parts := s.parts ++ [{ part := part.participant ((s.meetings[m]?.map (·.meet_id_)).getD []) (UInt16.ofNat port) }] }) fun s =>
      let p := s.parts.length
      start p fun started =>
        if started then
          .ask fun ans =>
            if ans.ok then
              .guarded .exclusive (.conf_mutex_ m)
                (fun next => .ask fun ans =>
                  if ans.ok then write (·.meeting m fun x => { x with conf_ := p :: x.conf_ }) (next true)
                  else next false)
                fun added =>
                  if added then
                    write (fun s => (s.meeting m fun x =>
                      { x with participants_ := x.participants_.insert part.part_id p }).copyPart p) (next (some p))
                  else Participant.stop p (Participant.drop p (next none))
            else Participant.drop p (next none)
        else Participant.drop p (next none)

def add_participant (m : Nat) (part : NewPart) (port : Nat) (next : Option Nat → Code) : Code :=
  .guarded .exclusive (.parts_mutex_ m) (addSection m part port Participant.start) next

def add_split_participant (m : Nat) (part : NewPart) (port : Nat) (next : Option Nat → Code) : Code :=
  .guarded .exclusive (.parts_mutex_ m) (addSection m part port Participant.startSplit) next

def get_participant (m : Nat) (part_id : Bytes) (next : Option Nat → Code) : Code :=
  .guarded .shared (.parts_mutex_ m)
    (fun next => .act (fun s => ((s.find m part_id).map s.copyPart).getD s) fun s => next (s.find m part_id)) next

def participants (m : Nat) (next : List Nat → Code) : Code :=
  .guarded .shared (.parts_mutex_ m)
    (fun next => .act (fun s => (s.participants m).foldl Memory.copyPart s) fun s => next (s.participants m)) next

def participant_ports (m : Nat) (next : List UInt16 → Code) : Code :=
  .guarded .shared (.parts_mutex_ m)
    (fun next => read fun s => next ((s.participants m).map s.port |>.filter (· ≠ 0))) next

def set_participant_mute (m : Nat) (part_id : Bytes) (next : Code) : Code :=
  section_ .shared (.parts_mutex_ m)
    (fun next => read fun s =>
      match s.find m part_id with
      | none => next
      | some _ => section_ .exclusive (.conf_mutex_ m) id next)
    next

/-- The pointer of the map becomes the local one, which ends with the call. -/
def remove_participant (m : Nat) (part_id : Bytes) (next : Option UInt16 → Code) : Code :=
  .guarded .exclusive (.parts_mutex_ m)
    (fun next =>
      .act (·.meeting m fun x => { x with participants_ := x.participants_.erase part_id }) fun s =>
        match s.find m part_id with
        | none => next none
        | some p =>
          section_ .exclusive (.conf_mutex_ m) (write (·.meeting m fun x => { x with conf_ := x.conf_.erase p }))
            (next (some p)))
    fun
    | none => next none
    | some p => Participant.stop p (read fun s => Participant.drop p (next (some (s.port p))))

/-- The section of `stop`: the participants leave the bridge, are stopped, and then leave the map. -/
def stopSection (m : Nat) (next : Code) : Code :=
  section_ .exclusive (.parts_mutex_ m)
    (fun next =>
      .act (·.meeting m fun x => { x with conf_ := [] }) fun s => .each (s.participants m) Participant.stop <|
        .act (·.meeting m fun x => { x with participants_ := ∅ }) fun s =>
          .each (s.participants m) Participant.drop next)
    next

def stop (m : Nat) (next : Code) : Code :=
  read fun s =>
    if s.meetings[m]?.any (·.clock_) then
      write (·.meeting m fun x => { x with running := false }) <| .await (.tick m) <|
        write (·.meeting m fun x => { x with clock_ := false }) <| stopSection m next
    else stopSection m next

/-- The end of a `std::shared_ptr<Meeting>`: the last one runs `~Meeting`. -/
def drop (m : Nat) (next : Code) : Code :=
  .act (·.meeting m fun x => { x with use_count := x.use_count - 1 }) fun s => if s.lastMeeting m then stop m next else next

end Meeting

/-! ### The manager -/

namespace MeetingManager

/-- The constructor starts the clock unless a call of PJMEDIA fails. The assignment ends the pointer that the map had
    under the id. -/
def create_meeting (next : Code) : Code :=
  .ask fun ans =>
    .act (fun s => { s with
      meetings := s.meetings ++ [{ meet_id_ := Server.hexId ans.random, clock_ := ans.ok, running := ans.ok }] }) fun s =>
    let m := s.meetings.length
    let assign := section_ .exclusive .mutex_
      (fun next =>
        .act (fun s => { s with meetings_ := s.meetings_.insert (Server.hexId ans.random) m }) fun s =>
          match s.meetings_[Server.hexId ans.random]? with
          | none => next
          | some old => Meeting.drop old next)
      next
    if ans.ok then .spawn (.clock m) assign else assign

def get_meeting (meet_id : Bytes) (next : Option Nat → Code) : Code :=
  .guarded .exclusive .mutex_
    (fun next => .act (fun s => (s.meetings_[meet_id]?.map s.copyMeeting).getD s) fun s => next s.meetings_[meet_id]?) next

def list_meetings (next : List Nat → Code) : Code :=
  .guarded .exclusive .mutex_
    (fun next => .act (fun s => (s.meetings_.toList.map Prod.snd).foldl Memory.copyMeeting s) fun s =>
      next (s.meetings_.toList.map Prod.snd))
    next

/-- The pointer of the map becomes the local one, which ends with the call. -/
def destroy_meeting (meet_id : Bytes) (next : Code) : Code :=
  .guarded .exclusive .mutex_
    (fun next => .act (fun s => { s with meetings_ := s.meetings_.erase meet_id }) fun s => next s.meetings_[meet_id]?)
    fun
    | none => next
    | some m => Meeting.participant_ports m fun ports =>
      Meeting.stop m <| .each ports PortAllocator.release <| Meeting.drop m next

def delete_participant (meet_id part_id : Bytes) (next : Code) : Code :=
  get_meeting meet_id fun
    | none => next
    | some m => Meeting.remove_participant m part_id fun
      | none => Meeting.drop m next
      | some port => if 0 < port then PortAllocator.release port (Meeting.drop m next) else Meeting.drop m next

end MeetingManager

/-! ### The handlers -/

/-- `handle_add_participant`, or `handle_add_passive_participant` with a remote address. -/
def handle_add (meet_id : Bytes) (part : NewPart) : Code :=
  MeetingManager.get_meeting meet_id fun
    | none => .done
    | some m => PortAllocator.allocate fun
      | none => Meeting.drop m .done
      | some port =>
        match part.remote with
        | none => Meeting.add_participant m part port fun
          | none => PortAllocator.release (UInt16.ofNat port) (Meeting.drop m .done)
          | some p => Participant.drop p (Meeting.drop m .done)
        | some _ => Meeting.add_split_participant m part port fun
          | none => PortAllocator.release (UInt16.ofNat port) <| Meeting.get_participant m part.part_id fun
            | none => Meeting.drop m .done
            | some p => Participant.drop p (Meeting.drop m .done)
          | some p => Participant.drop p (Meeting.drop m .done)

/-- The pointer that is only tested ends with the test. -/
def handle_del_participant (meet_id part_id : Bytes) : Code :=
  MeetingManager.get_meeting meet_id fun
    | none => .done
    | some m => Meeting.get_participant m part_id fun
      | none => Meeting.drop m .done
      | some p => Participant.drop p (MeetingManager.delete_participant meet_id part_id (Meeting.drop m .done))

def handle_mute_participant (meet_id part_id : Bytes) : Code :=
  MeetingManager.get_meeting meet_id fun
    | none => .done
    | some m => Meeting.set_participant_mute m part_id (Meeting.drop m .done)

def handle_list_meetings : Code :=
  MeetingManager.list_meetings fun meetings =>
    .each meetings (fun m next => Meeting.participants m fun parts => .each parts Participant.drop next) <|
      .each meetings Meeting.drop .done

/-- A request with its parameters; one that `validate` refuses locks nothing. -/
def handle (req : Request) : Code :=
  match Server.validate req with
  | .inl .create => MeetingManager.create_meeting .done
  | .inl (.addLookup meet_id part) => handle_add meet_id part
  | .inl (.destroyLookup meet_id) => MeetingManager.destroy_meeting meet_id .done
  | .inl (.deleteLookup meet_id part_id) => handle_del_participant meet_id part_id
  | .inl (.muteLookup meet_id part_id _) => handle_mute_participant meet_id part_id
  | .inl .listLookup => handle_list_meetings
  | _ => .done

/-! ### All threads -/

def code : Kind → Code
  | .request req => handle req
  | .clock m => Meeting.clock_thread m
  | .accept p => Participant.accept_thread_func p
  | .rx p => Participant.rx_thread_func p
  | .tx p => Participant.tx_thread_func p
  | .wait p => Participant.tx_thread_wait p

def own : Kind → List Resource
  | .accept p => [.thread p .accept]
  | .rx p => [.thread p .rx]
  | .tx p | .wait p => [.thread p .tx]
  | _ => []

/-- Any number of requests come in at any time. -/
def arrives : Kind → Bool
  | .request _ => true
  | _ => false

def programs (base count : UInt16) : Programs Memory Resource Kind Answer where
  memory := { port_allocator_ := .new base count }
  code := code
  own := own
  arrives := arrives

end AudioMeet.Blocking
