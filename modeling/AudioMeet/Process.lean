import AudioMeet.Server

/-! The whole process: the requests, the destructors of the meetings that nobody holds any more, and an account
    of what the requests ask for, erase and are answered. -/

namespace AudioMeet
open Lib

/-- The meetings that the rest of a handler works on. -/
def ReqPc.meetings : ReqPc → List Nat
  | .addAllocate m _ | .addSection m _ _ | .addRelease m _ _ | .addExisting m _ => [m]
  | .destroyPorts m | .destroyClock m _ | .destroySection m _ => [m]
  | .deleteGet m _ _ | .deleteSection m _ | .muteSection m _ _ => [m]
  | .listParticipants _ rest => rest
  | _ => []

inductive ProcessAct
  | request (a : ServerAct)
  /-- `~Meeting` of a meeting that `stop` has not run on -/
  | destruct (m : Nat)

inductive Account
  | received (i : Nat) (req : Request)
  /-- `participants_.erase` in `remove_participant`, on the meeting at `m` -/
  | erased (i m : Nat) (meet_id part_id : Bytes)
  /-- `meetings_.erase` in `destroy_meeting` -/
  | unregistered (i : Nat) (meet_id : Bytes)
  | event (e : ServerEvent)

/-- The digit after `"code":`, with which the text of a response starts. -/
def Response.code : Response → Option Nat
  | .content text => do
    let rest ← text.dropPrefix? (ascii "\x7b\"code\":")
    return (← rest.head?).toNat - 0x30
  | .internalServerError => none

/-- The number at the end of `data`, in the response to an add that succeeded. -/
def Response.port : Response → Option Nat
  | .content text => do
    let rest ← text.reverse.dropPrefix? (ascii "\x7d,\"msg\":\"success\"\x7d").reverse
    let digits := rest.takeWhile fun b => 0x30 ≤ b && b ≤ 0x39
    if digits.isEmpty then none else some (digits.reverse.foldl (fun n b => 10 * n + (b.toNat - 0x30)) 0)
  | .internalServerError => none

namespace Server

/-- What the section that takes request `i` from `s` to `t` erases, by where the request stands. -/
def erases (s t : Server) (i : Nat) : ReqPc → List Account
  | .destroyLookup meet_id =>
    if s.meetings_.contains meet_id ∧ ¬ t.meetings_.contains meet_id then [.unregistered i meet_id] else []
  | .deleteSection m part_id =>
    match s.objects[m]?, t.objects[m]? with
    | some before, some after =>
      if before.participants_.contains part_id ∧ ¬ after.participants_.contains part_id then
        [.erased i m before.meet_id_ part_id]
      else []
    | _, _ => []
  | _ => []

/-- The account of a step to `t` with the events `es`. -/
def account (s t : Server) (a : ServerAct) (es : List ServerEvent) : List Account :=
  match a with
  | .receive req => .received s.requests.length req :: es.map .event
  | .go i _ => ((s.requests[i]?.map (s.erases t i)).getD []) ++ es.map .event

/-- The destructor runs when the meeting is neither registered nor in the hands of a request. -/
def destruct (s : Server) (m : Nat) : Option (Server × List Account) := do
  let meeting ← s.objects[m]?
  if s.crashed ∨ meeting.stopped ∨ m ∈ s.list_meetings ∨ ∃ pc ∈ s.requests, m ∈ pc.meetings then none
  else some ({ s with objects := s.objects.set m meeting.stopClock.stopSection }, [.event (.stopped m)])

def process (base count : UInt16) : Machine Server ProcessAct Account where
  init := (machine base count).init
  step s
    | .request a => (s.step a).map fun (t, es) => (t, s.account t a es)
    | .destruct m => s.destruct m

end Server
end AudioMeet
