import AudioMeet.Lib.Linearizable
import AudioMeet.Live

/-! The callers of a live meeting (`src/meeting.cpp`): what each call is asked for and what it returns, among them
    the calls that only read the map. -/

namespace AudioMeet.Live
open Lib

inductive Query
  | get_participant (part_id : Bytes)
  | participants
  | participant_ports
deriving DecidableEq

/-- What a call is asked to do; the participant is the one that an `add_*` makes. -/
inductive Op
  | add (p : Participant)
  | set_participant_mute (part_id : Bytes) (mute : Bool)
  | remove_participant (part_id : Bytes)
  | query (q : Query)
deriving DecidableEq

inductive Reply
  | participant (p : Option Participant)
  | code (n : Int)
  | participants (ps : List Participant)
  | ports (ports : List UInt16)
deriving DecidableEq

/-- What the section of a reading call reads. -/
def Query.ask (parts : Parts) : Query → Reply
  | .get_participant part_id => .participant (parts[part_id]?.map Prod.fst)
  | .participants => .participants (parts.toList.map (·.2.1))
  | .participant_ports => .ports ((parts.toList.filter (·.2.1.port_ ≠ 0)).map (·.2.1.port_))

/-- Where a reading call stands. Its section, in which it shares `parts_mutex_`, is one step: nobody changes the
    map while it lasts. -/
inductive QueryPc
  | lock (q : Query)
  | unlocked (q : Query) (r : Reply)
  | returned (q : Query) (r : Reply)
deriving DecidableEq

def Result.reply : Result → Reply
  | .participant p => .participant p
  | .code n => .code n

/-- The answer that a call has settled on, from the step on in which it takes effect. -/
def CallPc.reply : CallPc → Option Reply
  | .addConfUnlock _ none => some (.participant none)
  | .addUnlock p => some (.participant p)
  | .muteConfUnlock => some (.code 0)
  | .muteUnlock n => some (.code n)
  | .removeConfLock p _ | .removePort p _ | .removeConfUnlock p | .removeUnlock (some p) | .removeStop p =>
    some (.code p.port_.toNat)
  | .removeUnlock none => some (.code (-1))
  | .returned r => some r.reply
  | _ => none

def CallPc.isReturned : CallPc → Bool
  | .returned _ => true
  | _ => false

def Call.op (meet_id : Bytes) : Call → Op
  | .add_participant part_id port => .add { meet_id_ := meet_id, part_id_ := part_id, port_ := port }
  | .add_passive_participant part_id ip remote_port =>
    .add { meet_id_ := meet_id, part_id_ := part_id, port_ := 0, remote_ip_ := ip, remote_port_ := remote_port }
  | .add_split_participant part_id ip remote_port rx_port =>
    .add { meet_id_ := meet_id, part_id_ := part_id, port_ := rx_port, remote_ip_ := ip, remote_port_ := remote_port }
  | .set_participant_mute part_id mute => .set_participant_mute part_id mute
  | .remove_participant part_id => .remove_participant part_id

/-- A call of the session, or a reading call. -/
inductive CallId
  | call (k : Nat)
  | query (j : Nat)
deriving DecidableEq

inductive CallersAct
  | session (a : SessionAct)
  | ask (q : Query)
  | query (j : Nat)

/-- `asked` has what each call of the session was asked for. -/
structure Callers (B : Type) where
  session : Session B
  asked : List Op := []
  queries : List QueryPc := []

abbrev CallMoment := Moment CallId Op Reply

namespace Callers
variable {B : Type}

/-- What its step from `pc` to `pc'` is for call `k`. -/
def passes (k : Nat) (op : Op) (pc pc' : CallPc) : List CallMoment :=
  match pc.reply, pc'.reply with
  | none, some r => [.took (.call k) op r]
  | _, some r => if pc'.isReturned then [.returned (.call k) r] else []
  | _, none => []

def goOn (P : Pjmedia B) (s : Callers B) (k : Nat) (ok : Bool) : Option (Callers B × List CallMoment) := do
  let pc ← s.session.calls[k]?
  let op ← s.asked[k]?
  let (session, _) ← s.session.step P (.go k ok)
  let pc' ← session.calls[k]?
  return ({ s with session }, passes k op pc pc')

def queryStep (s : Callers B) (j : Nat) : QueryPc → Option (Callers B × List CallMoment)
  | .lock q =>
    if s.session.conference.parts_mutex_.owner = none then
      let r := q.ask s.session.conference.participants_
      some ({ s with queries := s.queries.set j (.unlocked q r) }, [.took (.query j) (.query q) r])
    else none
  | .unlocked q r => some ({ s with queries := s.queries.set j (.returned q r) }, [.returned (.query j) r])
  | .returned _ _ => none

def step (P : Pjmedia B) (s : Callers B) : CallersAct → Option (Callers B × List CallMoment)
  | .session (.call c) => do
    let (session, _) ← s.session.step P (.call c)
    let op := c.op s.session.conference.meet_id_
    return ({ s with session, asked := s.asked ++ [op] }, [.invoked (.call s.session.calls.length) op])
  | .session (.go k ok) => s.goOn P k ok
  | .session .tick => (s.session.step P .tick).map fun (session, _) => ({ s with session }, [])
  | .ask q =>
    some ({ s with queries := s.queries ++ [.lock q] }, [.invoked (.query s.queries.length) (.query q)])
  | .query j => do s.queryStep j (← s.queries[j]?)

def machine (P : Pjmedia B) : Machine (Callers B) CallersAct CallMoment where
  init s := ∃ session, (Session.machine P).init session ∧ s = { session }
  step := step P

end Callers
end AudioMeet.Live
