import AudioMeet.Lib.Bytes
import Std.Data.ExtTreeMap

/-! A meeting (`src/meeting.h`, `src/meeting.cpp`), one function for each section under `parts_mutex_`. What
    a section calls outside the meeting is answered by its argument. -/

namespace AudioMeet
open Lib Std

/-- The fields of a `Participant` that its meeting and the handlers read. -/
structure Participant where
  meet_id_ : Bytes
  part_id_ : Bytes
  port_ : UInt16
  remote_ip_ : Bytes := []
  remote_port_ : UInt16 := 0
deriving DecidableEq

namespace Participant

def is_passive (p : Participant) : Bool := p.port_ == 0 && !p.remote_ip_.isEmpty

def is_split (p : Participant) : Bool := p.port_ != 0 && !p.remote_ip_.isEmpty

/-- `tx_addr` of `startSplit`, which it connects to: what `inet_pton` reads the address from, and `sin_port` in
    network order. -/
def tx_addr (p : Participant) : Bytes × Bytes := (p.remote_ip_, be16 p.remote_port_)

end Participant

/-- Whom an add asks for; `remote` is the address to connect to, where there is one. -/
structure NewPart where
  part_id : Bytes
  remote : Option (Bytes × UInt16) := none

/-- The participant that an add makes, with `port` to listen on. -/
def NewPart.participant (part : NewPart) (meet_id : Bytes) (port : UInt16) : Participant where
  meet_id_ := meet_id
  part_id_ := part.part_id
  port_ := port
  remote_ip_ := (part.remote.map Prod.fst).getD []
  remote_port_ := (part.remote.map Prod.snd).getD 0

abbrev Parts := ExtTreeMap Bytes (Participant × Nat) compare

/-- `pool_`, `conf_` and `clock_` tell whether the pointers are not null. -/
structure Meeting where
  meet_id_ : Bytes
  pool_ : Bool
  conf_ : Bool
  clock_ : Bool
  participants_ : Parts := ∅
  /-- `stop` has completed. The source keeps no such flag. -/
  stopped : Bool := false

/-- What the calls within a section of an `add_*` answer: whether the participant started, whether it got a
    media port, and the slot of the media port in the bridge. -/
structure AddAnswer where
  started : Bool
  media_port : Bool
  slot : Option Nat

/-- The calls that a section of an `add_*` makes, with the pointers it passes. -/
inductive AddCall
  | start
  | createMediaPort (pool_ : Bool)
  | confAddPort (conf_ : Bool)
deriving DecidableEq

inductive AddResult
  /-- `create_media_port` or `pjmedia_conf_add_port` followed a null pointer -/
  | crashed
  | nullptr
  | added (meeting : Meeting)

namespace Meeting

/-- The constructor, by the outcomes of `pj_pool_create`, `pjmedia_conf_create` and `pjmedia_clock_create2`. -/
def new (meet_id : Bytes) (pool conf clock : Bool) : Meeting :=
  let made := pool && conf && clock
  { meet_id_ := meet_id, pool_ := made, conf_ := made, clock_ := made }

/-- The section that the three `add_*` share. None of them looks at what `stop` left. -/
def add (m : Meeting) (p : Participant) (ans : AddAnswer) : AddResult × List AddCall :=
  if m.participants_.contains p.part_id_ then (.nullptr, [])
  else if !ans.started then (.nullptr, [.start])
  else if !m.pool_ then (.crashed, [.start, .createMediaPort m.pool_])
  else if !ans.media_port then (.nullptr, [.start, .createMediaPort m.pool_])
  else if !m.conf_ then (.crashed, [.start, .createMediaPort m.pool_, .confAddPort m.conf_])
  else
    match ans.slot with
    | none => (.nullptr, [.start, .createMediaPort m.pool_, .confAddPort m.conf_])
    | some slot =>
      (.added { m with participants_ := m.participants_.insert p.part_id_ (p, slot) },
        [.start, .createMediaPort m.pool_, .confAddPort m.conf_])

def add_participant (m : Meeting) (part_id : Bytes) (port : UInt16) : AddAnswer → AddResult × List AddCall :=
  m.add (NewPart.participant { part_id } m.meet_id_ port)

def add_passive_participant (m : Meeting) (part_id ip : Bytes) (remote_port : UInt16) :
    AddAnswer → AddResult × List AddCall :=
  m.add (NewPart.participant { part_id, remote := some (ip, remote_port) } m.meet_id_ 0)

def add_split_participant (m : Meeting) (part_id ip : Bytes) (remote_port rx_port : UInt16) :
    AddAnswer → AddResult × List AddCall :=
  m.add (NewPart.participant { part_id, remote := some (ip, remote_port) } m.meet_id_ rx_port)

def get_participant (m : Meeting) (part_id : Bytes) : Option Participant := m.participants_[part_id]?.map Prod.fst

def participants (m : Meeting) : List Participant := m.participants_.toList.map (·.2.1)

def participant_ports (m : Meeting) : List UInt16 := (m.participants.filter (·.port_ ≠ 0)).map (·.port_)

/-- Whether `part_id` was found. -/
def set_participant_mute (m : Meeting) (part_id : Bytes) : Bool := m.participants_.contains part_id

/-- The port of the removed participant; nothing when `part_id` is not found. -/
def remove_participant (m : Meeting) (part_id : Bytes) : Option (Meeting × UInt16) :=
  match m.participants_[part_id]? with
  | none => none
  | some (p, _) => some ({ m with participants_ := m.participants_.erase part_id }, p.port_)

/-- The first part of `stop`: the clock. -/
def stopClock (m : Meeting) : Meeting := { m with clock_ := false }

/-- The section of `stop`. -/
def stopSection (m : Meeting) : Meeting := { m with participants_ := ∅, conf_ := false, pool_ := false, stopped := true }

end Meeting
end AudioMeet
