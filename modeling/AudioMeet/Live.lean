import AudioMeet.Lib.Machine
import AudioMeet.Lib.SharedMutex
import AudioMeet.Meeting

/-! The calls on a live meeting (`src/meeting.cpp`), which run in threads of their own beside the clock. Each
    statement that locks a mutex, reads or writes the map, or calls the bridge is a step. -/

namespace AudioMeet.Live
open Lib

/-! ### The bridge -/

/-- The functions of PJMEDIA that a meeting calls on `conf_`, and what can be seen of a bridge. -/
structure Pjmedia (B : Type) where
  /-- the slot of the new port, unless the call fails -/
  conf_add_port : B → B × Option Nat
  conf_connect_port : B → (src_slot sink_slot : Nat) → (level : Int) → B
  conf_remove_port : B → (slot : Nat) → B
  conf_adjust_rx_level : B → (slot : Nat) → (adj_level : Int) → B
  occupied : B → Nat → Bool
  connected : B → (src_slot sink_slot : Nat) → Bool
  rx_level : B → Nat → Int

/-- The slot of the master port, which `pjmedia_conf_create` makes. -/
def MASTER_SLOT : Nat := 0

namespace Pjmedia
variable {B : Type} (P : Pjmedia B)

/-- Nothing of the port in `slot` is mixed into any other. -/
def Muted (b : B) (slot : Nat) : Prop := P.rx_level b slot = -128

instance (b : B) (slot : Nat) : Decidable (P.Muted b slot) := inferInstanceAs (Decidable (_ = _))

/-- A bridge as `pjmedia_conf_create` leaves it. -/
structure Fresh (b : B) : Prop where
  occupied : ∀ slot, P.occupied b slot ↔ slot = MASTER_SLOT
  connected : ∀ src sink, ¬P.connected b src sink

end Pjmedia

/-! ### The calls -/

inductive Result
  | participant (p : Option Participant)
  | code (n : Int)
deriving DecidableEq

/-- Where a call is. The three `add_*` have one body, and differ in the participant they make. -/
inductive CallPc
  | addLock (p : Participant)
  | addCount (p : Participant)
  | addStart (p : Participant)
  | addMediaPort (p : Participant)
  | addConfLock (p : Participant)
  | addPort (p : Participant)
  | addConfUnlock (p : Participant) (new_slot : Option Nat)
  | addConnect (p : Participant) (new_slot : Nat) (existing : List Nat)
  | addConnectBack (p : Participant) (new_slot existing_slot : Nat) (existing : List Nat)
  | addUnlock (p : Option Participant)
  | muteLock (part_id : Bytes) (mute : Bool)
  | muteFind (part_id : Bytes) (mute : Bool)
  | muteConfLock (part_id : Bytes) (mute : Bool) (slot : Nat)
  | muteAdjust (part_id : Bytes) (mute : Bool) (slot : Nat)
  | muteConfUnlock
  | muteUnlock (n : Int)
  | removeLock (part_id : Bytes)
  | removeFind (part_id : Bytes)
  | removeConfLock (p : Participant) (slot : Nat)
  | removePort (p : Participant) (slot : Nat)
  | removeConfUnlock (p : Participant)
  | removeUnlock (p : Option Participant)
  | removeStop (p : Participant)
  | returned (r : Result)
deriving DecidableEq

inductive Call
  | add_participant (part_id : Bytes) (port : UInt16)
  | add_passive_participant (part_id ip : Bytes) (remote_port : UInt16)
  | add_split_participant (part_id ip : Bytes) (remote_port rx_port : UInt16)
  | set_participant_mute (part_id : Bytes) (mute : Bool)
  | remove_participant (part_id : Bytes)

def Call.begin (meet_id : Bytes) : Call → CallPc
  | .add_participant part_id port => .addLock { meet_id_ := meet_id, part_id_ := part_id, port_ := port }
  | .add_passive_participant part_id ip remote_port =>
    .addLock { meet_id_ := meet_id, part_id_ := part_id, port_ := 0, remote_ip_ := ip, remote_port_ := remote_port }
  | .add_split_participant part_id ip remote_port rx_port =>
    .addLock { meet_id_ := meet_id, part_id_ := part_id, port_ := rx_port, remote_ip_ := ip
               remote_port_ := remote_port }
  | .set_participant_mute part_id mute => .muteLock part_id mute
  | .remove_participant part_id => .removeLock part_id

/-- What the meeting did, in the order of its effects. -/
inductive Event
  | joined (part_id : Bytes)
  | muted (part_id : Bytes) (mute : Bool)
  | left (part_id : Bytes)
deriving DecidableEq

inductive Thread
  | clock
  | call (k : Nat)
deriving DecidableEq

structure Conference (B : Type) where
  meet_id_ : Bytes
  conf_ : B
  participants_ : Parts := ∅
  parts_mutex_ : SharedMutex Thread := {}
  conf_mutex_ : SharedMutex Thread := {}

namespace Conference
variable {B : Type}

/-- The slot that the map records for a participant. -/
def slot (c : Conference B) (part_id : Bytes) : Option Nat := c.participants_[part_id]?.map Prod.snd

def slots (c : Conference B) : List Nat := c.participants_.toList.map (·.2.2)

def onParts (c : Conference B) (m : Option (SharedMutex Thread)) (pc : CallPc) :
    Option (Conference B × CallPc × List Event) :=
  m.map fun m => ({ c with parts_mutex_ := m }, pc, [])

def onConf (c : Conference B) (m : Option (SharedMutex Thread)) (pc : CallPc) :
    Option (Conference B × CallPc × List Event) :=
  m.map fun m => ({ c with conf_mutex_ := m }, pc, [])

/-- A step of a call in thread `t`. `ok` answers `start` (or `startPassive`, `startSplit`) and
    `create_media_port`. -/
def go (P : Pjmedia B) (c : Conference B) (t : Thread) (ok : Bool) :
    CallPc → Option (Conference B × CallPc × List Event)
  | .addLock p => c.onParts (c.parts_mutex_.lock t) (.addCount p)
  | .addCount p =>
    some (c, if c.participants_.contains p.part_id_ then .addUnlock none else .addStart p, [])
  | .addStart p => some (c, if ok then .addMediaPort p else .addUnlock none, [])
  | .addMediaPort p => some (c, if ok then .addConfLock p else .addUnlock none, [])
  | .addConfLock p => c.onConf (c.conf_mutex_.lock t) (.addPort p)
  | .addPort p =>
    let (conf, new_slot) := P.conf_add_port c.conf_
    some ({ c with conf_ := conf }, .addConfUnlock p new_slot, [])
  | .addConfUnlock _ none => c.onConf (c.conf_mutex_.unlock t) (.addUnlock none)
  -- The loop runs over the map itself, which does not change while the call holds `parts_mutex_`.
  | .addConfUnlock p (some new_slot) => c.onConf (c.conf_mutex_.unlock t) (.addConnect p new_slot c.slots)
  | .addConnect p new_slot (existing_slot :: existing) =>
    some ({ c with conf_ := P.conf_connect_port c.conf_ new_slot existing_slot 0 },
      .addConnectBack p new_slot existing_slot existing, [])
  | .addConnectBack p new_slot existing_slot existing =>
    some ({ c with conf_ := P.conf_connect_port c.conf_ existing_slot new_slot 0 },
      .addConnect p new_slot existing, [])
  | .addConnect p new_slot [] =>
    some ({ c with participants_ := c.participants_.insert p.part_id_ (p, new_slot) }, .addUnlock (some p),
      [.joined p.part_id_])
  | .addUnlock p => c.onParts (c.parts_mutex_.unlock t) (.returned (.participant p))
  | .muteLock part_id mute => c.onParts (c.parts_mutex_.lock_shared t) (.muteFind part_id mute)
  | .muteFind part_id mute =>
    match c.slot part_id with
    | none => some (c, .muteUnlock (-1), [])
    | some slot => some (c, .muteConfLock part_id mute slot, [])
  | .muteConfLock part_id mute slot => c.onConf (c.conf_mutex_.lock t) (.muteAdjust part_id mute slot)
  | .muteAdjust part_id mute slot =>
    some ({ c with conf_ := P.conf_adjust_rx_level c.conf_ slot (if mute then -128 else 0) }, .muteConfUnlock,
      [.muted part_id mute])
  | .muteConfUnlock => c.onConf (c.conf_mutex_.unlock t) (.muteUnlock 0)
  | .muteUnlock n => c.onParts (c.parts_mutex_.unlock_shared t) (.returned (.code n))
  | .removeLock part_id => c.onParts (c.parts_mutex_.lock t) (.removeFind part_id)
  | .removeFind part_id =>
    match c.participants_[part_id]? with
    | none => some (c, .removeUnlock none, [])
    | some (p, slot) =>
      some ({ c with participants_ := c.participants_.erase part_id }, .removeConfLock p slot, [.left part_id])
  | .removeConfLock p slot => c.onConf (c.conf_mutex_.lock t) (.removePort p slot)
  | .removePort p slot => some ({ c with conf_ := P.conf_remove_port c.conf_ slot }, .removeConfUnlock p, [])
  | .removeConfUnlock p => c.onConf (c.conf_mutex_.unlock t) (.removeUnlock (some p))
  | .removeUnlock none => c.onParts (c.parts_mutex_.unlock t) (.returned (.code (-1)))
  | .removeUnlock (some p) => c.onParts (c.parts_mutex_.unlock t) (.removeStop p)
  | .removeStop p => some (c, .returned (.code p.port_.toNat), [])
  | .returned _ => none

end Conference

/-! ### All calls -/

inductive SessionAct
  | call (c : Call)
  | go (k : Nat) (ok : Bool)
  /-- the clock enters or leaves its section in `on_clock_tick`, which writes no port but the master's -/
  | tick

/-- A meeting, the calls on it so far, and whether its clock is within a tick. -/
structure Session (B : Type) where
  conference : Conference B
  calls : List CallPc := []
  ticking : Bool := false

namespace Session
variable {B : Type}

def step (P : Pjmedia B) (s : Session B) : SessionAct → Option (Session B × List Event)
  | .call c => some ({ s with calls := s.calls ++ [c.begin s.conference.meet_id_] }, [])
  | .go k ok => do
    let (c, pc, es) ← s.conference.go P (.call k) ok (← s.calls[k]?)
    some ({ s with conference := c, calls := s.calls.set k pc }, es)
  | .tick =>
    let m := s.conference.conf_mutex_
    (if s.ticking then m.unlock_shared .clock else m.lock_shared .clock).map fun m =>
      ({ s with conference := { s.conference with conf_mutex_ := m }, ticking := !s.ticking }, [])

/-- A run begins with a meeting that was just made. -/
def machine (P : Pjmedia B) : Machine (Session B) SessionAct Event where
  init s := ∃ meet_id b, P.Fresh b ∧ s = { conference := { meet_id_ := meet_id, conf_ := b } }
  step := step P

end Session
end AudioMeet.Live
