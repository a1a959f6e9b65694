import AudioMeet.Live

/-! How long what a meeting owns lives (`src/meeting.cpp`): its clock, its bridge and its pool, which `stop` destroys,
    and the participants, which their last owner stops. The calls run in threads of their own beside the ticks of the
    clock, as in `Live`; here the pointers count, and the bridge is no more than the participants in its slots. -/

namespace AudioMeet.Lifetime
open Lib
open Live (Thread)

/-- Who has a `std::shared_ptr` to a participant: the map, or a call. -/
inductive Owner
  | map
  | call (k : Nat)
deriving DecidableEq

/-- A participant, known by its place in `Life.objects`. -/
structure PartObject where
  owners : List Owner
  /-- `stop` was called -/
  stopped : Bool := false

/-- `std::make_shared<Participant>` in call `k` -/
def PartObject.new (k : Nat) : PartObject := { owners := [.call k] }

/-- Where a call is. The three `add_*` have one body. A participant that a call returned is its own until it lets go of
    it. -/
inductive CallPc
  | addLock (part_id : Bytes)
  | addCount (part_id : Bytes)
  | addStart (part_id : Bytes) (p : Nat)
  | addMediaPort (part_id : Bytes) (p : Nat)
  | addConfLock (part_id : Bytes) (p : Nat)
  | addPort (part_id : Bytes) (p : Nat)
  | addConfUnlock (part_id : Bytes) (p : Nat) (new_slot : Option Nat)
  | addConnect (part_id : Bytes) (p new_slot : Nat) (existing : List Nat)
  | addConnectBack (part_id : Bytes) (p new_slot existing_slot : Nat) (existing : List Nat)
  | addStop (p : Nat)
  /-- the add returns `nullptr` -/
  | addDrop (p : Nat)
  | addUnlock (p : Option Nat)
  | muteLock (part_id : Bytes)
  | muteFind (part_id : Bytes)
  | muteConfLock (slot : Nat)
  | muteAdjust (slot : Nat)
  | muteConfUnlock
  | muteUnlock
  | removeLock (part_id : Bytes)
  | removeFind (part_id : Bytes)
  | removeConfLock (p slot : Nat)
  | removePort (p slot : Nat)
  | removeConfUnlock (p : Nat)
  | removeUnlock (p : Option Nat)
  | removeStop (p : Nat)
  | getLock (part_id : Bytes)
  | getFind (part_id : Bytes)
  | getUnlock (p : Option Nat)
  | returned (p : Option Nat)
  /-- `if (clock_)` -/
  | stopClock
  | stopWait
  | stopDestroyClock
  | stopLock
  | stopRemove (rest : List Bytes)
  | stopParts (rest : List Bytes)
  | stopClear (rest : List Bytes)
  | stopConf
  | stopPool
  | stopUnlock
  | stopReturned
deriving DecidableEq

inductive Call
  | add (part_id : Bytes)
  | set_participant_mute (part_id : Bytes)
  | remove_participant (part_id : Bytes)
  /-- `participants` copies the pointers of all in one section, as one such call for each would -/
  | get_participant (part_id : Bytes)
  | stop
deriving DecidableEq

def Call.begin : Call → CallPc
  | .add part_id => .addLock part_id
  | .set_participant_mute part_id => .muteLock part_id
  | .remove_participant part_id => .removeLock part_id
  | .get_participant part_id => .getLock part_id
  | .stop => .stopClock

/-- A `stop` that has not returned. -/
def CallPc.stopping : CallPc → Bool
  | .stopClock | .stopWait | .stopDestroyClock | .stopLock | .stopRemove _ | .stopParts _ | .stopClear _ | .stopConf
  | .stopPool | .stopUnlock => true
  | _ => false

/-- The calls of PJMEDIA. Those on the bridge that change no slot are all `bridge`. -/
inductive Event
  | zalloc
  | bridge
  | added (p slot : Nat)
  | refused
  /-- `pjmedia_conf_remove_port`, and whose port it removed -/
  | removed (p : Option Nat) (slot : Nat)
  | clockDestroyed
  | confDestroyed
  | poolReleased
deriving DecidableEq

inductive TickPc
  | idle
  | getMasterPort
  | lock
  | getFrame
  | unlock
deriving DecidableEq

/-- A meeting whose constructor succeeded. -/
structure Life where
  participants_ : Std.ExtTreeMap Bytes (Nat × Nat) compare := ∅
  /-- `pool_`, `conf_` and `clock_` tell whether the pointers are not null -/
  pool_ : Bool := true
  conf_ : Bool := true
  clock_ : Bool := true
  /-- the participants whose ports are in the slots of the bridge -/
  slots : Nat → Option Nat := fun _ => none
  /-- `pjmedia_clock_stop` was not called -/
  running : Bool := true
  tick : TickPc := .idle
  parts_mutex_ : SharedMutex Thread := .unlocked
  conf_mutex_ : SharedMutex Thread := .unlocked
  objects : List PartObject := []
  /-- PJMEDIA was given a null pointer -/
  crashed : Bool := false

/-- Whether a start or `create_media_port` succeeds, and the slot that the bridge gives to a port. -/
structure Answer where
  ok : Bool := true
  slot : Option Nat := some 1

inductive LifeAct
  /-- the calls of `stop` come one after the other -/
  | call (c : Call)
  | go (k : Nat) (ans : Answer)
  | tick

namespace Life

def object (s : Life) (p : Nat) (f : PartObject → PartObject) : Life := { s with objects := s.objects.modify p f }

def stopPart (s : Life) (p : Nat) : Life := s.object p fun x => { x with stopped := true }

def own (s : Life) (p : Nat) (o : Owner) : Life := s.object p fun x => { x with owners := o :: x.owners }

/-- The last owner runs `~Participant`, which stops. -/
def disown (s : Life) (p : Nat) (o : Owner) : Life :=
  s.object p fun x =>
    let owners := x.owners.erase o
    { owners, stopped := x.stopped || owners.isEmpty }

def ids (s : Life) : List Bytes := s.participants_.keys

def mapSlots (s : Life) : List Nat := s.participants_.toList.map (·.2.2)

def onParts (s : Life) (m : Option (SharedMutex Thread)) (pc : CallPc) : Option (Life × CallPc × List Event) :=
  m.map fun m => ({ s with parts_mutex_ := m }, pc, [])

def onConf (s : Life) (m : Option (SharedMutex Thread)) (pc : CallPc) : Option (Life × CallPc × List Event) :=
  m.map fun m => ({ s with conf_mutex_ := m }, pc, [])

/-- A call of PJMEDIA on the bridge. -/
def onBridge (s : Life) (pc : CallPc) (e : Event) : Option (Life × CallPc × List Event) :=
  some ({ s with crashed := !s.conf_ }, pc, [e])

/-- A step of call `k`. -/
def go (s : Life) (k : Nat) (ans : Answer) : CallPc → Option (Life × CallPc × List Event)
  | .addLock part_id => s.onParts (s.parts_mutex_.lock (.call k)) (.addCount part_id)
  | .addCount part_id =>
    if s.participants_.contains part_id then some (s, .addUnlock none, [])
    else some ({ s with objects := s.objects ++ [PartObject.new k] }, .addStart part_id s.objects.length, [])
  | .addStart part_id p => some (s, if ans.ok then .addMediaPort part_id p else .addDrop p, [])
  | .addMediaPort part_id p =>
    some ({ s with crashed := !s.pool_ }, if ans.ok then .addConfLock part_id p else .addDrop p, [.zalloc])
  | .addConfLock part_id p => s.onConf (s.conf_mutex_.lock (.call k)) (.addPort part_id p)
  | .addPort part_id p =>
    match ans.slot with
    | none => s.onBridge (.addConfUnlock part_id p none) .refused
    | some slot =>
      if s.slots slot = none then
        { s with slots := Function.update s.slots slot (some p) }.onBridge (.addConfUnlock part_id p (some slot))
          (.added p slot)
      else none
  | .addConfUnlock _ p none => s.onConf (s.conf_mutex_.unlock (.call k)) (.addStop p)
  | .addConfUnlock part_id p (some slot) =>
    s.onConf (s.conf_mutex_.unlock (.call k)) (.addConnect part_id p slot s.mapSlots)
  | .addConnect part_id p new_slot (existing_slot :: existing) =>
    s.onBridge (.addConnectBack part_id p new_slot existing_slot existing) .bridge
  | .addConnectBack part_id p new_slot _ existing => s.onBridge (.addConnect part_id p new_slot existing) .bridge
  | .addConnect part_id p new_slot [] =>
    some ({ s with participants_ := s.participants_.insert part_id (p, new_slot) }.own p .map, .addUnlock (some p), [])
  | .addStop p => some (s.stopPart p, .addDrop p, [])
  | .addDrop p => some (s.disown p (.call k), .addUnlock none, [])
  | .addUnlock p => s.onParts (s.parts_mutex_.unlock (.call k)) (.returned p)
  | .muteLock part_id => s.onParts (s.parts_mutex_.lock_shared (.call k)) (.muteFind part_id)
  | .muteFind part_id =>
    match s.participants_[part_id]? with
    | none => some (s, .muteUnlock, [])
    | some (_, slot) => some (s, .muteConfLock slot, [])
  | .muteConfLock slot => s.onConf (s.conf_mutex_.lock (.call k)) (.muteAdjust slot)
  | .muteAdjust _ => s.onBridge .muteConfUnlock .bridge
  | .muteConfUnlock => s.onConf (s.conf_mutex_.unlock (.call k)) .muteUnlock
  | .muteUnlock => s.onParts (s.parts_mutex_.unlock_shared (.call k)) (.returned none)
  | .removeLock part_id => s.onParts (s.parts_mutex_.lock (.call k)) (.removeFind part_id)
  | .removeFind part_id =>
    match s.participants_[part_id]? with
    | none => some (s, .removeUnlock none, [])
    | some (p, slot) =>
      some (({ s with participants_ := s.participants_.erase part_id }.own p (.call k)).disown p .map,
        .removeConfLock p slot, [])
  | .removeConfLock p slot => s.onConf (s.conf_mutex_.lock (.call k)) (.removePort p slot)
  | .removePort p slot =>
    { s with slots := Function.update s.slots slot none }.onBridge (.removeConfUnlock p) (.removed (s.slots slot) slot)
  | .removeConfUnlock p => s.onConf (s.conf_mutex_.unlock (.call k)) (.removeUnlock (some p))
  | .removeUnlock none => s.onParts (s.parts_mutex_.unlock (.call k)) (.returned none)
  | .removeUnlock (some p) => s.onParts (s.parts_mutex_.unlock (.call k)) (.removeStop p)
  | .removeStop p => some (s.stopPart p, .returned (some p), [])
  | .getLock part_id => s.onParts (s.parts_mutex_.lock_shared (.call k)) (.getFind part_id)
  | .getFind part_id =>
    match s.participants_[part_id]? with
    | none => some (s, .getUnlock none, [])
    | some (p, _) => some (s.own p (.call k), .getUnlock (some p), [])
  | .getUnlock p => s.onParts (s.parts_mutex_.unlock_shared (.call k)) (.returned p)
  | .returned none => none
  | .returned (some p) => some (s.disown p (.call k), .returned none, [])
  | .stopClock => if s.clock_ then some ({ s with running := false }, .stopWait, []) else some (s, .stopLock, [])
  | .stopWait => if s.tick = .idle then some (s, .stopDestroyClock, []) else none
  | .stopDestroyClock => some ({ s with clock_ := false }, .stopLock, [.clockDestroyed])
  | .stopLock => s.onParts (s.parts_mutex_.lock (.call k)) (.stopRemove s.ids)
  | .stopRemove (part_id :: rest) =>
    match s.participants_[part_id]? with
    | none => some (s, .stopRemove rest, [])
    | some (_, slot) =>
      { s with slots := Function.update s.slots slot none }.onBridge (.stopRemove rest) (.removed (s.slots slot) slot)
  | .stopRemove [] => some (s, .stopParts s.ids, [])
  | .stopParts (part_id :: rest) =>
    match s.participants_[part_id]? with
    | none => some (s, .stopParts rest, [])
    | some (p, _) => some (s.stopPart p, .stopParts rest, [])
  | .stopParts [] => some (s, .stopClear s.ids, [])
  | .stopClear (part_id :: rest) =>
    match s.participants_[part_id]? with
    | none => some (s, .stopClear rest, [])
    | some (p, _) =>
      some ({ s with participants_ := s.participants_.erase part_id }.disown p .map, .stopClear rest, [])
  | .stopClear [] => some (s, .stopConf, [])
  | .stopConf => some ({ s with conf_ := false }, .stopPool, if s.conf_ then [.confDestroyed] else [])
  | .stopPool => some ({ s with pool_ := false }, .stopUnlock, if s.pool_ then [.poolReleased] else [])
  | .stopUnlock => s.onParts (s.parts_mutex_.unlock (.call k)) .stopReturned
  | .stopReturned => none

/-- A step of `on_clock_tick`. -/
def goTick (s : Life) : Option (Life × List Event) :=
  match s.tick with
  | .idle => if s.running then some ({ s with tick := .getMasterPort }, []) else none
  | .getMasterPort => some ({ s with tick := .lock, crashed := !s.conf_ }, [.bridge])
  | .lock => (s.conf_mutex_.lock_shared .clock).map fun m => ({ s with tick := .getFrame, conf_mutex_ := m }, [])
  | .getFrame => some ({ s with tick := .unlock, crashed := !s.conf_ }, [.bridge])
  | .unlock => (s.conf_mutex_.unlock_shared .clock).map fun m => ({ s with tick := .idle, conf_mutex_ := m }, [])

end Life

/-- A meeting, and the calls on it so far. -/
structure Session where
  life : Life := {}
  calls : List CallPc := []

namespace Session

def step (s : Session) (a : LifeAct) : Option (Session × List Event) :=
  if s.life.crashed then none
  else
    match a with
    | .call c => if c = .stop ∧ s.calls.any (·.stopping) then none else some ({ s with calls := s.calls ++ [c.begin] }, [])
    | .go k ans => do
      let (life, pc, es) ← s.life.go k ans (← s.calls[k]?)
      some ({ life, calls := s.calls.set k pc }, es)
    | .tick => s.life.goTick.map fun (life, es) => ({ s with life }, es)

def machine : Machine Session LifeAct Event where
  init s := s = {}
  step := step

end Session
end AudioMeet.Lifetime
