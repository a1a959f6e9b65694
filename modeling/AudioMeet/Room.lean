import AudioMeet.Live
import AudioMeet.Participant.Rx

/-! The audio of a live meeting: the bridge of `AudioMeet.Live`, the two sides of each participant, and
    `on_clock_tick` (`src/meeting.cpp`), which takes a frame from the ports, mixes, and hands a frame to each. -/

namespace AudioMeet.Live
open Lib

/-- The frame that each slot gave in a tick. -/
abbrev Frames := Nat → Option (List Int16)

/-- What PJMEDIA does with the ports of a bridge within `pjmedia_port_get_frame(master, …)`. -/
structure Mixer (B : Type) where
  /-- whether it takes a frame from a slot -/
  pulls : B → (slot : Nat) → Bool
  /-- The frame for a slot. It may depend on every tick up to this one, as the level of a mix is smoothed. -/
  mix : List (B × Frames) → (slot : Nat) → PjFrame

/-- How far `on_clock_tick` is. -/
inductive TickPc
  | idle
  /-- what the slots visited so far gave -/
  | getting (got : List (Nat × Option (List Int16)))
  /-- the frames still to hand out, and the participant that was handed one last -/
  | putting (left : List (Nat × PjFrame)) (last : Option Nat)

def Call.part_id : Call → Bytes
  | .add_participant part_id _ | .add_passive_participant part_id _ _ | .add_split_participant part_id _ _ _
  | .set_participant_mute part_id _ | .remove_participant part_id => part_id

/-- A tick that got to its mix: the bridge, the ports and the participants behind them, and what the slots gave. -/
structure Mix (B : Type) where
  conf_ : B
  ports : List (Nat × Nat)
  frames : Frames

/-- What a participant has of audio. -/
structure Voice where
  part_id_ : Bytes
  rx : Rx := {}
  tx : Tx

inductive RoomAct
  /-- a call on the meeting, and the `ssrc_` of the participant that it makes -/
  | call (c : Call) (ssrc : UInt32)
  | go (k : Nat) (ok : Bool)
  | tickBegin
  /-- `on_get_frame` of the port in a slot -/
  | get (slot : Nat)
  | mix
  /-- `on_put_frame` of the port in a slot, up to its first test -/
  | put (slot : Nat)
  | tickEnd
  | rx (k : Nat) (a : RxAct)
  | tx (k : Nat) (a : TxAct)

inductive RoomEvent
  | meeting (e : Event)
  | rx (k : Nat) (e : RxEvent)
  | tx (k : Nat) (e : TxEvent)

/-- A participant is known by the call that makes it. `history` is what the meeting did so far. -/
structure Room (B : Type) where
  session : Session B
  voices : List Voice := []
  /-- the slots with a port, and the participant that `pdata` of the port points to -/
  ports : List (Nat × Nat) := []
  tick : TickPc := .idle
  mixes : List (Mix B) := []
  history : List Event := []

namespace Room
variable {B : Type}

/-- The ports after a step of call `k` from `pc` to `pc'`. -/
def portsAfter (ports : List (Nat × Nat)) (k : Nat) (pc pc' : CallPc) : List (Nat × Nat) :=
  match pc, pc' with
  | .addPort _, .addConfUnlock _ (some slot) => (slot, k) :: ports
  | .removePort _ slot, _ => ports.filter (·.1 ≠ slot)
  | _, _ => ports

def goOn (P : Pjmedia B) (s : Room B) (k : Nat) (ok : Bool) : Option (Room B × List RoomEvent) := do
  let pc ← s.session.calls[k]?
  let (session, es) ← s.session.step P (.go k ok)
  let pc' ← session.calls[k]?
  return ({ s with session, ports := portsAfter s.ports k pc pc', history := s.history ++ es }, es.map .meeting)

def rxStep (s : Room B) (k : Nat) (a : RxAct) : Option (Room B × List RoomEvent) := do
  let v ← s.voices[k]?
  let (rx, es) ← v.rx.step a
  return ({ s with voices := s.voices.set k { v with rx } }, es.map (.rx k))

def txStep (s : Room B) (k : Nat) (a : TxAct) : Option (Room B × List RoomEvent) := do
  let v ← s.voices[k]?
  let (tx, es) ← v.tx.step a
  return ({ s with voices := s.voices.set k { v with tx } }, es.map (.tx k))

/-- The frame that a call of `on_get_frame` wrote. -/
def frameOf : List RoomEvent → Option (List Int16)
  | [.rx _ (.output frame _)] => some frame
  | _ => none

def getStep (M : Mixer B) (s : Room B) (slot : Nat) (got : List (Nat × Option (List Int16))) :
    Option (Room B × List RoomEvent) := do
  let k ← s.ports.lookup slot
  if slot ∈ got.map Prod.fst then none
  else if M.pulls s.session.conference.conf_ slot then
    let (s, es) ← s.rxStep k .getFrame
    return ({ s with tick := .getting (got ++ [(slot, frameOf es)]) }, es)
  else return ({ s with tick := .getting (got ++ [(slot, none)]) }, [])

/-- What the slots gave. -/
def gave (got : List (Nat × Option (List Int16))) : Frames := fun slot => (got.lookup slot).join

def mixStep (M : Mixer B) (s : Room B) (got : List (Nat × Option (List Int16))) : Option (Room B × List RoomEvent) :=
  if s.ports.all fun port => port.1 ∈ got.map Prod.fst then
    let mixes := s.mixes ++ [{ conf_ := s.session.conference.conf_, ports := s.ports, frames := gave got }]
    let frame := M.mix (mixes.map fun x => (x.conf_, x.frames))
    some ({ s with mixes, tick := .putting (s.ports.map fun port => (port.1, frame port.1)) none }, [])
  else none

/-- The participant that was handed a frame last is done with it. -/
def ready (s : Room B) (last : Option Nat) : Bool :=
  match last.bind (s.voices[·]?) with
  | none => true
  | some v => v.tx.put matches .idle

def putStep (s : Room B) (slot : Nat) (left : List (Nat × PjFrame)) (last : Option Nat) :
    Option (Room B × List RoomEvent) := do
  let k ← s.ports.lookup slot
  let frame ← left.lookup slot
  if s.ready last then
    let (s, es) ← s.txStep k (.putFrame frame)
    return ({ s with tick := .putting (left.filter (·.1 ≠ slot)) (some k) }, es)
  else none

def tickStep (P : Pjmedia B) (s : Room B) (tick : TickPc) : Option (Room B × List RoomEvent) :=
  (s.session.step P .tick).map fun (session, _) => ({ s with session, tick }, [])

def step (P : Pjmedia B) (M : Mixer B) (s : Room B) : RoomAct → Option (Room B × List RoomEvent)
  | .call c ssrc => do
    let (session, _) ← s.session.step P (.call c)
    return ({ s with session, voices := s.voices ++ [{ part_id_ := c.part_id, tx := { ssrc_ := ssrc } }] }, [])
  | .go k ok => s.goOn P k ok
  | .tickBegin =>
    match s.tick with
    | .idle => s.tickStep P (.getting [])
    | _ => none
  | .get slot =>
    match s.tick with
    | .getting got => s.getStep M slot got
    | _ => none
  | .mix =>
    match s.tick with
    | .getting got => s.mixStep M got
    | _ => none
  | .put slot =>
    match s.tick with
    | .putting left last => s.putStep slot left last
    | _ => none
  | .tickEnd =>
    match s.tick with
    | .putting [] last => if s.ready last then s.tickStep P .idle else none
    | _ => none
  | .rx k a =>
    match a with
    | .getFrame => none
    | a => s.rxStep k a
  | .tx k a =>
    match a with
    | .putFrame _ => none
    | a => s.txStep k a

def machine (P : Pjmedia B) (M : Mixer B) : Machine (Room B) RoomAct RoomEvent where
  init s := ∃ session, (Session.machine P).init session ∧ s = { session }
  step := step P M

end Room
end AudioMeet.Live
