import AudioMeet.Live
import AudioMeet.Participant.Threads
import AudioMeet.Server

/-! The section of an add in full: what `Meeting::add_participant` and `Meeting::add_split_participant` do to the
    bridge of their meeting, and to the descriptors and threads of the process, while the other participants go on. -/

namespace AudioMeet
open Threads (Mode Part World)

namespace NewPart

/-- `start` or `startSplit` -/
def mode (part : NewPart) : Mode :=
  match part.remote with
  | none => .start
  | some _ => .startSplit

end NewPart

namespace Host
open Lib Machine

/-! ### The threads -/

/-- While one request is handled no other participant is made, started or stopped, and the start or the stop of
    participant `i` goes no further than its end. Nobody connects to `i`. -/
def During (i : Nat) (w : World) : Threads.Act → Prop
  | .new _ => False
  | .main j _ => j = i ∧ ∀ p ∈ w.parts[i]?, p.main ≠ .idle
  | .accept j ans => j = i → ans.fd = none
  | .rx _ _ | .tx _ _ | .put _ _ | .wake _ => True

/-- Time passes: the threads go on, and what `i` has begun. -/
def Passes (i : Nat) (w w' : World) : Prop := ∃ es, World.machine.Steps (During i) w es w'

/-- A new participant `i` is started, and the start returns `ok`. A start that succeeds is one that ends with the accept
    thread. -/
def Starts (i : Nat) (mode : Mode) (ok : Bool) (w w' : World) : Prop :=
  ∃ w₁ w₂ p, Passes i w w₁ ∧ w₁.step (.new mode) = some (w₂, []) ∧ Passes i w₂ w' ∧ w'.parts[i]? = some p ∧
    p.main = .idle ∧ (ok = true ↔ p.accept ≠ .none)

/-- `stop` of participant `i`, from its call to its return. -/
def Stops (i : Nat) (w w' : World) : Prop :=
  ∃ w₁ p, w.step (.main i {}) = some (w₁, []) ∧ Passes i w₁ w' ∧ w'.parts[i]? = some p ∧ p.main = .idle

/-! ### The section -/

variable {B : Type}

/-- The loop over the participants that are there. -/
def connectAll (P : Live.Pjmedia B) (b : B) (new_slot : Nat) (existing : List Nat) : B :=
  existing.foldl (fun b existing_slot =>
    P.conf_connect_port (P.conf_connect_port b new_slot existing_slot 0) existing_slot new_slot 0) b

/-- The section that makes participant `i`, by the calls it made and whether it added the participant. A participant
    that is not added has its last owner at the `return`, where `~Participant` stops it. A process that crashed in its
    section does not go on. -/
inductive Section (P : Live.Pjmedia B) (i : Nat) (mode : Mode) (ans : AddAnswer) (existing : List Nat) (b : B) (w : World) :
    List AddCall → Bool → B → World → Prop
  /-- the id is taken -/
  | taken {w' : World} : Passes i w w' → Section P i mode ans existing b w [] false b w'
  | startFails {w₁ w' : World} :
      Starts i mode ans.started w w₁ → ans.started = false → Stops i w₁ w' →
      Section P i mode ans existing b w [.start] false b w'
  | noMediaPort {w₁ w' : World} :
      Starts i mode ans.started w w₁ → ans.started = true → ans.media_port = false → Stops i w₁ w' →
      Section P i mode ans existing b w [.start, .createMediaPort true] false b w'
  /-- `stop`, and that of the destructor -/
  | addPortFails {b' : B} {w₁ w₂ w' : World} :
      Starts i mode ans.started w w₁ → ans.started = true → P.conf_add_port b = (b', none) → ans.slot = none →
      Stops i w₁ w₂ → Stops i w₂ w' →
      Section P i mode ans existing b w [.start, .createMediaPort true, .confAddPort true] false b' w'
  | joins {b' : B} {slot : Nat} {w' : World} :
      Starts i mode ans.started w w' → ans.started = true → P.conf_add_port b = (b', some slot) → ans.slot = some slot →
      Section P i mode ans existing b w [.start, .createMediaPort true, .confAddPort true] true
        (connectAll P b' slot existing) w'

end Host

/-- The server, the bridges of its meetings by their places in `objects`, and the participants' threads and
    descriptors. -/
structure Host (B : Type) where
  server : Server
  confs : Nat → B
  world : World

end AudioMeet
