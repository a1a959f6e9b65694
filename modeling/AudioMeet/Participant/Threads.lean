import AudioMeet.Lib.Bytes
import AudioMeet.Lib.Descriptors
import AudioMeet.Lib.Machine
import AudioMeet.Participant.Tx

/-! The threads of the participants over one descriptor table (`src/participant.cpp`): the thread that starts
    and stops a participant, and its accept, rx and tx threads. Each call and each statement is a step; what
    the rx thread decodes and the tx thread is fed is modelled in `Rx` and `Tx`. -/

namespace AudioMeet.Threads
open Lib

/-- How a participant is started. -/
inductive Mode
  | start
  | startPassive
  | startSplit
deriving DecidableEq

/-- A descriptor, and the socket that it was given for. The source keeps the number only. -/
structure Held where
  fd : Nat
  sock : Sock Nat
deriving DecidableEq

inductive Member
  | listen_fd_
  | client_fd_
  | rx_fd_
deriving DecidableEq

/-- The thread that calls `start`, `startPassive` or `startSplit`, and then `stop`. -/
inductive MainPc
  | socketListen
  | bind
  | listen
  | inetPton
  | socketTx
  | connect (h : Held)
  | closeTx (h : Held)
  | setClient (h : Held)
  | spawnRx (h : Held)
  | spawnTx (h : Held)
  | spawnAccept
  /-- between `start` and `stop` -/
  | idle
  | stopQueue
  | test (m : Member)
  | shutdown (m : Member)
  /-- `close` and the assignment of -1, in `stop` or in a start that failed -/
  | close (m : Member) (stopping : Bool)
  | reset (m : Member) (stopping : Bool)
  | joinAccept
  | joinRx
  | joinTx
deriving DecidableEq

inductive AcceptPc
  | none
  | accept
  | accepting (on : Option (Sock Nat))
  | assign (h : Held)
  | spawnRx (h : Held)
  | spawnTx (h : Held)
  | done
deriving DecidableEq

/-- What `read_exact` reads, and the bytes it has so far. -/
inductive Reading
  | length (got : Bytes)
  | packet (len : Nat) (got : Bytes)
deriving DecidableEq

inductive RxPc
  | none
  | check (h : Held)
  | recv (h : Held) (r : Reading)
  | recving (h : Held) (r : Reading) (on : Option (Sock Nat))
  | done
deriving DecidableEq

/-- `left` bytes of a `write_exact` are not sent yet, and one of `next` bytes follows. -/
inductive TxPc
  | none
  | check (h : Held)
  | dequeue (h : Held)
  | waiting (h : Held)
  | send (h : Held) (left : Nat) (next : Option Nat)
  | sending (h : Held) (left : Nat) (next : Option Nat) (on : Option (Sock Nat))
  | cleanup
  | done
deriving DecidableEq

structure Part where
  mode : Mode
  listen_fd_ : Option Nat := .none
  client_fd_ : Option Nat := .none
  rx_fd_ : Option Nat := .none
  stop_flag_ : Bool := false
  tx_active_ : Bool := false
  send_queue_ : List Bytes := []
  /-- the socket that `listen_fd_` was opened as, which the source does not keep -/
  listener : Option (Sock Nat) := .none
  main : MainPc
  accept : AcceptPc := .none
  rx : RxPc := .none
  tx : TxPc := .none

/-- What a call answers: a new descriptor, success, the bytes received, the count of bytes sent. A failure
    and the end of a stream are `none`, `false`, no bytes and 0. -/
structure Answer where
  fd : Option Nat := none
  ok : Bool := true
  bytes : Bytes := []
  sent : Nat := 0

inductive Call
  | accept
  | recv
  | send
deriving DecidableEq

/-- Participant `i` calls on `fd`, which its thread knows as `sock`, and which denotes `on`. -/
structure Event where
  i : Nat
  call : Call
  fd : Option Nat
  sock : Option (Sock Nat)
  on : Option (Sock Nat)
deriving DecidableEq

abbrev Table := Descriptors Nat

abbrev Result := Option (Table × Part × List Event)

namespace Reading

/-- How many bytes `recv` is asked for. -/
def wanted : Reading → Nat
  | .length got => 2 - got.length
  | .packet len got => len - got.length

/-- Where the rx thread goes with more bytes of a prefix or a packet. -/
def after (h : Held) (bytes : Bytes) : Reading → RxPc
  | .length got =>
    match got ++ bytes with
    | b₀ :: b₁ :: _ => if ofBe16 b₀ b₁ = 0 then .check h else .recv h (.packet (ofBe16 b₀ b₁).toNat [])
    | got => .recv h (.length got)
  | .packet len got =>
    let got := got ++ bytes
    if got.length < len then .recv h (.packet len got) else .check h

end Reading

/-- Where the tx thread goes with `left` bytes of a `write_exact` left. -/
def afterSend (h : Held) (left : Nat) (next : Option Nat) : TxPc :=
  if 0 < left then .send h left next
  else
    match next with
    | some size => if size = 0 then .check h else .send h size none
    | none => .check h

namespace Part

def new (mode : Mode) : Part where
  mode := mode
  main := if mode = .startPassive then .inetPton else .socketListen

def member (p : Part) : Member → Option Nat
  | .listen_fd_ => p.listen_fd_
  | .client_fd_ => p.client_fd_
  | .rx_fd_ => p.rx_fd_

def setMember (p : Part) (fd : Option Nat) : Member → Part
  | .listen_fd_ => { p with listen_fd_ := fd }
  | .client_fd_ => { p with client_fd_ := fd }
  | .rx_fd_ => { p with rx_fd_ := fd }

/-- `notify_one` and `notify_all` on `queue_cv_`, which only the tx thread waits on -/
def notify (p : Part) : Part :=
  match p.tx with
  | .waiting h => { p with tx := .dequeue h }
  | _ => p

def start_tx_thread (p : Part) (h : Held) : Part :=
  if p.stop_flag_ then p else { p with tx_active_ := true, tx := .check h }

/-! ### start and stop -/

/-- Where a start goes that failed once the listening socket is there. -/
def failed (p : Part) : MainPc := if p.mode = .startPassive then .idle else .close .listen_fd_ false

/-- What follows the block of a member in `stop`. -/
def afterMember : Member → MainPc
  | .listen_fd_ => .test .client_fd_
  | .client_fd_ => .test .rx_fd_
  | .rx_fd_ => .joinAccept

def socketListen (t : Table) (i : Nat) (p : Part) (ans : Answer) : Result :=
  match ans.fd with
  | none => some (t, { p with main := .idle }, [])
  | some fd => do
    let (t, k) ← t.give i fd
    some (t, { p with listen_fd_ := some fd, listener := some k, main := .bind }, [])

def socketTx (t : Table) (i : Nat) (p : Part) (ans : Answer) : Result :=
  match ans.fd with
  | none => some (t, { p with main := p.failed }, [])
  | some fd => do
    let (t, k) ← t.give i fd
    some (t, { p with main := .connect ⟨fd, k⟩ }, [])

def mainStep (t : Table) (i : Nat) (p : Part) (ans : Answer) : Result :=
  match p.main with
  | .socketListen => socketListen t i p ans
  | .bind => some (t, { p with main := if ans.ok then .listen else p.failed }, [])
  | .listen =>
    some (t, { p with main :=
      if ans.ok then if p.mode = .startSplit then .inetPton else .spawnAccept else p.failed }, [])
  | .inetPton => some (t, { p with main := if ans.ok then .socketTx else p.failed }, [])
  | .socketTx => socketTx t i p ans
  | .connect h => some (t, { p with main := if ans.ok then .setClient h else .closeTx h }, [])
  | .closeTx h => some (t.close (some h.fd), { p with main := p.failed }, [])
  | .setClient h =>
    some (t, { p with client_fd_ := some h.fd
                      main := if p.mode = .startPassive then .spawnRx h else .spawnTx h }, [])
  | .spawnRx h => some (t, { p with rx := .check h, main := .spawnTx h }, [])
  | .spawnTx h =>
    some (t, { p.start_tx_thread h with main := if p.mode = .startPassive then .idle else .spawnAccept }, [])
  | .spawnAccept => some (t, { p with accept := .accept, main := .idle }, [])
  | .idle => some (t, { p with stop_flag_ := true, main := .stopQueue }, [])
  | .stopQueue =>
    some (t, { p.notify with tx_active_ := false, send_queue_ := [], main := .test .listen_fd_ }, [])
  | .test m => some (t, { p with main := if (p.member m).isSome then .shutdown m else afterMember m }, [])
  | .shutdown m => some (t.shutdown (p.member m), { p with main := .close m true }, [])
  | .close m stopping => some (t.close (p.member m), { p with main := .reset m stopping }, [])
  | .reset m stopping =>
    some (t, { p.setMember none m with main := if stopping then afterMember m else .idle }, [])
  | .joinAccept => if p.accept = .none ∨ p.accept = .done then some (t, { p with main := .joinRx }, []) else none
  | .joinRx => if p.rx = .none ∨ p.rx = .done then some (t, { p with main := .joinTx }, []) else none
  | .joinTx => if p.tx = .none ∨ p.tx = .done then some (t, { p with main := .idle }, []) else none

/-! ### accept_thread_func -/

def acceptStep (t : Table) (i : Nat) (p : Part) (ans : Answer) : Result :=
  match p.accept with
  | .none | .done => none
  | .accept =>
    let on := t.denotes p.listen_fd_
    some (t, { p with accept := .accepting on }, [⟨i, .accept, p.listen_fd_, p.listener, on⟩])
  | .accepting on =>
    match ans.fd with
    | none => some (t, { p with accept := .done }, [])
    | some fd =>
      if on.isSome then do
        let (t, k) ← t.give i fd
        some (t, { p with accept := .assign ⟨fd, k⟩ }, [])
      else none
  | .assign h =>
    some (t, { p.setMember (some h.fd) (if p.mode = .startSplit then .rx_fd_ else .client_fd_) with
      accept := .spawnRx h }, [])
  | .spawnRx h => some (t, { p with rx := .check h, accept := if p.mode = .startSplit then .done else .spawnTx h }, [])
  | .spawnTx h => some (t, { p.start_tx_thread h with accept := .done }, [])

/-! ### rx_thread_func -/

def rxStep (t : Table) (i : Nat) (p : Part) (ans : Answer) : Result :=
  match p.rx with
  | .none | .done => none
  | .check h => some (t, { p with rx := if p.stop_flag_ then .done else .recv h (.length []) }, [])
  | .recv h r =>
    let on := t.fds h.fd
    some (t, { p with rx := .recving h r on }, [⟨i, .recv, some h.fd, some h.sock, on⟩])
  | .recving h r on =>
    if ans.bytes.length ≤ r.wanted ∧ (on = none → ans.bytes = []) then
      some (t, { p with rx := if ans.bytes = [] then .done else r.after h ans.bytes }, [])
    else none

/-! ### tx_thread_func -/

/-- The section of the tx thread: the wait for a packet. -/
def dequeue (p : Part) (h : Held) : Part :=
  if p.stop_flag_ then { p with tx := .cleanup }
  else
    match p.send_queue_ with
    | [] => { p with tx := .waiting h }
    | pkt :: queue => { p with send_queue_ := queue, tx := .send h 2 (some pkt.length) }

def txStep (t : Table) (i : Nat) (p : Part) (ans : Answer) : Result :=
  match p.tx with
  | .none | .waiting _ | .done => none
  | .check h => some (t, { p with tx := if p.stop_flag_ then .cleanup else .dequeue h }, [])
  | .dequeue h => some (t, p.dequeue h, [])
  | .send h left next =>
    let on := t.fds h.fd
    some (t, { p with tx := .sending h left next on }, [⟨i, .send, some h.fd, some h.sock, on⟩])
  | .sending h left next on =>
    if ans.sent ≤ left ∧ (on = none → ans.sent = 0) then
      some (t, { p with tx := if ans.sent = 0 then .cleanup else afterSend h (left - ans.sent) next }, [])
    else none
  | .cleanup => some (t, { p with tx_active_ := false, send_queue_ := [], tx := .done }, [])

/-- A packet that `on_put_frame` has ready. -/
def put (p : Part) (pkt : Bytes) : Part :=
  if p.tx_active_ && !p.stop_flag_ then
    let queue := if MAX_SEND_QUEUE_PACKETS ≤ p.send_queue_.length then p.send_queue_.tail else p.send_queue_
    { p.notify with send_queue_ := queue ++ [pkt] }
  else p

end Part

/-! ### All participants -/

structure World where
  table : Table := {}
  parts : List Part := []

inductive Act
  | new (mode : Mode)
  | main (i : Nat) (ans : Answer)
  | accept (i : Nat) (ans : Answer)
  | rx (i : Nat) (ans : Answer)
  | tx (i : Nat) (ans : Answer)
  | put (i : Nat) (pkt : Bytes)
  /-- a spurious wake-up of the tx thread -/
  | wake (i : Nat)

namespace World

/-- A step of a thread of participant `i`. -/
def goOn (w : World) (i : Nat) (f : Table → Nat → Part → Result) : Option (World × List Event) := do
  let (t, p, es) ← f w.table i (← w.parts[i]?)
  some ({ table := t, parts := w.parts.set i p }, es)

def step (w : World) : Act → Option (World × List Event)
  | .new mode => some ({ w with parts := w.parts ++ [Part.new mode] }, [])
  | .main i ans => w.goOn i fun t i p => p.mainStep t i ans
  | .accept i ans => w.goOn i fun t i p => p.acceptStep t i ans
  | .rx i ans => w.goOn i fun t i p => p.rxStep t i ans
  | .tx i ans => w.goOn i fun t i p => p.txStep t i ans
  | .put i pkt => w.goOn i fun t _ p => some (t, p.put pkt, [])
  | .wake i => w.goOn i fun t _ p => some (t, p.notify, [])

def machine : Machine World Act Event where
  init w := w = {}
  step := step

end World
end AudioMeet.Threads
