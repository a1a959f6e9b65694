import AudioMeet.G711
import AudioMeet.Lib.Framing
import AudioMeet.Lib.Machine
import AudioMeet.RtpPacket

/-! The send side of a participant (`src/participant.cpp`): `on_put_frame`, `start_tx_thread`,
    `tx_thread_func` with `write_exact`, and what `stop` does to the queue. A section under
    `queue_mutex_` is one step, and so is each access to an atomic outside it. -/

namespace AudioMeet
open Lib

/-- A `pjmedia_frame` handed to `on_put_frame`: its buffer holds at least `size` bytes. -/
structure PjFrame where
  audio : Bool
  size : Nat
  buf : List Int16
  size_le : size / 2 ≤ buf.length

def FRAME_SAMPLES : Nat := 160
def TX_BATCH_FRAMES : Nat := 2
def MAX_SEND_QUEUE_PACKETS : Nat := 25

/-- Where a call of `on_put_frame` stands. -/
inductive PutPc
  | idle
  | checkStop (frame : PjFrame)
  | enqueue (bytes : Bytes)

/-- Where `tx_thread_func` stands. -/
inductive TxPc
  | absent
  /-- `while (!stop_flag_.load())` -/
  | head
  /-- about to take `queue_mutex_` and test the predicate of the wait -/
  | lock
  /-- in `queue_cv_.wait` -/
  | waiting
  /-- in `write_exact`, before a call of `send` for `rest`; `next` is written after it -/
  | write (rest : Bytes) (next : Option Bytes)
  /-- in a call of `send` -/
  | sending (rest : Bytes) (next : Option Bytes)
  | cleanup
  | done
deriving DecidableEq

/-- The fields of `Participant` that the send side uses, and where its threads stand. -/
structure Tx where
  stop_flag_ : Bool := false
  tx_active_ : Bool := false
  send_queue_ : List Bytes := []
  tx_seq_ : UInt16 := 0
  tx_timestamp_ : UInt32 := 0
  ssrc_ : UInt32 := 0
  tx_acc_ : Bytes := []
  tx_batch_ts_ : UInt32 := 0
  put : PutPc := .idle
  thread : TxPc := .absent
  /-- `start_tx_thread` was called; the accept thread or `startPassive`, `startSplit` call it once. -/
  started : Bool := false

inductive TxAct
  | putFrame (frame : PjFrame)
  | putStop
  | putEnqueue
  | startTx
  | txHead
  | txLock
  /-- the wait ends without a notification -/
  | txWake
  | txSend
  /-- `send` returns `w > 0` -/
  | txSent (w : Nat)
  /-- `send` fails; the socket may have taken `k` bytes -/
  | txFail (k : Nat)
  | txWritten
  | txCleanup
  /-- `stop_flag_.store(true)` in `stop` -/
  | stopStore
  /-- the `queue_mutex_` section of `stop` -/
  | stopSection

inductive TxEvent
  /-- a call of `on_put_frame`, and whether it saw the sender active -/
  | call (frame : PjFrame) (active : Bool)
  | built (packet : RtpPacket)
  | enqueued (bytes : Bytes)
  /-- the oldest packet of the full queue made room for `bytes` -/
  | dropped (queue : List Bytes) (bytes : Bytes)
  | dequeued (bytes : Bytes)
  /-- bytes that the socket took -/
  | sent (bytes : Bytes)
  /-- the cleanup of the tx thread is done; it cleared `queue` -/
  | exited (queue : List Bytes)
  /-- the queue section of a call of `stop` is done; it cleared `queue` -/
  | stopped (queue : List Bytes)

namespace Tx

/-- The A-law bytes of a frame: encoded silence unless it is an audio frame of 160 samples. -/
def encodeFrame (frame : PjFrame) : Bytes :=
  if frame.audio && frame.size / 2 == FRAME_SAMPLES then
    (frame.buf.take FRAME_SAMPLES).map G711Alaw.encodeSample
  else
    List.replicate FRAME_SAMPLES (G711Alaw.encodeSample 0)

/-- The early return of `on_put_frame`. -/
def putInactive (t : Tx) : Tx :=
  { t with tx_acc_ := [], tx_timestamp_ := t.tx_timestamp_ + 160, put := .idle }

/-- `on_put_frame` up to the test for a full batch: the timestamp of a new batch, the encoded frame, the
    clock. -/
def putAccumulate (t : Tx) (frame : PjFrame) : Tx :=
  { t with
    tx_batch_ts_ := if t.tx_acc_.isEmpty then t.tx_timestamp_ else t.tx_batch_ts_
    tx_acc_ := t.tx_acc_ ++ encodeFrame frame
    tx_timestamp_ := t.tx_timestamp_ + 160 }

/-- The packet built from a full batch. -/
def putPacket (t : Tx) : RtpPacket :=
  { payload_type := 8, ssrc := t.ssrc_, sequence := t.tx_seq_, timestamp := t.tx_batch_ts_, payload := t.tx_acc_ }

/-- The rest of `on_put_frame` before it takes the mutex. -/
def putBuild (t : Tx) : Tx × List TxEvent :=
  if t.tx_acc_.length < TX_BATCH_FRAMES * FRAME_SAMPLES then ({ t with put := .idle }, [])
  else
    ({ t with tx_seq_ := t.tx_seq_ + 1, tx_acc_ := [], put := .enqueue t.putPacket.serialize },
      [.built t.putPacket])

/-- `notify_one` and `notify_all`: only the tx thread waits. -/
def notify (t : Tx) : Tx :=
  match t.thread with
  | .waiting => { t with thread := .lock }
  | _ => t

/-- The `queue_mutex_` section of `on_put_frame`. -/
def enqueue (t : Tx) (bytes : Bytes) : Tx × List TxEvent :=
  let t := { t with put := .idle }
  if !t.tx_active_ || t.stop_flag_ then (t, [])
  else if MAX_SEND_QUEUE_PACKETS ≤ t.send_queue_.length then
    (notify { t with send_queue_ := t.send_queue_.tail ++ [bytes] },
      [.dropped t.send_queue_ bytes, .enqueued bytes])
  else (notify { t with send_queue_ := t.send_queue_ ++ [bytes] }, [.enqueued bytes])

/-- The `queue_mutex_` section of the tx thread, up to a wait or to the end of the section. -/
def dequeue (t : Tx) : Tx × List TxEvent :=
  if t.stop_flag_ then ({ t with thread := .cleanup }, [])
  else
    match t.send_queue_ with
    | [] => ({ t with thread := .waiting }, [])
    | pkt :: rest =>
      -- `static_cast<uint16_t>(pkt.size())`, written big-endian in front of the packet
      ({ t with send_queue_ := rest, thread := .write (be16 (UInt16.ofNat pkt.length)) (some pkt) },
        [.dequeued pkt])

def step (t : Tx) : TxAct → Option (Tx × List TxEvent)
  | .putFrame frame =>
    match t.put with
    | .idle =>
      if t.tx_active_ then some ({ t with put := .checkStop frame }, [])
      else some (t.putInactive, [.call frame false])
    | _ => none
  | .putStop =>
    match t.put with
    | .checkStop frame =>
      if t.stop_flag_ then some (t.putInactive, [.call frame false])
      else
        let (t, es) := (t.putAccumulate frame).putBuild
        some (t, .call frame true :: es)
    | _ => none
  | .putEnqueue =>
    match t.put with
    | .enqueue bytes => some (t.enqueue bytes)
    | _ => none
  | .startTx =>
    if t.started then none
    else if t.stop_flag_ then some ({ t with started := true }, [])
    else some ({ t with started := true, tx_active_ := true, thread := .head }, [])
  | .txHead =>
    if t.thread = .head then some ({ t with thread := if t.stop_flag_ then .cleanup else .lock }, []) else none
  | .txLock => if t.thread = .lock then some t.dequeue else none
  | .txWake => if t.thread = .waiting then some ({ t with thread := .lock }, []) else none
  | .txSend =>
    match t.thread with
    | .write rest next => if rest = [] then none else some ({ t with thread := .sending rest next }, [])
    | _ => none
  | .txSent w =>
    match t.thread with
    | .sending rest next =>
      if 0 < w ∧ w ≤ rest.length then
        some ({ t with thread := .write (rest.drop w) next }, [.sent (rest.take w)])
      else none
    | _ => none
  | .txFail k =>
    match t.thread with
    | .sending rest _ => some ({ t with thread := .cleanup }, [.sent (rest.take k)])
    | _ => none
  | .txWritten =>
    match t.thread with
    | .write [] (some pkt) => some ({ t with thread := .write pkt none }, [])
    | .write [] none => some ({ t with thread := .head }, [])
    | _ => none
  | .txCleanup =>
    if t.thread = .cleanup then
      some ({ t with tx_active_ := false, send_queue_ := [], thread := .done },
        [.exited t.send_queue_])
    else none
  | .stopStore => some ({ t with stop_flag_ := true }, [])
  | .stopSection =>
    if t.stop_flag_ then
      some (notify { t with tx_active_ := false, send_queue_ := [] }, [.stopped t.send_queue_])
    else none

/-- The send side of a participant that was just constructed. -/
def machine : Machine Tx TxAct TxEvent where
  init t := ∃ ssrc, t = { ssrc_ := ssrc }
  step := step

end Tx
end AudioMeet
