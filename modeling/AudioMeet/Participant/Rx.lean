import AudioMeet.Participant.Tx

/-! The receive side of a participant (`src/participant.cpp`): `rx_thread_func` with `read_exact`, and
    `on_get_frame`. A section under `rx_buf_mutex_` is one step, and so is each call of `recv`. -/

namespace AudioMeet
open Lib

def PREFETCH_FRAMES : Nat := 10
def MAX_RX_BUF_FRAMES : Nat := 50

/-- What a call of `read_exact` fills. -/
inductive ReadBuf
  | length
  | packet (pkt_len : UInt16)
deriving DecidableEq

def ReadBuf.size : ReadBuf → Nat
  | .length => 2
  | .packet pkt_len => pkt_len.toNat

/-- Where `rx_thread_func` stands. -/
inductive RxPc
  | absent
  /-- `while (!stop_flag_.load())` -/
  | head
  /-- in `read_exact`, before the test `received < n` -/
  | read (buf : ReadBuf) (got : Bytes)
  /-- in a call of `recv` -/
  | recving (buf : ReadBuf) (got : Bytes)
  /-- before frame `i` of the loop over the full frames of `src_data` -/
  | push (src : Bytes) (i : Nat)
  | done
deriving DecidableEq

/-- The fields of `Participant` that the receive side uses, and where its thread stands. -/
structure Rx where
  stop_flag_ : Bool := false
  rx_buf_ : List (List Int16) := []
  rx_started_ : Bool := true
  rx_leftover_ : Bytes := []
  thread : RxPc := .absent

inductive RxAct
  | rxStart
  | rxHead
  | rxCall
  /-- `recv` returns some of the bytes asked for -/
  | rxRecv (bytes : Bytes)
  /-- `recv` fails, or the stream ended -/
  | rxFail
  /-- `read_exact` returns true -/
  | rxRead
  | rxPush
  /-- the end of the loop over the full frames -/
  | rxKeep
  | getFrame
  /-- `stop_flag_.store(true)` in `stop` -/
  | stopStore

inductive RxEvent
  | received (bytes : Bytes)
  /-- a whole packet was read; it is empty after a length of zero -/
  | packet (bytes : Bytes)
  | pushed (frame : List Int16)
  /-- the oldest frame of the full buffer made room for `frame` -/
  | dropped (queue : List (List Int16)) (frame : List Int16)
  /-- `on_get_frame` returned the oldest frame of the buffer, or silence -/
  | output (frame : List Int16) (buffered : Bool)

namespace Rx

/-- `src_size / FRAME_SAMPLES` -/
def nFull (src : Bytes) : Nat := src.length / FRAME_SAMPLES

/-- Frame `i` of the decoded bytes. -/
def decodeFrame (src : Bytes) (i : Nat) : List Int16 :=
  ((src.drop (i * FRAME_SAMPLES)).take FRAME_SAMPLES).map G711Alaw.decodeSample

/-- From a packet to the loop over its frames; a packet that `parse` rejects is skipped. -/
def accept (r : Rx) (bytes : Bytes) : Rx :=
  match RtpPacket.parse bytes with
  | .error _ => { r with thread := .head }
  | .ok rtp =>
    if r.rx_leftover_.isEmpty then { r with thread := .push rtp.payload 0 }
    else
      { r with rx_leftover_ := r.rx_leftover_ ++ rtp.payload
               thread := .push (r.rx_leftover_ ++ rtp.payload) 0 }

/-- `read_exact` filled its buffer with `got`. -/
def readDone (r : Rx) (got : Bytes) : ReadBuf → Option (Rx × List RxEvent)
  | .length =>
    match got with
    | [b₀, b₁] =>
      if ofBe16 b₀ b₁ = 0 then some ({ r with thread := .head }, [.packet []])
      else some ({ r with thread := .read (.packet (ofBe16 b₀ b₁)) [] }, [])
    | _ => none
  | .packet _ => some (r.accept got, [.packet got])

/-- The `rx_buf_mutex_` section of the rx thread. -/
def pushFrame (r : Rx) (frame : List Int16) : Rx × List RxEvent :=
  let full := decide (MAX_RX_BUF_FRAMES ≤ r.rx_buf_.length)
  let rx_buf_ := (if full then r.rx_buf_.tail else r.rx_buf_) ++ [frame]
  ({ r with rx_buf_
            rx_started_ := r.rx_started_ || decide (PREFETCH_FRAMES ≤ rx_buf_.length) },
    (if full then [.dropped r.rx_buf_ frame] else []) ++ [.pushed frame])

/-- The bytes of `rx_leftover_` once the full frames of `src` are pushed. -/
def keep (r : Rx) (src : Bytes) : Bytes :=
  let consumed := nFull src * FRAME_SAMPLES
  if r.rx_leftover_.isEmpty then
    if 0 < src.length - consumed then src.drop consumed else r.rx_leftover_
  else if 0 < consumed then r.rx_leftover_.drop consumed
  else r.rx_leftover_

def silence : List Int16 := List.replicate FRAME_SAMPLES 0

/-- The `rx_buf_mutex_` section of `on_get_frame`. -/
def getFrame (r : Rx) : Rx × List RxEvent :=
  if !r.rx_started_ then (r, [.output silence false])
  else
    match r.rx_buf_ with
    | [] => (r, [.output silence false])
    | front :: rest => ({ r with rx_buf_ := rest }, [.output front true])

def step (r : Rx) : RxAct → Option (Rx × List RxEvent)
  | .rxStart => if r.thread = .absent then some ({ r with thread := .head }, []) else none
  | .rxHead =>
    if r.thread = .head then
      some ({ r with thread := if r.stop_flag_ then .done else .read .length [] }, [])
    else none
  | .rxCall =>
    match r.thread with
    | .read buf got => if got.length < buf.size then some ({ r with thread := .recving buf got }, []) else none
    | _ => none
  | .rxRecv bytes =>
    match r.thread with
    | .recving buf got =>
      if 0 < bytes.length ∧ bytes.length ≤ buf.size - got.length then
        some ({ r with thread := .read buf (got ++ bytes) }, [.received bytes])
      else none
    | _ => none
  | .rxFail =>
    match r.thread with
    | .recving _ _ => some ({ r with thread := .done }, [])
    | _ => none
  | .rxRead =>
    match r.thread with
    | .read buf got => if got.length < buf.size then none else r.readDone got buf
    | _ => none
  | .rxPush =>
    match r.thread with
    | .push src i =>
      if i < nFull src then
        some (({ r with thread := .push src (i + 1) } : Rx).pushFrame (decodeFrame src i))
      else none
    | _ => none
  | .rxKeep =>
    match r.thread with
    | .push src i =>
      if i < nFull src then none else some ({ r with rx_leftover_ := r.keep src, thread := .head }, [])
    | _ => none
  | .getFrame => some r.getFrame
  | .stopStore => some ({ r with stop_flag_ := true }, [])

/-- The receive side of a participant that was just constructed. -/
def machine : Machine Rx RxAct RxEvent where
  init r := r = {}
  step := step

end Rx
end AudioMeet
