import AudioMeet.Lib.Bytes
import AudioMeet.Lib.Machine

/-! The logger (`src/MsLog.h`, `src/MsLog.cpp`): any number of calls of `Log` and `Exit`, and the thread that `Run`
    makes. A section under `m_mutex` is one step, and so is each statement outside it that others may see. -/

namespace AudioMeet
open Lib

def LOG_LEVEL_INFO : Int := 2
def MAX_LOG_LEN : Nat := 2048
def MAX_LOG_QUEUE : Nat := 512

/-- `char[MAX_LOG_LEN]` -/
structure LogBuf where
  chars : Bytes
  length_chars : chars.length = MAX_LOG_LEN
deriving DecidableEq

namespace LogBuf

/-- `make_unique<char[]>(MAX_LOG_LEN)` -/
def new : LogBuf := ⟨List.replicate MAX_LOG_LEN 0, List.length_replicate⟩

/-- `buf[i] = c` -/
def put (buf : LogBuf) (i : Nat) (_ : i < MAX_LOG_LEN) (c : UInt8) : LogBuf :=
  ⟨buf.chars.set i c, List.length_set.trans buf.length_chars⟩

/-- `vsnprintf(buf, size, …)` of what its format and its arguments come to: as much of the text as fits, and a NUL. -/
def vsnprintf (buf : LogBuf) (size : Nat) (hsize : 0 < size ∧ size ≤ MAX_LOG_LEN) (text : Bytes) : LogBuf where
  chars := text.take (size - 1) ++ 0 :: buf.chars.drop (min (size - 1) text.length + 1)
  length_chars := by
    simp only [List.length_append, List.length_take, List.length_cons, List.length_drop, buf.length_chars]
    omega

/-- The text that `%s` prints of a buffer. -/
def text (buf : LogBuf) : Bytes := buf.chars.takeWhile (· ≠ 0)

def maxLen : Nat := MAX_LOG_LEN - 1

/-- `nRet` in `Log`, where `vsnprintf` does not fail: it returns the length of the whole text. -/
def nRet (text : Bytes) : Nat := if maxLen - 1 < text.length then maxLen - 1 else text.length

theorem nRet_eq (text : Bytes) : nRet text = min (maxLen - 1) text.length := by
  unfold nRet
  split <;> omega

theorem nRet_lt (text : Bytes) : nRet text + 1 < MAX_LOG_LEN := by
  have hlen : MAX_LOG_LEN = maxLen + 1 := rfl
  have hpos : 0 < maxLen := by decide
  have := nRet_eq text
  omega

/-- What `Log` makes of a buffer where `vsnprintf` does not fail. -/
def format (buf : LogBuf) (text : Bytes) : LogBuf :=
  ((buf.vsnprintf maxLen (by decide) text).put (nRet text) (Nat.lt_of_succ_lt (nRet_lt text)) 0x0A).put (nRet text + 1)
    (nRet_lt text) 0

end LogBuf

/-- Where a call of `Log` or of `Exit` stands. -/
inductive LogPc
  /-- `if (level > m_level)`; `text` is what `vsnprintf` will make of the arguments, nothing where it fails -/
  | level (level : Int) (text : Option Bytes)
  /-- about to take `m_mutex` -/
  | lock (text : Option Bytes)
  /-- about to take `m_mutex` in `Exit` -/
  | exitLock
  /-- about to call `notify_one` -/
  | notify
  | done
deriving DecidableEq

/-- Where `OnRun` stands. -/
inductive OnRunPc
  /-- `Run` was not called -/
  | absent
  /-- about to take `m_mutex` for the first time -/
  | start
  /-- in `m_condiVar.wait` -/
  | waiting
  /-- its wait has ended, and it is about to take `m_mutex` again -/
  | woken
  /-- with a message in its hands, without `m_mutex` -/
  | openFile (log : LogBuf)
  /-- about to write it, behind the time of day -/
  | write (log : LogBuf) (stamp : Bytes)
  /-- about to take `m_mutex` after the message was written -/
  | relock (log : LogBuf)
  | exited
deriving DecidableEq

/-- What `localtime` and `fopen` answer. -/
structure LogAnswer where
  tm_mday : Int
  stamp : Bytes
  fopen : Bool

inductive LogAct
  /-- a thread calls `Log` -/
  | log (level : Int) (text : Option Bytes)
  | exit
  | setLevel (level : Int)
  /-- `main` calls `Run` once -/
  | run
  /-- call `i` goes on -/
  | go (i : Nat)
  | work (ans : LogAnswer)
  /-- the wait ends without a notification -/
  | wake

inductive LogEvent
  /-- a message was put into the queue -/
  | accepted (text : Bytes)
  /-- a line was written -/
  | wrote (stamp text : Bytes)
deriving DecidableEq

/-- The fields of `MsLog`, and where its threads stand. `m_fp` tells whether it is not null. -/
structure MsLog where
  m_level : Int := LOG_LEVEL_INFO
  m_exit : Bool := false
  m_logBufPtr : List LogBuf := []
  m_logQuePtr : List LogBuf := []
  m_fp : Bool := false
  m_curDay : Int := -1
  calls : List LogPc := []
  worker : OnRunPc := .absent
  /-- `fprintf` was given a null `FILE*` -/
  crashed : Bool := false

namespace MsLog

def getLogBufPtr (l : MsLog) : LogBuf × MsLog :=
  match l.m_logBufPtr with
  | buf :: rest => (buf, { l with m_logBufPtr := rest })
  | [] => (.new, l)

def relLogBufPtr (l : MsLog) (buf : LogBuf) : MsLog :=
  if MAX_LOG_QUEUE < l.m_logBufPtr.length then l else { l with m_logBufPtr := l.m_logBufPtr ++ [buf] }

def enqueLogPtr (l : MsLog) (log : LogBuf) : MsLog := { l with m_logQuePtr := l.m_logQuePtr ++ [log] }

/-- The section of `Log`. -/
def logSection (l : MsLog) (i : Nat) : Option Bytes → MsLog × List LogEvent
  | none =>
    let (buf, l) := l.getLogBufPtr
    ({ l.relLogBufPtr buf with calls := l.calls.set i .done }, [])
  | some text =>
    let (buf, l) := l.getLogBufPtr
    ({ l.enqueLogPtr (buf.format text) with calls := l.calls.set i .notify }, [.accepted text])

/-- `notify_one`: only the worker waits. -/
def notify (l : MsLog) : MsLog :=
  match l.worker with
  | .waiting => { l with worker := .woken }
  | _ => l

/-- `while (!m_exit)`, up to the wait or to the end. -/
def outerLoop (l : MsLog) : MsLog := { l with worker := if l.m_exit then .exited else .waiting }

/-- `while (m_logQuePtr.size() && !m_exit)`, up to the unlock or to the wait in the outer loop. -/
def innerLoop (l : MsLog) : MsLog :=
  match l.m_logQuePtr with
  | [] => l.outerLoop
  | log :: rest => if l.m_exit then l.outerLoop else { l with m_logQuePtr := rest, worker := .openFile log }

/-- The file of a new day is opened; `m_fp` has closed the old one. -/
def openFile (l : MsLog) (log : LogBuf) (ans : LogAnswer) : MsLog :=
  if l.m_curDay ≠ ans.tm_mday then
    { l with m_curDay := ans.tm_mday, m_fp := ans.fopen, worker := .write log ans.stamp }
  else { l with worker := .write log ans.stamp }

def write (l : MsLog) (log : LogBuf) (stamp : Bytes) : MsLog × List LogEvent :=
  if l.m_fp then ({ l with worker := .relock log }, [.wrote stamp log.text]) else ({ l with crashed := true }, [])

/-- A step of `OnRun`. -/
def onRun (l : MsLog) (ans : LogAnswer) : OnRunPc → Option (MsLog × List LogEvent)
  | .start => some (l.outerLoop, [])
  | .woken => some (l.innerLoop, [])
  | .openFile log => some (l.openFile log ans, [])
  | .write log stamp => some (l.write log stamp)
  | .relock log => some ((l.relLogBufPtr log).innerLoop, [])
  | .absent | .waiting | .exited => none

/-- A step of call `i`. -/
def goOn (l : MsLog) (i : Nat) : LogPc → Option (MsLog × List LogEvent)
  | .level level text => some ({ l with calls := l.calls.set i (if l.m_level < level then .done else .lock text) }, [])
  | .lock text => some (l.logSection i text)
  | .exitLock => some ({ l with m_exit := true, calls := l.calls.set i .notify }, [])
  | .notify => some ({ l.notify with calls := l.calls.set i .done }, [])
  | .done => none

def step (l : MsLog) (a : LogAct) : Option (MsLog × List LogEvent) :=
  if l.crashed then none
  else
    match a with
    | .log level text => some ({ l with calls := l.calls ++ [.level level text] }, [])
    | .exit => some ({ l with calls := l.calls ++ [.exitLock] }, [])
    | .setLevel level => some ({ l with m_level := level }, [])
    | .run =>
      match l.worker with
      | .absent => some ({ l with worker := .start }, [])
      | _ => none
    | .go i => do l.goOn i (← l.calls[i]?)
    | .work ans => l.onRun ans l.worker
    | .wake =>
      match l.worker with
      | .waiting => some ({ l with worker := .woken }, [])
      | _ => none

/-- The logger that `Instance` makes. -/
def machine : Machine MsLog LogAct LogEvent where
  init l := l = {}
  step := step

end MsLog
end AudioMeet
