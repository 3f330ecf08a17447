import LuvCoro.Lib.Transition
import LuvCoro.Channel.Sections

/-! # The channel as a concurrent system

Any number of operations run on any threads; each is at a program point, and a
step takes one of them over one critical section or one action outside the
lock. The loop thread adds its own steps: closures posted to the runtime, timer
callbacks, the channel's `uv_async_t` callback, and `flush_ready_waiters`, split
into its swap and one step for each coroutine it resumes. -/
namespace LuvCoro.Channel

open Transition

universe u

/-- The out-parameters an operation carries out of its critical section. -/
structure Flags where
  wakeLoop : Bool := false
  notifyBlockedSenders : Bool := false
  timersToCancel : List OpId := []

inductive Call (T : Type u) where
  | send (value : T)
  | trySend (value : T)
  | asyncSend (value : T)
  | recv
  | next
  | recvFor (timeout : Int)
  | tryRecv
  | blockingNext
  | close

inductive Result (T : Type u) where
  | unit
  | sent (ok : Bool)
  | value (v : Option T)
  | thrown (e : Error)

/-- Whose `await_resume` it is. An optional `recv_task` is one under the handler
of `closed_error` that `recv_optional_task` and `blocking_next` share. -/
inductive Resume where
  | asyncSend
  | recv (optional : Bool)
  | recvFor
  deriving DecidableEq, Repr

/-- What an operation does once `finalize_after_unlock` has returned: return, the
rest of `await_resume`, or, in `blocking_next` without a value, `recv_task`. -/
inductive After (T : Type u) where
  | ret (r : Result T)
  | resume (k : Resume)
  | recvTask

/-- Program points. `notify`, `cancelTimers` and `wake` are the three parts of
`finalize_after_unlock`. -/
inductive Pc (T : Type u) where
  | idle
  | send (value : T)
  | sendWait (value : T)
  | sendWoken (value : T)
  | trySend (value : T)
  | asyncSendReady
  | asyncSendSuspend
  | recvReady (optional : Bool)
  | recvSuspend (optional : Bool)
  | recvForReady (timeout : Int)
  | recvForSuspend (timeout : Int)
  | tryRecv
  | blockingNext
  | close
  | closeNotify (schedule : Bool) (timers : List OpId)
  | closeTimers (schedule : Bool) (timers : List OpId)
  | closePost
  | notify (f : Flags) (k : After T)
  | cancelTimers (f : Flags) (k : After T)
  | wake (f : Flags) (k : After T)
  | suspended (k : Resume)
  | done (r : Result T)

/-- `timer_state`. `handle` is whether its `uv_timer_t` was allocated, `armed`
whether libuv will call back, `closes` counts the `uv_close` calls. -/
structure TimerState where
  canceled : Bool := false
  closing : Bool := false
  handle : Bool := false
  armed : Bool := false
  closes : Nat := 0

/-- Closures accepted by `runtime->post`. `timerStart` records whether the
`waiter->timer` it captured was set. -/
inductive Posted where
  | timerStart (i : OpId) (captured : Bool)
  | timerCancel (i : OpId)
  | closeChannel

structure Sys (T : Type u) where
  chan : State T
  pc : OpId → Pc T := fun _ => .idle
  onLoop : OpId → Bool := fun _ => false
  /-- `recv_for` has left the lock of `await_suspend` but not returned from it. -/
  posting : OpId → Bool := fun _ => false
  timer : OpId → TimerState := fun _ => {}
  posted : List Posted := []
  /-- Calls of `flush_ready_waiters` that have not swapped the queues yet. -/
  flushCalls : Nat := 0
  /-- The local queues of the calls that have. -/
  flushing : List (List OpId) := []
  asyncPending : Bool := false
  /-- The posted closure of `close` has begun, and has closed the handle. -/
  closeStarted : Bool := false
  asyncClosing : Bool := false
  shuttingDown : Bool := false
  /-- How often `await_suspend` of the operation returned `false`, and how often
  a flush resumed it. -/
  returnedFalse : OpId → Nat := fun _ => 0
  resumed : OpId → Nat := fun _ => 0
  log : List (Event T) := []

variable {T : Type u}

namespace Sys

def goto (s : Sys T) (i : OpId) (p : Pc T) : Sys T := { s with pc := Function.update s.pc i p }

/-- Leave a critical section. -/
def commit (s : Sys T) (l : Locked T) : Sys T :=
  { s with chan := l.state, log := s.log ++ l.events }

def setTimer (s : Sys T) (i : OpId) (f : TimerState → TimerState) : Sys T :=
  { s with timer := Function.update s.timer i (f (s.timer i)) }

/-- `await_suspend` of `i` returns `false`: the coroutine goes on by itself. -/
def continueInline (s : Sys T) (i : OpId) : Sys T :=
  { s with returnedFalse := Function.update s.returnedFalse i (s.returnedFalse i + 1) }

/-- `runtime->post`; `none` when it throws because the runtime shuts down. -/
def post (s : Sys T) (p : Posted) : Option (Sys T) :=
  if s.shuttingDown then none else some { s with posted := s.posted ++ [p] }

end Sys

def Locked.flags (l : Locked T) : Flags := ⟨l.wakeLoop, l.notifyBlockedSenders, l.timersToCancel⟩

/-- Where an operation stands when it has been called. -/
def Call.entry : Call T → Pc T
  | .send v => .send v
  | .trySend v => .trySend v
  | .asyncSend _ => .asyncSendReady
  | .recv => .recvReady false
  | .next => .recvReady true
  | .recvFor timeout => .recvForReady timeout
  | .tryRecv => .tryRecv
  | .blockingNext => .blockingNext
  | .close => .close

/-- The outcome `await_resume` reads off the waiter. -/
def Resume.result (st : State T) (i : OpId) : Resume → Result T
  | .asyncSend =>
    match (st.sender i).exception with
    | some e => .thrown e
    | none => .unit
  | .recv optional =>
    match (st.receiver i).exception with
    | some .closedError => if optional then .value none else .thrown .closedError
    | some e => .thrown e
    | none => .value (st.receiver i).value
  | .recvFor =>
    match (st.receiver i).exception with
    | some e => .thrown e
    | none => if (st.receiver i).timedOut then .value none else .value (st.receiver i).value

def After.continue (st : State T) (i : OpId) : After T → Pc T
  | .ret r => .done r
  | .resume k => .done (k.result st i)
  | .recvTask => .recvReady true

def shuttingDownError : Error := .runtimeError "uv_runtime is shutting down"

def asyncClosingError : Error := .runtimeError "message_channel async handle is closing"

def nextOnLoopError : Error :=
  .runtimeError "message_channel blocking iteration cannot run on the runtime thread"

/-- An awaiter step that ends the wait (`true`) goes on to `await_resume`;
otherwise the coroutine goes to `p`. -/
def Sys.awaitReady (s : Sys T) (i : OpId) (r : Bool × Locked T) (k : Resume) (p : Pc T) : Sys T :=
  (s.commit r.2).goto i (if r.1 then .notify r.2.flags (.resume k) else p)

/-- `await_suspend` returning `r.1`. -/
def Sys.awaitSuspend (s : Sys T) (i : OpId) (r : Bool × Locked T) (k : Resume) : Sys T :=
  if r.1 then (s.commit r.2).goto i (.suspended k)
  else ((s.commit r.2).continueInline i).goto i (.notify r.2.flags (.resume k))

def Sys.afterSend (s : Sys T) (i : OpId) (r : SendOutcome × Locked T) (full : Pc T)
    (ok : Result T) : Sys T :=
  match r.1 with
  | .throws e => (s.commit r.2).goto i (.done (.thrown e))
  | .full => (s.commit r.2).goto i full
  | .placed => (s.commit r.2).goto i (.notify r.2.flags (.ret ok))

/-- `send_cv.notify_all()`. -/
def Sys.notifyAll (s : Sys T) : Sys T :=
  { s with pc := fun i => match s.pc i with
    | .sendWait v => .sendWoken v
    | p => p }

/-- The next step of operation `i` on its own thread. -/
def runOp (s : Sys T) (i : OpId) : Option (Sys T) :=
  match s.pc i with
  | .send v =>
    some (s.afterSend i (trySendLocked s.chan i v)
      (if s.onLoop i then .done (.thrown (.runtimeError wouldBlockMessage)) else .sendWait v) .unit)
  | .sendWoken v => some (s.afterSend i (wokenSendLocked s.chan i v) (.sendWait v) .unit)
  | .trySend v =>
    some (s.afterSend i (trySendLocked s.chan i v) (.done (.sent false)) (.sent true))
  | .asyncSendReady =>
    some (s.awaitReady i (asyncSendReadyLocked s.chan i) .asyncSend .asyncSendSuspend)
  | .asyncSendSuspend =>
    some (s.awaitSuspend i (asyncSendSuspendLocked s.chan i) .asyncSend)
  | .recvReady optional =>
    some (s.awaitReady i (recvReadyLocked s.chan i) (.recv optional) (.recvSuspend optional))
  | .recvSuspend optional => some (s.awaitSuspend i (recvSuspendLocked s.chan i) (.recv optional))
  | .recvForReady timeout =>
    some (s.awaitReady i (recvForReadyLocked s.chan i timeout) .recvFor
      (.recvForSuspend timeout))
  | .recvForSuspend timeout =>
    let r := recvForSuspendLocked s.chan i timeout
    let t := s.awaitSuspend i r .recvFor
    some { t with posting := Function.update t.posting i r.1 }
  | .tryRecv =>
    let r := tryRecvSection s.chan i
    some ((s.commit r.2).goto i (.notify r.2.flags (.ret (.value r.1))))
  | .blockingNext =>
    if s.onLoop i then some (s.goto i (.done (.thrown nextOnLoopError)))
    else
      let r := blockingNextSection s.chan i
      match r.1 with
      | .value v => some ((s.commit r.2).goto i (.notify r.2.flags (.ret (.value (some v)))))
      | .closed => some ((s.commit r.2).goto i (.done (.value none)))
      | .wait => some ((s.commit r.2).goto i (.notify r.2.flags .recvTask))
  | .close =>
    let r := closeLocked s.chan
    some ((s.commit r.2).goto i (.closeNotify r.1 r.2.timersToCancel))
  | .closeNotify schedule timers => some (s.notifyAll.goto i (.closeTimers schedule timers))
  | .closeTimers schedule (t :: ts) =>
    some (((s.post (.timerCancel t)).getD s).goto i (.closeTimers schedule ts))
  | .closeTimers schedule [] => some (s.goto i (if schedule then .closePost else .done .unit))
  | .closePost =>
    match s.post .closeChannel with
    | some s => some (s.goto i (.done .unit))
    | none => some (s.goto i (.done (.thrown shuttingDownError)))
  | .notify f k =>
    some ((if f.notifyBlockedSenders then s.notifyAll else s).goto i (.cancelTimers f k))
  | .cancelTimers f k =>
    match f.timersToCancel with
    | t :: ts =>
      some (((s.post (.timerCancel t)).getD s).goto i
        (.cancelTimers { f with timersToCancel := ts } k))
    | [] => some (s.goto i (.wake f k))
  | .wake f k =>
    if !f.wakeLoop then some (s.goto i (k.continue s.chan i))
    else if s.onLoop i then
      some ({ s with flushCalls := s.flushCalls + 1 }.goto i (k.continue s.chan i))
    else if !s.chan.async || s.asyncClosing then
      some (s.goto i (.done (.thrown asyncClosingError)))
    -- `uv_async_send` of a handle that is not closing returns 0: its `rc < 0` is left out
    else some ({ s with asyncPending := true }.goto i (k.continue s.chan i))
  | .idle | .sendWait _ | .suspended _ | .done _ => none

/-- `recv_for` posts the timer start, or completes itself when that throws. -/
def runPosting (s : Sys T) (i : OpId) : Option (Sys T) :=
  if s.posting i then
    let s := { s with posting := Function.update s.posting i false }
    match s.post (.timerStart i (s.chan.receiver i).timer) with
    | some s => some s
    | none =>
      let r := recvForPostFailedLocked s.chan i shuttingDownError
      some (({ s with chan := r.2 }.continueInline i).goto i
        (.notify { wakeLoop := r.1 } (.resume .recvFor)))
  else none

/-- `timer_state::close_handle`. -/
def TimerState.closeHandle (t : TimerState) : TimerState :=
  if !t.handle || t.closing then t
  else { t with closing := true, armed := false, closes := t.closes + 1 }

/-- `timer_state::fail`. -/
def Sys.timerFail (s : Sys T) (i : OpId) (e : Error) : Sys T :=
  { s with chan := (failLocked s.chan i e).2, flushCalls := s.flushCalls + 1 }

/-- `timer_state::start`, with the results of `uv_timer_init` and
`uv_timer_start`. -/
def Sys.timerStart (s : Sys T) (i : OpId) (rcInit rcStart : Int) : Sys T :=
  if (s.timer i).canceled then s
  else if !(s.chan.receiver i).active || (s.chan.receiver i).completed then s
  else
    let s := s.setTimer i fun t => { t with handle := true }
    if rcInit < 0 then s.timerFail i (.uvError rcInit "uv_timer_init")
    else if rcStart < 0 then
      (s.timerFail i (.uvError rcStart "uv_timer_start")).setTimer i TimerState.closeHandle
    else s.setTimer i fun t => { t with armed := true }

/-- The loop thread runs the oldest posted closure. A start closure that
captured no timer dereferences null, after which the loop does nothing. -/
def runPosted (s : Sys T) (rcInit rcStart : Int) : Option (Sys T) :=
  match s.posted with
  | [] => none
  | .timerStart i captured :: ps =>
    if captured then some ({ s with posted := ps }.timerStart i rcInit rcStart) else none
  | .timerCancel i :: ps =>
    some ({ s with posted := ps }.setTimer i fun t =>
      TimerState.closeHandle { t with canceled := true })
  | .closeChannel :: ps =>
    some { s with posted := ps, flushCalls := s.flushCalls + 1, closeStarted := true }

/-- The libuv callback of an armed timer. -/
def timerFire (s : Sys T) (i : OpId) : Option (Sys T) :=
  if (s.timer i).armed then
    some ({ s with chan := (fireLocked s.chan i).2, flushCalls := s.flushCalls + 1 }.setTimer i
      fun t => TimerState.closeHandle { t with armed := false })
  else none

/-- A flush takes the ready waiters into its local queues. -/
def flushSwap (s : Sys T) : Option (Sys T) :=
  match s.flushCalls with
  | 0 => none
  | n + 1 =>
    let r := swapReadyLocked s.chan
    some { s with chan := r.2, flushCalls := n, flushing := s.flushing ++ [r.1.1 ++ r.1.2] }

/-- `waiter->continuation.resume()`, for the front of one local queue. -/
def flushResume (s : Sys T) (q : Nat) : Option (Sys T) :=
  match s.flushing[q]? with
  | some (w :: ws) =>
    let s := { s with
      flushing := s.flushing.set q ws
      resumed := Function.update s.resumed w (s.resumed w + 1) }
    match s.pc w with
    | .suspended k => some (s.goto w (.notify {} (.resume k)))
    | _ => some s
  | _ => none

inductive Label (T : Type u) where
  | start (i : OpId) (loop : Bool) (call : Call T)
  | run (i : OpId)
  | post (i : OpId)
  | spurious (i : OpId)
  | runPosted (rcInit rcStart : Int)
  | timerFire (i : OpId)
  | onAsync
  | flushSwap
  | flushResume (q : Nat)
  | closeHandle
  | shutdown

/-- A call begins: its waiter, if it has one, is created. -/
def startCall (s : Sys T) (i : OpId) (loop : Bool) (call : Call T) : Option (Sys T) :=
  match s.pc i with
  | .idle =>
    let s := { s with onLoop := Function.update s.onLoop i loop }.goto i call.entry
    match call with
    | .asyncSend v =>
      some { s with chan := s.chan.setSender i fun w => { w with value := some v } }
    | _ => some s
  | _ => none

def step (s : Sys T) : Label T → Option (Sys T)
  | .start i loop call => startCall s i loop call
  | .run i => runOp s i
  | .post i => runPosting s i
  | .spurious i =>
    match s.pc i with
    | .sendWait v => some (s.goto i (.sendWoken v))
    | _ => none
  | .runPosted rcInit rcStart => runPosted s rcInit rcStart
  | .timerFire i => timerFire s i
  | .onAsync =>
    if s.asyncPending && !s.asyncClosing then
      some { s with asyncPending := false, flushCalls := s.flushCalls + 1 }
    else none
  | .flushSwap => flushSwap s
  | .flushResume q => flushResume s q
  | .closeHandle =>
    if s.closeStarted && s.flushCalls == 0 then some { s with asyncClosing := true } else none
  | .shutdown => some { s with shuttingDown := true }

/-- A newly constructed channel. -/
def Sys.new (capacity : Nat) : Sys T := { chan := { capacity := capacity } }

def system (T : Type u) : System (Sys T) (Label T) where
  init s := ∃ capacity, s = Sys.new capacity
  step := step

theorem reachable_new (capacity : Nat) : Reachable (system T) (Sys.new capacity) :=
  .init ⟨capacity, rfl⟩

end LuvCoro.Channel
