import LuvCoro.Runtime.Handshake
import LuvCoro.Timing.Sleep

/-! # `run_controlled`

Translated from `include/luvcoro/control.hpp`. The wrapped operation, a sleep and
a wait for the external stop run against each other; `coro::when_any` takes the
first of their outcomes and asks the others to stop through `cancel_source`. The
sleep and the wait are the awaiters of `Runtime.Handshake`. -/
namespace LuvCoro.Control

open Transition LuvCoro.Runtime

universe u v
variable {T : Type u} {E : Type v}

/-! ## Outcomes -/

inductive Kind where
  | value | cancelled | timeout | exception
  deriving DecidableEq, Repr

/-- `operation_outcome`; for `void` the value is the one of `Unit`. -/
structure OperationOutcome (T : Type u) (E : Type v) where
  status : Kind := .value
  value : Option T := none
  exception : Option E := none

def makeCancelledOutcome : OperationOutcome T E := { status := .cancelled }

def makeTimeoutOutcome : OperationOutcome T E := { status := .timeout }

def makeExceptionOutcome (exception : E) : OperationOutcome T E :=
  { status := .exception, exception := some exception }

def makeValueOutcome (value : T) : OperationOutcome T E := { status := .value, value := some value }

/-- How a task ends: it returns a value or throws `operation_timeout`,
`operation_cancelled` or some other exception. -/
inductive Completion (T : Type u) (E : Type v) where
  | value (v : T)
  | operationTimeout
  | operationCancelled
  | exception (e : E)
  deriving DecidableEq, Repr

/-- `wrap_operation`, with how the operation ends. -/
def wrapOperation : Completion T E → OperationOutcome T E
  | .value v => makeValueOutcome v
  | .operationTimeout => makeTimeoutOutcome
  | .operationCancelled => makeCancelledOutcome
  | .exception e => makeExceptionOutcome e

/-- `timeout_outcome_task`, with what `await_resume` of its sleep finds. `none` is
the `uv_error` of a timer that could not be started, which is not caught. -/
def timeoutOutcomeTask : Option Int → Option (OperationOutcome T E)
  | none => some makeCancelledOutcome
  | some status => if status < 0 then none else some makeTimeoutOutcome

/-- `cancellation_outcome_task`. -/
def cancellationOutcomeTask : StopWaitResult → OperationOutcome T E
  | .requested => makeCancelledOutcome
  | .cancelled => makeCancelledOutcome

/-- `resolve_operation_outcome`; `none` where it reads a member that is not set. -/
def resolveOperationOutcome (outcome : OperationOutcome T E) : Option (Completion T E) :=
  match outcome.status with
  | .value => outcome.value.map .value
  | .cancelled => some .operationCancelled
  | .timeout => some .operationTimeout
  | .exception => outcome.exception.map .exception

/-! ## `coro::when_any` -/

/-- `coro::when_any` with a stop source, which is not part of this repository: what
it returns, and whether it may have asked to stop, when the contenders have ended
with these outcomes in this order. -/
structure WhenAny (R : Type u) where
  result : List R → Option R
  mayStop : List R → Bool

/-- It returns the outcome of the first contender, and asks to stop only then. -/
structure WhenAny.Meets {R : Type u} (W : WhenAny R) : Prop where
  first : ∀ r rs, W.result (r :: rs) = some r
  waits : W.result [] = none
  stop : W.mayStop [] = false

/-! ## The race -/

/-- The arguments: a timeout in milliseconds, and `stop_token.stop_possible()`. -/
structure Config where
  timeout : Option Int := none
  stopPossible : Bool := false

/-- `with_stop_token` -/
def withStopToken (stopPossible : Bool) : Config := { stopPossible := stopPossible }

/-- `with_timeout`, with a duration in nanoseconds. -/
def withTimeout (timeout : Int) (stopPossible : Bool) : Config :=
  { timeout := some (Timing.toMilliseconds timeout), stopPossible := stopPossible }

inductive Contender where
  | operation | timer | stop
  deriving DecidableEq

/-- Why a contender ended. The last two are helpers told to give up. -/
inductive Event (T : Type u) (E : Type v) where
  | operation (c : Completion T E)
  | expired
  | stopped
  | timerCancelled
  | waitCancelled
  deriving DecidableEq

/-- `events` is why the contenders ended, in the order in which they did; nothing reads it.
A stop that has been requested, or a timer that has fired, is none of them before the task
that waits for it has ended. -/
structure Race (T : Type u) (E : Type v) where
  /-- The external stop has been requested. -/
  external : Bool := false
  started : Bool := false
  running : Contender → Bool := fun _ => false
  sleep : Sleep := {}
  wait : StopWait := {}
  cancelRequested : Bool := false
  finished : List (OperationOutcome T E) := []
  result : Option (Completion T E) := none
  events : List (Event T E) := []

inductive Label (T : Type u) (E : Type v) where
  | requestStop
  | start
  | operation (c : Completion T E)
  | sleep (l : Sleep.Label)
  | wait (l : StopWait.Label)
  | cancel
  | finish

namespace Race

/-- A contender has ended. -/
def finishContender (s : Race T E) (i : Contender) (o : OperationOutcome T E) (e : Event T E) :
    Race T E :=
  { s with
    running := Function.update s.running i false
    finished := s.finished ++ [o]
    events := s.events ++ [e] }

/-- `run_controlled` up to the `co_await` of `when_any`. -/
def start (c : Config) (s : Race T E) : Race T E :=
  if s.external then { s with result := some .operationCancelled, events := [.stopped] }
  else if c.timeout.any (· ≤ 0) then { s with result := some .operationTimeout }
  else
    { s with
      started := true
      running := fun
        | .operation => true
        | .timer => c.timeout.isSome
        | .stop => c.stopPossible }

/-- A step of the sleep, after which `timeout_outcome_task` may have ended. -/
def runSleep (s : Race T E) (sleep : Sleep) : Option (Race T E) :=
  if sleep.continued = 0 then some { s with sleep := sleep }
  else
    (timeoutOutcomeTask sleep.awaitResume).map fun o =>
      { s with sleep := sleep }.finishContender .timer o
        (if sleep.awaitResume.isSome then .expired else .timerCancelled)

/-- A step of the wait, after which `cancellation_outcome_task` may have ended. -/
def runWait (s : Race T E) (wait : StopWait) : Race T E :=
  if wait.continued = 0 then { s with wait := wait }
  else
    { s with wait := wait }.finishContender .stop (cancellationOutcomeTask wait.awaitResume)
      (match wait.awaitResume with
        | .requested => .stopped
        | .cancelled => .waitCancelled)

end Race

/-- The tokens are asked to stop by `requestStop` and `cancel` only. -/
def step (W : WhenAny (OperationOutcome T E)) (c : Config) (s : Race T E) :
    Label T E → Option (Race T E)
  | .requestStop =>
    if c.stopPossible then
      some { s with
        external := true
        wait := { s.wait with toWait := s.wait.toWait.requestStop 0 } }
    else none
  | .start => if s.started || s.result.isSome then none else some (s.start c)
  | .operation o =>
    if s.running .operation then
      some (s.finishContender .operation (wrapOperation o) (.operation o))
    else none
  | .sleep .requestStop => none
  | .sleep l =>
    if s.running .timer then
      (Sleep.step (c.timeout.getD 0) true s.sleep l).bind s.runSleep
    else none
  | .wait (.requestStop _) => none
  | .wait l =>
    if s.running .stop then (StopWait.step 2 s.wait l).map s.runWait
    else none
  | .cancel =>
    if s.started && W.mayStop s.finished then
      some { s with
        cancelRequested := true
        sleep := { s.sleep with toWait := s.sleep.toWait.requestStop 0 }
        wait := { s.wait with toWait := s.wait.toWait.requestStop 1 } }
    else none
  | .finish =>
    if s.started && s.result.isNone then
      ((W.result s.finished).bind resolveOperationOutcome).map fun r => { s with result := some r }
    else none

/-- A call of `run_controlled` whose token has not been stopped yet. -/
def system (W : WhenAny (OperationOutcome T E)) (c : Config) : System (Race T E) (Label T E) where
  init s := s = {}
  step := step W c

end LuvCoro.Control
