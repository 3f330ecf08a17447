import LuvCoro.Lib.Transition

/-! # A cancellable libuv request

`stream_write`, `stream_shutdown`, the two `connect`, `send_to` and
`run_fs_request` share one awaiter: `await_suspend` registers a stop callback
and posts the closure that starts the request, the stop callback posts another
one that cancels it, and whoever comes first completes the shared state.
Translated from `src/stream_ops.hpp`, `src/tcp.cpp`, `src/pipe.cpp`,
`src/udp.cpp` and `src/fs.cpp`; posts are accepted, that is the runtime is not
being shut down. -/
namespace LuvCoro.Request

open Transition

/-- The codes of libuv on Linux. -/
def UV_ECANCELED : Int := -125
def UV_EBUSY : Int := -16
def UV_ENOSYS : Int := -38
def UV_EINVAL : Int := -22

inductive Error
  | operationCancelled
  | uvError (code : Int)
  | runtimeError (message : String)
  deriving DecidableEq

/-- Where the functions differ: whether an endpoint is parsed before the request
is started, whether the answer of libuv to the start is looked at, and whether
the result is kept beside the status. -/
structure Kind where
  parses : Bool
  reports : Bool
  stores : Bool

def streamWrite : Kind := { parses := false, reports := true, stores := false }
def streamShutdown : Kind := { parses := false, reports := true, stores := false }
/-- `tcp_client::connect`. -/
def tcpConnect : Kind := { parses := true, reports := true, stores := false }
/-- `pipe_client::connect`: `uv_pipe_connect` returns nothing. -/
def pipeConnect : Kind := { parses := false, reports := false, stores := false }
/-- `udp_socket::send_to`. -/
def udpSendTo : Kind := { parses := true, reports := true, stores := false }
def runFsRequest : Kind := { parses := false, reports := true, stores := true }

/-- The shared `state`; `continuation`, `keepAlive` and `stopCallback` are
whether they are set. -/
structure Op where
  continuation : Bool := false
  keepAlive : Bool := false
  stopCallback : Bool := false
  completed : Bool := false
  status : Int := 0
  cancelRequested : Bool := false
  started : Bool := false
  cleanupRequired : Bool := false
  result : Int := 0

def Op.awaitResume (o : Op) : Except Error Int :=
  if o.status = UV_ECANCELED ∨ (o.cancelRequested ∧ o.status = 0) then .error .operationCancelled
  else if o.status < 0 then .error (.uvError o.status)
  else .ok o.result

/-- The steps of `await_suspend`. -/
inductive Pc
  | entering | registering | posting | suspended | done
  deriving DecidableEq

inductive Closure
  | start | cancel
  deriving DecidableEq

/-- The request inside libuv: accepted, being worked on, worked on with a result,
cancelled in the queue, or handed to its callback. -/
inductive Flight
  | idle
  | queued
  | working
  | worked (result : Int)
  | cancelled
  | delivered
  deriving DecidableEq

/-- One call: `acted` is whether a worker has carried the request out, `produced` the
result of work that has succeeded, `outcome` what the coroutine went on with, and
`fault` whether `await_suspend` has used its awaiter after the call was over. -/
structure Sys where
  op : Op := {}
  pc : Pc := .entering
  stopRequested : Bool := false
  posted : List Closure := []
  flight : Flight := .idle
  acted : Bool := false
  produced : Option Int := none
  outcome : Option (Except Error Int) := none
  fault : Bool := false

/-- A closure is run with the answers it will get: `parseRc` of
`parse_ip_endpoint`, and `rc` of the libuv function that starts the request, or
of `uv_cancel`. -/
inductive Label
  | run
  | requestStop
  | stopCallback
  | runPosted (parseRc rc : Int)
  | begin
  | work (result : Int)
  | callback

namespace Sys

/-- `state::complete`. -/
def complete (s : Sys) : Sys :=
  if s.op.completed then s
  else
    { s with
      op := { s.op with
        completed := true, cleanupRequired := false, continuation := false, stopCallback := false,
        keepAlive := false }
      outcome := if s.op.continuation then some s.op.awaitResume else s.outcome
      pc := if s.pc = .suspended then .done else s.pc }

def setStatus (s : Sys) (status : Int) : Sys := { s with op := { s.op with status := status } }

/-- The closure that starts the request. -/
def start (k : Kind) (s : Sys) (parseRc rc : Int) : Sys :=
  if s.op.completed then s
  else if k.parses && decide (parseRc < 0) then (s.setStatus parseRc).complete
  else
    let s := { s with op := { s.op with started := true, cleanupRequired := k.stores } }
    if k.reports && decide (rc < 0) then (s.setStatus rc).complete
    else { s with flight := .queued }

/-- The answers of `uv_cancel` after which the cancelling closure gives up the
request and completes it. -/
def GivesUp (rc : Int) : Prop := rc < 0 ∧ rc ≠ UV_EBUSY ∧ rc ≠ UV_ENOSYS

instance (rc : Int) : Decidable (GivesUp rc) := inferInstanceAs (Decidable (_ ∧ _ ∧ _))

/-- What `uv_cancel` does when it answers `rc`. -/
def uvCancel (s : Sys) (rc : Int) : Sys :=
  if rc = 0 ∧ s.flight = .queued then { s with flight := .cancelled } else s

def requestCancel (s : Sys) : Sys := { s with op := { s.op with cancelRequested := true } }

/-- The closure that cancels the request. -/
def cancel (s : Sys) (rc : Int) : Sys :=
  if s.op.completed then s
  else
    let s := s.requestCancel
    if !s.op.started then (s.setStatus UV_ECANCELED).complete
    else
      let s := s.uvCancel rc
      if GivesUp rc then (s.setStatus UV_ECANCELED).complete else s

/-- The callback of the request, with its status or result. -/
def finish (k : Kind) (s : Sys) (result : Int) : Sys :=
  let s := { s with flight := .delivered }
  if k.stores && decide (0 ≤ result) then
    { s with op := { s.op with result := result } }.complete
  else (s.setStatus result).complete

def post (s : Sys) (c : Closure) : Sys := { s with posted := s.posted ++ [c] }

end Sys

/-- `await_suspend`. -/
def run (stopPossible : Bool) (s : Sys) : Option Sys :=
  match s.pc with
  | .entering =>
    if s.stopRequested then
      let o := { s.op with cancelRequested := true, status := UV_ECANCELED }
      some { s with op := o, pc := .done, outcome := some o.awaitResume }
    else
      some { s with
        op := { s.op with continuation := true, keepAlive := true }
        pc := if stopPossible then .registering else .posting }
  | .registering =>
    if s.stopRequested then some { s.post .cancel with pc := .posting }
    else some { s with op := { s.op with stopCallback := true }, pc := .posting }
  | .posting =>
    -- the awaiter of a call that is over is gone, and `shared_state` with it
    if s.op.completed then some { s with fault := true, pc := .done }
    else some { s.post .start with pc := .suspended }
  | _ => none

def step (k : Kind) (stopPossible : Bool) (s : Sys) : Label → Option Sys
  | .run => run stopPossible s
  | .requestStop => if stopPossible then some { s with stopRequested := true } else none
  | .stopCallback =>
    if s.stopRequested && s.op.stopCallback then
      some ({ s with op := { s.op with stopCallback := false } }.post .cancel)
    else none
  | .runPosted parseRc rc =>
    match s.posted with
    | [] => none
    | .start :: cs => some ({ s with posted := cs }.start k parseRc rc)
    | .cancel :: cs => some ({ s with posted := cs }.cancel rc)
  | .begin => if s.flight = .queued then some { s with flight := .working } else none
  | .work result =>
    if s.flight = .working then
      some { s with
        flight := .worked result
        acted := true
        produced := if 0 ≤ result then some result else none }
    else none
  | .callback =>
    match s.flight with
    | .worked result => some (s.finish k result)
    | .cancelled => some (s.finish k UV_ECANCELED)
    | _ => none

/-- A stop may have been requested before the call. -/
def system (k : Kind) (stopPossible : Bool) : System Sys Label where
  init s := ∃ stopped : Bool, (stopped = true → stopPossible = true) ∧
    s = { stopRequested := stopped }
  step := step k stopPossible

/-- From the acceptance of the request until its callback. -/
def Sys.InFlight (s : Sys) : Prop := s.flight ≠ .idle ∧ s.flight ≠ .delivered

end LuvCoro.Request
