import LuvCoro.Lib.Transition
import LuvCoro.Lib.WaiterSlot

/-! # A server that accepts connections

`tcp_server` and `pipe_server` have the same `accept`, `on_connection_impl` and
`close`, but for their texts; translated from `src/tcp.cpp` and `src/pipe.cpp`,
for a server that has been set to listen. Everything runs on the loop thread,
except that a token may be stopped, and its callback run, on any thread. -/
namespace LuvCoro.Accept

open Transition WaiterSlot

abbrev CallId := Nat
abbrev Client := Nat

def UV_ECANCELED : Int := -125
def UV_EBUSY : Int := -16

inductive Error
  | operationCancelled
  | uvError (code : Int) (op : String)
  | runtimeError (message : String)
  deriving DecidableEq

inductive Kind
  | tcpServer
  | pipeServer

/-! The texts in which the two classes differ. -/

def Kind.notListening : Kind → String
  | tcpServer => "tcp server is not listening"
  | pipeServer => "pipe server is not listening"

def Kind.accept : Kind → String
  | tcpServer => "tcp_server::accept"
  | pipeServer => "pipe_server::accept"

def Kind.withoutClient : Kind → String
  | tcpServer => "accept resumed without pending client"
  | pipeServer => "accept resumed without pending pipe client"

/-- The connections that `uv_accept` has given, which of them which call has
returned, and which `close` has closed. -/
structure History where
  arrived : List Client := []
  returned : List (CallId × Client) := []
  closed : List Client := []

/-- `slot` has `accept_waiter_`, the awaiters and the queue of the runtime;
`status` and `outcome` are what an awaiter has recorded and how its call was left.
`closing` holds inside `close`, from the waiter it resumes on. -/
structure Server where
  handle : Bool := true
  listening : Bool := true
  pendingClients : List Client := []
  acceptStatus : Int := 0
  slot : Slot CallId := {}
  status : CallId → Int := fun _ => 0
  outcome : CallId → Option (Except Error Client) := fun _ => none
  closing : Bool := false
  history : History := {}

namespace Server

def call (s : Server) (i : CallId) : Call := s.slot.call i

def leave (s : Server) (i : CallId) (r : Except Error Client) : Server :=
  { s with slot := s.slot.leave i, outcome := Function.update s.outcome i (some r) }

/-- `accept_status_` is set, and whoever waits is resumed. -/
def wake (s : Server) (rc : Int) : Server := { s with acceptStatus := rc, slot := s.slot.wake }

/-- What libuv reports with a connection: 0, or the first code that is not. -/
def connectionCode (status initRc acceptRc : Int) : Int :=
  if status < 0 then status else if initRc < 0 then initRc else if acceptRc < 0 then acceptRc else 0

/-- `on_connection_impl`, with what `uv_*_init` and `uv_accept` answer. -/
def onConnection (s : Server) (status initRc acceptRc : Int) : Server :=
  if !s.handle then s
  else if status < 0 then s.wake status
  else if initRc < 0 then s.wake initRc
  else if acceptRc < 0 then s.wake acceptRc
  else
    let client := s.history.arrived.length
    { s with
      pendingClients := s.pendingClients ++ [client]
      history := { s.history with arrived := s.history.arrived ++ [client] } }.wake 0

/-- `accept`, up to its awaiter. -/
def accept (k : Kind) (s : Server) (i : CallId) (stopPossible : Bool) : Server :=
  if !s.listening || !s.handle then s.leave i (.error (.runtimeError k.notListening))
  else { s with slot := s.slot.enter i stopPossible }

def awaitReady (s : Server) (i : CallId) : Bool :=
  (s.call i).stopped || !s.pendingClients.isEmpty || decide (s.acceptStatus < 0)

/-- The checks of `await_suspend`. -/
def awaitSuspend (s : Server) (i : CallId) : Server :=
  if (s.call i).stopped then
    { s with status := Function.update s.status i UV_ECANCELED, slot := s.slot.moveTo i .skipped }
  else if s.slot.waiter.isSome then
    { s with status := Function.update s.status i UV_EBUSY, slot := s.slot.moveTo i .skipped }
  else { s with slot := s.slot.moveTo i .register }

def awaitResume (k : Kind) (s : Server) (i : CallId) : Except Error Client × Server :=
  if s.status i = UV_ECANCELED ∨ (s.call i).stopped then (.error .operationCancelled, s)
  else if s.status i < 0 then (.error (.uvError (s.status i) k.accept), s)
  else if s.acceptStatus < 0 then
    let rc := s.acceptStatus
    let s := { s with acceptStatus := 0 }
    if rc = UV_ECANCELED then (.error .operationCancelled, s)
    else (.error (.uvError rc "uv_accept"), s)
  else
    match s.pendingClients with
    | [] => (.error (.runtimeError k.withoutClient), s)
    | client :: rest =>
      (.ok client, { s with
        pendingClients := rest
        history := { s.history with returned := s.history.returned ++ [(i, client)] } })

/-- The next step of a call that runs. -/
def run (k : Kind) (s : Server) (i : CallId) : Option Server :=
  match (s.call i).stage with
  | .ready =>
    some { s with slot := s.slot.moveTo i (if s.awaitReady i then .skipped else .suspend) }
  | .suspend => some (s.awaitSuspend i)
  | .register => some { s with slot := s.slot.register i }
  | .park => some { s with slot := s.slot.park i }
  | .skipped | .resumed =>
    let x := s.awaitResume k i
    some (x.2.leave i x.1)
  | _ => none

/-- The closure that the stop callback of `i` has posted. The awaiter of a call
that is over is gone; `hit` is whether what is read there equals `accept_waiter_`. -/
def cancel (s : Server) (i : CallId) (hit : Bool) : Server :=
  let equal := if (s.call i).stage = .ended then hit else decide (s.slot.waiter = some i)
  if equal then s.wake UV_ECANCELED else s

def drain (s : Server) (hit : Bool) : Option Server :=
  match s.slot.posted with
  | some i :: _ => some ({ s with slot := s.slot.pop }.cancel i hit)
  | none :: _ => some { s with slot := s.slot.pop }
  | [] => none

/-- `close`, up to the waiter that it resumes. -/
def close (s : Server) : Server :=
  if !s.handle then s
  else
    let s := { s with handle := false, listening := false, closing := true }
    if s.slot.waiter.isSome then s.wake UV_ECANCELED else s

/-- The rest of `close`. -/
def closeRest (s : Server) : Server :=
  { s with
    closing := false
    pendingClients := []
    history := { s.history with closed := s.history.closed ++ s.pendingClients } }

end Server

inductive Label
  | accept (i : CallId) (stopPossible : Bool)
  | run (i : CallId)
  | requestStop (i : CallId)
  | stopCallback (i : CallId)
  | drain (hit : Bool)
  | connection (status initRc acceptRc : Int)
  | close
  | closeRest

/-- What the loop does next comes after the call that runs has suspended or is over. -/
def step (k : Kind) (s : Server) : Label → Option Server
  | .accept i stopPossible =>
    if s.slot.running = none ∧ (s.call i).stage = .idle ∧ ((s.call i).stopped → stopPossible) then
      some (s.accept k i stopPossible)
    else none
  | .run i => if s.slot.running = some i then s.run k i else none
  | .requestStop i =>
    if (s.call i).stage = .idle ∨ (s.call i).possible then
      some { s with slot := s.slot.requestStop i }
    else none
  | .stopCallback i =>
    if (s.call i).registered ∧ (s.call i).stopped then
      some { s with slot := s.slot.callback i }
    else none
  | .drain hit => if s.slot.running = none then s.drain hit else none
  | .connection status initRc acceptRc =>
    if s.slot.running = none then some (s.onConnection status initRc acceptRc) else none
  | .close => if s.slot.running = none then some s.close else none
  | .closeRest => if s.slot.running = none ∧ s.closing then some s.closeRest else none

def system (k : Kind) : System Server Label where
  init s := s = {}
  step := step k

end LuvCoro.Accept
