import Mathlib.Algebra.Group.Nat.Defs
import Mathlib.Data.List.Count
import Mathlib.Logic.Function.Basic
import LuvCoro.Request.System

/-! # Reading from one handle

`stream_read_some_into` and `recv_from_into` share one awaiter. Any number of
reads may be under way on a handle; its `data` points to the state of the one
that libuv reads for. Translated from `src/stream_ops.hpp`, `src/tcp.cpp`,
`src/pipe.cpp`, `src/tty.cpp` and `src/udp.cpp`; posts are accepted, that is the
runtime is not being shut down, and a client is connected (a terminal readable,
a socket bound) before it is read from. -/
namespace LuvCoro.Stream

open Transition
open Request (Error Pc UV_ECANCELED UV_EBUSY UV_EINVAL)

def UV_EOF : Int := -4095

inductive Kind
  | tcpClient | pipeClient | ttyStream | udpSocket
  deriving DecidableEq

/-- Whether the closures look the handle up in the object that is read from; the
ones of a stream keep a pointer to the handle. -/
def Kind.isSocket : Kind → Bool
  | .udpSocket => true
  | _ => false

def Kind.notOpen : Kind → String
  | .tcpClient => "tcp client is not connected"
  | .pipeClient => "pipe client is not connected"
  | .ttyStream => "tty stream is not open"
  | .udpSocket => "udp socket handle is null"

/-- A `sockaddr_storage`, with its address as text. -/
inductive Sockaddr
  | inet (ip : String) (port : Nat)
  | inet6 (ip : String) (port : Nat)
  | other
  deriving DecidableEq

structure Endpoint where
  address : String
  port : Nat
  ipv6 : Bool
  deriving DecidableEq

/-- What a reader gets: so much of its buffer, and the peer of a datagram. -/
structure Received (β : Type) where
  bytes : List β
  peer : Option Endpoint := none
  deriving DecidableEq

variable {β : Type}

def makeReceiveResult (bytes : List β) : Sockaddr → Except Error (Received β)
  | .inet ip port => .ok { bytes, peer := some ⟨ip, port, false⟩ }
  | .inet6 ip port => .ok { bytes, peer := some ⟨ip, port, true⟩ }
  | .other => .error (.runtimeError "unsupported udp address family")

/-- A read: the caller's buffer and stop token, the shared `state`, and what the
coroutine was resumed with, and how often. `started` is whether libuv was asked
to read for it, and `stale` whether `await_suspend` has used its awaiter after the
read was over. `stream_read_some` is a read into a buffer of its own. -/
structure Op (β : Type) where
  buffer : List β
  stopPossible : Bool
  stopRequested : Bool
  pc : Pc := .entering
  continuation : Bool := false
  keepAlive : Bool := false
  stopCallback : Bool := false
  completed : Bool := false
  status : Int := 0
  nread : Nat := 0
  addr : Option Sockaddr := none
  cancelRequested : Bool := false
  started : Bool := false
  stale : Bool := false
  outcome : Option (Except Error (Received β)) := none
  resumed : Nat := 0

namespace Op

def awaitResume (k : Kind) (o : Op β) : Except Error (Received β) :=
  if o.status = UV_ECANCELED ∨ (o.cancelRequested ∧ o.status = 0) then .error .operationCancelled
  else if o.status < 0 ∧ (k.isSocket ∨ o.status ≠ UV_EOF) then .error (.uvError o.status)
  else if k.isSocket then
    match o.addr with
    | none => .error (.runtimeError "udp recv_from missing peer address")
    | some addr => makeReceiveResult (o.buffer.take o.nread) addr
  else .ok { bytes := o.buffer.take o.nread }

/-- The coroutine goes on without having been suspended. -/
def decline (o : Op β) (r : Except Error (Received β)) : Op β :=
  { o with pc := .done, outcome := some r, resumed := o.resumed + 1 }

/-- `state::complete`, up to what follows the coroutine that it resumes: that is
`release`, since the coroutine may do anything before it. -/
def complete (k : Kind) (o : Op β) : Op β :=
  if o.completed then o
  else
    { o with
      completed := true
      continuation := false
      outcome := if o.continuation then some (o.awaitResume k) else o.outcome
      resumed := if o.continuation then o.resumed + 1 else o.resumed
      pc := if o.pc = .suspended then .done else o.pc }

def release (o : Op β) : Op β := { o with stopCallback := false, keepAlive := false }

/-- The read is under way: its coroutine waits, or is about to. -/
def Pending (o : Op β) : Prop := o.pc ≠ .entering ∧ o.pc ≠ .done ∧ o.completed = false

instance (o : Op β) : Decidable o.Pending := inferInstanceAs (Decidable (_ ∧ _ ∧ _))

end Op

/-- The closures of a read, and the one of `close`. -/
inductive Posted
  | start (i : Nat)
  | cancel (i : Nat)
  | close
  deriving DecidableEq

inductive Handle
  | opened | closing | deleted
  deriving DecidableEq

/-- A call of the read callback. -/
inductive Event (β : Type)
  | data (bytes : List β) (addr : Option Sockaddr)
  | empty
  | eof
  | error (code : Int)

namespace Event

/-- libuv fills no more than the buffer that it was given, whose length passed
through an `unsigned int`. -/
def fits (o : Op β) : Event β → Bool
  | .data bytes _ => !bytes.isEmpty && decide (bytes.length ≤ o.buffer.length % 2 ^ 32)
  | .error code => decide (code < 0)
  | _ => true

def batch : Event β → List (List β)
  | .data bytes _ => [bytes]
  | _ => []

end Event

/-- What the read callback stores in the state of the reader; `none` when it is
called with no byte and does nothing. -/
def Op.record (k : Kind) (o : Op β) : Event β → Option (Op β)
  | .data bytes addr => some { o with
      buffer := bytes ++ o.buffer.drop bytes.length
      status := 0
      nread := bytes.length
      addr := if k.isSocket then addr else o.addr }
  | .empty => none
  | .eof => some { o with status := UV_EOF, nread := 0 }
  | .error code => some { o with status := code, nread := 0 }

/-- `attached` is whether `handle_` points to the handle, and `data` whose state
the `data` of the handle points to. `delivered` has the batches libuv has read,
and `fault` is whether something that is not there was used. -/
structure Sys (β : Type) where
  ops : Nat → Op β
  attached : Bool := true
  handle : Handle := .opened
  data : Option Nat := none
  reading : Bool := false
  posted : List Posted := []
  delivered : List (List β) := []
  fault : Bool := false

/-- A closure is run with the answer of `uv_read_start`. -/
inductive Label (β : Type)
  | run (i : Nat)
  | requestStop (i : Nat)
  | stopCallback (i : Nat)
  | release (i : Nat)
  | runPosted (rc : Int)
  | event (e : Event β)
  | close
  | closeCallback

namespace Sys

def set (s : Sys β) (i : Nat) (o : Op β) : Sys β := { s with ops := Function.update s.ops i o }

def post (s : Sys β) (p : Posted) : Sys β := { s with posted := s.posted ++ [p] }

/-- What a closure reaches the handle by is null, or the handle is deleted. -/
def dangling (k : Kind) (s : Sys β) : Bool :=
  if k.isSocket then !s.attached else s.handle == .deleted

/-- The closure that starts a read. -/
def start (k : Kind) (s : Sys β) (i : Nat) (rc : Int) : Sys β :=
  let o := s.ops i
  if o.completed then s
  else if s.dangling k then { s with fault := true }
  else if s.data.isSome then s.set i ({ o with status := UV_EBUSY }.complete k)
  else
    -- `uv_read_start` refuses a handle that is being closed
    let rc := if s.handle = .opened then rc else UV_EINVAL
    if rc < 0 then { s with data := none }.set i ({ o with status := rc }.complete k)
    else { s with data := some i, reading := true }.set i { o with started := true }

/-- The closure that cancels it. -/
def cancel (k : Kind) (s : Sys β) (i : Nat) : Sys β :=
  let o := s.ops i
  if o.completed then s
  else if s.dangling k then { s with fault := true }
  else
    let s := if s.data = some i then { s with data := none, reading := false } else s
    s.set i ({ o with cancelRequested := true, status := UV_ECANCELED }.complete k)

/-- The allocation callback and the read callback. The first takes the buffer of
the reader, which has to be there; the second looks whether it is. -/
def event (k : Kind) (s : Sys β) (e : Event β) : Option (Sys β) :=
  match s.data with
  | none => some { s with fault := true }
  | some i =>
    if e.fits (s.ops i) then
      match (s.ops i).record k e with
      | none => some s
      | some o =>
        some ({ s with
          delivered := s.delivered ++ e.batch
          data := none
          reading := false }.set i (o.complete k))
    else none

/-- The `close` of a client or of a socket. -/
def close (s : Sys β) : Sys β := if s.attached then { s with attached := false }.post .close else s

/-- The closure that it posts: the handle stops reading without a callback. -/
def uvClose (s : Sys β) : Sys β :=
  if s.handle = .opened then { s with handle := .closing, reading := false } else s

end Sys

/-- The call of a reading function, to the end of `await_suspend`. -/
def run (k : Kind) (s : Sys β) (i : Nat) : Option (Sys β) :=
  let o := s.ops i
  match o.pc with
  | .entering =>
    if !s.attached then some (s.set i (o.decline (.error (.runtimeError k.notOpen))))
    else if o.buffer.isEmpty then
      let r := if k.isSocket then
          .error (.runtimeError "recv_from_into buffer must not be empty")
        else .ok { bytes := [] }
      some (s.set i (o.decline r))
    else if o.stopRequested then
      let o := { o with cancelRequested := true, status := UV_ECANCELED }
      some (s.set i (o.decline (o.awaitResume k)))
    else
      some (s.set i { o with
        continuation := true
        keepAlive := true
        pc := if o.stopPossible then .registering else .posting })
  | .registering =>
    if o.stopRequested then some ((s.set i { o with pc := .posting }).post (.cancel i))
    else some (s.set i { o with stopCallback := true, pc := .posting })
  | .posting =>
    -- the awaiter of a read that is over is gone, and `shared_state` with it
    if o.completed then some (s.set i { o with stale := true, pc := .done })
    else some ((s.set i { o with pc := .suspended }).post (.start i))
  | _ => none

/-- A terminal is closed by a `call`, which is not modelled. -/
def step (k : Kind) (s : Sys β) : Label β → Option (Sys β)
  | .run i => run k s i
  | .requestStop i =>
    if (s.ops i).stopPossible then some (s.set i { s.ops i with stopRequested := true }) else none
  | .stopCallback i =>
    if (s.ops i).stopRequested && (s.ops i).stopCallback then
      some ((s.set i { s.ops i with stopCallback := false }).post (.cancel i))
    else none
  | .release i => if (s.ops i).completed then some (s.set i (s.ops i).release) else none
  | .runPosted rc =>
    match s.posted with
    | [] => none
    | .start i :: ps => some ({ s with posted := ps }.start k i rc)
    | .cancel i :: ps => some ({ s with posted := ps }.cancel k i)
    | .close :: ps => some { s with posted := ps }.uvClose
  | .event e => if s.reading then s.event k e else none
  | .close => if k = .ttyStream then none else some s.close
  | .closeCallback => if s.handle = .closing then some { s with handle := .deleted } else none

/-- A read that has not been called yet. -/
structure Op.Initial (o : Op β) : Prop where
  token : o.stopRequested = true → o.stopPossible = true
  eq : o = { buffer := o.buffer, stopPossible := o.stopPossible, stopRequested := o.stopRequested }

def system (β : Type) (k : Kind) : System (Sys β) (Label β) where
  init s := (∀ i, (s.ops i).Initial) ∧ s = { ops := s.ops }
  step := step k

/-- `close` harms no reader: every read under way is one of a stream, and the
closure that cancels it is already queued. -/
def Harmless (k : Kind) (s : Sys β) (l : Label β) : Prop :=
  l = .close → ∀ i, (s.ops i).Pending → k.isSocket = false ∧ Posted.cancel i ∈ s.posted

/-- The closure that cancels a read does not run, on the loop thread, while another
thread is still in its `await_suspend`. -/
def Orderly (s : Sys β) (l : Label β) : Prop :=
  ∀ rc i ps, l = .runPosted rc → s.posted = .cancel i :: ps →
    (s.ops i).pc = .suspended ∨ (s.ops i).pc = .done

end LuvCoro.Stream
