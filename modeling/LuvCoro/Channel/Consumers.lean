import LuvCoro.Channel.Results

/-! # The loops over a channel's messages

Translated from `include/luvcoro/message.hpp`: the generators `messages`,
`messages_for` and `messages_until`, whose `async_message`s a loop awaits, and the
`blocking_iterator`. Any number of loops run over one channel beside all its other
operations. A loop makes one call after another; between two calls its body has
the message, and may leave the loop. -/
namespace LuvCoro.Channel.Consumers

open Transition

universe u

/-- The kind of a loop, with its timeout or poll interval in milliseconds. -/
inductive Mode where
  | messages
  | messagesFor (timeout : Int)
  | messagesUntil (pollInterval : Int)
  | blocking
  deriving DecidableEq

/-- `messages_until` and `recv_until_stop_task` poll at least every millisecond. -/
def pollMs (pollInterval : Int) : Int := if pollInterval ≤ 0 then 1 else pollInterval

variable {T : Type u}

/-- The call that awaits the next message. A `messages_until` whose message is awaited by
`recv_for_task` itself has the poll interval once, which is the same time. -/
def Mode.call : Mode → Call T
  | .messages => .next
  | .messagesFor timeout => .recvFor timeout
  | .messagesUntil pollInterval => .recvFor (pollMs (pollMs pollInterval))
  | .blocking => .blockingNext

/-- Where a loop stands. `message` is the choice that the `operator co_await` of an
`async_message` makes, and `untilStop` the test of `recv_until_stop_task`. -/
inductive Phase (T : Type u) where
  | generator
  | message
  | untilStop
  | awaiting (i : OpId)
  | body (message : Option T)
  | finished
  | failed (e : Error)

/-- A loop. `stopToken` and `stopPossible` are what its stop token answers to
`stop_requested` and `stop_possible`, and `retries` is whether the message is awaited by
`recv_until_stop_task`. `stopRequested` is the flag its generator shares with its messages,
or whether the iterator has reset its `state_`; `got` and `calls` are the messages
the body was given and the calls that were made, oldest first. -/
structure Consumer (T : Type u) where
  mode : Mode
  stopToken : Bool := false
  stopPossible : Bool := true
  retries : Bool := false
  stopRequested : Bool := false
  phase : Phase T := .generator
  calls : List OpId := []
  got : List T := []

/-- A channel and the loops over it. -/
structure Loops (T : Type u) where
  sys : Sys T
  consumer : Nat → Consumer T

namespace Consumer

/-- The next message, or its absence, comes to the loop. The iterator that has no
value is equal to `end()`, so the body does not see it. -/
def deliver (c : Consumer T) (message : Option T) : Consumer T :=
  { c with
    got := c.got ++ message.toList
    stopRequested := c.stopRequested || message.isNone
    phase := if c.mode = .blocking ∧ message.isNone then .generator else .body message }

/-- The call of the loop is over: what its `await_resume` makes of the result. -/
def resume (c : Consumer T) (r : Result T) : Consumer T :=
  match c.retries, r with
  | true, .value none => { c with phase := .untilStop }
  | true, .thrown .closedError => c.deliver none
  | _, .value message => c.deliver message
  | _, .thrown e => { c with phase := .failed e }
  | _, .unit | _, .sent _ => c -- a receive has no such result

end Consumer

namespace Loops

def set (s : Loops T) (c : Nat) (x : Consumer T) : Loops T :=
  { s with consumer := Function.update s.consumer c x }

/-- The loop makes its next call, of which `i` is the name. -/
def begin (s : Loops T) (c : Nat) (i : OpId) (loop : Bool) : Option (Loops T) :=
  let x := s.consumer c
  (step s.sys (.start i loop x.mode.call)).map fun sys =>
    { s with sys := sys }.set c { x with phase := .awaiting i, calls := x.calls ++ [i] }

/-- The next step of a loop; a call it makes is named `i`. -/
def advance (s : Loops T) (c : Nat) (i : OpId) (loop : Bool) : Option (Loops T) :=
  let x := s.consumer c
  match x.phase with
  | .generator =>
    if x.stopRequested then some (s.set c { x with phase := .finished })
    else
      match x.mode with
      | .messagesUntil _ =>
        if x.stopToken then some (s.set c { x with phase := .finished })
        else some (s.set c { x with retries := false, phase := .message })
      | _ => s.begin c i loop
  | .message =>
    -- a token without a source will never ask for a stop
    if x.stopPossible then some (s.set c { x with retries := true, phase := .untilStop })
    else s.begin c i loop
  | .untilStop => if x.stopToken then some (s.set c (x.deliver none)) else s.begin c i loop
  | .awaiting j =>
    match s.sys.pc j with
    | .done r => some (s.set c (x.resume r))
    | _ => none
  | .body _ => some (s.set c { x with phase := .generator })
  | .finished | .failed _ => none

/-- The body leaves the loop: it breaks, returns or throws. -/
def leave (s : Loops T) (c : Nat) : Option (Loops T) :=
  match (s.consumer c).phase with
  | .body _ => some (s.set c { s.consumer c with phase := .finished })
  | _ => none

end Loops

inductive Label (T : Type u) where
  | chan (l : Channel.Label T)
  | advance (c : Nat) (i : OpId) (loop : Bool)
  | leave (c : Nat)
  | requestStop (c : Nat)
  /-- The last stop source of the loop's token goes away. -/
  | loseSource (c : Nat)

def Loops.step (s : Loops T) : Label T → Option (Loops T)
  | .chan l => (Channel.step s.sys l).map fun sys => { s with sys := sys }
  | .advance c i loop => s.advance c i loop
  | .leave c => s.leave c
  | .requestStop c =>
    if (s.consumer c).stopPossible then
      some (s.set c { s.consumer c with stopToken := true })
    else none
  | .loseSource c =>
    if (s.consumer c).stopToken then none
    else some (s.set c { s.consumer c with stopPossible := false })

/-- A new channel of any capacity, with loops of any kinds over it, whose stop tokens have
a source or not. -/
def loops (T : Type u) : System (Loops T) (Label T) where
  init s := ∃ (capacity : Nat) (mode : Nat → Mode) (possible : Nat → Bool),
    s = { sys := Sys.new capacity,
          consumer := fun c => { mode := mode c, stopPossible := possible c } }
  step := Loops.step

end LuvCoro.Channel.Consumers
