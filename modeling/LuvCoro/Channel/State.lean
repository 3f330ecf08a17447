import Mathlib.Logic.Function.Basic
import Mathlib.Data.List.Basic
import Mathlib.Tactic.Common

/-! # `message_channel`: its state and its lock-protected helpers

Translated from `include/luvcoro/message.hpp`. A waiter is a shared object that
its coroutine, the waiter queues and the ready queues all point to, so waiters
live in a heap indexed by the operation that created them and the queues hold
indices. A helper that runs under the channel's lock maps a `Locked` context:
the state and the out-parameters the source threads by reference. -/
namespace LuvCoro.Channel

universe u

/-- One call of a channel operation; it names the waiter and the timer the call
creates. -/
abbrev OpId := Nat

/-- What an `exception_ptr` of the channel points to. -/
inductive Error where
  | closedError
  | runtimeError (what : String)
  | uvError (code : Int) (op : String)
  deriving DecidableEq, Repr

def Error.what : Error → String
  | .closedError => "message_channel is closed"
  | .runtimeError what => what
  | .uvError _ op => op ++ " failed"

/-- `receiver_waiter`. A handle is modelled by whether it is set; the timer
pointer, when set, points to the waiter's own `timer_state`. -/
structure ReceiverWaiter (T : Type u) where
  continuation : Bool := false
  value : Option T := none
  exception : Option Error := none
  active : Bool := true
  completed : Bool := false
  timedOut : Bool := false
  timer : Bool := false

/-- `sender_waiter`. -/
structure SenderWaiter (T : Type u) where
  continuation : Bool := false
  value : Option T := none
  exception : Option Error := none
  active : Bool := true
  completed : Bool := false

/-- `state`. `async` is whether the `uv_async_t` pointer is set. -/
structure State (T : Type u) where
  capacity : Nat
  messages : List T := []
  receiverWaiters : List OpId := []
  senderWaiters : List OpId := []
  readyReceivers : List OpId := []
  readySenders : List OpId := []
  closed : Bool := false
  handleInitialized : Bool := true
  handleClosing : Bool := false
  async : Bool := true
  receiver : OpId → ReceiverWaiter T := fun _ => {}
  sender : OpId → SenderWaiter T := fun _ => {}

/-- History of the values that pass through, in lock order. It is not part of
the source: nothing in the model reads it. -/
inductive Event (T : Type u) where
  | accepted (sender : OpId) (value : T)
  | taken (receiver : OpId) (value : T)
  | failed (sender : OpId) (value : T)

/-- The lock is held: the state, the out-parameters and the history of the
critical section. -/
structure Locked (T : Type u) where
  state : State T
  wakeLoop : Bool := false
  notifyBlockedSenders : Bool := false
  timersToCancel : List OpId := []
  events : List (Event T) := []

variable {T : Type u}

namespace State

def setReceiver (st : State T) (w : OpId) (f : ReceiverWaiter T → ReceiverWaiter T) : State T :=
  { st with receiver := Function.update st.receiver w (f (st.receiver w)) }

def setSender (st : State T) (w : OpId) (f : SenderWaiter T → SenderWaiter T) : State T :=
  { st with sender := Function.update st.sender w (f (st.sender w)) }

/-- The receivers still waiting, in queue order. -/
def activeReceivers (st : State T) : List OpId :=
  st.receiverWaiters.filter fun w => (st.receiver w).active

/-- The senders still waiting, in queue order. -/
def activeSenders (st : State T) : List OpId :=
  st.senderWaiters.filter fun w => (st.sender w).active

end State

/-! ## Queues -/

/-- `prune_waiters`: only a prefix of inactive waiters is dropped. -/
def pruneWaiters (active : OpId → Bool) (waiters : List OpId) : List OpId :=
  waiters.dropWhile fun w => !active w

def popReceiverWaiterLocked (st : State T) : Option OpId × State T :=
  match pruneWaiters (fun w => (st.receiver w).active) st.receiverWaiters with
  | [] => (none, { st with receiverWaiters := [] })
  | w :: ws => (some w, { st with receiverWaiters := ws })

def popSenderWaiterLocked (st : State T) : Option OpId × State T :=
  match pruneWaiters (fun w => (st.sender w).active) st.senderWaiters with
  | [] => (none, { st with senderWaiters := [] })
  | w :: ws => (some w, { st with senderWaiters := ws })

def hasWaitingReceiversLocked (st : State T) : Bool × State T :=
  let ws := pruneWaiters (fun w => (st.receiver w).active) st.receiverWaiters
  (!ws.isEmpty, { st with receiverWaiters := ws })

def hasWaitingSendersLocked (st : State T) : Bool × State T :=
  let ws := pruneWaiters (fun w => (st.sender w).active) st.senderWaiters
  (!ws.isEmpty, { st with senderWaiters := ws })

def hasBufferCapacityLocked (st : State T) : Bool :=
  st.capacity == 0 || st.messages.length < st.capacity

def canSendNowLocked (st : State T) : Bool × State T :=
  if st.closed || st.handleClosing then (false, st)
  else
    let (waiting, st) := hasWaitingSendersLocked st
    if waiting then (false, st)
    else
      let (receivers, st) := hasWaitingReceiversLocked st
      (receivers || hasBufferCapacityLocked st, st)

/-! ## Completing a waiter -/

def completeReceiverValueLocked (l : Locked T) (w : OpId) (value : T) : Locked T :=
  let r := l.state.receiver w
  let st := l.state.setReceiver w fun r =>
    { r with active := false, completed := true, timedOut := false, value := some value,
             timer := false }
  { l with
    timersToCancel := if r.timer then l.timersToCancel ++ [w] else l.timersToCancel
    state := if r.continuation then { st with readyReceivers := st.readyReceivers ++ [w] } else st
    events := l.events ++ [.taken w value] }

def completeReceiverExceptionLocked (l : Locked T) (w : OpId) (exception : Error) : Locked T :=
  let r := l.state.receiver w
  let st := l.state.setReceiver w fun r =>
    { r with active := false, completed := true, exception := some exception, timer := false }
  { l with
    timersToCancel := if r.timer then l.timersToCancel ++ [w] else l.timersToCancel
    state := if r.continuation then { st with readyReceivers := st.readyReceivers ++ [w] } else st }

def completeSenderLocked (l : Locked T) (w : OpId) : Locked T :=
  let st := l.state.setSender w fun s => { s with active := false, completed := true }
  { l with
    state := if (l.state.sender w).continuation then
      { st with readySenders := st.readySenders ++ [w] } else st }

def completeSenderExceptionLocked (l : Locked T) (w : OpId) (exception : Error) : Locked T :=
  let st := l.state.setSender w fun s =>
    { s with active := false, completed := true, exception := some exception }
  { l with
    state := if (l.state.sender w).continuation then
      { st with readySenders := st.readySenders ++ [w] } else st
    events := l.events ++ ((l.state.sender w).value.toList.map (.failed w)) }

/-- `sender->value.reset()` and `complete_sender_locked`, which stand together
wherever a parked value is moved out. -/
def releaseSenderLocked (l : Locked T) (w : OpId) : Locked T :=
  completeSenderLocked { l with state := l.state.setSender w fun s => { s with value := none } } w

/-! ## Moving values -/

/-- `place_send_locked`, for the value of the send operation `i`. -/
def placeSendLocked (l : Locked T) (i : OpId) (value : T) : Locked T :=
  let l := { l with events := l.events ++ [Event.accepted i value] }
  match popReceiverWaiterLocked l.state with
  | (some w, st) =>
    { completeReceiverValueLocked { l with state := st } w value with wakeLoop := true }
  | (none, st) => { l with state := { st with messages := st.messages ++ [value] } }

/-- The first loop of `pump_locked`. Every turn that goes on has removed a
receiver from the queue, so the length of the queue is enough fuel. -/
def pumpReceivers : Nat → Locked T → Locked T
  | 0, l => l
  | fuel + 1, l =>
    match popReceiverWaiterLocked l.state with
    | (none, st) => { l with state := st }
    | (some w, st) =>
      match st.messages with
      | value :: ms =>
        let l := completeReceiverValueLocked { l with state := { st with messages := ms } } w value
        pumpReceivers fuel { l with wakeLoop := true, notifyBlockedSenders := true }
      | [] =>
        match popSenderWaiterLocked st with
        | (some s, st) =>
          match (st.sender s).value with
          | some value =>
            let l := completeReceiverValueLocked { l with state := st } w value
            pumpReceivers fuel { releaseSenderLocked l s with wakeLoop := true }
          | none => { l with state := st } -- `*sender->value` of a queued sender is never empty
        | (none, st) =>
          { l with state := { st with receiverWaiters := w :: st.receiverWaiters } }

/-- The second loop of `pump_locked`, with the sender queue as fuel. -/
def pumpSenders : Nat → Locked T → Locked T
  | 0, l => l
  | fuel + 1, l =>
    if hasBufferCapacityLocked l.state then
      match popSenderWaiterLocked l.state with
      | (none, st) => { l with state := st }
      | (some s, st) =>
        match (st.sender s).value with
        | some value =>
          let l := { l with state := { st with messages := st.messages ++ [value] } }
          pumpSenders fuel { releaseSenderLocked l s with wakeLoop := true }
        | none => { l with state := st }
    else l

def pumpLocked (l : Locked T) : Locked T :=
  let l := pumpReceivers l.state.receiverWaiters.length l
  pumpSenders l.state.senderWaiters.length l

/-- `try_recv_locked`: whether `w` was completed. -/
def tryRecvLocked (l : Locked T) (w : OpId) : Bool × Locked T :=
  match l.state.messages with
  | value :: ms =>
    let l := completeReceiverValueLocked { l with state := { l.state with messages := ms } } w value
    (true, { pumpLocked l with notifyBlockedSenders := true })
  | [] =>
    match popSenderWaiterLocked l.state with
    | (some s, st) =>
      match (st.sender s).value with
      | some value =>
        let l := completeReceiverValueLocked { l with state := st } w value
        (true, { releaseSenderLocked l s with wakeLoop := true })
      | none => (false, { l with state := st })
    | (none, st) =>
      let l := { l with state := st }
      if st.closed || st.handleClosing then
        (true, completeReceiverExceptionLocked l w .closedError)
      else (false, l)

end LuvCoro.Channel
