import LuvCoro.Channel.State

/-! # The critical sections of the channel's operations

What each public operation, awaiter step and timer step does between taking the
channel's lock and releasing it. -/
namespace LuvCoro.Channel

universe u
variable {T : Type u}

def closedMessage : String := "message_channel is closed"

def notInitializedMessage : String := "message_channel is not initialized"

def wouldBlockMessage : String :=
  "message_channel::send would block on the runtime thread; use async_send"

/-! ## Sending -/

inductive SendOutcome where
  | throws (e : Error)
  | full
  | placed
  deriving DecidableEq, Repr

/-- The section of `try_send_impl`, and of `blocking_send` up to the first
`can_send_now_locked`. -/
def trySendLocked (st : State T) (i : OpId) (value : T) : SendOutcome × Locked T :=
  if st.closed || st.handleClosing then
    (.throws (.runtimeError closedMessage), { state := st })
  else if !st.handleInitialized || !st.async then
    (.throws (.runtimeError notInitializedMessage), { state := st })
  else
    let (ok, st) := canSendNowLocked st
    if ok then (.placed, placeSendLocked { state := st } i value)
    else (.full, { state := st })

/-- `blocking_send` when `send_cv.wait` has the lock again: the predicate is
evaluated, and `full` goes back to sleep. -/
def wokenSendLocked (st : State T) (i : OpId) (value : T) : SendOutcome × Locked T :=
  if st.closed || st.handleClosing then
    (.throws (.runtimeError closedMessage), { state := st })
  else
    let (ok, st) := canSendNowLocked st
    if ok then (.placed, placeSendLocked { state := st } i value)
    else (.full, { state := st })

/-- Fail or place the value of `async_send` at once; `false` if it has to wait.
Both awaiter steps begin with this. -/
def asyncSendAttempt (st : State T) (i : OpId) : Bool × Locked T :=
  if st.closed || st.handleClosing then
    (true, { state := st.setSender i fun s =>
      { s with exception := some .closedError, completed := true } })
  else if !st.handleInitialized || !st.async then
    (true, { state := st.setSender i fun s =>
      { s with exception := some (.runtimeError notInitializedMessage), completed := true } })
  else
    let (ok, st) := canSendNowLocked st
    if ok then
      match (st.sender i).value with
      | some value =>
        let l := placeSendLocked { state := st } i value
        (true, { l with state := l.state.setSender i fun s =>
          { s with value := none, completed := true } })
      | none => (false, { state := st }) -- the awaiter's own value is there until it is moved out
    else (false, { state := st })

/-- `async_send`: `await_ready`. -/
def asyncSendReadyLocked (st : State T) (i : OpId) : Bool × Locked T := asyncSendAttempt st i

/-- `async_send`: `await_suspend`, with the continuation stored before the lock
is taken. The result is what `await_suspend` returns. -/
def asyncSendSuspendLocked (st : State T) (i : OpId) : Bool × Locked T :=
  let st := st.setSender i fun s => { s with continuation := true }
  match asyncSendAttempt st i with
  | (true, l) => (false, l)
  | (false, l) =>
    (true, { l with
      state := { l.state with senderWaiters := l.state.senderWaiters ++ [i] }
      events := l.events ++ ((l.state.sender i).value.toList.map (.accepted i)) })

/-! ## Receiving -/

/-- `recv`: `await_ready`. -/
def recvReadyLocked (st : State T) (i : OpId) : Bool × Locked T := tryRecvLocked { state := st } i

/-- `recv`: `await_suspend`. The continuation is set before the queue is looked
at again. -/
def recvSuspendLocked (st : State T) (i : OpId) : Bool × Locked T :=
  let st := st.setReceiver i fun r => { r with continuation := true }
  match tryRecvLocked { state := st } i with
  | (true, l) => (false, l)
  | (false, l) =>
    (true, { l with state := { l.state with receiverWaiters := l.state.receiverWaiters ++ [i] } })

/-- `recv_for` gives up at once when its timeout is not positive. -/
def expireLocked (l : Locked T) (i : OpId) : Locked T :=
  { l with state := l.state.setReceiver i fun r => { r with completed := true, timedOut := true } }

/-- `recv_for`: `await_ready`. -/
def recvForReadyLocked (st : State T) (i : OpId) (timeout : Int) : Bool × Locked T :=
  match tryRecvLocked { state := st } i with
  | (true, l) => (true, l)
  | (false, l) => if timeout ≤ 0 then (true, expireLocked l i) else (false, l)

/-- `recv_for`: the locked part of `await_suspend`. `false` is returned to the
coroutine at once; after `true` the timer start is still to be posted. -/
def recvForSuspendLocked (st : State T) (i : OpId) (timeout : Int) : Bool × Locked T :=
  let st := st.setReceiver i fun r => { r with continuation := true }
  match tryRecvLocked { state := st } i with
  | (true, l) => (false, l)
  | (false, l) =>
    if timeout ≤ 0 then (false, expireLocked l i)
    else
      let st := l.state.setReceiver i fun r => { r with timer := true }
      (true, { l with state := { st with receiverWaiters := st.receiverWaiters ++ [i] } })

/-- Take a waiter that is still waiting out of the race with an outcome, and
queue its resumption whether or not it has a continuation. -/
def expelReceiverLocked (st : State T) (i : OpId)
    (f : ReceiverWaiter T → ReceiverWaiter T) : Bool × State T :=
  let r := st.receiver i
  if r.active && !r.completed then
    let st := st.setReceiver i fun r =>
      { f r with active := false, completed := true, timer := false }
    (true, { st with readyReceivers := st.readyReceivers ++ [i] })
  else (false, st)

/-- `recv_for`: the `catch` around the post of the timer start. -/
def recvForPostFailedLocked (st : State T) (i : OpId) (e : Error) : Bool × State T :=
  expelReceiverLocked st i fun r => { r with exception := some e }

/-- `timer_state::fire`. -/
def fireLocked (st : State T) (i : OpId) : Bool × State T :=
  expelReceiverLocked st i fun r => { r with timedOut := true }

/-- `timer_state::fail`. -/
def failLocked (st : State T) (i : OpId) (e : Error) : Bool × State T :=
  expelReceiverLocked st i fun r => { r with exception := some e }

/-- What `try_recv` and `blocking_next` share: the oldest buffered value, else
the value of a parked sender. -/
def takeLocked (st : State T) (i : OpId) : Option T × Locked T :=
  match st.messages with
  | value :: ms =>
    (some value, pumpLocked { state := { st with messages := ms }, events := [.taken i value] })
  | [] =>
    match popSenderWaiterLocked st with
    | (some s, st) =>
      match (st.sender s).value with
      | some value =>
        let l := releaseSenderLocked { state := st, events := [.taken i value] } s
        (some value, { l with wakeLoop := true, notifyBlockedSenders := true })
      | none => (none, { state := st })
    | (none, st) => (none, { state := st })

/-- `try_recv`. -/
def tryRecvSection (st : State T) (i : OpId) : Option T × Locked T := takeLocked st i

inductive NextOutcome (T : Type u) where
  | value (v : T)
  | closed
  | wait

/-- `blocking_next`. -/
def blockingNextSection (st : State T) (i : OpId) : NextOutcome T × Locked T :=
  match takeLocked st i with
  | (some v, l) => (.value v, l)
  | (none, l) => if l.state.closed || l.state.handleClosing then (.closed, l) else (.wait, l)

/-! ## Closing -/

/-- `while (auto receiver = pop_receiver_waiter_locked(*state))` of `close`. -/
def closeReceivers : Nat → Locked T → Locked T
  | 0, l => l
  | fuel + 1, l =>
    match popReceiverWaiterLocked l.state with
    | (none, st) => { l with state := st }
    | (some w, st) =>
      closeReceivers fuel (completeReceiverExceptionLocked { l with state := st } w .closedError)

/-- `while (auto sender = pop_sender_waiter_locked(*state))` of `close`. -/
def closeSenders : Nat → Locked T → Locked T
  | 0, l => l
  | fuel + 1, l =>
    match popSenderWaiterLocked l.state with
    | (none, st) => { l with state := st }
    | (some s, st) =>
      closeSenders fuel (completeSenderExceptionLocked { l with state := st } s .closedError)

/-- `close`: whether the closing of the handle is still to be scheduled. -/
def closeLocked (st : State T) : Bool × Locked T :=
  let l : Locked T := { state := { st with closed := true } }
  let l := closeReceivers l.state.receiverWaiters.length l
  let l := closeSenders l.state.senderWaiters.length l
  (!l.state.handleClosing, { l with state := { l.state with handleClosing := true } })

/-- The swap of `flush_ready_waiters`: receivers are resumed before senders. -/
def swapReadyLocked (st : State T) : (List OpId × List OpId) × State T :=
  ((st.readyReceivers, st.readySenders), { st with readyReceivers := [], readySenders := [] })

end LuvCoro.Channel
