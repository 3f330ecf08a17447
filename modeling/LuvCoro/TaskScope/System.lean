import LuvCoro.Channel.System

/-! # `task_scope`

Translated from `include/luvcoro/task_scope.hpp`. A scope counts its children,
each of which runs in `run_child`, and `join` waits for the count on the channel
`completions`, which has no capacity limit. All their steps interleave with
those of the channel. -/
namespace LuvCoro.TaskScope

open Transition LuvCoro.Channel

universe u

/-- Where a child is in `run_child`; `E` are the exceptions of tasks. -/
inductive Child (E : Type u) where
  | running
  /-- In the catch block, before its lock and after it. -/
  | failed (e : E)
  | recorded
  /-- About to count itself out. -/
  | finished
  /-- Counted out, as the last one or not. -/
  | close
  | asyncSend
  /-- In its call on `completions`, after which it returns. -/
  | closing (i : OpId)
  | sending (i : OpId)

/-- How a call of `join` ends. -/
inductive JoinResult (E : Type u) where
  | completed
  | childFailed (e : E)
  | operationCancelled
  | thrown (e : Error)

inductive JoinPc (E : Type u) where
  | idle
  /-- `emplace` runs the stop callback, which is in its `send`. -/
  | stopCallback (i : OpId)
  /-- At the head of the loop, and at its lock. -/
  | loop
  | check
  | recv
  | receiving (i : OpId)
  /-- In the catch block of the loop. -/
  | caught (e : Error)
  | done (r : JoinResult E)

/-- A call of `join`, with the state of the stop token it is given. -/
structure Join (E : Type u) where
  pc : JoinPc E := .idle
  stopPossible : Bool := false
  stopRequested : Bool := false
  cancelled : Bool := false

structure Scope (E : Type u) where
  completions : Sys Unit
  active : Nat := 0
  firstException : Option E := none
  /-- Whether `stop_source` was requested to stop. -/
  stopRequested : Bool := false
  /-- In the order of `spawn`. -/
  children : List (Child E) := []
  joins : Nat → Join E := fun _ => {}

/-- `i` is the channel operation that the step begins, if it does, and `loop`
whether it is taken on the loop thread. -/
inductive Label (E : Type u) where
  | spawn
  /-- The task of child `k` returns or throws. -/
  | finish (k : Nat) (thrown : Option E)
  | child (k : Nat) (i : OpId) (loop : Bool)
  | join (j : Nat) (stopPossible : Bool) (i : OpId) (loop : Bool)
  | joinStep (j : Nat) (i : OpId) (loop : Bool)
  | requestStop (j : Nat) (i : OpId) (loop : Bool)
  | completions (l : Channel.Label Unit)

variable {E : Type u}

namespace Scope

def setChild (s : Scope E) (k : Nat) (c : Child E) : Scope E :=
  { s with children := s.children.set k c }

def setJoin (s : Scope E) (j : Nat) (x : Join E) : Scope E :=
  { s with joins := Function.update s.joins j x }

def chanStep (s : Scope E) (l : Channel.Label Unit) : Option (Scope E) :=
  (Channel.step s.completions l).map fun c => { s with completions := c }

/-- A call on `completions` begins. -/
def call (s : Scope E) (i : OpId) (loop : Bool) (call : Call Unit) : Option (Scope E) :=
  s.chanStep (.start i loop call)

/-- What `join` does when it finds nobody active. -/
def outcome (s : Scope E) (cancelled : Bool) : JoinResult E :=
  match s.firstException with
  | some e => .childFailed e
  | none => if cancelled then .operationCancelled else .completed

end Scope

/-- `spawn_impl`. The child may take any number of its steps before the caller
goes on. -/
def spawn (s : Scope E) : Scope E :=
  { s with active := s.active + 1, children := s.children ++ [.running] }

/-- `co_await task` ends in `run_child`. -/
def finish (s : Scope E) (k : Nat) (thrown : Option E) : Option (Scope E) :=
  match s.children[k]? with
  | some .running =>
    match thrown with
    | some e => some (s.setChild k (.failed e))
    | none => some (s.setChild k .finished)
  | _ => none

/-- The next step of `run_child`. -/
def runChild (s : Scope E) (k : Nat) (i : OpId) (loop : Bool) : Option (Scope E) :=
  match s.children[k]? with
  | some (.failed e) =>
    some ({ s with firstException := some (s.firstException.getD e) }.setChild k .recorded)
  | some .recorded => some ({ s with stopRequested := true }.setChild k .finished)
  | some .finished =>
    let active := s.active - 1
    some ({ s with active := active }.setChild k (if active == 0 then .close else .asyncSend))
  | some .close => (s.call i loop .close).map fun s => s.setChild k (.closing i)
  | some .asyncSend => (s.call i loop (.asyncSend ())).map fun s => s.setChild k (.sending i)
  | _ => none

/-- `join` is called. The stop callback runs at once when the token has been
requested to stop. -/
def startJoin (s : Scope E) (j : Nat) (stopPossible : Bool) (i : OpId) (loop : Bool) :
    Option (Scope E) :=
  let x := { s.joins j with stopPossible := stopPossible }
  match x.pc with
  | .idle =>
    if stopPossible && x.stopRequested then
      (Scope.call { s with stopRequested := true } i loop (.send ())).map fun s =>
        s.setJoin j { x with pc := .stopCallback i }
    else some (s.setJoin j { x with pc := .loop })
  | _ => none

/-- The next step of `join`. -/
def runJoin (s : Scope E) (j : Nat) (i : OpId) (loop : Bool) : Option (Scope E) :=
  let x := s.joins j
  match x.pc with
  | .stopCallback i =>
    match s.completions.pc i with
    | .done _ => some (s.setJoin j { x with pc := .loop })
    | _ => none
  | .loop =>
    if x.stopPossible && x.stopRequested then
      some ({ s with stopRequested := true }.setJoin j { x with pc := .check, cancelled := true })
    else some (s.setJoin j { x with pc := .check })
  | .check =>
    if s.active == 0 then some (s.setJoin j { x with pc := .done (s.outcome x.cancelled) })
    else some (s.setJoin j { x with pc := .recv })
  | .recv => (s.call i loop .recv).map fun s => s.setJoin j { x with pc := .receiving i }
  | .receiving i =>
    match s.completions.pc i with
    | .done (.thrown e) => some (s.setJoin j { x with pc := .caught e })
    | .done _ => some (s.setJoin j { x with pc := .loop })
    | _ => none
  | .caught e =>
    if s.active == 0 then some (s.setJoin j { x with pc := .done (s.outcome x.cancelled) })
    else some (s.setJoin j { x with pc := .done (.thrown e) })
  | .idle | .done _ => none

/-- Whether the stop callback of the call is registered. -/
def Join.registered (x : Join E) : Bool :=
  match x.pc with
  | .idle | .done _ => false
  | _ => x.stopPossible

/-- The token of a `join` is requested to stop: its callback runs. -/
def requestStop (s : Scope E) (j : Nat) (i : OpId) (loop : Bool) : Option (Scope E) :=
  let x := s.joins j
  if x.stopRequested then none
  else
    let s := s.setJoin j { x with stopRequested := true }
    if x.registered then { s with stopRequested := true }.call i loop (.send ()) else some s

def step (s : Scope E) : Label E → Option (Scope E)
  | .spawn => some (spawn s)
  | .finish k thrown => finish s k thrown
  | .child k i loop => runChild s k i loop
  | .join j stopPossible i loop => startJoin s j stopPossible i loop
  | .joinStep j i loop => runJoin s j i loop
  | .requestStop j i loop => requestStop s j i loop
  | .completions l =>
    match l with
    | .start _ _ _ => none
    | l => s.chanStep l

/-- A new scope: `completions` is constructed without a capacity. -/
def Scope.new : Scope E := { completions := Sys.new 0 }

def system (E : Type u) : System (Scope E) (Label E) where
  init s := s = Scope.new
  step := step

end LuvCoro.TaskScope
