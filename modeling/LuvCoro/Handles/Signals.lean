import LuvCoro.Handles.System

/-! # `signal_set` between its threads

Translated from `src/signal.cpp` in the steps that another thread can see: the closed
check of `add`, its lock, its handle, and the map; what `remove` and `clear` take out
of the map, and what they close; and the parts of `close`, which runs on any thread. -/
namespace LuvCoro.Handles.Signals

open Transition

abbrev EntryId := Nat

/-- An entry whose handle was started: `handle` is whether it still has it, and the rest
counts what was done with that handle. -/
structure Entry where
  signum : Int
  handle : Bool := true
  stops : Nat := 0
  closes : Nat := 0
  deletes : Nat := 0

/-- `state::close_entry` -/
def Entry.close (e : Entry) : Entry :=
  if e.handle then
    if e.closes = 0 then { e with handle := false, stops := e.stops + 1, closes := 1 }
    else { e with handle := false, deletes := e.deletes + 1 }
  else e

/-- `uv_walk` closes what is not closing. -/
def Entry.walk (e : Entry) : Entry := if e.closes = 0 then { e with closes := 1 } else e

inductive Closure
  | add (signum : Int)
  | remove (signum : Int)
  | clear
  | closeEntries (entries : List EntryId)
  | walk

def Closure.handles : Closure → List EntryId
  | closeEntries entries => entries
  | _ => []

def Closure.closes : Closure → Bool
  | closeEntries _ => true
  | _ => false

/-- Where the loop thread is. From `locked` to the insertion it has the mutex; `last` is
whether the closure is that of `close`. -/
inductive Pc
  | idle
  | checked (signum : Int)
  | locked (signum : Int)
  | started (signum : Int) (i : EntryId)
  | closing (entries : List EntryId) (last : Bool)

def Pc.handles : Pc → List EntryId
  | started _ i => [i]
  | closing entries _ => entries
  | _ => []

def Pc.mutex : Pc → Bool
  | locked _ | started .. => true
  | _ => false

def Pc.last : Pc → Bool
  | closing _ last => last
  | _ => false

/-- Where `close` is: `posted` until its closure has run, and `dropped` where the post was
refused, which `close` does not tell. -/
inductive Caller
  | notCalled
  | stored
  | taken (entries : List EntryId)
  | posted
  | finished
  | dropped

def Caller.handles : Caller → List EntryId
  | taken entries => entries
  | _ => []

def Caller.hasPosted : Caller → Bool
  | posted => true
  | _ => false

/-- `state` is whether `state_` is there; `heap` has the entries that were ever made. -/
structure SignalSet where
  state : Bool := true
  closed : Bool := false
  entries : List (Int × EntryId) := []
  heap : List Entry := []
  queue : List Closure := []
  pc : Pc := .idle
  caller : Caller := .notCalled
  shuttingDown : Bool := false
  thrown : List Error := []

namespace SignalSet

def fail (s : SignalSet) (e : Error) : SignalSet := { s with thrown := s.thrown ++ [e] }

/-- `uv_runtime::call`, on the loop thread (`here`) or on another one. -/
def call (s : SignalSet) (here : Bool) (k : Closure) : SignalSet :=
  if here then { s with queue := k :: s.queue }
  else if s.shuttingDown then s.fail (.runtimeError "uv_runtime is shutting down")
  else { s with queue := s.queue ++ [k] }

/-! ## The methods, up to their closures -/

def add (s : SignalSet) (here stopped : Bool) (signum : Int) : SignalSet :=
  if !s.state then s.fail (.runtimeError "signal_set is closed")
  else if stopped then s.fail .operationCancelled
  else s.call here (.add signum)

def remove (s : SignalSet) (here stopped : Bool) (signum : Int) : SignalSet :=
  if stopped then s.fail .operationCancelled
  else if !s.state then s
  else s.call here (.remove signum)

def clear (s : SignalSet) (here stopped : Bool) : SignalSet :=
  if stopped then s.fail .operationCancelled
  else if !s.state then s
  else s.call here .clear

/-! ## The closures -/

def addClosure (s : SignalSet) (signum : Int) : SignalSet :=
  if s.closed then s.fail (.runtimeError "signal_set is closed")
  else { s with pc := .checked signum }

def addLock (s : SignalSet) (signum : Int) : SignalSet :=
  if signum ∈ s.entries.map Prod.fst then { s with pc := .idle }
  else { s with pc := .locked signum }

/-- A handle that could not be initialised or started is deleted. -/
def addStart (s : SignalSet) (signum : Int) (initRc startRc : Int) : SignalSet :=
  if initRc < 0 then { s with pc := .idle }.fail (.uvError initRc "uv_signal_init")
  else if startRc < 0 then { s with pc := .idle }.fail (.uvError startRc "uv_signal_start")
  else { s with heap := s.heap ++ [{ signum }], pc := .started signum s.heap.length }

def addInsert (s : SignalSet) (signum : Int) (i : EntryId) : SignalSet :=
  { s with entries := (signum, i) :: s.entries, pc := .idle }

def removeClosure (s : SignalSet) (signum : Int) : SignalSet :=
  match s.entries.lookup signum with
  | none => s
  | some i =>
    { s with entries := s.entries.filter fun p => p.1 ≠ signum, pc := .closing [i] false }

def clearClosure (s : SignalSet) : SignalSet :=
  { s with entries := [], pc := .closing (s.entries.map Prod.snd) false }

def runClosure (s : SignalSet) : Closure → SignalSet
  | .add signum => s.addClosure signum
  | .remove signum => s.removeClosure signum
  | .clear => s.clearClosure
  | .closeEntries entries => { s with pc := .closing entries true }
  | .walk => { s with heap := s.heap.map Entry.walk }

def closeEntry (s : SignalSet) (i : EntryId) (rest : List EntryId) (last : Bool) : SignalSet :=
  { s with heap := s.heap.modify i Entry.close, pc := .closing rest last }

/-- The end of a closure, the one of `close` or another. -/
def endClosing (s : SignalSet) (last : Bool) : SignalSet :=
  { s with pc := .idle, caller := if last then .finished else s.caller }

/-! ## `close` -/

def closeStore (s : SignalSet) : SignalSet :=
  { s with state := false, closed := true, caller := .stored }

def closeTake (s : SignalSet) : SignalSet :=
  { s with entries := [], caller := .taken (s.entries.map Prod.snd) }

def closePost (s : SignalSet) (entries : List EntryId) : SignalSet :=
  if s.shuttingDown then { s with caller := .dropped }
  else { s with queue := s.queue ++ [.closeEntries entries], caller := .posted }

/-- The destructor of the runtime. -/
def shutdown (s : SignalSet) : SignalSet :=
  { s with shuttingDown := true, queue := s.queue ++ [.walk] }

end SignalSet

/-! ## The system -/

inductive Label
  | add (here stopped : Bool) (signum : Int)
  | remove (here stopped : Bool) (signum : Int)
  | clear (here stopped : Bool)
  | run
  | lock
  | start (initRc startRc : Int)
  | insert
  | closeEntry
  | endClosing
  | closeStore
  | closeTake
  | closePost
  | shutdown

def step (s : SignalSet) : Label → Option SignalSet
  | .add here stopped signum => some (s.add here stopped signum)
  | .remove here stopped signum => some (s.remove here stopped signum)
  | .clear here stopped => some (s.clear here stopped)
  | .run =>
    match s.pc, s.queue with
    | .idle, k :: rest => some ({ s with queue := rest }.runClosure k)
    | _, _ => none
  | .lock =>
    match s.pc with
    | .checked signum => some (s.addLock signum)
    | _ => none
  | .start initRc startRc =>
    match s.pc with
    | .locked signum => some (s.addStart signum initRc startRc)
    | _ => none
  | .insert =>
    match s.pc with
    | .started signum i => some (s.addInsert signum i)
    | _ => none
  | .closeEntry =>
    match s.pc with
    | .closing (i :: rest) last => some (s.closeEntry i rest last)
    | _ => none
  | .endClosing =>
    match s.pc with
    | .closing [] last => some (s.endClosing last)
    | _ => none
  | .closeStore =>
    match s.caller with
    | .notCalled => some s.closeStore
    | _ => none
  | .closeTake =>
    match s.caller with
    | .stored => if s.pc.mutex then none else some s.closeTake
    | _ => none
  | .closePost =>
    match s.caller with
    | .taken entries => some (s.closePost entries)
    | _ => none
  | .shutdown => if s.shuttingDown then none else some s.shutdown

def system : System SignalSet Label where
  init s := s = {}
  step := step

/-! ## What is promised -/

def Entry.Live (e : Entry) : Prop := e.closes = 0 ∧ e.deletes = 0

/-- The entries that are in the map or in the hands of what closes them. -/
def SignalSet.held (s : SignalSet) : List EntryId :=
  s.entries.map Prod.snd ++ s.pc.handles ++ s.caller.handles ++ s.queue.flatMap Closure.handles

/-- A handle is stopped and closed once, by whoever has its entry; a signal has one live
handle; and there is none when the closure of `close` has run. -/
structure Sound (s : SignalSet) : Prop where
  once : ∀ e ∈ s.heap, e.stops = e.closes ∧ e.closes ≤ 1 ∧ e.deletes = 0
  owned : ∀ i e, s.heap[i]? = some e → e.Live → i ∈ s.held
  single : ∀ (i j : EntryId) (a b : Entry), s.heap[i]? = some a → s.heap[j]? = some b →
    a.Live → b.Live → a.signum = b.signum → i = j
  closed : s.caller = .finished → s.entries = [] ∧ ∀ e ∈ s.heap, ¬ e.Live

/-- `add` starts no handle once `close` has taken the entries; the post of `close` is not
refused entries; and the runtime is not destroyed before the handles are closed. -/
def Good (s : SignalSet) : Label → Prop
  | .start initRc startRc => 0 ≤ initRc → 0 ≤ startRc → s.caller = .notCalled ∨ s.caller = .stored
  | .closePost => s.shuttingDown = false ∨ s.caller.handles = []
  | .run => ∀ rest, s.queue = .walk :: rest → ∀ e ∈ s.heap, ¬ e.Live
  | _ => True

end LuvCoro.Handles.Signals
