import LuvCoro.Lib.HandleLoop
import LuvCoro.Lib.Transition

/-! # The objects that hold libuv handles

`signal_set`, the clients and servers of pipes and TCP, and the two watchers of
`luvcoro::fs`, as far as their handles go; translated from `src/signal.cpp`,
`src/pipe.cpp`, `src/tcp.cpp` and `src/fs_watch.cpp`. A method runs on any thread;
the closure that it gives to `uv_runtime::call` or `post` runs on the loop thread.
Whoever waits in `accept` is left out, a call of it is the step in which it returns;
so is a call whose token is stopped when it starts, since it does nothing. -/
namespace LuvCoro.Handles

open Transition HandleLoop

inductive Error
  | operationCancelled
  | uvError (code : Int) (op : String)
  | runtimeError (message : String)
  | invalidArgument (message : String)
  deriving DecidableEq

/-- The streams, and the watchers, whose classes differ in the names of their calls only. -/
inductive Stream
  | pipe
  | tcp
  deriving DecidableEq

inductive Watch
  | event
  | poll
  deriving DecidableEq

def Stream.init : Stream → String
  | pipe => "uv_pipe_init"
  | tcp => "uv_tcp_init"

def Watch.init : Watch → String
  | event => "uv_fs_event_init"
  | poll => "uv_fs_poll_init"

def Watch.start : Watch → String
  | event => "uv_fs_event_start"
  | poll => "uv_fs_poll_start"

def Watch.stop : Watch → String
  | event => "uv_fs_event_stop"
  | poll => "uv_fs_poll_stop"

def Watch.isClosed : Watch → String
  | event => "fs event watcher is closed"
  | poll => "fs poll watcher is closed"

/-! ## Objects -/

/-- `state` is whether `state_` is there; the rest is what it points to, which the
closures of the set share. -/
structure SignalSet where
  state : Bool := true
  closed : Bool := false
  entries : List (Int × Handle) := []

structure Client where
  handle : Option Handle := none
  connected : Bool := false

structure Server where
  handle : Option Handle := none
  pendingClients : List Handle := []

structure Watcher where
  handle : Option Handle := none
  closed : Bool := false
  active : Bool := false
  path : String := ""

inductive Object
  | signalSet (set : SignalSet)
  | client (k : Stream) (c : Client)
  | server (k : Stream) (v : Server)
  | watcher (k : Watch) (w : Watcher)

def Object.handles : Object → List Handle
  | signalSet set => set.entries.map Prod.snd
  | client _ c => c.handle.toList
  | server _ v => v.handle.toList ++ v.pendingClients
  | watcher _ w => w.handle.toList

abbrev ObjectId := Nat

/-- The constructors that make a handle. -/
inductive Role
  | client (k : Stream)
  | server (k : Stream)
  | watcher (k : Watch)

def Role.init : Role → String
  | client k => k.init
  | server k => k.init
  | watcher k => k.init

def Role.object (h : Handle) : Role → Object
  | client k => .client k { handle := some h }
  | server k => .server k { handle := some h }
  | watcher k => .watcher k { handle := some h }

/-- A closure in the queue of the runtime. A section that comes after one on another
lock, or after a coroutine was resumed, is a closure of its own that runs next. -/
inductive Closure
  | construct (role : Role)
  | add (o : ObjectId) (signum : Int)
  | addLocked (o : ObjectId) (signum : Int)
  | remove (o : ObjectId) (signum : Int)
  | clear (o : ObjectId)
  | closeEntries (entries : List Handle)
  | openPipe (o : ObjectId)
  | closeHandle (h : Handle)
  | closeServer (o : ObjectId) (h : Handle)
  | closeClients (o : ObjectId) (h : Handle)
  | start (o : ObjectId) (path : String)
  | stop (o : ObjectId)
  | walk

def Closure.handles : Closure → List Handle
  | closeEntries entries => entries
  | closeHandle h | closeServer _ h | closeClients _ h => [h]
  | _ => []

/-- `returned` has the handles that `open` got from its closure and has not stored;
`thrown` is what calls have thrown. -/
structure State where
  loop : Loop := {}
  queue : List Closure := []
  shuttingDown : Bool := false
  objects : List Object := []
  returned : List (ObjectId × Handle) := []
  thrown : List Error := []

/-- What libuv answers: `initRc` from a `uv_*_init`, `rc` from the call after it, and
`stale` where a flag of a handle is read that is gone. -/
structure Answers where
  initRc : Int := 0
  rc : Int := 0
  stale : Handle → Bool := fun _ => false

/-! ## The runtime -/

namespace State

def fail (s : State) (e : Error) : State := { s with thrown := s.thrown ++ [e] }

def put (s : State) (o : ObjectId) (x : Object) : State :=
  { s with objects := s.objects.set o x }

def post (s : State) (k : Closure) : State :=
  if s.shuttingDown then s.fail (.runtimeError "uv_runtime is shutting down")
  else { s with queue := s.queue ++ [k] }

/-- `post` in a `try` whose `catch` does nothing. -/
def tryPost (s : State) (k : Closure) : State :=
  if s.shuttingDown then s else { s with queue := s.queue ++ [k] }

/-- `call`: on the loop thread, which is `here`, the closure runs at once. -/
def call (s : State) (here : Bool) (k : Closure) : State :=
  if here then { s with queue := k :: s.queue } else s.post k

def tryCall (s : State) (here : Bool) (k : Closure) : State :=
  if here then { s with queue := k :: s.queue } else s.tryPost k

end State

/-- `new uv_*_t{}` and its `uv_*_init`. -/
def newHandle (init : String) (rc : Int) (l : Loop) : Except Error Handle × Loop :=
  let h := l.next
  let l := l.allocate
  if rc < 0 then (.error (.uvError rc init), l.delete .direct h) else (.ok h, l.initialise h)

/-! ## `signal_set` -/

/-- `state::close_entry`, for an entry that has a handle. -/
def closeEntry (stale : Handle → Bool) (l : Loop) (h : Handle) : Loop :=
  if l.isClosing stale h then l.delete .direct h else l.close .deletes h

namespace SignalSet

def add (set : SignalSet) (s : State) (here : Bool) (o : ObjectId) (signum : Int) : State :=
  if set.state then s.call here (.add o signum)
  else s.fail (.runtimeError "signal_set is closed")

/-- The closure of `add`, up to the lock. -/
def addClosure (set : SignalSet) (s : State) (o : ObjectId) (signum : Int) : State :=
  if set.closed then s.fail (.runtimeError "signal_set is closed")
  else { s with queue := .addLocked o signum :: s.queue }

def addLocked (set : SignalSet) (s : State) (a : Answers) (o : ObjectId) (signum : Int) : State :=
  if signum ∈ set.entries.map Prod.fst then s
  else
    match newHandle "uv_signal_init" a.initRc s.loop with
    | (.error e, l) => { s with loop := l }.fail e
    | (.ok h, l) =>
      if a.rc < 0 then
        { s with loop := l.delete .direct h }.fail (.uvError a.rc "uv_signal_start")
      else
        { s with loop := l }.put o (.signalSet { set with entries := (signum, h) :: set.entries })

def removeClosure (set : SignalSet) (s : State) (a : Answers) (o : ObjectId) (signum : Int) :
    State :=
  match set.entries.lookup signum with
  | none => s
  | some h =>
    { s with loop := closeEntry a.stale s.loop h }.put o
      (.signalSet { set with entries := set.entries.filter fun e => e.1 ≠ signum })

def clearClosure (set : SignalSet) (s : State) (a : Answers) (o : ObjectId) : State :=
  { s with loop := (set.entries.map Prod.snd).foldl (closeEntry a.stale) s.loop }.put o
    (.signalSet { set with entries := [] })

def close (set : SignalSet) (s : State) (o : ObjectId) : State :=
  if set.state then
    (s.put o (.signalSet { set with state := false, closed := true, entries := [] })).tryPost
      (.closeEntries (set.entries.map Prod.snd))
  else s

end SignalSet

/-! ## Clients -/

namespace Client

def close (k : Stream) (c : Client) (s : State) (o : ObjectId) : State :=
  match c.handle with
  | none => s
  | some h => (s.put o (.client k {})).tryPost (.closeHandle h)

/-- `pipe_client::open`, with what `dup` answers. -/
def openPipe (c : Client) (s : State) (here : Bool) (o : ObjectId) (fd dupRc : Int) : State :=
  if fd < 0 then s.fail (.runtimeError "pipe file descriptor is invalid")
  else if dupRc < 0 then (c.close .pipe s o).fail (.uvError dupRc "dup")
  else (c.close .pipe s o).call here (.openPipe o)

/-- Move assignment, from the object `p`. -/
def move (k : Stream) (c d : Client) (s : State) (o p : ObjectId) : State :=
  if o = p then s else ((c.close k s o).put o (.client k d)).put p (.client k {})

end Client

def openClosure (s : State) (a : Answers) (o : ObjectId) : State :=
  match newHandle "uv_pipe_init" a.initRc s.loop with
  | (.error e, l) => { s with loop := l }.fail e
  | (.ok h, l) =>
    if a.rc < 0 then { s with loop := l.delete .direct h }.fail (.uvError a.rc "uv_pipe_open")
    else { s with loop := l, returned := s.returned ++ [(o, h)] }

/-! ## Servers -/

namespace Server

/-- `on_connection_impl`. -/
def onConnection (k : Stream) (v : Server) (s : State) (a : Answers) (o : ObjectId)
    (status : Int) : State :=
  if v.handle.isNone ∨ status < 0 then s
  else
    match newHandle k.init a.initRc s.loop with
    | (.error _, l) => { s with loop := l }
    | (.ok h, l) =>
      if a.rc < 0 then { s with loop := l.close .deletes h }
      else
        { s with loop := l }.put o
          (.server k { v with pendingClients := v.pendingClients ++ [h] })

/-- `await_resume` of a call of `accept` that finds a client. -/
def accept (k : Stream) (v : Server) (s : State) (o : ObjectId) : Option State :=
  match v.pendingClients with
  | [] => none
  | h :: rest =>
    let s := s.put o (.server k { v with pendingClients := rest })
    some { s with objects := s.objects ++ [.client k { handle := some h, connected := true }] }

def close (k : Stream) (v : Server) (s : State) (here : Bool) (o : ObjectId) : State :=
  match v.handle with
  | none => s
  | some h => (s.put o (.server k { v with handle := none })).tryCall here (.closeServer o h)

/-- The closure of `close`, after the waiter was resumed. -/
def closeClients (k : Stream) (v : Server) (s : State) (a : Answers) (o : ObjectId)
    (h : Handle) : State :=
  { s with loop := (v.pendingClients ++ [h]).foldl (Loop.closeOnce a.stale .deletes) s.loop }.put o
    (.server k { v with pendingClients := [] })

end Server

/-! ## Watchers -/

namespace Watcher

/-- `start`; the interval is looked at by `poll_watcher` only. -/
def start (k : Watch) (w : Watcher) (s : State) (here : Bool) (o : ObjectId) (path : String)
    (interval : Int) : State :=
  if w.handle.isNone then s.fail (.runtimeError k.isClosed)
  else if k = .poll ∧ interval ≤ 0 then
    s.fail (.invalidArgument "fs poll interval must be positive")
  else s.call here (.start o path)

/-- The closure of `start`. The path and the flag that `start` sets after it in the
object are set with the path that it sets in the state. -/
def startClosure (k : Watch) (w : Watcher) (s : State) (a : Answers) (o : ObjectId)
    (path : String) : State :=
  if w.closed then s.fail (.runtimeError k.isClosed)
  else if a.rc < 0 then s.fail (.uvError a.rc k.start)
  else s.put o (.watcher k { w with path := path, active := true })

def stop (w : Watcher) (s : State) (here : Bool) (o : ObjectId) : State :=
  if w.handle.isNone ∨ !w.active then s else s.call here (.stop o)

def stopClosure (k : Watch) (w : Watcher) (s : State) (a : Answers) (o : ObjectId) : State :=
  if w.closed then s
  else if a.rc < 0 then s.fail (.uvError a.rc k.stop)
  else s.put o (.watcher k { w with path := "", active := false })

def close (k : Watch) (w : Watcher) (s : State) (o : ObjectId) : State :=
  match w.handle with
  | none => s.put o (.watcher k { w with path := "", active := false })
  | some h =>
    (s.put o (.watcher k { handle := none, closed := true })).tryPost (.closeHandle h)

end Watcher

/-! ## The system -/

inductive Label
  | newSignalSet
  | construct (here : Bool) (role : Role)
  | add (here : Bool) (o : ObjectId) (signum : Int)
  | remove (here : Bool) (o : ObjectId) (signum : Int)
  | clear (here : Bool) (o : ObjectId)
  | openPipe (here : Bool) (o : ObjectId) (fd dupRc : Int)
  | store (i : Nat)
  | move (o p : ObjectId)
  | connection (o : ObjectId) (status : Int) (a : Answers)
  | accept (o : ObjectId)
  | start (here : Bool) (o : ObjectId) (path : String) (interval : Int)
  | stop (here : Bool) (o : ObjectId)
  | close (here : Bool) (o : ObjectId)
  | shutdown
  | run (a : Answers)
  | closeCallback (h : Handle)

namespace State

def construct (s : State) (a : Answers) (role : Role) : State :=
  match newHandle role.init a.initRc s.loop with
  | (.error e, l) => { s with loop := l }.fail e
  | (.ok h, l) => { s with loop := l, objects := s.objects ++ [role.object h] }

/-- The loop thread runs a closure. -/
def runClosure (s : State) (a : Answers) : Closure → Option State
  | .construct role => some (s.construct a role)
  | .add o signum =>
    match s.objects[o]? with
    | some (.signalSet set) => some (set.addClosure s o signum)
    | _ => none
  | .addLocked o signum =>
    match s.objects[o]? with
    | some (.signalSet set) => some (set.addLocked s a o signum)
    | _ => none
  | .remove o signum =>
    match s.objects[o]? with
    | some (.signalSet set) => some (set.removeClosure s a o signum)
    | _ => none
  | .clear o =>
    match s.objects[o]? with
    | some (.signalSet set) => some (set.clearClosure s a o)
    | _ => none
  | .closeEntries entries => some { s with loop := entries.foldl (closeEntry a.stale) s.loop }
  | .openPipe o => some (openClosure s a o)
  | .closeHandle h => some { s with loop := s.loop.closeOnce a.stale .deletes h }
  | .closeServer o h => some { s with queue := .closeClients o h :: s.queue }
  | .closeClients o h =>
    match s.objects[o]? with
    | some (.server k v) => some (v.closeClients k s a o h)
    | _ => none
  | .start o path =>
    match s.objects[o]? with
    | some (.watcher k w) => some (w.startClosure k s a o path)
    | _ => none
  | .stop o =>
    match s.objects[o]? with
    | some (.watcher k w) => some (w.stopClosure k s a o)
    | _ => none
  | .walk => some { s with loop := s.loop.walk a.stale }

/-- The assignment to `handle_` in `open`; a handle that is there is lost. -/
def store (s : State) (i : Nat) : Option State :=
  match s.returned[i]? with
  | none => none
  | some (o, h) =>
    match s.objects[o]? with
    | some (.client k _) =>
      some { s.put o (.client k { handle := some h, connected := true }) with
        returned := s.returned.eraseIdx i }
    | _ => none

def close (s : State) (here : Bool) (o : ObjectId) : Option State :=
  match s.objects[o]? with
  | some (.signalSet set) => some (set.close s o)
  | some (.client k c) => some (c.close k s o)
  | some (.server k v) => some (v.close k s here o)
  | some (.watcher k w) => some (w.close k s o)
  | none => none

end State

def step (s : State) : Label → Option State
  | .newSignalSet => some { s with objects := s.objects ++ [.signalSet {}] }
  | .construct here role => some (s.call here (.construct role))
  | .add here o signum =>
    match s.objects[o]? with
    | some (.signalSet set) => some (set.add s here o signum)
    | _ => none
  | .remove here o signum =>
    match s.objects[o]? with
    | some (.signalSet set) => some (if set.state then s.call here (.remove o signum) else s)
    | _ => none
  | .clear here o =>
    match s.objects[o]? with
    | some (.signalSet set) => some (if set.state then s.call here (.clear o) else s)
    | _ => none
  | .openPipe here o fd dupRc =>
    match s.objects[o]? with
    | some (.client .pipe c) => some (c.openPipe s here o fd dupRc)
    | _ => none
  | .store i => s.store i
  | .move o p =>
    match s.objects[o]?, s.objects[p]? with
    | some (.client k c), some (.client k' d) => if k = k' then some (c.move k d s o p) else none
    | _, _ => none
  | .connection o status a =>
    match s.objects[o]? with
    | some (.server k v) => some (v.onConnection k s a o status)
    | _ => none
  | .accept o =>
    match s.objects[o]? with
    | some (.server k v) => v.accept k s o
    | _ => none
  | .start here o path interval =>
    match s.objects[o]? with
    | some (.watcher k w) => some (w.start k s here o path interval)
    | _ => none
  | .stop here o =>
    match s.objects[o]? with
    | some (.watcher _ w) => some (w.stop s here o)
    | _ => none
  | .close here o => s.close here o
  | .shutdown =>
    if s.shuttingDown then none
    else some { s with shuttingDown := true, queue := s.queue ++ [.walk] }
  | .run a =>
    match s.queue with
    | [] => none
    | k :: rest => { s with queue := rest }.runClosure a k
  | .closeCallback h => (s.loop.runCallback h).map fun l => { s with loop := l }

def system : System State Label where
  init s := s = {}
  step := step

/-! ## What goes wrong -/

/-- The entries of a signal set. -/
def State.entries (s : State) (o : ObjectId) : List (Int × Handle) :=
  match s.objects[o]? with
  | some (.signalSet set) => set.entries
  | _ => []

/-- The handles that a closure gives to `close_entry`. -/
def State.toClose (s : State) : Closure → List Handle
  | .remove o signum => ((s.entries o).lookup signum).toList
  | .clear o => (s.entries o).map Prod.snd
  | .closeEntries entries => entries
  | _ => []

/-- The call after `uv_signal_init` in `add`, or after `uv_pipe_init` in `open`, does not
fail, and no handle that is closing is given to `close_entry`. -/
def State.RunsWell (s : State) (a : Answers) : Closure → Prop
  | .addLocked o signum =>
    signum ∉ (s.entries o).map Prod.fst → 0 ≤ a.initRc → 0 ≤ a.rc
  | .openPipe _ => 0 ≤ a.initRc → 0 ≤ a.rc
  | k => ∀ h ∈ s.toClose k, s.loop.closeIssued h = false

def Careful (s : State) : Label → Prop
  | .run a => ∀ k rest, s.queue = k :: rest → s.RunsWell a k
  | _ => True

end LuvCoro.Handles
