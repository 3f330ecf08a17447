import LuvCoro.Lib.Transition

/-! # `stdio_stream` and its backends

The calls that open, close and move a `stdio_stream`, translated from `src/stdio.cpp`,
and what they use of `src/tty.cpp`, `src/pipe.cpp` and `src/fs.cpp`. A call is one step;
what it meets at each point where it can fail is an answer, and so is what is thrown at
an await. `runtime_` of a stream is never null. -/
namespace LuvCoro.Stdio

open Transition

inductive Error
  | operationCancelled
  | uvError (code : Int) (op : String)
  | runtimeError (message : String)
  deriving DecidableEq

/-- What `uv_guess_handle` answers. -/
inductive HandleType
  | UNKNOWN_HANDLE
  | TTY
  | NAMED_PIPE
  | FILE
  | TCP
  | UDP
  deriving DecidableEq

/-- What a call has thrown, and what it leaves. -/
abbrev Outcome (S : Type) := Option Error × S

/-- The rest of a coroutine, when its first part has not thrown. -/
def andThen {S : Type} (r : Outcome S) (rest : S → Outcome S) : Outcome S :=
  match r with
  | (some e, s) => (some e, s)
  | (none, s) => rest s

/-- `call` is what `uv_runtime::call` throws itself, `await` what `close_file_async` does. -/
structure CloseAnswers where
  stopped : Bool := false
  call : Option Error := none
  await : Option Error := none

/-- `guess` is of `is_tty`; `dup` is the new descriptor or the code of an error. -/
structure OpenAnswers where
  stopped : Bool := false
  guess : HandleType := .UNKNOWN_HANDLE
  close : CloseAnswers := {}
  dup : Int := 3
  call : Option Error := none
  initRc : Int := 0
  openRc : Int := 0

/-! ## `tty_stream` -/

structure Tty where
  runtime : Bool := false
  handle : Bool := false
  fd : Int := -1
  readable : Bool := false

namespace Tty

def isOpen (t : Tty) : Bool := t.handle

def close (t : Tty) (a : CloseAnswers) : Outcome Tty :=
  if a.stopped then (some .operationCancelled, t)
  else if !t.isOpen then (none, t)
  else (a.call, { t with handle := false, fd := -1, readable := false })

def openFd (t : Tty) (readable : Bool) (a : OpenAnswers) : Outcome Tty :=
  if a.stopped then (some .operationCancelled, t)
  else if a.guess ≠ .TTY then
    (some (.runtimeError "requested file descriptor is not a tty"), t)
  else
    andThen (if t.isOpen then t.close a.close else (none, t)) fun t =>
      if a.dup < 0 then (some (.uvError a.dup "dup"), t)
      else if a.call.isSome then (a.call, t)
      else if a.initRc < 0 then (some (.uvError a.initRc "uv_tty_init"), t)
      else (none, { t with handle := true, fd := a.dup, readable })

end Tty

/-! ## `pipe_client` -/

structure Pipe where
  runtime : Bool := false
  handle : Bool := false
  connected : Bool := false
  ipc : Bool := false

namespace Pipe

/-- The constructor, with what the `call` in it throws and what `uv_pipe_init` answers. -/
def construct (ipc : Bool) (call : Option Error) (initRc : Int) : Except Error Pipe :=
  match call with
  | some e => .error e
  | none =>
    if initRc < 0 then .error (.uvError initRc "uv_pipe_init")
    else .ok { runtime := true, handle := true, ipc }

def isOpen (p : Pipe) : Bool := p.handle && p.connected

/-- A post that is refused is not told. -/
def close (p : Pipe) : Pipe :=
  if !p.runtime || !p.handle then p else { p with handle := false, connected := false }

def openFd (p : Pipe) (fd : Int) (a : OpenAnswers) : Outcome Pipe :=
  if a.stopped then (some .operationCancelled, p)
  else if fd < 0 then (some (.runtimeError "pipe file descriptor is invalid"), p)
  else
    let p := if p.handle then p.close else p
    if a.dup < 0 then (some (.uvError a.dup "dup"), p)
    else if a.call.isSome then (a.call, p)
    else if a.initRc < 0 then (some (.uvError a.initRc "uv_pipe_init"), p)
    else if a.openRc < 0 then (some (.uvError a.openRc "uv_pipe_open"), p)
    else (none, { p with handle := true, connected := true })

end Pipe

/-! ## `file` -/

structure File where
  runtime : Bool := false
  fd : Int := -1
  offset : Int := 0

namespace File

def isOpen (f : File) : Bool := decide (0 ≤ f.fd)

def close (f : File) (a : CloseAnswers) : Outcome File :=
  if !f.isOpen then (none, f) else (a.await, { f with fd := -1, offset := 0 })

def openFd (f : File) (fd : Int) (a : OpenAnswers) : Outcome File :=
  if a.stopped then (some .operationCancelled, f)
  else if fd < 0 then (some (.runtimeError "file descriptor is invalid"), f)
  else
    andThen (if f.isOpen then f.close a.close else (none, f)) fun f =>
      if a.dup < 0 then (some (.uvError a.dup "dup"), f)
      else (none, { f with fd := a.dup, offset := 0 })

end File

/-! ## `stdio_stream` -/

inductive StdioKind
  | none
  | tty
  | pipe
  | file
  deriving DecidableEq

structure Stream where
  kind : StdioKind := .none
  guessedHandle : HandleType := .UNKNOWN_HANDLE
  readable : Bool := false
  tty : Option Tty := .none
  pipe : Option Pipe := .none
  file : Option File := .none

/-- What `open` meets: `guess` of `guess_handle`, `newCall` and `newRc` in the constructor
of a pipe, and `backend` in the call of the backend. -/
structure Answers where
  stopped : Bool := false
  close : CloseAnswers := {}
  guess : HandleType := .UNKNOWN_HANDLE
  newCall : Option Error := none
  newRc : Int := 0
  backend : OpenAnswers := {}

namespace Stream

def isOpen (s : Stream) : Bool := decide (s.kind ≠ .none)

def resetState (s : Stream) : Stream :=
  { s with kind := .none, guessedHandle := .UNKNOWN_HANDLE, readable := false }

def close (s : Stream) (a : CloseAnswers) : Outcome Stream :=
  match s.kind with
  | .tty =>
    match s.tty with
    | some t =>
      match t.close a with
      | (some e, t) => (some e, { s with tty := some t })
      | (none, _) => (none, { s with tty := none }.resetState)
    | none => (none, s.resetState)
  | .pipe => (none, { s with pipe := none }.resetState)
  | .file =>
    match s.file with
    | some f =>
      match f.close a with
      | (some e, f) => (some e, { s with file := some f })
      | (none, _) => (none, { s with file := none }.resetState)
    | none => (none, s.resetState)
  | .none => (none, s.resetState)

/-- `open`, from the guess of the handle on. -/
def openGuessed (s : Stream) (fd : Int) (readable : Bool) (a : Answers) : Outcome Stream :=
  let s := { s with guessedHandle := a.guess, readable }
  match a.guess with
  | .TTY =>
    match ({ runtime := true } : Tty).openFd readable a.backend with
    | (some e, t) => (some e, { s with tty := some t })
    | (none, t) => (none, { s with tty := some t, kind := .tty })
  | .NAMED_PIPE =>
    match Pipe.construct false a.newCall a.newRc with
    | .error e => (some e, { s with pipe := none })
    | .ok p =>
      match p.openFd fd a.backend with
      | (some e, p) => (some e, { s with pipe := some p })
      | (none, p) => (none, { s with pipe := some p, kind := .pipe })
  | .FILE =>
    match ({ runtime := true } : File).openFd fd a.backend with
    | (some e, f) => (some e, { s with file := some f })
    | (none, f) => (none, { s with file := some f, kind := .file })
  | _ => (some (.runtimeError "unsupported stdio handle type"), s.resetState)

def openFd (s : Stream) (fd : Int) (readable : Bool) (a : Answers) : Outcome Stream :=
  if a.stopped then (some .operationCancelled, s)
  else
    andThen (if s.isOpen then s.close a.close else (none, s)) fun s =>
      s.openGuessed fd readable a

/-- What a move leaves: the backends are there, without what they had. -/
def movedFrom (s : Stream) : Stream :=
  { s with
    tty := s.tty.map fun _ => {}, pipe := s.pipe.map fun _ => {},
    file := s.file.map fun _ => {} }.resetState

/-- What a move makes; the backends that an assignment replaces are destroyed. -/
def movedTo (s : Stream) : Stream :=
  { kind := s.kind, guessedHandle := s.guessedHandle, readable := s.readable, tty := s.tty,
    pipe := s.pipe, file := s.file }

end Stream

/-! ## Any number of streams -/

inductive Label
  | construct
  | openFd (i : Nat) (fd : Int) (readable : Bool) (a : Answers)
  | close (i : Nat) (a : CloseAnswers)
  | moveConstruct (i : Nat)
  | moveAssign (i j : Nat)

def step (s : List Stream) : Label → Option (List Stream)
  | .construct => some (s ++ [{}])
  | .openFd i fd readable a => s[i]?.map fun x => s.set i (x.openFd fd readable a).2
  | .close i a => s[i]?.map fun x => s.set i (x.close a).2
  | .moveConstruct i => s[i]?.map fun x => s.set i x.movedFrom ++ [x.movedTo]
  | .moveAssign i j =>
    if i = j then some s
    else
      s[i]?.bind fun _ => s[j]?.map fun y => (s.set i y.movedTo).set j y.movedFrom

def system : System (List Stream) Label where
  init s := s = []
  step := step

/-! ## What is promised -/

namespace Stream

/-- The backend that `kind` selects is open. -/
def backendOpen (s : Stream) : Bool :=
  match s.kind with
  | .none => false
  | .tty => s.tty.any Tty.isOpen
  | .pipe => s.pipe.any Pipe.isOpen
  | .file => s.file.any File.isOpen

def Closed (s : Stream) : Prop :=
  s.isOpen = false ∧ s.readable = false ∧ s.guessedHandle = .UNKNOWN_HANDLE

/-- A call leaves an open stream with an open backend, and if it throws, a closed stream or
the one that was there. -/
def Keeps (s : Stream) (r : Outcome Stream) : Prop :=
  (r.2.isOpen = true → r.2.backendOpen = true) ∧ (r.1 ≠ none → r.2.Closed ∨ r.2 = s)

/-- The backend does not throw after it has forgotten what it had. -/
def CloseFine (s : Stream) (a : CloseAnswers) : Prop :=
  (s.kind = .tty → a.stopped = true ∨ a.call = none) ∧ (s.kind = .file → a.await = none)

end Stream

/-- What a backend needs to be opened for `fd`. -/
def Opens (fd : Int) (a : Answers) : Prop :=
  match a.guess with
  | .TTY => a.backend.stopped = false ∧ a.backend.guess = .TTY ∧ 0 ≤ a.backend.dup ∧
      a.backend.call = none ∧ 0 ≤ a.backend.initRc
  | .NAMED_PIPE => a.newCall = none ∧ 0 ≤ a.newRc ∧ a.backend.stopped = false ∧ 0 ≤ fd ∧
      0 ≤ a.backend.dup ∧ a.backend.call = none ∧ 0 ≤ a.backend.initRc ∧ 0 ≤ a.backend.openRc
  | .FILE => a.backend.stopped = false ∧ 0 ≤ fd ∧ 0 ≤ a.backend.dup
  | _ => True

/-- The open is cancelled before it does anything, or what it closes is closed well and then
either the close was cancelled or the guessed backend can be opened. -/
def Stream.OpenFine (s : Stream) (fd : Int) (a : Answers) : Prop :=
  a.stopped = true ∨
    s.CloseFine a.close ∧ (s.kind = .tty ∧ a.close.stopped = true ∨ Opens fd a)

def Good (s : List Stream) : Label → Prop
  | .openFd i fd _ a => ∀ x, s[i]? = some x → x.OpenFine fd a
  | .close i a => ∀ x, s[i]? = some x → x.CloseFine a
  | _ => True

end LuvCoro.Stdio
