import LuvCoro.Process.Wait

/-! # The life of a process

`process::spawn`, `kill` and `close` around the waits, translated from
`src/process.cpp`. The calls run on the loop thread, where `uv_runtime::call` runs its
closure at once; `close` may be called on any thread. After a `close` the next `spawn`
takes the same `process::state`; otherwise it makes a new one. -/
namespace LuvCoro.Process.Lifecycle

open Transition WaiterSlot

inductive SpawnError
  | of (e : Error)
  /-- `std::invalid_argument` -/
  | invalidArgument (message : String)

/-- What has happened to the child that was spawned last. -/
structure Child where
  reported : Bool := false
  closed : Bool := false
  deriving DecidableEq

/-- What comes to a wait first. -/
inductive Cause
  | exit (status : ExitStatus)
  | stop
  | close

/-- What a wait is answered with. -/
def Cause.answer : Cause → Except Error ExitStatus
  | exit status => .ok status
  | stop | close => .error .operationCancelled

/-- A closure of `close`: the `process::state` that it holds, and the child that its
handle belongs to. -/
structure Closing where
  state : Nat
  child : Nat

/-- The object with the `process::state` that it has: `running` is the field, the
others of the state are in `proc`, whose `gone` says that `uv_close` has been called for
the last child. `first` has what came first to each wait, `resumes` how often a call was
resumed. -/
structure Life where
  proc : State := { handle := false }
  running : Bool := false
  generation : Nat := 0
  spawned : Nat := 0
  child : Option Child := none
  closing : List Closing := []
  first : CallId → Option Cause := fun _ => none
  resumes : CallId → Nat := fun _ => 0

/-- A call of `spawn`, with what `uv_pipe_init` and `uv_spawn` return. -/
structure Spawn where
  stopped : Bool := false
  fileEmpty : Bool := false
  pipeRc : Int := 0
  rc : Int := 0

/-- The call has been made, and it has not been resumed. -/
def active : Stage → Bool
  | .ready | .suspend | .register | .park | .parked => true
  | _ => false

namespace Life

def slot (s : Life) : Slot CallId := s.proc.slot

def call (s : Life) (i : CallId) : Call := s.proc.slot.call i

def note (s : Life) (c : Cause) (p : CallId → Bool) : Life :=
  { s with first := fun i => if p i then (s.first i).or (some c) else s.first i }

/-- The waits go on. -/
def follow (s : Life) (proc : State) : Life :=
  { s with
    proc := proc
    resumes := fun i =>
      if (proc.call i).stage = .resumed ∧ (s.call i).stage ≠ .resumed then s.resumes i + 1
      else s.resumes i }

def close (s : Life) : Life :=
  if s.proc.handle then
    { s.note .close fun i => active (s.call i).stage with
      proc := s.proc.close
      closing := s.closing ++ [{ state := s.generation, child := s.spawned }]
      child := s.child.map fun c => { c with closed := true } }
  else s

/-- `state_ = std::make_shared<state>(*runtime_)` -/
def renew (s : Life) : Life :=
  { s with
    generation := s.generation + 1
    running := false
    proc :=
      { s.proc with
        handle := false, exited := false, waitStatus := 0, exitStatus := 0, termSignal := 0
        slot := { s.proc.slot with waiter := none } } }

/-- The closure of `spawn`. -/
def spawnClosure (s : Life) (rc : Int) : Except SpawnError Unit × Life :=
  let proc := { s.proc with exited := false, waitStatus := 0, exitStatus := 0, termSignal := 0 }
  if rc < 0 then
    (.error (.of (.uvError rc "uv_spawn")),
      { s with running := false, proc := { proc with handle := false } })
  else
    (.ok (), { s with
      running := true, spawned := s.spawned + 1, child := some {}
      proc := { proc with handle := true, gone := false } })

def alreadyRunning : SpawnError := .of (.runtimeError "process is already running")

def spawn (s : Life) (o : Spawn) : Except SpawnError Unit × Life :=
  if o.stopped then (.error (.of .operationCancelled), s)
  else if o.fileEmpty then (.error (.invalidArgument "process file must not be empty"), s)
  else if s.running then (.error alreadyRunning, s)
  else
    let s := if s.proc.handle then s.close.renew else s
    if o.pipeRc < 0 then (.error (.of (.uvError o.pipeRc "uv_pipe_init")), s)
    else s.spawnClosure o.rc

/-- `kill`, with what `uv_process_kill` returns. -/
def kill (s : Life) (rc : Int) : Except Error Unit × Life :=
  if !s.proc.handle || !s.running then (.error (.runtimeError "process is not running"), s)
  else if rc < 0 then (.error (.uvError rc "uv_process_kill"), s)
  else (.ok (), s)

/-- libuv has an exit to report. -/
def live (s : Life) : Bool :=
  match s.child with
  | some c => !c.reported && !s.proc.gone
  | none => false

/-- `uv_options.exit_cb` -/
def exitCb (s : Life) (exitStatus termSignal : Int) : Life :=
  let s' := (s.note (.exit { exitStatus, termSignal }) fun i => s.slot.waiter = some i).follow
    (s.proc.exitCb exitStatus termSignal)
  { s' with running := false, child := s.child.map fun c => { c with reported := true } }

/-- The closure of a `close`, which knows its own `process::state` only. -/
def closed (s : Life) (c : Closing) : State :=
  let proc := { s.proc with slot := s.proc.slot.pop }
  let proc := if c.state = s.generation then proc.closed else proc
  { proc with gone := s.proc.gone || c.child = s.spawned }

/-- The loop thread runs the closure that comes next. -/
def drain (s : Life) (hit : Bool) : Option Life :=
  match s.proc.slot.posted with
  | some _ :: _ => (s.proc.drain hit).map s.follow
  | none :: _ =>
    match s.closing with
    | c :: rest => some { s.follow (s.closed c) with closing := rest }
    | [] => none
  | [] => none

end Life

/-! ## The system -/

inductive Label
  | spawn (o : Spawn)
  | kill (rc : Int)
  | close
  | exit (exitStatus termSignal : Int)
  | wait (i : CallId) (stopPossible : Bool)
  | run (i : CallId)
  | requestStop (i : CallId)
  | stopCallback (i : CallId)
  | drain (hit : Bool)

def step (s : Life) : Label → Option Life
  | .spawn o => if s.slot.running = none then some (s.spawn o).2 else none
  | .kill rc => some (s.kill rc).2
  | .close => some s.close
  | .exit exitStatus termSignal =>
    if s.slot.running = none ∧ s.live then some (s.exitCb exitStatus termSignal) else none
  | .wait i stopPossible => (Process.step s.proc (.wait i stopPossible)).map s.follow
  | .run i => (Process.step s.proc (.run i)).map s.follow
  | .requestStop i =>
    (Process.step s.proc (.requestStop i)).map (s.note .stop fun j => j = i).follow
  | .stopCallback i => (Process.step s.proc (.stopCallback i)).map s.follow
  | .drain hit => if s.slot.running = none then s.drain hit else none

/-- Nothing has been spawned. -/
def system : System Life Label where
  init s := s = {}
  step := step

/-! ## `running` -/

/-- What `running()` says, and what follows from it for the next `spawn`. -/
structure Runs (s : Life) : Prop where
  running : s.running = true ↔ s.child = some { reported := false, closed := false }
  handle : s.running = true → s.proc.handle = true
  respawns : ∀ c, s.child = some c → c.reported = true ∨ c.closed = true →
    ∀ o, (s.spawn o).1 ≠ .error Life.alreadyRunning

/-- `close` comes when the child does not run any more. -/
def QuietClose (s : Life) : Label → Prop
  | .close => s.running = false
  | _ => True

variable {s t : Life}

theorem spawn_ne_alreadyRunning (h : s.running = false) (o : Spawn) :
    (s.spawn o).1 ≠ .error Life.alreadyRunning := by
  unfold Life.spawn
  rw [h]
  split
  · simp [Life.alreadyRunning]
  · split
    · simp [Life.alreadyRunning]
    · rw [if_neg (by simp)]
      dsimp only
      generalize (if s.proc.handle then s.close.renew else s) = u
      unfold Life.spawnClosure
      split
      · simp [Life.alreadyRunning]
      · split
        · simp [Life.alreadyRunning]
        · simp

/-- The third part follows from the first. -/
theorem Runs.of (h : s.running = true ↔ s.child = some { reported := false, closed := false })
    (hh : s.running = true → s.proc.handle = true) : Runs s := by
  refine ⟨h, hh, fun c hc hover o => spawn_ne_alreadyRunning ?_ o⟩
  cases hr : s.running with
  | false => rfl
  | true =>
    rw [h.mp hr] at hc
    cases hc
    simp at hover

/-! ## Waits leave it alone -/

theorem awaitResume_handle {p : State} {i : CallId} : (p.awaitResume i).2.handle = p.handle := by
  obtain ⟨w, hw⟩ := awaitResume_only
  rw [hw]

theorem run_handle {p q : State} {i : CallId} (h : p.run i = some q) : q.handle = p.handle := by
  unfold State.run at h
  cases hs : (p.call i).stage with
  | ready | register | park =>
    rw [hs] at h
    cases h
    rfl
  | suspend =>
    rw [hs] at h
    cases h
    unfold State.awaitSuspend
    split
    · rfl
    · split
      · rfl
      · rfl
  | skipped | resumed =>
    rw [hs] at h
    cases h
    exact awaitResume_handle
  | idle | parked | ended =>
    rw [hs] at h
    cases h

theorem cancel_handle {p : State} {i : CallId} {hit : Bool} :
    (p.cancel i hit).handle = p.handle := by
  unfold State.cancel
  dsimp only
  generalize (if (p.call i).stage = .ended then hit else _) = equal
  cases equal with
  | true => rfl
  | false => rfl

theorem closed_handle {p : State} : p.closed.handle = p.handle := by
  unfold State.closed
  dsimp only
  split
  · rfl
  · rfl

theorem wait_handle {p : State} {i : CallId} {possible : Bool} :
    (p.wait i possible).handle = p.handle := by
  unfold State.wait
  split
  · rfl
  · rfl

/-- What a call, a token and a closure of the queue do not change. -/
structure Leaves (s t : Life) : Prop where
  running : t.running = s.running
  child : t.child = s.child
  handle : t.proc.handle = s.proc.handle

theorem Leaves.runs (h : Leaves s t) (hs : Runs s) : Runs t :=
  .of (by rw [h.running, h.child]; exact hs.running)
    (by rw [h.running, h.handle]; exact hs.handle)

theorem drain_leaves {hit : Bool} (h : s.drain hit = some t) : Leaves s t := by
  unfold Life.drain at h
  split at h
  · rename_i i rest hp
    unfold State.drain at h
    rw [hp] at h
    cases h
    exact ⟨rfl, rfl, cancel_handle⟩
  · split at h
    · rename_i c rest _
      cases h
      refine ⟨rfl, rfl, ?_⟩
      change (s.closed c).handle = _
      unfold Life.closed
      dsimp only
      split
      · exact closed_handle
      · rfl
    · cases h
  · cases h

/-- A label of the waits. -/
theorem step_leaves {l : Label} (h : step s l = some t)
    (hl : ∀ o e x, l ≠ .spawn o ∧ l ≠ .close ∧ l ≠ .exit e x) : Leaves s t := by
  cases l with
  | spawn o => exact absurd rfl (hl o 0 0).1
  | close => exact absurd rfl (hl {} 0 0).2.1
  | exit e x => exact absurd rfl (hl {} e x).2.2
  | kill rc =>
    cases h
    unfold Life.kill
    split
    · exact ⟨rfl, rfl, rfl⟩
    · split
      · exact ⟨rfl, rfl, rfl⟩
      · exact ⟨rfl, rfl, rfl⟩
  | wait i p =>
    obtain ⟨q, hq, rfl⟩ := Option.map_eq_some_iff.mp h
    obtain ⟨_, hq⟩ := Option.ite_none_right_eq_some.mp hq
    cases hq
    exact ⟨rfl, rfl, wait_handle⟩
  | run i =>
    obtain ⟨q, hq, rfl⟩ := Option.map_eq_some_iff.mp h
    obtain ⟨_, hq⟩ := Option.ite_none_right_eq_some.mp hq
    exact ⟨rfl, rfl, run_handle hq⟩
  | requestStop i =>
    obtain ⟨q, hq, rfl⟩ := Option.map_eq_some_iff.mp h
    obtain ⟨_, hq⟩ := Option.ite_none_right_eq_some.mp hq
    cases hq
    exact ⟨rfl, rfl, rfl⟩
  | stopCallback i =>
    obtain ⟨q, hq, rfl⟩ := Option.map_eq_some_iff.mp h
    obtain ⟨_, hq⟩ := Option.ite_none_right_eq_some.mp hq
    cases hq
    exact ⟨rfl, rfl, rfl⟩
  | drain hit => exact drain_leaves (Option.ite_none_right_eq_some.mp h).2

/-! ## What a spawn does -/

/-- A call that gets as far as its closure, where no child runs. -/
structure Spawn.Reaches (o : Spawn) : Prop where
  going : o.stopped = false
  file : o.fileEmpty = false
  pipes : ¬ o.pipeRc < 0

/-- A spawn changes nothing, or it has taken the handle of a child that does not run,
and then it may have started a child. -/
theorem spawn_cases (s : Life) (o : Spawn) :
    (s.spawn o).2 = s ∨ s.running = false ∧ ∃ u : Life,
      u = (if s.proc.handle then s.close.renew else s) ∧
        ((s.spawn o).2 = u ∨ o.Reaches ∧ (s.spawn o).2 = (u.spawnClosure o.rc).2) := by
  unfold Life.spawn
  cases hst : o.stopped with
  | true => exact .inl rfl
  | false =>
    cases hf : o.fileEmpty with
    | true => exact .inl rfl
    | false =>
      cases s.running with
      | true => exact .inl rfl
      | false =>
        refine .inr ⟨rfl, _, rfl, ?_⟩
        rw [if_neg (by simp), if_neg (by simp), if_neg (by simp)]
        dsimp only
        split
        · exact .inl rfl
        · exact .inr ⟨⟨hst, hf, by assumption⟩, rfl⟩

theorem close_runs (h : Runs s) (hq : s.running = false) : Runs s.close := by
  unfold Life.close
  split
  · refine .of ⟨fun hr => ?_, fun hc => ?_⟩ fun hr => ?_
    · have hr : s.running = true := hr
      rw [hq] at hr
      cases hr
    · obtain ⟨c, _, hc⟩ := Option.map_eq_some_iff.mp hc
      have hclosed := congrArg Child.closed hc
      cases hclosed
    · have hr : s.running = true := hr
      rw [hq] at hr
      cases hr
  · exact h

theorem renew_runs (h : Runs s) (hq : s.running = false) : Runs s.renew := by
  refine .of ⟨fun hr => ?_, fun hc => ?_⟩ fun hr => ?_
  · cases hr
  · have hr := h.running.mpr hc
    rw [hq] at hr
    cases hr
  · cases hr

theorem close_running (s : Life) : s.close.running = s.running := by
  unfold Life.close
  split
  · rfl
  · rfl

theorem spawnClosure_runs (h : Runs s) (hq : s.running = false) (rc : Int) :
    Runs (s.spawnClosure rc).2 := by
  unfold Life.spawnClosure
  dsimp only
  split
  · refine .of ⟨fun hr => ?_, fun hc => ?_⟩ fun hr => ?_
    · cases hr
    · have hr := h.running.mpr hc
      rw [hq] at hr
      cases hr
    · cases hr
  · exact .of ⟨fun _ => rfl, fun _ => rfl⟩ fun _ => rfl

theorem spawn_runs (h : Runs s) (o : Spawn) : Runs (s.spawn o).2 := by
  obtain hs | ⟨hq, u, hu, hs⟩ := spawn_cases s o
  · rw [hs]
    exact h
  · have huq : Runs u ∧ u.running = false := by
      rw [hu]
      split
      · have hcq := (close_running s).trans hq
        exact ⟨renew_runs (close_runs h hq) hcq, rfl⟩
      · exact ⟨h, hq⟩
    obtain hs | ⟨_, hs⟩ := hs
    · rw [hs]
      exact huq.1
    · rw [hs]
      exact spawnClosure_runs huq.1 huq.2 o.rc

theorem exitCb_runs (s : Life) (e x : Int) : Runs (s.exitCb e x) := by
  refine .of ⟨fun hr => ?_, fun hc => ?_⟩ fun hr => ?_
  · cases hr
  · obtain ⟨c, _, hc⟩ := Option.map_eq_some_iff.mp hc
    cases hc
  · cases hr

theorem runs_step (h : Runs s) {l : Label} (hg : QuietClose s l) (hs : step s l = some t) :
    Runs t := by
  cases l with
  | spawn o =>
    obtain ⟨_, hs⟩ := Option.ite_none_right_eq_some.mp hs
    cases hs
    exact spawn_runs h o
  | close =>
    cases hs
    exact close_runs h hg
  | exit e x =>
    obtain ⟨_, hs⟩ := Option.ite_none_right_eq_some.mp hs
    cases hs
    exact exitCb_runs s e x
  | kill | wait | run | requestStop | stopCallback | drain =>
    exact (step_leaves hs (by simp)).runs h

/-- By induction over the run. -/
theorem runs_of_quiet (h : ReachableBy system QuietClose s) : Runs s := by
  refine h.invariant ?_ fun s l t _ hI hg hs => runs_step hI hg hs
  intro s h0
  cases h0
  refine .of ⟨fun hr => ?_, fun hc => ?_⟩ fun hr => ?_
  · cases hr
  · cases hc
  · cases hr

/-- A `close` of a child that runs leaves `running` as it is. -/
theorem close_runs_iff (h : Runs s) : Runs s.close ↔ s.running = false := by
  constructor
  · intro hc
    cases hr : s.running with
    | false => rfl
    | true =>
      have hclosed := hc.handle ((close_running s).trans hr)
      unfold Life.close at hclosed
      rw [if_pos (h.handle hr)] at hclosed
      change s.proc.close.handle = true at hclosed
      unfold State.close at hclosed
      rw [h.handle hr] at hclosed
      cases hclosed
  · exact close_runs h

end LuvCoro.Process.Lifecycle
