import LuvCoro.Lib.Transition
import LuvCoro.Lib.WaiterSlot

/-! # Waiting for a process

`process::wait`, the callback with which libuv reports the exit, and
`process::close`, from `src/process.cpp`, for a process that has been spawned. The
calls run on the loop thread; `close` may be called, and a token be stopped, on any
thread, and both post to the queue of the runtime. -/
namespace LuvCoro.Process

open Transition WaiterSlot

abbrev CallId := Nat

def UV_ECANCELED : Int := -125
def UV_EBUSY : Int := -16

inductive Error
  | operationCancelled
  | uvError (code : Int) (op : String)
  | runtimeError (message : String)
  deriving DecidableEq

structure ExitStatus where
  exitStatus : Int
  termSignal : Int

/-- `handle` is whether `process::state::handle` is set, `gone` whether `uv_close`
has been called; `slot` has `waiter`, the awaiters and the queue of the runtime, in
which `none` is the closure that `close` has posted. -/
structure State where
  handle : Bool := true
  gone : Bool := false
  exited : Bool := false
  waitStatus : Int := 0
  exitStatus : Int := 0
  termSignal : Int := 0
  slot : Slot CallId := {}
  outcome : CallId → Option (Except Error ExitStatus) := fun _ => none

namespace State

def call (s : State) (i : CallId) : Call := s.slot.call i

def leave (s : State) (i : CallId) (r : Except Error ExitStatus) : State :=
  { s with slot := s.slot.leave i, outcome := Function.update s.outcome i (some r) }

/-- `wait`, up to its awaiter. -/
def wait (s : State) (i : CallId) (stopPossible : Bool) : State :=
  if !s.handle then s.leave i (.error (.runtimeError "process has not been spawned"))
  else { s with slot := s.slot.enter i stopPossible }

def awaitReady (s : State) (i : CallId) : Bool := (s.call i).stopped || s.exited

/-- The checks of `await_suspend`. -/
def awaitSuspend (s : State) (i : CallId) : State :=
  if (s.call i).stopped then
    { s with waitStatus := UV_ECANCELED, slot := s.slot.moveTo i .skipped }
  else if s.slot.waiter.isSome then
    { s with waitStatus := UV_EBUSY, slot := s.slot.moveTo i .skipped }
  else { s with slot := s.slot.moveTo i .register }

def awaitResume (s : State) (i : CallId) : Except Error ExitStatus × State :=
  if s.waitStatus = UV_ECANCELED ∨ (s.call i).stopped then
    (.error .operationCancelled, { s with waitStatus := 0 })
  else if s.waitStatus < 0 then
    (.error (.uvError s.waitStatus "process::wait"), { s with waitStatus := 0 })
  else if !s.exited then (.error (.runtimeError "process wait resumed before exit"), s)
  else (.ok { exitStatus := s.exitStatus, termSignal := s.termSignal }, s)

/-- The next step of a call that runs. -/
def run (s : State) (i : CallId) : Option State :=
  match (s.call i).stage with
  | .ready =>
    some { s with slot := s.slot.moveTo i (if s.awaitReady i then .skipped else .suspend) }
  | .suspend => some (s.awaitSuspend i)
  | .register => some { s with slot := s.slot.register i }
  | .park => some { s with slot := s.slot.park i }
  | .skipped | .resumed =>
    let x := s.awaitResume i
    some (x.2.leave i x.1)
  | _ => none

/-- `uv_options.exit_cb`. -/
def exitCb (s : State) (exitStatus termSignal : Int) : State :=
  { s with
    exitStatus := exitStatus, termSignal := termSignal, exited := true, slot := s.slot.wake }

/-- The closure that the stop callback of `i` has posted. The awaiter of a call
that is over is gone; `hit` is whether what is read there equals `waiter`. -/
def cancel (s : State) (i : CallId) (hit : Bool) : State :=
  let equal := if (s.call i).stage = .ended then hit else decide (s.slot.waiter = some i)
  if equal then { s with waitStatus := UV_ECANCELED, slot := s.slot.wake } else s

/-- The closure that `close` has posted. -/
def closed (s : State) : State :=
  let s := { s with gone := true }
  if s.slot.waiter.isSome then { s with waitStatus := UV_ECANCELED, slot := s.slot.wake } else s

def drain (s : State) (hit : Bool) : Option State :=
  match s.slot.posted with
  | some i :: _ => some ({ s with slot := s.slot.pop }.cancel i hit)
  | none :: _ => some { s with slot := s.slot.pop }.closed
  | [] => none

def close (s : State) : State :=
  if !s.handle then s else { s with handle := false, slot := s.slot.post }

end State

inductive Label
  | wait (i : CallId) (stopPossible : Bool)
  | run (i : CallId)
  | requestStop (i : CallId)
  | stopCallback (i : CallId)
  | drain (hit : Bool)
  | exit (exitStatus termSignal : Int)
  | close

/-- What the loop does next comes after the call that runs has suspended or is over. -/
def step (s : State) : Label → Option State
  | .wait i stopPossible =>
    if s.slot.running = none ∧ (s.call i).stage = .idle ∧ ((s.call i).stopped → stopPossible) then
      some (s.wait i stopPossible)
    else none
  | .run i => if s.slot.running = some i then s.run i else none
  | .requestStop i =>
    if (s.call i).stage = .idle ∨ (s.call i).possible then
      some { s with slot := s.slot.requestStop i }
    else none
  | .stopCallback i =>
    if (s.call i).registered ∧ (s.call i).stopped then
      some { s with slot := s.slot.callback i }
    else none
  | .drain hit => if s.slot.running = none then s.drain hit else none
  | .exit exitStatus termSignal =>
    if s.slot.running = none ∧ !s.gone ∧ !s.exited then some (s.exitCb exitStatus termSignal)
    else none
  | .close => some s.close

def system : System State Label where
  init s := s = {}
  step := step

/-! ## What a step does to the slot -/

inductive Took (s : State) : Label → Slot CallId → Prop
  | entered {i : CallId} {p : Bool} :
      s.slot.running = none → (s.call i).stage = .idle → Took s (.wait i p) (s.slot.enter i p)
  | refused {i : CallId} {p : Bool} :
      s.slot.running = none → (s.call i).stage = .idle → Took s (.wait i p) (s.slot.leave i)
  | moved {i : CallId} {stage : Stage} :
      (s.call i).stage = .ready ∨ (s.call i).stage = .suspend → stage = .skipped ∨ stage = .suspend →
      Took s (.run i) (s.slot.moveTo i stage)
  | registering {i : CallId} :
      (s.call i).stage = .suspend → s.slot.waiter = none →
      Took s (.run i) (s.slot.moveTo i .register)
  | registered {i : CallId} :
      (s.call i).stage = .register → Took s (.run i) (s.slot.register i)
  | parked {i : CallId} : (s.call i).stage = .park → Took s (.run i) (s.slot.park i)
  | resumed {i : CallId} :
      (s.call i).stage = .skipped ∨ (s.call i).stage = .resumed →
      Took s (.run i) (s.slot.leave i)
  | stopRequested {i : CallId} : Took s (.requestStop i) (s.slot.requestStop i)
  | callback {i : CallId} :
      (s.call i).registered = true → (s.call i).stopped = true →
      Took s (.stopCallback i) (s.slot.callback i)
  | drained {hit : Bool} : s.slot.running = none → Took s (.drain hit) s.slot.pop
  | cancelled {i : CallId} {rest : List (Option CallId)} {hit : Bool} :
      s.slot.running = none → s.slot.posted = some i :: rest → Took s (.drain hit) s.slot.pop.wake
  | closed {rest : List (Option CallId)} {hit : Bool} :
      s.slot.running = none → s.slot.posted = none :: rest → Took s (.drain hit) s.slot.pop.wake
  | exited {exitStatus termSignal : Int} :
      s.slot.running = none → Took s (.exit exitStatus termSignal) s.slot.wake
  | posted : Took s .close s.slot.post
  | ignored : Took s .close s.slot

variable {s t : State} {l : Label} {i : CallId} {slot : Slot CallId}

/-- `await_resume` clears `wait_status`, and changes nothing else. -/
theorem awaitResume_only : ∃ w, (s.awaitResume i).2 = { s with waitStatus := w } := by
  unfold State.awaitResume
  split
  · exact ⟨0, rfl⟩
  · split
    · exact ⟨0, rfl⟩
    · split
      · exact ⟨s.waitStatus, rfl⟩
      · exact ⟨s.waitStatus, rfl⟩

theorem awaitResume_slot : (s.awaitResume i).2.slot = s.slot := by
  obtain ⟨w, hw⟩ := awaitResume_only
  rw [hw]

theorem resumed_took (hs : (s.call i).stage = .skipped ∨ (s.call i).stage = .resumed) :
    Took s (.run i) ((s.awaitResume i).2.leave i (s.awaitResume i).1).slot := by
  rw [State.leave, awaitResume_slot]
  exact .resumed hs

theorem run_took (h : s.run i = some t) : Took s (.run i) t.slot := by
  unfold State.run at h
  cases hs : (s.call i).stage with
  | ready =>
    rw [hs] at h
    cases h
    refine .moved (.inl hs) ?_
    split
    · exact .inl rfl
    · exact .inr rfl
  | suspend =>
    rw [hs] at h
    cases h
    unfold State.awaitSuspend
    split
    · exact .moved (.inr hs) (.inl rfl)
    · split
      · exact .moved (.inr hs) (.inl rfl)
      · rename_i hw
        exact .registering hs (by simpa using hw)
  | register =>
    rw [hs] at h
    cases h
    exact .registered hs
  | park =>
    rw [hs] at h
    cases h
    exact .parked hs
  | skipped =>
    rw [hs] at h
    cases h
    exact resumed_took (.inl hs)
  | resumed =>
    rw [hs] at h
    cases h
    exact resumed_took (.inr hs)
  | idle =>
    rw [hs] at h
    cases h
  | parked =>
    rw [hs] at h
    cases h
  | ended =>
    rw [hs] at h
    cases h

theorem drain_took {hit : Bool} (hr : s.slot.running = none) (h : s.drain hit = some t) :
    Took s (.drain hit) t.slot := by
  unfold State.drain at h
  split at h
  · rename_i i rest hp
    cases h
    unfold State.cancel
    dsimp only
    generalize (if (State.call _ i).stage = .ended then hit else _) = equal
    cases equal with
    | true => exact .cancelled hr hp
    | false => exact .drained hr
  · rename_i rest hp
    cases h
    unfold State.closed
    dsimp only
    split
    · exact .closed hr hp
    · exact .drained hr
  · cases h

theorem step_took (h : step s l = some t) : Took s l t.slot := by
  cases l with
  | wait i p =>
    simp only [step] at h
    split at h
    · rename_i hc
      cases h
      unfold State.wait
      split
      · exact .refused hc.1 hc.2.1
      · exact .entered hc.1 hc.2.1
    · cases h
  | run i =>
    simp only [step] at h
    split at h
    · exact run_took h
    · cases h
  | requestStop i =>
    simp only [step] at h
    split at h
    · cases h
      exact .stopRequested
    · cases h
  | stopCallback i =>
    simp only [step] at h
    split at h
    · rename_i hc
      cases h
      exact .callback hc.1 hc.2
    · cases h
  | drain hit =>
    simp only [step] at h
    split at h
    · exact drain_took ‹_› h
    · cases h
  | exit exitStatus termSignal =>
    simp only [step] at h
    split at h
    · rename_i hc
      cases h
      exact .exited hc.1
    · cases h
  | close =>
    cases h
    unfold State.close
    split
    · exact .ignored
    · exact .posted

/-! ## The closures that cancel a wait -/

/-- A call that is going to take the slot has found it free. -/
structure Inv (slot : Slot CallId) : Prop where
  valid : slot.Valid
  free : ∀ i, (slot.call i).stage = .register ∨ (slot.call i).stage = .park → slot.waiter = none

/-- Only the call that runs can be about to take the slot. -/
theorem Inv.of_running (hv : slot.Valid) (hr : slot.running = none ∨ slot.running = some i)
    (hfree : (slot.call i).stage = .register ∨ (slot.call i).stage = .park → slot.waiter = none) :
    Inv slot := by
  refine ⟨hv, ?_⟩
  intro j hj
  have hrunning : slot.running = some j := by
    refine (hv.call j).running.mpr ?_
    rcases hj with hj | hj <;> rw [hj] <;> rfl
  rcases hr with hr | hr
  · rw [hr] at hrunning
    cases hrunning
  · have he : i = j := Option.some.inj (hr.symm.trans hrunning)
    subst he
    exact hfree hj

theorem inv_step (h : Inv s.slot) (ht : Took s l slot) : Inv slot := by
  have hv := h.valid
  have hrun : ∀ {i stage}, (s.call i).stage = stage → stage.runs = true →
      s.slot.running = some i ∧ (s.slot.call i).stage.runs = true := by
    rintro i stage rfl hruns
    exact ⟨(hv.call i).running.mpr hruns, hruns⟩
  have hl : ∀ {i stage}, (s.call i).stage = stage → stage.listens = false →
      (s.slot.call i).stage.listens = false := by
    rintro i stage rfl hlistens
    exact hlistens
  cases ht with
  | @entered i p hr hs =>
    refine .of_running (i := i) (hv.enter hr hs) (.inr rfl) ?_
    simp [Slot.enter]
  | @refused i p hr hs =>
    exact .of_running (i := i) (hv.leave (.inr ⟨hr, hs⟩)) (.inl rfl) (by simp [Slot.leave])
  | @moved i stage hs hstage =>
    have hi : s.slot.running = some i ∧ (s.slot.call i).stage.runs = true := by
      rcases hs with hs | hs
      · exact hrun hs rfl
      · exact hrun hs rfl
    have hquiet : (s.slot.call i).stage.listens = false := by
      rcases hs with hs | hs
      · exact hl hs rfl
      · exact hl hs rfl
    refine .of_running (i := i) (hv.moveTo hi.2 hquiet ?_) (.inr hi.1) ?_
    · rcases hstage with rfl | rfl <;> rfl
    · rcases hstage with rfl | rfl <;> simp
  | @registering i hs hw =>
    exact .of_running (i := i) (hv.moveTo (hrun hs rfl).2 (hl hs rfl) rfl) (.inr (hrun hs rfl).1)
      fun _ => hw
  | @registered i hs =>
    refine .of_running (i := i) (hv.register hs) (.inr ?_) fun _ => ?_
    · unfold Slot.register
      split_ifs <;> exact (hrun hs rfl).1
    · exact Slot.register_waiter.trans (h.free i (.inl hs))
  | @parked i hs =>
    exact .of_running (i := i) (hv.park hs (h.free i (.inr hs))) (.inl rfl) (by simp [Slot.park])
  | @resumed i hs =>
    refine .of_running (i := i) (hv.leave (.inl ?_)) (.inl rfl) (by simp [Slot.leave])
    rcases hs with hs | hs
    · exact (hrun hs rfl).2
    · exact (hrun hs rfl).2
  | stopRequested =>
    refine ⟨hv.requestStop, fun j hj => h.free j ?_⟩
    rwa [Slot.requestStop_stage] at hj
  | callback hreg hst =>
    refine ⟨hv.callback hreg hst, fun j hj => h.free j ?_⟩
    rwa [Slot.callback_stage] at hj
  | drained => exact ⟨hv.pop, h.free⟩
  | cancelled hr => exact ⟨hv.pop.wake hr, fun _ _ => Slot.wake_waiter⟩
  | closed hr => exact ⟨hv.pop.wake hr, fun _ _ => Slot.wake_waiter⟩
  | exited hr => exact ⟨hv.wake hr, fun _ _ => Slot.wake_waiter⟩
  | posted => exact ⟨hv.post, h.free⟩
  | ignored => exact h

/-- A call whose closure is in the queue is not resumed by anything else, and one
that has been resumed does not get its closure posted any more. -/
def Punctual (s : State) : Label → Prop
  | .exit _ _ => ∀ i, s.slot.waiter = some i → i ∉ s.slot.cancels
  | .drain _ => ∀ rest, s.slot.posted = none :: rest →
      ∀ i, s.slot.waiter = some i → i ∉ s.slot.cancels
  | .stopCallback i => (s.call i).stage ≠ .resumed
  | _ => True

theorem fresh_step (h : Inv s.slot) (hf : s.slot.Fresh) (hgood : Punctual s l)
    (ht : Took s l slot) : slot.Fresh := by
  have hv := h.valid
  have hrun : ∀ {i stage}, (s.call i).stage = stage → stage.runs = true →
      s.slot.running = some i := by
    rintro i stage rfl hruns
    exact (hv.call i).running.mpr hruns
  have hmove : ∀ {i stage}, (s.call i).stage = stage → stage.listens = false → stage ≠ .ended →
      ∀ stage', (s.slot.moveTo i stage').Fresh := by
    rintro i stage rfl hl ho stage'
    exact hf.moveTo hv hl ho
  have hwaits : ∀ {i stage}, (s.call i).stage = stage → stage.waits = false →
      (s.slot.call i).stage.waits = false := by
    rintro i stage rfl hw
    exact hw
  cases ht with
  | entered hr hs => exact hf.enter hv hr hs
  | refused hr hs => exact hf.leave (.inr hr) (hwaits hs rfl)
  | moved hs =>
    rcases hs with hs | hs
    · exact hmove hs rfl (by decide) _
    · exact hmove hs rfl (by decide) _
  | registering hs => exact hmove hs rfl (by decide) _
  | registered => exact hf.register
  | @parked i hs => exact hf.park (hrun hs rfl) (h.free i (.inr hs))
  | resumed hs =>
    rcases hs with hs | hs
    · exact hf.leave (.inl (hrun hs rfl)) (hwaits hs rfl)
    · exact hf.leave (.inl (hrun hs rfl)) (hwaits hs rfl)
  | stopRequested => exact hf.requestStop
  | callback hreg => exact hf.callback_of_registered hv hreg hgood
  | drained => exact hf.pop
  | cancelled hr hp => exact hf.cancel hv hr hp
  | @closed rest hit hr hp =>
    refine hf.pop.wake hr ?_
    intro j hj hq
    exact hgood rest hp j hj (Slot.cancels_pop.subset hq)
  | exited hr => exact hf.wake hr hgood
  | posted => exact hf.post
  | ignored => exact hf

end LuvCoro.Process
