import LuvCoro.Handles.System
import Mathlib.Data.List.TakeWhile

/-! # What a watcher says of itself

`event_watcher` and `poll_watcher`, translated from `src/fs_watch.cpp`. What is
watched is kept three times: in the object, in the state that the closures share,
and by libuv. The closure that `close` posts is a step of its own. -/
namespace LuvCoro.Handles.Watching

open Transition

/-- What `state_` points to. -/
structure Shared where
  handle : Bool := true
  closed : Bool := false
  path : List UInt8 := []

/-- `watched` is what the watcher of libuv watches while it runs; `queued` and
`disposed` say of the closure of `close` that it is to run and that it has run. -/
structure Watcher where
  path : List UInt8 := []
  interval : Int := 0
  active : Bool := false
  state : Shared := {}
  watched : Option (List UInt8) := none
  queued : Bool := false
  disposed : Bool := false

/-- What a call meets: a stop token, a runtime that takes no closures any more, and
what libuv says to a start. -/
structure Answers where
  stopped : Bool := false
  shuttingDown : Bool := false
  rc : Int := 0

/-! ## libuv -/

def UV_EINVAL : Int := -22

/-- What libuv reads of `path.c_str()`. -/
def cStr (path : List UInt8) : List UInt8 := path.takeWhile (· ≠ 0)

/-- `uv_fs_event_stop` and `uv_fs_poll_stop`. -/
def uvStop (w : Watcher) : Int × Watcher := (0, { w with watched := none })

/-- `uv_fs_event_start` and `uv_fs_poll_start`, which do nothing to one that runs. -/
def uvStart (k : Watch) (w : Watcher) (path : List UInt8) (rc : Int) : Int × Watcher :=
  match w.watched, k with
  | some _, .event => (UV_EINVAL, w)
  | some _, .poll => (0, w)
  | none, _ => if rc < 0 then (rc, w) else (0, { w with watched := some (cStr path) })

/-! ## The calls -/

namespace Watcher

/-- Whether the closure of `start` stops what is watched before. -/
def stopsFirst (k : Watch) (w : Watcher) (path : List UInt8) : Bool :=
  match k with
  | .event => w.state.path = path || !w.state.path.isEmpty
  | .poll => true

/-- The closure of `start`. -/
def startClosure (k : Watch) (w : Watcher) (path : List UInt8) (rc : Int) :
    Except Error Unit × Watcher :=
  if w.state.closed then (.error (.runtimeError k.isClosed), w)
  else
    let w := if w.stopsFirst k path then (uvStop w).2 else w
    let (rc, w) := uvStart k w path rc
    if rc < 0 then (.error (.uvError rc k.start), w)
    else (.ok (), { w with state := { w.state with path := path } })

/-- `start`; the interval is that of `poll_watcher`. -/
def start (k : Watch) (w : Watcher) (path : List UInt8) (interval : Int) (a : Answers) :
    Except Error Unit × Watcher :=
  if !w.state.handle then (.error (.runtimeError k.isClosed), w)
  else if k = .poll ∧ interval ≤ 0 then
    (.error (.invalidArgument "fs poll interval must be positive"), w)
  else if a.stopped then (.error .operationCancelled, w)
  else if a.shuttingDown then (.error (.runtimeError "uv_runtime is shutting down"), w)
  else
    match w.startClosure k path a.rc with
    | (.error e, w) => (.error e, w)
    | (.ok (), w) =>
      let interval := if k = .poll then interval else w.interval
      (.ok (), { w with path := path, interval := interval, active := true })

/-- The closure of `stop`. -/
def stopClosure (k : Watch) (w : Watcher) : Except Error Unit × Watcher :=
  if w.state.closed then (.ok (), w)
  else
    let (rc, w) := uvStop w
    if rc < 0 then (.error (.uvError rc k.stop), w)
    else (.ok (), { w with state := { w.state with path := [] } })

def stop (k : Watch) (w : Watcher) (a : Answers) : Except Error Unit × Watcher :=
  if a.stopped then (.error .operationCancelled, w)
  else if !w.state.handle || !w.active then (.ok (), w)
  else if a.shuttingDown then (.error (.runtimeError "uv_runtime is shutting down"), w)
  else
    match w.stopClosure k with
    | (.error e, w) => (.error e, w)
    | (.ok (), w) => (.ok (), { w with active := false, interval := 0, path := [] })

def close (w : Watcher) (a : Answers) : Watcher :=
  let w := { w with active := false, interval := 0, path := [] }
  if !w.state.handle then w
  else { w with state := { handle := false, closed := true }, queued := !a.shuttingDown }

/-- The closure of `close`. -/
def closeClosure (w : Watcher) : Watcher :=
  { (uvStop w).2 with queued := false, disposed := true }

/-- The `watch_path` of the notification that `on_event` and `on_poll` send. -/
def notify (w : Watcher) : Option (List UInt8) :=
  if w.state.closed then none else some w.state.path

end Watcher

/-! ## The system -/

inductive Label
  | start (path : List UInt8) (interval : Int) (a : Answers)
  | stop (a : Answers)
  | close (a : Answers)
  | run

def step (k : Watch) (w : Watcher) : Label → Option Watcher
  | .start path interval a => some (w.start k path interval a).2
  | .stop a => some (w.stop k a).2
  | .close a => some (w.close a)
  | .run => if w.queued then some w.closeClosure else none

def system (k : Watch) : System Watcher Label where
  init w := w = {}
  step := step k

/-- `active` and `path` say what libuv does, and so does each notification. Once
`close` has taken the handle, its closure stops what was watched, and what libuv
reports before that is not sent. -/
structure Agrees (w : Watcher) : Prop where
  running : w.state.handle = true → (w.active = true ↔ w.watched.isSome = true)
  watches : w.active = true → w.watched = some w.path ∧ w.notify = some w.path
  closing : w.state.handle = false → w.active = false ∧ w.notify = none
  disposed : w.disposed = true → w.watched = none

/-- `start` gets as far as a start of libuv. -/
structure Watcher.Starts (k : Watch) (w : Watcher) (path : List UInt8) (interval : Int)
    (a : Answers) : Prop where
  handle : w.state.handle = true
  interval : ¬ (k = .poll ∧ interval ≤ 0)
  going : a.stopped = false
  up : a.shuttingDown = false
  first : w.active = true → w.stopsFirst k path = true

/-- What libuv does not start takes the place of nothing, and what it starts has a
path without NUL. -/
def Good (k : Watch) (w : Watcher) : Label → Prop
  | .start path interval a =>
    w.Starts k path interval a → if a.rc < 0 then w.active = false else 0 ∉ path
  | _ => True

/-- What every call keeps, `start` under `Good`. -/
structure Kept (w : Watcher) : Prop where
  agrees : Agrees w
  closed : w.state.closed = !w.state.handle
  taken : w.queued = true ∨ w.disposed = true → w.state.handle = false

/-! ## A call -/

variable {k : Watch} {w : Watcher} {path : List UInt8} {interval : Int} {a : Answers}

theorem cStr_eq_iff (path : List UInt8) : cStr path = path ↔ 0 ∉ path := by
  unfold cStr
  rw [List.takeWhile_eq_self_iff]
  constructor
  · intro h h0
    have := h 0 h0
    simp at this
  · intro h x hx
    have hne : x ≠ 0 := fun he => h (he ▸ hx)
    simpa using hne

theorem Kept.idle (h : Kept w) (ho : w.state.handle = true) (ha : w.active = false) :
    w.watched = none := by
  have hrun := h.agrees.running ho
  rw [ha] at hrun
  cases hw : w.watched with
  | none => rfl
  | some p =>
    rw [hw] at hrun
    have := hrun.mpr rfl
    cases this

/-- The closure of `start` on what does not run, or is stopped before. -/
theorem startClosure_idle (hc : w.state.closed = false)
    (hf : w.watched = none ∨ w.stopsFirst k path = true) (rc : Int) :
    w.startClosure k path rc =
      if rc < 0 then (.error (.uvError rc k.start), { w with watched := none })
      else (.ok (), { w with watched := some (cStr path), state := { w.state with path := path } }) := by
  have hidle : (if w.stopsFirst k path then (uvStop w).2 else w) = { w with watched := none } := by
    split
    · rfl
    · have hn := hf.resolve_right (by assumption)
      cases w
      cases hn
      rfl
  unfold Watcher.startClosure
  rw [hc, if_neg (by simp), hidle]
  unfold uvStart
  by_cases hr : rc < 0
  · simp [hr]
  · simp [hr]

/-- `event_watcher` does not stop a path that is empty, for another one. -/
theorem startClosure_runs (hc : w.state.closed = false) (hw : w.watched.isSome = true)
    (hf : w.stopsFirst k path = false) (rc : Int) :
    w.startClosure k path rc = (.error (.uvError UV_EINVAL k.start), w) := by
  obtain ⟨p, hp⟩ := Option.isSome_iff_exists.mp hw
  cases k with
  | event =>
    unfold Watcher.startClosure
    rw [hc, if_neg (by simp), hf, if_neg (by simp)]
    dsimp only
    unfold uvStart
    rw [hp]
    rfl
  | poll => cases hf

/-- What `start` does: nothing, or it ends what was watched, or it starts. -/
theorem start_cases (h : Kept w) (path : List UInt8) (interval : Int) (a : Answers) :
    (¬ w.Starts k path interval a ∧ (w.start k path interval a).2 = w) ∨
    (w.Starts k path interval a ∧ a.rc < 0 ∧
      (w.start k path interval a).2 = { w with watched := none }) ∨
    (w.Starts k path interval a ∧ ¬ a.rc < 0 ∧ ∃ i, (w.start k path interval a).2 =
      { w with path := path, interval := i, active := true, watched := some (cStr path)
               state := { w.state with path := path } }) := by
  unfold Watcher.start
  cases ho : w.state.handle with
  | false =>
    rw [if_pos (by simp)]
    exact .inl ⟨fun hs => absurd hs.handle (by simp [ho]), rfl⟩
  | true =>
    rw [if_neg (by simp)]
    by_cases hi : k = .poll ∧ interval ≤ 0
    · rw [if_pos hi]
      exact .inl ⟨fun hs => hs.interval hi, rfl⟩
    rw [if_neg hi]
    cases hst : a.stopped with
    | true =>
      rw [if_pos rfl]
      exact .inl ⟨fun hs => absurd hs.going (by simp [hst]), rfl⟩
    | false =>
      rw [if_neg (by simp)]
      cases hup : a.shuttingDown with
      | true =>
        rw [if_pos rfl]
        exact .inl ⟨fun hs => absurd hs.up (by simp [hup]), rfl⟩
      | false =>
        rw [if_neg (by simp)]
        have hc : w.state.closed = false := by rw [h.closed, ho]; rfl
        by_cases hf : w.active = true → w.stopsFirst k path = true
        · have hs : w.Starts k path interval a := ⟨ho, hi, hst, hup, hf⟩
          have hidle : w.watched = none ∨ w.stopsFirst k path = true := by
            cases ha : w.active with
            | false => exact .inl (h.idle ho ha)
            | true => exact .inr (hf ha)
          rw [startClosure_idle hc hidle]
          by_cases hr : a.rc < 0
          · rw [if_pos hr]
            exact .inr (.inl ⟨hs, hr, rfl⟩)
          · rw [if_neg hr]
            exact .inr (.inr ⟨hs, hr, _, rfl⟩)
        · obtain ⟨ha, hn⟩ := Classical.not_imp.mp hf
          have hw := (h.agrees.running ho).mp ha
          rw [startClosure_runs hc hw (by simpa using hn)]
          exact .inl ⟨fun hs => hf hs.first, rfl⟩

/-- After a start that libuv refuses. -/
theorem agrees_refused_iff (h : Kept w) (ho : w.state.handle = true) :
    Agrees { w with watched := none } ↔ w.active = false := by
  constructor
  · intro hw
    cases ha : w.active with
    | false => rfl
    | true =>
      have hnone := (hw.watches ha).1
      cases hnone
  · intro ha
    have hw := h.idle ho ha
    cases w
    cases hw
    exact h.agrees

/-- After a start that libuv takes. -/
theorem agrees_started_iff (h : Kept w) (ho : w.state.handle = true) (path : List UInt8) (i : Int) :
    Agrees { w with path := path, interval := i, active := true, watched := some (cStr path)
                    state := { w.state with path := path } } ↔ 0 ∉ path := by
  have hc : w.state.closed = false := by rw [h.closed, ho]; rfl
  rw [← cStr_eq_iff]
  constructor
  · intro hw
    exact Option.some.inj (hw.watches rfl).1
  · intro hp
    refine ⟨fun _ => ⟨fun _ => rfl, fun _ => rfl⟩, fun _ => ⟨congrArg some hp, ?_⟩, fun hn => ?_,
      fun hd => ?_⟩
    · unfold Watcher.notify
      rw [if_neg (by simp [hc])]
    · rw [ho] at hn
      cases hn
    · have hn := h.taken (.inr hd)
      rw [ho] at hn
      cases hn

/-- `stop` does nothing, or it ends what was watched. -/
theorem stop_cases (h : Kept w) (a : Answers) :
    (w.stop k a).2 = w ∨
    w.state.handle = true ∧ (w.stop k a).2 =
      { w with path := [], interval := 0, active := false, watched := none
               state := { w.state with path := [] } } := by
  unfold Watcher.stop
  cases a.stopped with
  | true => exact .inl rfl
  | false =>
    rw [if_neg (by simp)]
    by_cases hn : (!w.state.handle || !w.active) = true
    · rw [if_pos hn]
      exact .inl rfl
    · rw [if_neg hn]
      cases a.shuttingDown with
      | true => exact .inl rfl
      | false =>
        have ho : w.state.handle = true := by
          cases ho : w.state.handle with
          | true => rfl
          | false => exact absurd (by simp [ho]) hn
        have hc : w.state.closed = false := by rw [h.closed, ho]; rfl
        unfold Watcher.stopClosure
        rw [hc]
        exact .inr ⟨ho, rfl⟩

theorem kept_stop (h : Kept w) (a : Answers) : Kept (w.stop k a).2 := by
  obtain hs | ⟨ho, hs⟩ := stop_cases (k := k) h a
  · rw [hs]
    exact h
  · rw [hs]
    refine ⟨⟨fun _ => ⟨fun hf => ?_, fun hf => ?_⟩, fun hf => ?_, fun hn => ?_, fun _ => rfl⟩,
      h.closed, h.taken⟩
    · cases hf
    · cases hf
    · cases hf
    · rw [ho] at hn
      cases hn

theorem kept_close (h : Kept w) (a : Answers) : Kept (w.close a) := by
  unfold Watcher.close
  cases ho : w.state.handle with
  | false =>
    rw [if_pos (by simp [ho])]
    have hclosing := h.agrees.closing ho
    refine ⟨⟨fun hf => ?_, fun hf => ?_, fun _ => ⟨rfl, hclosing.2⟩, h.agrees.disposed⟩, h.closed,
      h.taken⟩
    · rw [ho] at hf
      cases hf
    · cases hf
  | true =>
    rw [if_neg (by simp [ho])]
    refine ⟨⟨fun hf => ?_, fun hf => ?_, fun _ => ⟨rfl, rfl⟩, h.agrees.disposed⟩, rfl, fun _ => rfl⟩
    · cases hf
    · cases hf

theorem kept_closeClosure (h : Kept w) (hq : w.queued = true) : Kept w.closeClosure := by
  have ho := h.taken (.inl hq)
  have hclosing := h.agrees.closing ho
  refine ⟨⟨fun hf => ?_, fun hf => ?_, fun _ => hclosing, fun _ => rfl⟩, h.closed, fun _ => ho⟩
  · have hn : w.state.handle = true := hf
    rw [ho] at hn
    cases hn
  · have hn : w.active = true := hf
    rw [hclosing.1] at hn
    cases hn

/-- `Good` says when a call keeps the agreement. -/
theorem step_kept (h : Kept w) {l : Label} {t : Watcher} (hs : step k w l = some t) :
    (Good k w l → Kept t) ∧ (Agrees t → Good k w l) := by
  cases l with
  | start path interval a =>
    cases hs
    obtain ⟨hn, hw⟩ | ⟨hst, hr, hw⟩ | ⟨hst, hr, i, hw⟩ := start_cases (k := k) h path interval a
    · rw [hw]
      exact ⟨fun _ => h, fun _ hst => absurd hst hn⟩
    · rw [hw]
      have hiff := agrees_refused_iff h hst.handle
      refine ⟨fun hg => ?_, fun ht hst => ?_⟩
      · have hg := hg hst
        rw [if_pos hr] at hg
        exact ⟨hiff.mpr hg, h.closed, h.taken⟩
      · rw [if_pos hr]
        exact hiff.mp ht
    · rw [hw]
      have hiff := agrees_started_iff h hst.handle path i
      refine ⟨fun hg => ?_, fun ht hst => ?_⟩
      · have hg := hg hst
        rw [if_neg hr] at hg
        exact ⟨hiff.mpr hg, h.closed, h.taken⟩
      · rw [if_neg hr]
        exact hiff.mp ht
  | stop a =>
    cases hs
    exact ⟨fun _ => kept_stop h a, fun _ => trivial⟩
  | close a =>
    cases hs
    exact ⟨fun _ => kept_close h a, fun _ => trivial⟩
  | run =>
    obtain ⟨hq, hs⟩ := Option.ite_none_right_eq_some.mp hs
    cases hs
    exact ⟨fun _ => kept_closeClosure h hq, fun _ => trivial⟩

theorem kept (h : ReachableBy (system k) (Good k) w) : Kept w := by
  refine h.invariant ?_ fun s l t _ hI hg hs => (step_kept hI hs).1 hg
  intro s h0
  cases h0
  refine ⟨⟨fun _ => ?_, fun hf => ?_, fun hf => ?_, fun _ => rfl⟩, rfl, fun hf => ?_⟩
  · simp
  · cases hf
  · cases hf
  · simp at hf

/-- In every run whose starts are all good, and after no other start. -/
theorem watcher_agrees (h : ReachableBy (system k) (Good k) w) :
    Agrees w ∧ ∀ l t, step k w l = some t → (Agrees t ↔ Good k w l) :=
  ⟨(kept h).agrees, fun _ _ hs =>
    ⟨(step_kept (kept h) hs).2, fun hg => ((step_kept (kept h) hs).1 hg).agrees⟩⟩

/-- A start, and a second one that libuv answers with `rc`. -/
def startTwice (rc : Int) : List Label :=
  [.start [97] 1000 {}, .start [98] 1000 { rc := rc }]

/-- The second start takes the place of the first. -/
theorem watcher_agrees_restart : ∃ w, run (system .event) {} (startTwice 0) = some w ∧
    Agrees w ∧ w.active = true ∧ w.watched = some [98] := by
  have hgood : ∀ u, ∀ l ∈ startTwice 0, Good .event u l := by
    intro u l hl
    simp only [startTwice, List.mem_cons, List.not_mem_nil, or_false] at hl
    obtain rfl | rfl := hl
    · intro _
      simp
    · intro _
      simp
  have h0 : ReachableBy (system .event) (Good .event) {} := .init rfl
  have hrun : run (system .event) {} (startTwice 0) = some _ := rfl
  exact ⟨_, rfl, (watcher_agrees (h0.run hgood hrun)).1, rfl, rfl⟩

/-- Nothing is watched, but `active` and `path` are those of the first start. -/
theorem restart_fails_active :
    (∃ w, Reachable (system .event) w ∧
      w.state.handle = true ∧ w.active = true ∧ w.path = [97] ∧ w.watched = none) ∧
    ∃ w, Reachable (system .poll) w ∧
      w.state.handle = true ∧ w.active = true ∧ w.path = [97] ∧ w.watched = none := by
  constructor
  · have h0 : Reachable (system .event) {} := .init rfl
    exact ⟨_, h0.run (show run (system .event) _ (startTwice (-2)) = some _ from rfl), rfl, rfl,
      rfl, rfl⟩
  · have h0 : Reachable (system .poll) {} := .init rfl
    exact ⟨_, h0.run (show run (system .poll) _ (startTwice (-2)) = some _ from rfl), rfl, rfl,
      rfl, rfl⟩

end LuvCoro.Handles.Watching
