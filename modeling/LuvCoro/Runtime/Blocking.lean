import Mathlib.Data.List.Count
import LuvCoro.Request.System

/-! # `blocking`

Translated from `include/luvcoro/runtime.hpp`. The callable is run by a worker
thread of libuv; a closure posted by `await_suspend` queues it, another one,
posted by the stop callback, cancels it. Posts are accepted: the runtime is not
being shut down. -/
namespace LuvCoro.Blocking

open Transition
open Request (Pc Closure UV_ECANCELED UV_EBUSY)

/-- What `blocking` gives to the awaiting coroutine: the value or the exception
of the callable, or an exception of its own. -/
inductive Delivery (ε α : Type)
  | value (a : α)
  | exception (e : ε)
  | operationCancelled
  | uvError (code : Int)

/-- What a callable has done, as it is to be reported. -/
def Delivery.report {ε α : Type} : Except ε α → Delivery ε α
  | .ok a => .value a
  | .error e => .exception e

/-- The work inside libuv. -/
inductive Flight
  | idle | queued | working | worked | cancelled | delivered
  deriving DecidableEq

/-- The shared `state`. -/
structure Op (ε α : Type) where
  continuation : Bool := false
  keepAlive : Bool := false
  stopCallback : Bool := false
  completed : Bool := false
  workStarted : Bool := false
  exception : Option ε := none
  queueStatus : Int := 0
  afterStatus : Int := 0
  queueStarted : Bool := false
  cancelled : Bool := false
  result : Option α := none

/-- `none` is a read of a result that is not there. -/
def Op.awaitResume {ε α : Type} (o : Op ε α) : Option (Delivery ε α) :=
  if o.cancelled ∨ o.afterStatus = UV_ECANCELED then some .operationCancelled
  else if o.queueStatus < 0 then some (.uvError o.queueStatus)
  else if o.afterStatus < 0 then some (.uvError o.afterStatus)
  else
    match o.exception with
    | some e => some (.exception e)
    | none => o.result.map .value

/-- One call: `runs` has what each run of the callable has done, `outcome` what
the coroutine was resumed with, `resumed` how often, and `fault` is whether
`await_suspend` has used a state that its awaiter had given away. -/
structure Sys (ε α : Type) where
  op : Op ε α := {}
  pc : Pc := .entering
  stopRequested : Bool := false
  posted : List Closure := []
  flight : Flight := .idle
  runs : List (Except ε α) := []
  outcome : Option (Option (Delivery ε α)) := none
  resumed : Nat := 0
  fault : Bool := false

/-- A closure is run with the answer of `uv_queue_work` or `uv_cancel`; `work` is
the callable with what it does. -/
inductive Label (ε α : Type)
  | run
  | requestStop
  | stopCallback
  | runPosted (rc : Int)
  | begin
  | work (o : Except ε α)
  | callback

variable {ε α : Type}

namespace Sys

def resume (s : Sys ε α) : Sys ε α :=
  { s with outcome := some s.op.awaitResume, resumed := s.resumed + 1 }

/-- `state::complete`. -/
def complete (s : Sys ε α) : Sys ε α :=
  if s.op.completed then s
  else
    let t := if s.op.continuation then s.resume else s
    { t with
      op := { s.op with
        completed := true, continuation := false, stopCallback := false, keepAlive := false }
      pc := if s.pc = .suspended then .done else s.pc }

/-- The closure that queues the work. -/
def start (s : Sys ε α) (rc : Int) : Sys ε α :=
  if s.op.completed then s
  else if rc < 0 then
    { s with op := { s.op with queueStarted := true, queueStatus := rc } }.complete
  else { s with op := { s.op with queueStarted := true }, flight := .queued }

/-- The closure that cancels it; libuv cancels only work that no worker has
begun. -/
def cancel (s : Sys ε α) (rc : Int) : Option (Sys ε α) :=
  if s.op.completed then some s
  else if !s.op.queueStarted then some { s with op := { s.op with cancelled := true } }.complete
  else if rc = 0 then
    if s.flight = .queued then some { s with flight := .cancelled } else none
  else some s

/-- The after-work callback. -/
def afterWork (s : Sys ε α) (status : Int) : Sys ε α :=
  { s with
    flight := .delivered
    op := { s.op with
      afterStatus := status
      cancelled := s.op.cancelled || status == UV_ECANCELED } }.complete

/-- The worker: what the callable does is kept in the state. -/
def work (s : Sys ε α) (o : Except ε α) : Sys ε α :=
  { s with
    flight := .worked
    runs := s.runs ++ [o]
    op := match o with
      | .ok a => { s.op with result := some a }
      | .error e => { s.op with exception := some e } }

def post (s : Sys ε α) (c : Closure) : Sys ε α := { s with posted := s.posted ++ [c] }

end Sys

/-- `await_suspend`. -/
def run (stopPossible : Bool) (s : Sys ε α) : Option (Sys ε α) :=
  match s.pc with
  | .entering =>
    if s.stopRequested then
      some { { s with op := { s.op with cancelled := true } }.resume with pc := .done }
    else
      some { s with
        op := { s.op with continuation := true, keepAlive := true }
        pc := if stopPossible then .registering else .posting }
  | .registering =>
    if s.stopRequested then some { s.post .cancel with pc := .posting }
    else some { s with op := { s.op with stopCallback := true }, pc := .posting }
  | .posting =>
    -- `await_resume` moves `shared_state` out of the awaiter, so that it is null here
    if s.op.completed then some { s with fault := true, pc := .done }
    else some { s.post .start with pc := .suspended }
  | _ => none

def step (stopPossible : Bool) (s : Sys ε α) : Label ε α → Option (Sys ε α)
  | .run => run stopPossible s
  | .requestStop => if stopPossible then some { s with stopRequested := true } else none
  | .stopCallback =>
    if s.stopRequested && s.op.stopCallback then
      some ({ s with op := { s.op with stopCallback := false } }.post .cancel)
    else none
  | .runPosted rc =>
    match s.posted with
    | [] => none
    | .start :: cs => some ({ s with posted := cs }.start rc)
    | .cancel :: cs => { s with posted := cs }.cancel rc
  | .begin =>
    if s.flight = .queued then
      some { s with flight := .working, op := { s.op with workStarted := true } }
    else none
  | .work o => if s.flight = .working then some (s.work o) else none
  | .callback =>
    match s.flight with
    | .worked => some (s.afterWork 0)
    | .cancelled => some (s.afterWork UV_ECANCELED)
    | _ => none

def system (ε α : Type) (stopPossible : Bool) : System (Sys ε α) (Label ε α) where
  init s := ∃ stopped : Bool, (stopped = true → stopPossible = true) ∧
    s = { stopRequested := stopped }
  step := step stopPossible

/-- The closure that cancels the call does not run, on the loop thread, while
another thread is still in `await_suspend`. -/
def Orderly (s : Sys ε α) : Label ε α → Prop
  | .runPosted _ => s.posted.head? = some .cancel → s.pc = .suspended ∨ s.pc = .done
  | _ => True

/-! ## The phases of a call -/

/-- The callable has not been begun. -/
structure Blank (s : Sys ε α) : Prop where
  workStarted : s.op.workStarted = false
  runs : s.runs = []

/-- The callable has left nothing in the state. -/
structure Unfilled (s : Sys ε α) : Prop where
  exception : s.op.exception = none
  result : s.op.result = none
  runs : s.runs = []

/-- What the state says the callable has done. -/
def Op.done (o : Op ε α) : Option (Except ε α) :=
  match o.exception with
  | some e => some (.error e)
  | none => o.result.map .ok

/-- What the callable has done is in the state. -/
structure Filled (s : Sys ε α) (o : Except ε α) : Prop where
  runs : s.runs = [o]
  stored : s.op.done = some o

/-- Nothing has gone wrong yet. -/
structure Clean (s : Sys ε α) : Prop where
  cancelled : s.op.cancelled = false
  queueStatus : s.op.queueStatus = 0
  afterStatus : s.op.afterStatus = 0

/-- Before `await_suspend`. -/
structure Entering (s : Sys ε α) : Prop extends Blank s, Clean s where
  unfilled : Unfilled s
  pc : s.pc = .entering
  posted : s.posted = []
  stopCallback : s.op.stopCallback = false
  completed : s.op.completed = false
  queueStarted : s.op.queueStarted = false
  flight : s.flight = .idle
  resumed : s.resumed = 0

/-- `await_suspend` has returned false. -/
structure Refused (s : Sys ε α) : Prop extends Blank s where
  pc : s.pc = .done
  posted : s.posted = []
  stopCallback : s.op.stopCallback = false
  flight : s.flight = .idle
  resumed : s.resumed = 1
  outcome : s.outcome = some (some .operationCancelled)

/-- How far a waiting call has come. -/
inductive Progress (s : Sys ε α) : Prop
  | idle : s.flight = .idle → Blank s → Unfilled s → s.op.queueStarted = false →
      (s.pc = .suspended → Closure.start ∈ s.posted) → Progress s
  | queued : s.flight = .queued ∨ s.flight = .cancelled → Blank s → Unfilled s →
      s.op.queueStarted = true → Progress s
  | working : s.flight = .working → Unfilled s → s.op.queueStarted = true → Progress s
  | worked (o : Except ε α) : s.flight = .worked → Filled s o → s.op.queueStarted = true →
      Progress s

/-- The coroutine waits. -/
structure Live (s : Sys ε α) : Prop extends Clean s where
  pc : s.pc = .registering ∨ s.pc = .posting ∨ s.pc = .suspended
  completed : s.op.completed = false
  continuation : s.op.continuation = true
  resumed : s.resumed = 0
  once : s.posted.count .start ≤ 1
  fresh : s.pc ≠ .suspended → Closure.start ∉ s.posted
  gone : s.flight ≠ .idle → Closure.start ∉ s.posted ∧ s.pc = .suspended
  progress : Progress s

/-- What the coroutine was resumed with. -/
inductive Verdict (s : Sys ε α) : Prop
  | cancelled : s.outcome = some (some .operationCancelled) → Blank s → Verdict s
  | failed (code : Int) : s.outcome = some (some (.uvError code)) → Blank s → Verdict s
  | reported (o : Except ε α) : s.outcome = some (some (.report o)) → s.runs = [o] → Verdict s

/-- The coroutine has been resumed by `complete`. -/
structure Over (s : Sys ε α) : Prop where
  pc : s.pc ≠ .entering
  completed : s.op.completed = true
  flight : s.flight = .idle ∨ s.flight = .delivered
  resumed : s.resumed = 1
  verdict : Verdict s

inductive Phase (s : Sys ε α) : Prop
  | entering : Entering s → Phase s
  | refused : Refused s → Phase s
  | live : Live s → Phase s
  | ended : Over s → Phase s

section
variable {stopPossible : Bool} {s t : Sys ε α} {l : Label ε α}

/-- Completion resumes the coroutine with what `await_resume` makes of the state. -/
theorem over_complete (hpc : s.pc ≠ .entering) (hc : s.op.completed = false)
    (hcont : s.op.continuation = true) (hr : s.resumed = 0)
    (hf : s.flight = .idle ∨ s.flight = .delivered) (hv : Verdict s.resume) :
    Over s.complete := by
  have he : s.complete = { s.resume with
      op := { s.op with
        completed := true, continuation := false, stopCallback := false, keepAlive := false }
      pc := if s.pc = .suspended then .done else s.pc } := by
    unfold Sys.complete
    rw [if_neg (by rw [hc]; nofun)]
    dsimp only
    rw [if_pos hcont]
  rw [he]
  refine ⟨?_, rfl, hf, congrArg (· + 1) hr, ?_⟩
  · dsimp only
    split
    · nofun
    · exact hpc
  · cases hv with
    | cancelled ho hb => exact .cancelled ho ⟨hb.workStarted, hb.runs⟩
    | failed code ho hb => exact .failed code ho ⟨hb.workStarted, hb.runs⟩
    | reported o ho hruns => exact .reported o ho hruns

theorem awaitResume_done {o : Op ε α} (hc : o.cancelled = false) (hq : o.queueStatus = 0)
    (ha : o.afterStatus = 0) : o.awaitResume = o.done.map .report := by
  unfold Op.awaitResume Op.done
  rw [hc, hq, ha, if_neg (by decide), if_neg (by decide), if_neg (by decide)]
  cases o.exception with
  | some e => rfl
  | none =>
    cases o.result with
    | none => rfl
    | some a => rfl

theorem done_ok {o : Op ε α} {a : α} (he : o.exception = none) (hr : o.result = some a) :
    o.done = some (.ok a) := by
  unfold Op.done
  rw [he, hr]
  rfl

theorem live_entered (h : Live s) : s.pc ≠ .entering := by
  rcases h.pc with hp | hp | hp <;> rw [hp] <;> nofun

/-- A closure is taken from the queue of a waiting call. -/
theorem start_phase {rc : Int} {cs : List Closure} (h : Live s)
    (hp : s.posted = .start :: cs) : Phase ({ s with posted := cs }.start rc) := by
  have hmem : Closure.start ∈ s.posted := hp ▸ List.mem_cons_self
  have hsusp : s.pc = .suspended := by
    by_contra hne
    exact h.fresh hne hmem
  have honce := h.once
  rw [hp, List.count_cons_self] at honce
  have hnone : Closure.start ∉ cs := List.count_eq_zero.mp (by omega)
  have hidle : s.flight = .idle := by
    by_contra hne
    exact (h.gone hne).1 hmem
  have hprog : Blank s ∧ Unfilled s := by
    cases h.progress with
    | idle _ hb hu => exact ⟨hb, hu⟩
    | queued hf => rw [hidle] at hf; exact absurd hf (by simp)
    | working hf => rw [hidle] at hf; cases hf
    | worked o hf => rw [hidle] at hf; cases hf
  obtain ⟨hblank, hunfilled⟩ := hprog
  have hcancelled := h.cancelled
  have hafter := h.afterStatus
  have hent := live_entered h
  have hone : cs.count .start ≤ 1 := by omega
  unfold Sys.start
  rw [if_neg (by rw [h.completed]; nofun)]
  split
  · rename_i hrc
    refine .ended (over_complete hent h.completed h.continuation h.resumed (.inl hidle) ?_)
    refine .failed rc ?_ ⟨hblank.workStarted, hblank.runs⟩
    simp [Sys.resume, Op.awaitResume, hcancelled, hafter, hrc, UV_ECANCELED]
  · refine .live ⟨⟨hcancelled, h.queueStatus, hafter⟩, h.pc, h.completed, h.continuation, h.resumed,
      hone, fun _ => hnone, fun _ => ⟨hnone, hsusp⟩, ?_⟩
    exact .queued (.inl rfl) ⟨hblank.workStarted, hblank.runs⟩
      ⟨hunfilled.exception, hunfilled.result, hunfilled.runs⟩ rfl

theorem cancel_phase {rc : Int} {cs : List Closure} (h : Live s)
    (hp : s.posted = .cancel :: cs) (ht : { s with posted := cs }.cancel rc = some t) :
    Phase t := by
  have hcount : cs.count .start = s.posted.count .start := by
    rw [hp]
    rfl
  have hmem : ∀ {c}, c = Closure.start → c ∉ s.posted → c ∉ cs := by
    intro c _ hn hm
    exact hn (hp ▸ List.mem_cons_of_mem _ hm)
  have hent := live_entered h
  unfold Sys.cancel at ht
  rw [if_neg (by rw [h.completed]; nofun)] at ht
  split at ht
  · rename_i hq
    cases ht
    have hidle : s.flight = .idle ∧ Blank s := by
      have hq' : s.op.queueStarted = false := by simpa using hq
      cases h.progress with
      | idle hf hb => exact ⟨hf, hb⟩
      | queued _ _ _ hst => exact absurd (hq'.symm.trans hst) nofun
      | working _ _ hst => exact absurd (hq'.symm.trans hst) nofun
      | worked _ _ _ hst => exact absurd (hq'.symm.trans hst) nofun
    refine .ended (over_complete hent h.completed h.continuation h.resumed (.inl hidle.1) ?_)
    exact .cancelled (by simp [Sys.resume, Op.awaitResume]) ⟨hidle.2.workStarted, hidle.2.runs⟩
  · rename_i hq
    have hst : s.op.queueStarted = true := by simpa using hq
    have hgone : Closure.start ∉ s.posted ∧ s.pc = .suspended := by
      refine h.gone fun hi => ?_
      cases h.progress with
      | idle _ _ _ hn => exact absurd (hn.symm.trans hst) nofun
      | queued hf => rw [hi] at hf; exact absurd hf (by simp)
      | working hf => rw [hi] at hf; cases hf
      | worked o hf => rw [hi] at hf; cases hf
    have hlive : ∀ f, Progress { s with posted := cs, flight := f } →
        Live { s with posted := cs, flight := f } := fun f hprog =>
      ⟨⟨h.cancelled, h.queueStatus, h.afterStatus⟩, h.pc, h.completed, h.continuation, h.resumed,
        hcount ▸ h.once, fun hne => hmem rfl (h.fresh hne), fun _ => ⟨hmem rfl hgone.1, hgone.2⟩,
        hprog⟩
    split at ht
    · split at ht <;> cases ht
      rename_i hfl
      refine .live (hlive .cancelled ?_)
      cases h.progress with
      | idle hf => exact absurd (hfl.symm.trans hf) nofun
      | queued _ hb hu _ =>
        exact .queued (.inr rfl) ⟨hb.workStarted, hb.runs⟩ ⟨hu.exception, hu.result, hu.runs⟩ hst
      | working hf => exact absurd (hfl.symm.trans hf) nofun
      | worked o hf => exact absurd (hfl.symm.trans hf) nofun
    · cases ht
      refine .live (hlive s.flight ?_)
      cases h.progress with
      | idle _ _ _ hn => exact absurd (hn.symm.trans hst) nofun
      | queued hf hb hu _ =>
        exact .queued hf ⟨hb.workStarted, hb.runs⟩ ⟨hu.exception, hu.result, hu.runs⟩ hst
      | working hf hu _ => exact .working hf ⟨hu.exception, hu.result, hu.runs⟩ hst
      | worked o hf ho _ => exact .worked o hf ⟨ho.runs, ho.stored⟩ hst

/-- libuv goes on with the work of a waiting call. -/
theorem begin_phase (h : Live s) (hf : s.flight = .queued) :
    Live { s with flight := .working, op := { s.op with workStarted := true } } := by
  have hgone := h.gone (by rw [hf]; nofun)
  refine ⟨⟨h.cancelled, h.queueStatus, h.afterStatus⟩, h.pc, h.completed, h.continuation, h.resumed,
    h.once, h.fresh, fun _ => hgone, ?_⟩
  cases h.progress with
  | idle hi => exact absurd (hf.symm.trans hi) nofun
  | queued _ _ hu hst => exact .working rfl ⟨hu.exception, hu.result, hu.runs⟩ hst
  | working hw => exact absurd (hf.symm.trans hw) nofun
  | worked o hw => exact absurd (hf.symm.trans hw) nofun

theorem work_phase (o : Except ε α) (h : Live s) (hf : s.flight = .working) : Live (s.work o) := by
  have hgone := h.gone (by rw [hf]; nofun)
  have hfill : Unfilled s ∧ s.op.queueStarted = true := by
    cases h.progress with
    | idle hi => exact absurd (hf.symm.trans hi) nofun
    | queued hq => rw [hf] at hq; exact absurd hq (by simp)
    | working _ hu hst => exact ⟨hu, hst⟩
    | worked o hw => exact absurd (hf.symm.trans hw) nofun
  obtain ⟨hu, hst⟩ := hfill
  have hruns : s.runs ++ [o] = [o] := by rw [hu.runs]; rfl
  cases o with
  | ok a =>
    have hdone : (s.work (.ok a)).op.done = some (.ok a) := done_ok hu.exception rfl
    exact ⟨⟨h.cancelled, h.queueStatus, h.afterStatus⟩, h.pc, h.completed, h.continuation, h.resumed,
      h.once, h.fresh, fun _ => hgone, .worked _ rfl ⟨hruns, hdone⟩ hst⟩
  | error e =>
    exact ⟨⟨h.cancelled, h.queueStatus, h.afterStatus⟩, h.pc, h.completed, h.continuation, h.resumed,
      h.once, h.fresh, fun _ => hgone, .worked _ rfl ⟨hruns, rfl⟩ hst⟩

/-- The after-work callback reports what the callable has done. -/
theorem worked_phase (h : Live s) (hf : s.flight = .worked) : Over (s.afterWork 0) := by
  have hent := live_entered h
  refine over_complete hent h.completed h.continuation h.resumed (.inr rfl) ?_
  cases h.progress with
  | idle hi => exact absurd (hf.symm.trans hi) nofun
  | queued hq => rw [hf] at hq; exact absurd hq (by simp)
  | working hw => exact absurd (hf.symm.trans hw) nofun
  | worked o _ hfilled _ =>
    refine .reported o ?_ hfilled.runs
    have hop : ({ s.op with
        afterStatus := 0, cancelled := s.op.cancelled || (0 : Int) == UV_ECANCELED } :
        Op ε α).awaitResume = s.op.done.map .report :=
      awaitResume_done (by rw [h.cancelled]; rfl) h.queueStatus rfl
    show some (Op.awaitResume _) = _
    rw [hop, hfilled.stored]
    rfl

theorem cancelled_phase (h : Live s) (hf : s.flight = .cancelled) :
    Over (s.afterWork UV_ECANCELED) := by
  have hent := live_entered h
  refine over_complete hent h.completed h.continuation h.resumed (.inr rfl) ?_
  cases h.progress with
  | idle hi => exact absurd (hf.symm.trans hi) nofun
  | queued _ hb =>
    exact .cancelled (by simp [Sys.resume, Op.awaitResume]) ⟨hb.workStarted, hb.runs⟩
  | working hw => exact absurd (hf.symm.trans hw) nofun
  | worked o hw => exact absurd (hf.symm.trans hw) nofun

/-- Once the coroutine has been resumed, nothing of that changes. -/
structure Rests (s t : Sys ε α) : Prop where
  runs : t.runs = s.runs
  workStarted : t.op.workStarted = s.op.workStarted
  outcome : t.outcome = s.outcome
  resumed : t.resumed = s.resumed
  flight : t.flight = s.flight
  completed : t.op.completed = s.op.completed

theorem Rests.over (hr : Rests s t) (h : Over s) (hpc : t.pc ≠ .entering) : Over t := by
  refine ⟨hpc, hr.completed.trans h.completed, hr.flight ▸ h.flight, hr.resumed.trans h.resumed, ?_⟩
  cases h.verdict with
  | cancelled ho hb =>
    exact .cancelled (hr.outcome.trans ho)
      ⟨hr.workStarted.trans hb.workStarted, hr.runs.trans hb.runs⟩
  | failed code ho hb =>
    exact .failed code (hr.outcome.trans ho)
      ⟨hr.workStarted.trans hb.workStarted, hr.runs.trans hb.runs⟩
  | reported o ho hruns => exact .reported o (hr.outcome.trans ho) (hr.runs.trans hruns)

theorem over_step (h : Over s) (hs : step stopPossible s l = some t) :
    Rests s t ∧ t.pc ≠ .entering := by
  have hpc := h.pc
  have hf : ∀ f, s.flight = f → f = .idle ∨ f = .delivered := fun f he => he ▸ h.flight
  cases l with
  | run =>
    simp only [step, run] at hs
    split at hs
    · rename_i he
      exact absurd he hpc
    · split at hs <;> cases hs <;> exact ⟨⟨rfl, rfl, rfl, rfl, rfl, rfl⟩, nofun⟩
    · split at hs <;> cases hs <;> exact ⟨⟨rfl, rfl, rfl, rfl, rfl, rfl⟩, nofun⟩
    · cases hs
  | requestStop =>
    simp only [step] at hs
    split at hs <;> cases hs
    exact ⟨⟨rfl, rfl, rfl, rfl, rfl, rfl⟩, hpc⟩
  | stopCallback =>
    simp only [step] at hs
    split at hs <;> cases hs
    exact ⟨⟨rfl, rfl, rfl, rfl, rfl, rfl⟩, hpc⟩
  | runPosted rc =>
    simp only [step] at hs
    split at hs
    · cases hs
    · rename_i cs hp
      cases hs
      have he : Sys.start { s with posted := cs } rc = { s with posted := cs } :=
        if_pos h.completed
      rw [he]
      exact ⟨⟨rfl, rfl, rfl, rfl, rfl, rfl⟩, hpc⟩
    · rename_i cs hp
      have he : Sys.cancel { s with posted := cs } rc = some { s with posted := cs } :=
        if_pos h.completed
      rw [he] at hs
      cases hs
      exact ⟨⟨rfl, rfl, rfl, rfl, rfl, rfl⟩, hpc⟩
  | begin =>
    simp only [step] at hs
    split at hs <;> cases hs
    rename_i hq
    exact absurd (hf _ hq) (by simp)
  | work o =>
    simp only [step] at hs
    split at hs <;> cases hs
    rename_i hq
    exact absurd (hf _ hq) (by simp)
  | callback =>
    simp only [step] at hs
    split at hs
    · rename_i hq
      exact absurd (hf _ hq) (by simp)
    · rename_i hq
      exact absurd (hf _ hq) (by simp)
    · cases hs

/-- A refused call does nothing any more. -/
theorem refused_step (h : Refused s) (hs : step stopPossible s l = some t) :
    Rests s t ∧ Refused t := by
  cases l with
  | requestStop =>
    simp only [step] at hs
    split at hs <;> cases hs
    exact ⟨⟨rfl, rfl, rfl, rfl, rfl, rfl⟩,
      ⟨⟨h.workStarted, h.runs⟩, h.pc, h.posted, h.stopCallback, h.flight, h.resumed, h.outcome⟩⟩
  | _ => simp [step, run, h.pc, h.posted, h.stopCallback, h.flight] at hs

theorem entering_step (h : Entering s) (hs : step stopPossible s l = some t) : Phase t := by
  cases l with
  | requestStop =>
    simp only [step] at hs
    split at hs <;> cases hs
    exact .entering ⟨⟨h.workStarted, h.runs⟩, ⟨h.cancelled, h.queueStatus, h.afterStatus⟩,
      ⟨h.unfilled.exception, h.unfilled.result, h.unfilled.runs⟩, h.pc, h.posted, h.stopCallback,
      h.completed, h.queueStarted, h.flight, h.resumed⟩
  | run =>
    simp only [step, run, h.pc] at hs
    split at hs <;> cases hs
    · exact .refused ⟨⟨h.workStarted, h.runs⟩, rfl, h.posted, h.stopCallback, h.flight,
        congrArg (· + 1) h.resumed, by simp [Sys.resume, Op.awaitResume]⟩
    · have hposted := h.posted
      refine .live ⟨⟨h.cancelled, h.queueStatus, h.afterStatus⟩, ?_, h.completed, rfl, h.resumed,
        ?_, fun _ => ?_, fun hne => absurd h.flight hne, ?_⟩
      · cases stopPossible with
        | true => exact .inl rfl
        | false => exact .inr (.inl rfl)
      · show s.posted.count .start ≤ 1
        rw [hposted]
        exact Nat.zero_le _
      · show Closure.start ∉ s.posted
        rw [hposted]
        nofun
      · refine .idle h.flight ⟨h.workStarted, h.runs⟩
          ⟨h.unfilled.exception, h.unfilled.result, h.unfilled.runs⟩ h.queueStarted fun hp => ?_
        cases stopPossible <;> cases hp
  | _ => simp [step, h.posted, h.stopCallback, h.flight] at hs

/-- What a step of `await_suspend` or of the stop callback leaves alone. -/
theorem progress_quiet (h : Progress s) (hf : t.flight = s.flight) (hruns : t.runs = s.runs)
    (hws : t.op.workStarted = s.op.workStarted) (he : t.op.exception = s.op.exception)
    (hr : t.op.result = s.op.result) (hq : t.op.queueStarted = s.op.queueStarted)
    (hp : s.flight = .idle → t.pc = .suspended → Closure.start ∈ t.posted) : Progress t := by
  have hblank : Blank s → Blank t := fun hb => ⟨hws.trans hb.workStarted, hruns.trans hb.runs⟩
  have hunfilled : Unfilled s → Unfilled t := fun hu =>
    ⟨he.trans hu.exception, hr.trans hu.result, hruns.trans hu.runs⟩
  cases h with
  | idle hi hb hu hst _ => exact .idle (hf.trans hi) (hblank hb) (hunfilled hu) (hq.trans hst) (hp hi)
  | queued hi hb hu hst => exact .queued (hf ▸ hi) (hblank hb) (hunfilled hu) (hq.trans hst)
  | working hi hu hst => exact .working (hf.trans hi) (hunfilled hu) (hq.trans hst)
  | worked o hi ho hst =>
    refine .worked o (hf.trans hi) ⟨hruns.trans ho.runs, ?_⟩ (hq.trans hst)
    have hdone := ho.stored
    unfold Op.done at hdone ⊢
    rw [he, hr]
    exact hdone

theorem start_of_suspended (h : Live s) (hi : s.flight = .idle) (hp : s.pc = .suspended) :
    Closure.start ∈ s.posted := by
  cases h.progress with
  | idle _ _ _ _ hpost => exact hpost hp
  | queued hq => rw [hi] at hq; exact absurd hq (by simp)
  | working hw => exact absurd (hi.symm.trans hw) nofun
  | worked o hw => exact absurd (hi.symm.trans hw) nofun

theorem live_run (h : Live s) (hs : run stopPossible s = some t) : Live t := by
  unfold run at hs
  split at hs
  · rename_i hpc
    exact absurd hpc (live_entered h)
  · rename_i hpc
    have hnone : Closure.start ∉ s.posted := h.fresh (by rw [hpc]; nofun)
    have hidle : s.flight = .idle := by
      by_contra hne
      have hsusp := (h.gone hne).2
      rw [hpc] at hsusp
      cases hsusp
    have hzero := List.count_eq_zero.mpr hnone
    split at hs <;> cases hs
    · have hnone' : Closure.start ∉ s.posted ++ [Closure.cancel] := by simpa using hnone
      refine ⟨⟨h.cancelled, h.queueStatus, h.afterStatus⟩, .inr (.inl rfl), h.completed,
        h.continuation, h.resumed, ?_, fun _ => hnone', fun hne => absurd hidle hne, ?_⟩
      · show (s.posted ++ [Closure.cancel]).count Closure.start ≤ 1
        rw [List.count_eq_zero.mpr hnone']
        exact Nat.zero_le _
      · exact progress_quiet h.progress rfl rfl rfl rfl rfl rfl nofun
    · exact ⟨⟨h.cancelled, h.queueStatus, h.afterStatus⟩, .inr (.inl rfl), h.completed,
        h.continuation, h.resumed, h.once, fun _ => hnone, fun hne => absurd hidle hne,
        progress_quiet h.progress rfl rfl rfl rfl rfl rfl nofun⟩
  · rename_i hpc
    have hnone : Closure.start ∉ s.posted := h.fresh (by rw [hpc]; nofun)
    have hidle : s.flight = .idle := by
      by_contra hne
      have hsusp := (h.gone hne).2
      rw [hpc] at hsusp
      cases hsusp
    have hmem : Closure.start ∈ s.posted ++ [Closure.start] :=
      List.mem_append_right _ (List.mem_singleton_self _)
    rw [if_neg (by rw [h.completed]; nofun)] at hs
    cases hs
    refine ⟨⟨h.cancelled, h.queueStatus, h.afterStatus⟩, .inr (.inr rfl), h.completed,
      h.continuation, h.resumed, ?_, fun hne => absurd rfl hne, fun hne => absurd hidle hne, ?_⟩
    · show (s.posted ++ [Closure.start]).count Closure.start ≤ 1
      rw [List.count_append, List.count_eq_zero.mpr hnone]
      exact Nat.le_refl _
    · exact progress_quiet h.progress rfl rfl rfl rfl rfl rfl fun _ _ => hmem
  · cases hs

theorem live_step (h : Live s) (hs : step stopPossible s l = some t) : Phase t := by
  cases l with
  | run => exact .live (live_run h hs)
  | requestStop =>
    simp only [step] at hs
    split at hs <;> cases hs
    exact .live ⟨⟨h.cancelled, h.queueStatus, h.afterStatus⟩, h.pc, h.completed, h.continuation,
      h.resumed, h.once, h.fresh, h.gone,
      progress_quiet h.progress rfl rfl rfl rfl rfl rfl (start_of_suspended h)⟩
  | stopCallback =>
    simp only [step] at hs
    split at hs <;> cases hs
    have hmem : Closure.start ∈ s.posted ++ [Closure.cancel] ↔ Closure.start ∈ s.posted := by simp
    refine .live ⟨⟨h.cancelled, h.queueStatus, h.afterStatus⟩, h.pc, h.completed, h.continuation,
      h.resumed, ?_, fun hne hm => h.fresh hne (hmem.mp hm),
      fun hne => ⟨fun hm => (h.gone hne).1 (hmem.mp hm), (h.gone hne).2⟩, ?_⟩
    · show (s.posted ++ [Closure.cancel]).count Closure.start ≤ 1
      rw [List.count_append]
      exact h.once
    · exact progress_quiet h.progress rfl rfl rfl rfl rfl rfl fun hi hp =>
        hmem.mpr (start_of_suspended h hi hp)
  | runPosted rc =>
    simp only [step] at hs
    split at hs
    · cases hs
    · rename_i hp
      cases hs
      exact start_phase h hp
    · rename_i hp
      exact cancel_phase h hp hs
  | begin =>
    simp only [step] at hs
    split at hs <;> cases hs
    rename_i hq
    exact .live (begin_phase h hq)
  | work o =>
    simp only [step] at hs
    split at hs <;> cases hs
    rename_i hw
    exact .live (work_phase o h hw)
  | callback =>
    simp only [step] at hs
    split at hs
    · rename_i hw
      cases hs
      exact .ended (worked_phase h hw)
    · rename_i hc
      cases hs
      exact .ended (cancelled_phase h hc)
    · cases hs

/-- The step lemma. -/
theorem step_phase (h : Phase s) (hs : step stopPossible s l = some t) : Phase t := by
  cases h with
  | entering he => exact entering_step he hs
  | refused hr => exact .refused (refused_step hr hs).2
  | live hl => exact live_step hl hs
  | ended ho =>
    obtain ⟨hrests, hpc⟩ := over_step ho hs
    exact .ended (hrests.over ho hpc)

theorem reachable_phase (h : Reachable (system ε α stopPossible) s) : Phase s := by
  refine h.invariant (fun s hs => ?_) fun s l t _ hp hs => step_phase hp hs
  obtain ⟨_, _, rfl⟩ := hs
  exact .entering ⟨⟨rfl, rfl⟩, ⟨rfl, rfl, rfl⟩, ⟨rfl, rfl, rfl⟩, rfl, rfl, rfl, rfl, rfl, rfl, rfl⟩

/-! ## The awaiter of a call that is over -/

/-- `await_suspend` has used nothing that is gone, and has nothing to do once the
call is over. -/
structure Sound (s : Sys ε α) : Prop where
  fault : s.fault = false
  returned : s.op.completed = true → s.pc = .done

theorem complete_fault (s : Sys ε α) : s.complete.fault = s.fault := by
  unfold Sys.complete
  split
  · rfl
  · cases s.op.continuation <;> rfl

/-- The coroutine is resumed when `await_suspend` has nothing more to do. -/
theorem Sound.complete (h : Sound s) (hpc : s.pc = .suspended ∨ s.pc = .done) :
    Sound s.complete := by
  refine ⟨(complete_fault s).trans h.fault, fun hc => ?_⟩
  unfold Sys.complete at hc ⊢
  split
  · rename_i hdone
    exact h.returned hdone
  · rcases hpc with hp | hp <;> simp [hp]

theorem Sound.run (h : Sound s) (hs : run stopPossible s = some t) : Sound t := by
  unfold Blocking.run at hs
  split at hs
  · rename_i hpc
    have hnot : s.op.completed ≠ true := fun hc => absurd (hpc.symm.trans (h.returned hc)) nofun
    split at hs <;> cases hs
    · exact ⟨h.fault, fun _ => rfl⟩
    · exact ⟨h.fault, fun hc => absurd hc hnot⟩
  · rename_i hpc
    have hnot : s.op.completed ≠ true := fun hc => absurd (hpc.symm.trans (h.returned hc)) nofun
    split at hs <;> cases hs <;> exact ⟨h.fault, fun hc => absurd hc hnot⟩
  · rename_i hpc
    have hnot : s.op.completed ≠ true := fun hc => absurd (hpc.symm.trans (h.returned hc)) nofun
    rw [if_neg hnot] at hs
    cases hs
    exact ⟨h.fault, fun hc => absurd hc hnot⟩
  · cases hs

/-- The closure that queues the work is posted by the end of `await_suspend`. -/
theorem start_returned (h : Phase s) (hI : Sound s) (hm : Closure.start ∈ s.posted) :
    s.pc = .suspended ∨ s.pc = .done := by
  cases h with
  | entering he => exact absurd (he.posted ▸ hm) nofun
  | refused hr => exact .inr hr.pc
  | live hl =>
    by_contra hne
    exact hl.fresh (fun hp => hne (.inl hp)) hm
  | ended ho => exact .inr (hI.returned ho.completed)

/-- libuv has the work of a call only while its coroutine waits. -/
theorem flight_suspended (h : Phase s) (hf : s.flight = .worked ∨ s.flight = .cancelled) :
    s.pc = .suspended := by
  have hne : s.flight ≠ .idle := by rcases hf with hf | hf <;> rw [hf] <;> nofun
  cases h with
  | entering he => exact absurd he.flight hne
  | refused hr => exact absurd hr.flight hne
  | live hl => exact (hl.gone hne).2
  | ended ho =>
    rcases ho.flight with hi | hd
    · exact absurd hi hne
    · rcases hf with hf | hf <;> exact absurd (hd.symm.trans hf) nofun

theorem Sound.cancel {rc : Int} (h : Sound s) (hpc : s.pc = .suspended ∨ s.pc = .done)
    (hs : s.cancel rc = some t) : Sound t := by
  unfold Sys.cancel at hs
  split at hs
  · cases hs
    exact h
  · split at hs
    · cases hs
      exact Sound.complete ⟨h.fault, h.returned⟩ hpc
    · split at hs
      · split at hs <;> cases hs
        exact ⟨h.fault, h.returned⟩
      · cases hs
        exact h

/-- The step lemma. -/
theorem Sound.step (hp : Phase s) (h : Sound s) (hl : Orderly s l)
    (hs : step stopPossible s l = some t) : Sound t := by
  cases l with
  | run => exact h.run hs
  | runPosted rc =>
    simp only [Blocking.step] at hs
    split at hs
    · cases hs
    · rename_i cs hq
      cases hs
      have hpc := start_returned hp h (hq ▸ List.mem_cons_self)
      unfold Sys.start
      split
      · exact ⟨h.fault, h.returned⟩
      · split
        · exact Sound.complete ⟨h.fault, h.returned⟩ hpc
        · exact ⟨h.fault, h.returned⟩
    · rename_i cs hq
      exact Sound.cancel (s := { s with posted := cs }) ⟨h.fault, h.returned⟩
        (hl (by rw [hq]; rfl)) hs
  | callback =>
    simp only [Blocking.step] at hs
    split at hs
    · rename_i hf
      cases hs
      have hpc := flight_suspended hp (.inl hf)
      exact Sound.complete ⟨h.fault, h.returned⟩ (.inl hpc)
    · rename_i hf
      cases hs
      have hpc := flight_suspended hp (.inr hf)
      exact Sound.complete ⟨h.fault, h.returned⟩ (.inl hpc)
    · cases hs
  | work o =>
    simp only [Blocking.step] at hs
    split at hs <;> cases hs
    cases o <;> exact ⟨h.fault, h.returned⟩
  | _ =>
    simp only [Blocking.step] at hs
    split at hs <;> cases hs
    exact ⟨h.fault, h.returned⟩

theorem reachable_sound (h : ReachableBy (system ε α stopPossible) Orderly s) : Sound s := by
  refine h.invariant (fun s hs => ?_) fun s l t hr hI hl hs =>
    hI.step (reachable_phase hr.reachable) hl hs
  obtain ⟨_, _, rfl⟩ := hs
  exact ⟨rfl, nofun⟩

/-- A closure that cancels the call too early leaves the rest of `await_suspend`
without the state. -/
theorem early_cancel_faults {rc : Int} {u : Sys ε α} (h : Phase s) (hpc : s.pc = .posting)
    (hs : s.cancel rc = some t) (hu : run stopPossible t = some u) : u.fault = true := by
  have hdone : t.op.completed = true ∧ t.pc = .posting := by
    have hidle : s.op.completed = false → s.op.queueStarted = false := by
      intro hc
      cases h with
      | entering he => exact he.queueStarted
      | refused hr => exact absurd (hpc.symm.trans hr.pc) nofun
      | ended ho => exact absurd (hc.symm.trans ho.completed) nofun
      | live hl =>
        by_contra hq
        have hsusp : s.pc = .suspended := by
          refine (hl.gone fun hi => ?_).2
          cases hl.progress with
          | idle _ _ _ hn => exact hq hn
          | queued hf => rw [hi] at hf; exact absurd hf (by simp)
          | working hf => rw [hi] at hf; cases hf
          | worked o hf => rw [hi] at hf; cases hf
        exact absurd (hpc.symm.trans hsusp) nofun
    unfold Sys.cancel at hs
    split at hs
    · rename_i hc
      cases hs
      exact ⟨hc, hpc⟩
    · rename_i hc
      rw [if_pos (by rw [hidle (Bool.eq_false_iff.mpr hc)]; rfl)] at hs
      cases hs
      unfold Sys.complete
      rw [if_neg hc]
      exact ⟨rfl, by simp [hpc]⟩
  simp only [run, hdone.2, hdone.1, if_true] at hu
  cases hu
  rfl

/-! ## The contract -/

/-- No worker is in the callable, and nothing but a stop request is left to happen. -/
def Settled (stopPossible : Bool) (s : Sys ε α) : Prop :=
  s.flight ≠ .working ∧ ∀ l, l ≠ .requestStop → step stopPossible s l = none

/-- A waiting call is never left alone. -/
theorem not_settled_of_live (h : Live s) : ¬ Settled stopPossible s := by
  intro ⟨hidle, hq⟩
  have hrun : run stopPossible s = none := hq .run nofun
  rcases h.pc with hp | hp | hp
  · simp only [run, hp] at hrun
    split at hrun <;> cases hrun
  · simp only [run, hp] at hrun
    split at hrun <;> cases hrun
  · cases h.progress with
    | idle _ _ _ _ hpost =>
      have hposted := hq (.runPosted UV_EBUSY) nofun
      have hmem := hpost hp
      have hstarted : s.op.queueStarted = false := by assumption
      cases hl : s.posted with
      | nil =>
        rw [hl] at hmem
        cases hmem
      | cons c cs =>
        cases c with
        | start => simp [step, hl] at hposted
        | cancel => simp [step, hl, Sys.cancel, h.completed, hstarted] at hposted
    | queued hf =>
      rcases hf with hf | hf
      · have hb := hq .begin nofun
        simp [step, hf] at hb
      · have hc := hq .callback nofun
        simp [step, hf] at hc
    | working hf => exact hidle hf
    | worked o hf =>
      have hc := hq .callback nofun
      simp [step, hf] at hc

/-- A step resumes the coroutine, or leaves what it was resumed with. -/
def Resumes (s t : Sys ε α) : Prop :=
  t.outcome = s.outcome ∧ t.resumed = s.resumed ∨ t.resumed = s.resumed + 1

theorem complete_resumes (s : Sys ε α) : Resumes s s.complete := by
  unfold Sys.complete
  split
  · exact .inl ⟨rfl, rfl⟩
  · cases hc : s.op.continuation with
    | true => exact .inr rfl
    | false => exact .inl ⟨rfl, rfl⟩

theorem step_resumes (hs : step stopPossible s l = some t) : Resumes s t := by
  cases l with
  | run =>
    simp only [step, run] at hs
    split at hs
    · split at hs <;> cases hs
      · exact .inr rfl
      · exact .inl ⟨rfl, rfl⟩
    · split at hs <;> cases hs <;> exact .inl ⟨rfl, rfl⟩
    · split at hs <;> cases hs <;> exact .inl ⟨rfl, rfl⟩
    · cases hs
  | runPosted rc =>
    simp only [step] at hs
    split at hs
    · cases hs
    · cases hs
      unfold Sys.start
      split
      · exact .inl ⟨rfl, rfl⟩
      · split
        · exact complete_resumes _
        · exact .inl ⟨rfl, rfl⟩
    · unfold Sys.cancel at hs
      split at hs
      · cases hs
        exact .inl ⟨rfl, rfl⟩
      · split at hs
        · cases hs
          exact complete_resumes _
        · split at hs
          · split at hs <;> cases hs
            exact .inl ⟨rfl, rfl⟩
          · cases hs
            exact .inl ⟨rfl, rfl⟩
  | callback =>
    simp only [step] at hs
    split at hs
    · cases hs
      exact complete_resumes _
    · cases hs
      exact complete_resumes _
    · cases hs
  | _ =>
    simp only [step] at hs
    split at hs <;> cases hs
    exact .inl ⟨rfl, rfl⟩

theorem outcome_none (h : Reachable (system ε α stopPossible) s) :
    s.resumed = 0 → s.outcome = none := by
  refine h.invariant (I := fun s => s.resumed = 0 → s.outcome = none) (fun s hs _ => ?_) ?_
  · obtain ⟨_, _, rfl⟩ := hs
    rfl
  · intro s l t _ hI hs h0
    rcases step_resumes hs with ⟨ho, hr⟩ | hr
    · exact ho.trans (hI (hr ▸ h0))
    · omega

/-- What `blocking` promises about the coroutine that awaits it and the callable. -/
structure BlockingContract (stopPossible : Bool) (s : Sys ε α) : Prop where
  sound : s.fault = false
  once : s.resumed ≤ 1
  resumes : Settled stopPossible s → s.resumed = 1
  delivers : ∀ d, s.outcome = some d → d ≠ none
  runsOnce : s.runs.length ≤ 1
  reports : ∀ o ∈ s.runs, ∀ d, s.outcome = some d → d = some (.report o)
  neverRan : s.outcome = some (some .operationCancelled) → ∀ ls t,
    Transition.run (system ε α stopPossible) s ls = some t →
      t.op.workStarted = false ∧ t.runs = []

theorem report_ne_cancelled (o : Except ε α) : Delivery.report o ≠ .operationCancelled := by
  cases o <;> nofun

theorem refused_run {ls : List (Label ε α)} (h : Reachable (system ε α stopPossible) s)
    (hr : Refused s) (hrun : Transition.run (system ε α stopPossible) s ls = some t) : Refused t :=
  @Reachable.run_invariant _ _ _ Refused _ _ _ h hr (fun _ _ _ _ hr hs => (refused_step hr hs).2) hrun

/-- A call that has been resumed keeps what the callable has done. -/
theorem over_run {ls : List (Label ε α)} (h : Reachable (system ε α stopPossible) s)
    (ho : Over s) (hrun : Transition.run (system ε α stopPossible) s ls = some t) :
    t.op.workStarted = s.op.workStarted ∧ t.runs = s.runs := by
  have hI : Over t ∧ t.op.workStarted = s.op.workStarted ∧ t.runs = s.runs := by
    refine @Reachable.run_invariant _ _ _
      (fun t => Over t ∧ t.op.workStarted = s.op.workStarted ∧ t.runs = s.runs) _ _ _ h
      ⟨ho, rfl, rfl⟩ ?_ hrun
    intro u l v _ ⟨hu, hw, hruns⟩ hs
    obtain ⟨hrests, hpc⟩ := over_step hu hs
    exact ⟨hrests.over hu hpc, hrests.workStarted.trans hw, hrests.runs.trans hruns⟩
  exact hI.2

/-- The contract holds in every run in which a call is not cancelled before its
`await_suspend` is over. -/
theorem blocking_contract (hr : ReachableBy (system ε α stopPossible) Orderly s) :
    BlockingContract stopPossible s := by
  have hsound := (reachable_sound hr).fault
  have h := hr.reachable
  cases reachable_phase h with
  | entering he =>
    have hnone := outcome_none h he.resumed
    refine ⟨hsound, by rw [he.resumed]; exact Nat.zero_le _, fun hq => ?_, fun d hd => ?_, ?_,
      fun o ho => ?_, fun hd => ?_⟩
    · have hrun : run stopPossible s = none := hq.2 .run nofun
      simp only [run, he.pc] at hrun
      split at hrun <;> cases hrun
    · rw [hnone] at hd
      cases hd
    · rw [he.runs]
      exact Nat.zero_le _
    · rw [he.runs] at ho
      cases ho
    · rw [hnone] at hd
      cases hd
  | refused hr =>
    refine ⟨hsound, Nat.le_of_eq hr.resumed, fun _ => hr.resumed, fun d hd => ?_, ?_, fun o ho => ?_,
      fun _ ls t hrun => ?_⟩
    · rw [hr.outcome] at hd
      cases hd
      nofun
    · rw [hr.runs]
      exact Nat.zero_le _
    · rw [hr.runs] at ho
      cases ho
    · have ht := refused_run h hr hrun
      exact ⟨ht.workStarted, ht.runs⟩
  | live hl =>
    have hnone := outcome_none h hl.resumed
    refine ⟨hsound, by rw [hl.resumed]; exact Nat.zero_le _,
      fun hq => absurd hq (not_settled_of_live hl), fun d hd => ?_, ?_, fun o _ d hd => ?_,
      fun hd => ?_⟩
    · rw [hnone] at hd
      cases hd
    · cases hl.progress with
      | idle _ _ hu => rw [hu.runs]; exact Nat.zero_le _
      | queued _ _ hu => rw [hu.runs]; exact Nat.zero_le _
      | working _ hu => rw [hu.runs]; exact Nat.zero_le _
      | worked o _ ho => rw [ho.runs]; exact Nat.le_refl _
    · rw [hnone] at hd
      cases hd
    · rw [hnone] at hd
      cases hd
  | ended ho =>
    have hrest := fun ls t => @over_run ε α stopPossible s t ls h ho
    cases ho.verdict with
    | cancelled hout hb =>
      refine ⟨hsound, Nat.le_of_eq ho.resumed, fun _ => ho.resumed, fun d hd => ?_, ?_, fun o hm => ?_,
        fun _ ls t hrun => ?_⟩
      · rw [hout] at hd
        cases hd
        nofun
      · rw [hb.runs]
        exact Nat.zero_le _
      · rw [hb.runs] at hm
        cases hm
      · obtain ⟨hw, hruns⟩ := hrest ls t hrun
        exact ⟨hw.trans hb.workStarted, hruns.trans hb.runs⟩
    | failed code hout hb =>
      refine ⟨hsound, Nat.le_of_eq ho.resumed, fun _ => ho.resumed, fun d hd => ?_, ?_, fun o hm => ?_,
        fun hd => ?_⟩
      · rw [hout] at hd
        cases hd
        nofun
      · rw [hb.runs]
        exact Nat.zero_le _
      · rw [hb.runs] at hm
        cases hm
      · rw [hout] at hd
        cases hd
    | reported o hout hruns =>
      refine ⟨hsound, Nat.le_of_eq ho.resumed, fun _ => ho.resumed, fun d hd => ?_, ?_, fun o' hm d hd => ?_,
        fun hd => ?_⟩
      · rw [hout] at hd
        cases hd
        nofun
      · rw [hruns]
        exact Nat.le_refl _
      · rw [hruns, List.mem_singleton] at hm
        rw [hout] at hd
        rw [hm]
        exact (Option.some.inj hd).symm
      · rw [hout] at hd
        exact absurd (Option.some.inj (Option.some.inj hd)) (report_ne_cancelled o)

/-- A stop request comes too late: a worker has begun the callable. -/
theorem blocking_contract_busy : ∃ s : Sys String Nat, s.stopRequested = true ∧
    s.outcome = some (some (.value 7)) ∧ BlockingContract true s := by
  have h0 : ReachableBy (system String Nat true) Orderly {} := .init ⟨false, nofun, rfl⟩
  have h1 := ((h0.step (l := .run) (by exact trivial) rfl).step (l := .run) (by exact trivial)
    rfl).step (l := .run) (by exact trivial) rfl
  have h2 := ((h1.step (l := .runPosted 0) (by intro hp; cases hp) rfl).step (l := .begin) (by exact trivial)
    rfl).step (l := .requestStop) (by exact trivial) rfl
  have h3 := (h2.step (l := .stopCallback) (by exact trivial) rfl).step
    (l := .runPosted UV_EBUSY) (by intro _; exact .inl rfl) rfl
  have h4 := (h3.step (l := .work (.ok 7)) (by exact trivial) rfl).step (l := .callback)
    (by exact trivial) rfl
  exact ⟨_, rfl, rfl, blocking_contract h4⟩

/-- The token is stopped, and its closure run, while another thread is about to
post the work: the state that it posts through is gone. -/
theorem blocking_uses_moved_state : ∃ s : Sys String Nat,
    Reachable (system String Nat true) s ∧ s.outcome = some (some .operationCancelled) ∧
      s.fault = true ∧ ¬ BlockingContract true s := by
  have h0 : Reachable (system String Nat true) {} := .init ⟨false, nofun, rfl⟩
  have h := h0.run (show Transition.run (system String Nat true) {} [.run, .run, .requestStop,
    .stopCallback, .runPosted 0, .run] = some _ from rfl)
  exact ⟨_, h, rfl, rfl, fun hc => absurd hc.sound (by simp)⟩

end

end LuvCoro.Blocking
