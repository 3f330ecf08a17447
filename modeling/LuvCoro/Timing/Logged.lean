import LuvCoro.Timing.Periodic

/-! # `spawn_logged` and the logged periodic tasks

Translated from `include/luvcoro/runtime.hpp`: the task that awaits another one and
reports what it throws, for any task, and then for the three periodic ones. -/
namespace LuvCoro.Timing.Periodic

open Transition

/-! ## `make_spawn_logged_task` -/

inductive Report where
  | awaiting
  /-- The handler runs. -/
  | handling (thrown : Thrown)
  | done (result : Except Thrown Unit)

structure Logged (σ : Type) where
  task : σ
  report : Report := .awaiting
  /-- What the handler was called with, the latest first. -/
  handled : List (String × Thrown) := []

inductive LoggedLabel (Λ : Type) where
  | task (l : Λ)
  /-- `co_await task` returns or throws. -/
  | awaited
  /-- The handler returns or throws. -/
  | handled (threw : Bool)

section
variable {σ Λ : Type}

/-- `result` is what the task has returned or thrown, and `handler` that there is one. -/
def Logged.step (A : System σ Λ) (result : σ → Option (Except Thrown Unit)) (name : String)
    (handler : Bool) (s : Logged σ) : LoggedLabel Λ → Option (Logged σ)
  | .task l => (A.step s.task l).map fun task => { s with task := task }
  | .awaited =>
    match s.report, result s.task with
    | .awaiting, some (.ok ()) => some { s with report := .done (.ok ()) }
    | .awaiting, some (.error e) =>
      if handler then
        some { s with report := .handling e, handled := (name, e) :: s.handled }
      else some { s with report := .done (.ok ()) }
    | _, _ => none
  | .handled _ =>
    match s.report with
    -- `catch (...) {}`
    | .handling _ => some { s with report := .done (.ok ()) }
    | _ => none

def logged (A : System σ Λ) (result : σ → Option (Except Thrown Unit)) (name : String)
    (handler : Bool) : System (Logged σ) (LoggedLabel Λ) where
  init s := ∃ task, A.init task ∧ s = { task := task }
  step := Logged.step A result name handler

/-- A task that is over stays so. -/
def Settles (A : System σ Λ) (result : σ → Option (Except Thrown Unit)) : Prop :=
  ∀ s l t r, A.step s l = some t → result s = some r → result t = some r

/-- What the handler has been told. -/
structure Reported (result : σ → Option (Except Thrown Unit)) (name : String) (handler : Bool)
    (s : Logged σ) : Prop where
  awaiting : s.report = .awaiting → s.handled = []
  handling : ∀ e, s.report = .handling e →
    handler = true ∧ result s.task = some (.error e) ∧ s.handled = [(name, e)]
  done : ∀ r, s.report = .done r → r = .ok () ∧
    (result s.task = some (.ok ()) ∧ s.handled = [] ∨
      ∃ e, result s.task = some (.error e) ∧
        s.handled = if handler then [(name, e)] else [])

variable {A : System σ Λ} {result : σ → Option (Except Thrown Unit)} {name : String}
  {handler : Bool} {s t : Logged σ}

theorem reported_step (hsettles : Settles A result) {l : LoggedLabel Λ}
    (h : Reported result name handler s)
    (hs : s.step A result name handler l = some t) : Reported result name handler t := by
  cases l with
  | task l =>
    simp only [Logged.step, Option.map_eq_some_iff] at hs
    obtain ⟨u, hu, rfl⟩ := hs
    refine ⟨h.awaiting, ?_, ?_⟩
    · intro e he
      obtain ⟨hh, hr, hlist⟩ := h.handling e he
      exact ⟨hh, hsettles _ _ _ _ hu hr, hlist⟩
    · intro r hr
      obtain ⟨hok, ⟨hq, hlist⟩ | ⟨e, hq, hlist⟩⟩ := h.done r hr
      · exact ⟨hok, .inl ⟨hsettles _ _ _ _ hu hq, hlist⟩⟩
      · exact ⟨hok, .inr ⟨e, hsettles _ _ _ _ hu hq, hlist⟩⟩
  | awaited =>
    simp only [Logged.step] at hs
    split at hs
    · rename_i ha hq
      cases hs
      refine ⟨by simp, by simp, ?_⟩
      intro r hr
      cases hr
      exact ⟨rfl, .inl ⟨hq, h.awaiting ha⟩⟩
    · rename_i e ha hq
      split at hs <;> cases hs
      · rename_i hh
        refine ⟨by simp, ?_, by simp⟩
        intro e' he
        cases he
        exact ⟨hh, hq, by simp [h.awaiting ha]⟩
      · rename_i hh
        refine ⟨by simp, by simp, ?_⟩
        intro r hr
        cases hr
        exact ⟨rfl, .inr ⟨e, hq, by simp [h.awaiting ha, hh]⟩⟩
    · cases hs
  | handled threw =>
    simp only [Logged.step] at hs
    split at hs
    · rename_i e he
      cases hs
      obtain ⟨hh, hq, hlist⟩ := h.handling e he
      refine ⟨by simp, by simp, ?_⟩
      intro r hr
      cases hr
      exact ⟨rfl, .inr ⟨e, hq, by simp [hlist, hh]⟩⟩
    · cases hs

/-- The task does not notice that it is reported. -/
theorem logged_task {l : LoggedLabel Λ} (hs : s.step A result name handler l = some t) :
    t.task = s.task ∨ ∃ m, A.step s.task m = some t.task := by
  cases l with
  | task l =>
    simp only [Logged.step, Option.map_eq_some_iff] at hs
    obtain ⟨u, hu, rfl⟩ := hs
    exact .inr ⟨l, hu⟩
  | awaited =>
    simp only [Logged.step] at hs
    split at hs
    · cases hs
      exact .inl rfl
    · split at hs <;> cases hs <;> exact .inl rfl
    · cases hs
  | handled threw =>
    simp only [Logged.step] at hs
    split at hs <;> cases hs
    exact .inl rfl

theorem logged_reachable (hsettles : Settles A result)
    (h : Reachable (logged A result name handler) s) :
    Reachable A s.task ∧ Reported result name handler s := by
  refine h.invariant (I := fun s => Reachable A s.task ∧ Reported result name handler s) ?_ ?_
  · rintro s ⟨task, ht, rfl⟩
    exact ⟨.init ht, by simp, by simp, by simp⟩
  · intro s l t _ hs hstep
    refine ⟨?_, reported_step hsettles hs.2 hstep⟩
    rcases logged_task hstep with htask | ⟨m, hm⟩
    · exact htask ▸ hs.1
    · exact hs.1.next hm

end

/-! ## The logged periodic tasks -/

def Task.result (s : Task) : Option (Except Thrown Unit) :=
  match s.point with
  | .done r => some r
  | _ => none

def slotResult (s : Timing.Task) : Option (Except Thrown Unit) :=
  match s.point with
  | .done r => some r
  | _ => none

theorem result_eq_some {s : Task} {r : Except Thrown Unit} :
    s.result = some r ↔ s.point = .done r := by
  simp only [Task.result]
  split <;> simp_all

theorem slotResult_eq_some {s : Timing.Task} {r : Except Thrown Unit} :
    slotResult s = some r ↔ s.point = .done r := by
  simp only [slotResult]
  split <;> simp_all

theorem periodic_settles (variant : Variant) (interval : Interval) :
    Settles (periodic variant interval) Task.result := by
  intro s l t r hs hr
  rw [result_eq_some] at hr ⊢
  cases l with
  | requestStop =>
    cases hs
    exact hr
  | act now action => exact absurd hr ((moves_of_act hs).not_done r)

theorem fixedRate_settles (interval : Interval) : Settles (fixedRate interval) slotResult := by
  intro s l t r hs hr
  rw [slotResult_eq_some] at hr ⊢
  cases l with
  | requestStop =>
    cases hs
    exact hr
  | _ => simp [fixedRate, Timing.Task.step, hr] at hs

theorem leave_quiet (s : Timing.Task) (e : Thrown) :
    (s.leave e).point ≠ .done (.error .operationCancelled) := by
  cases e <;> simp [Timing.Task.leave]

/-- `operation_cancelled` does not leave `make_spawn_every_fixed_rate_task_impl`. -/
theorem fixedRate_quiet {interval : Interval} {s : Timing.Task}
    (h : Reachable (fixedRate interval) s) : s.point ≠ .done (.error .operationCancelled) := by
  refine h.invariant (I := fun s => s.point ≠ .done (.error .operationCancelled)) ?_ ?_
  · rintro s ⟨t, rfl⟩
    simp [Timing.Task.start]
  · intro s l t _ hq hs
    cases l with
    | requestStop =>
      cases hs
      exact hq
    | check =>
      simp only [fixedRate, Timing.Task.step] at hs
      split at hs
      · split at hs <;> cases hs <;> simp
      · split at hs <;> cases hs <;> simp
      · cases hs
    | readClock now =>
      simp only [fixedRate, Timing.Task.step] at hs
      split at hs
      · split at hs <;> cases hs
        simp
      · cases hs
    | wake failed =>
      simp only [fixedRate, Timing.Task.step] at hs
      split at hs
      · split at hs
        · cases hs
          exact leave_quiet s _
        · split at hs <;> cases hs
          · exact leave_quiet s _
          · simp
      · cases hs
    | call =>
      simp only [fixedRate, Timing.Task.step] at hs
      split at hs <;> cases hs
      simp
    | ticked result =>
      simp only [fixedRate, Timing.Task.step] at hs
      split at hs
      · split at hs <;> cases hs
        · exact leave_quiet s _
        · simp
      · cases hs

section
variable {σ Λ : Type}

/-- A run of a logged periodic task, whose calls began at the times `begun`. -/
structure LoggedRun (A : System σ Λ) (result : σ → Option (Except Thrown Unit))
    (begun : σ → List Int) (name : String) (handler : Bool) (s : Logged σ) : Prop where
  task : Reachable A s.task
  reported : Reported result name handler s
  quiet : ∀ p ∈ s.handled, p.2 ≠ .operationCancelled
  /-- A task that is over can be reported. -/
  due : ∀ r, s.report = .awaiting → result s.task = some r →
    ∃ t, (logged A result name handler).step s .awaited = some t ∧ t.report ≠ .awaiting
  /-- When it is reported, no call will begin. -/
  last : s.report ≠ .awaiting → ∀ ls t, run (logged A result name handler) s ls = some t →
    begun t.task = begun s.task

variable {A : System σ Λ} {result : σ → Option (Except Thrown Unit)} {begun : σ → List Int}
  {name : String} {handler : Bool} {s : Logged σ}

theorem awaited_due {r : Except Thrown Unit} (ha : s.report = .awaiting)
    (hr : result s.task = some r) :
    ∃ t, (logged A result name handler).step s .awaited = some t ∧ t.report ≠ .awaiting := by
  cases r with
  | ok u =>
    exact ⟨{ s with report := .done (.ok ()) }, by simp [logged, Logged.step, ha, hr], by simp⟩
  | error e =>
    cases handler with
    | true =>
      exact ⟨{ s with report := .handling e, handled := (name, e) :: s.handled },
        by simp [logged, Logged.step, ha, hr], by simp⟩
    | false =>
      exact ⟨{ s with report := .done (.ok ()) }, by simp [logged, Logged.step, ha, hr],
        by simp⟩

theorem Reported.result_some (h : Reported result name handler s) (hr : s.report ≠ .awaiting) :
    ∃ r, result s.task = some r := by
  cases hp : s.report with
  | awaiting => exact absurd hp hr
  | handling e => exact ⟨_, (h.handling e hp).2.1⟩
  | done r =>
    obtain ⟨_, ⟨hq, _⟩ | ⟨e, hq, _⟩⟩ := h.done r hp
    · exact ⟨_, hq⟩
    · exact ⟨_, hq⟩

theorem Reported.handled_error (h : Reported result name handler s) {p : String × Thrown}
    (hp : p ∈ s.handled) : result s.task = some (.error p.2) := by
  cases hr : s.report with
  | awaiting => simp [h.awaiting hr] at hp
  | handling e =>
    obtain ⟨_, hq, hlist⟩ := h.handling e hr
    simp only [hlist, List.mem_singleton] at hp
    rw [hp, hq]
  | done r =>
    obtain ⟨_, ⟨_, hlist⟩ | ⟨e, hq, hlist⟩⟩ := h.done r hr
    · simp [hlist] at hp
    · cases handler <;> simp_all

theorem loggedRun_of_reachable (hsettles : Settles A result)
    (hbegun : ∀ s l t r, A.step s l = some t → result s = some r → begun t = begun s)
    (hquiet : ∀ s, Reachable A s → result s ≠ some (.error .operationCancelled))
    (h : Reachable (logged A result name handler) s) :
    LoggedRun A result begun name handler s := by
  obtain ⟨htask, hreported⟩ := logged_reachable hsettles h
  refine ⟨htask, hreported, ?_, fun r ha hr => awaited_due ha hr, ?_⟩
  · intro p hp hc
    have hr := hreported.handled_error hp
    rw [hc] at hr
    exact hquiet s.task htask hr
  · intro hr ls t hrun
    obtain ⟨r, hr⟩ := hreported.result_some hr
    have hall := h.run_invariant
      (I := fun u => result u.task = some r ∧ begun u.task = begun s.task) ⟨hr, rfl⟩ ?_ hrun
    · exact hall.2
    · intro u l v _ hu hstep
      rcases logged_task hstep with htask | ⟨m, hm⟩
      · exact htask ▸ hu
      · exact ⟨hsettles _ _ _ _ hm hu.1, (hbegun _ _ _ _ hm hu.1).trans hu.2⟩

end

theorem begun_settled {variant : Variant} {interval : Interval} {s t : Task} {l : Label}
    {r : Except Thrown Unit} (hs : (periodic variant interval).step s l = some t)
    (hr : s.result = some r) : t.begun = s.begun := by
  cases l with
  | requestStop =>
    cases hs
    rfl
  | act now action => exact absurd (result_eq_some.mp hr) ((moves_of_act hs).not_done r)

theorem ticks_settled {interval : Interval} {s t : Timing.Task} {l : Timing.Label}
    {r : Except Thrown Unit} (hs : (fixedRate interval).step s l = some t)
    (hr : slotResult s = some r) : t.ticks = s.ticks := by
  have hdone := slotResult_eq_some.mp hr
  exact ((Timing.moves_of_step hs).ended (.inr ⟨r, hdone⟩)).2.1

/-- What `spawn_logged_every`, `spawn_logged_every_immediate` and
`spawn_logged_every_fixed_rate` spawn never throws. Its handler is called once at most,
with the name and what the callable or the sleep has thrown, which is never
`operation_cancelled`; a task that has ended can always be reported, and when it is no
call will begin. -/
theorem logged_every (name : String) (handler : Bool) (interval : Interval) :
    (∀ variant s, Reachable (logged (periodic variant interval) Task.result name handler) s →
      LoggedRun (periodic variant interval) Task.result Task.begun name handler s) ∧
    ∀ s, Reachable (logged (fixedRate interval) slotResult name handler) s →
      LoggedRun (fixedRate interval) slotResult Timing.Task.ticks name handler s := by
  constructor
  · intro variant s h
    refine loggedRun_of_reachable (periodic_settles variant interval) ?_ ?_ h
    · intro s l t r hs hr
      exact begun_settled hs hr
    · intro s hs hr
      exact (inv_reachable hs).quiet (result_eq_some.mp hr)
  · intro s h
    refine loggedRun_of_reachable (fixedRate_settles interval) ?_ ?_ h
    · intro s l t r hs hr
      exact ticks_settled hs hr
    · intro s hs hr
      exact fixedRate_quiet hs (slotResult_eq_some.mp hr)

/-- The first call throws, and the handler throws as well. -/
theorem logged_every_throws :
    LoggedRun (periodic .immediate everyMillisecond) Task.result Task.begun "poll" true
      { task := { started := 0, now := 5, point := .done (.error (.other "refused")),
                  calls := [{ began := 0, ended := 5, result := .error (.other "refused") }] },
        report := .done (.ok ()), handled := [("poll", .other "refused")] } := by
  have h0 : Reachable (logged (periodic .immediate everyMillisecond) Task.result "poll" true)
      { task := { started := 0, now := 0 } } := .init ⟨_, ⟨0, rfl⟩, rfl⟩
  have h := h0.run (show run _ _
    [.task (.act 0 .check), .task (.act 0 .call),
      .task (.act 5 (.ended (.error (.other "refused")))), .awaited, .handled true] = some _ from rfl)
  exact (logged_every "poll" true everyMillisecond).1 .immediate _ h

end LuvCoro.Timing.Periodic
