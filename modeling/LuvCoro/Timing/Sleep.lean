import Mathlib.Data.Int.Init

/-! # Sleeping until a point in time

Translated from `src/runtime.cpp`, `include/luvcoro/runtime.hpp` and
`include/luvcoro/control.hpp`. Times are in nanoseconds. A timer is started with
milliseconds, to which `std::chrono::duration_cast` truncates. -/
namespace LuvCoro.Timing

def millisecond : Int := 1000000

/-- `std::chrono::duration_cast<std::chrono::milliseconds>` -/
def toMilliseconds (d : Int) : Int := d.tdiv millisecond

inductive Outcome where
  | returned
  | cancelled
  /-- `uv_timer_init` or `uv_timer_start` failed. -/
  | failed (status : Int)
  deriving DecidableEq, Repr

/-- How `sleep_for` of `delay` milliseconds, called when the clock shows `start`,
ends when it shows `finish`. The timer is started later than that, and the
coroutine is resumed after it has fired. -/
inductive SleepFor (delay start : Int) : Outcome → Int → Prop
  | ready {finish : Int} : delay ≤ 0 → start ≤ finish → SleepFor delay start .returned finish
  | fired {started fired finish : Int} : 0 < delay → start ≤ started →
      -- the timer does not fire before its time has passed
      started + delay * millisecond ≤ fired → fired ≤ finish →
      SleepFor delay start .returned finish
  | cancelled {finish : Int} : start ≤ finish → SleepFor delay start .cancelled finish
  | failed {status finish : Int} : 0 < delay → status < 0 → start ≤ finish →
      SleepFor delay start (.failed status) finish

/-- `sleep_until` that reads `now` from the clock. -/
inductive SleepUntil (deadline now : Int) : Outcome → Int → Prop
  | past {finish : Int} : deadline ≤ now → now ≤ finish →
      SleepUntil deadline now .returned finish
  | stopped {finish : Int} : deadline ≤ now → now ≤ finish →
      SleepUntil deadline now .cancelled finish
  | sleeps {start finish : Int} {o : Outcome} : now < deadline → now ≤ start →
      SleepFor (toMilliseconds (deadline - now)) start o finish →
      SleepUntil deadline now o finish

/-- `steady_timer` -/
structure SteadyTimer where
  expiry : Int
  deriving DecidableEq, Repr

def SteadyTimer.Wait (timer : SteadyTimer) : Int → Outcome → Int → Prop :=
  SleepUntil timer.expiry

/-- The task of `spawn_at` starts when the clock shows `finish`. -/
inductive SpawnAt (deadline now : Int) : Int → Prop
  | past {finish : Int} : deadline ≤ now → now ≤ finish → SpawnAt deadline now finish
  | sleeps {start finish : Int} : now < deadline → now ≤ start →
      SleepFor (toMilliseconds (deadline - now)) start .returned finish →
      SpawnAt deadline now finish

/-- `run_controlled`, called with a timeout in milliseconds, throws
`operation_timeout` when the clock shows `finish`, and not because the operation
did. -/
inductive TimesOut (timeout start : Int) : Int → Prop
  | atOnce {finish : Int} : timeout ≤ 0 → start ≤ finish → TimesOut timeout start finish
  | wins {begun fired finish : Int} : 0 < timeout → start ≤ begun →
      SleepFor timeout begun .returned fired → fired ≤ finish → TimesOut timeout start finish

def WithTimeout (timeout : Int) : Int → Int → Prop := TimesOut (toMilliseconds timeout)

inductive WithDeadline (deadline now : Int) : Int → Prop
  | past {finish : Int} : deadline ≤ now → now ≤ finish → WithDeadline deadline now finish
  | runs {start finish : Int} : now < deadline → now ≤ start →
      WithTimeout (toMilliseconds (deadline - now) * millisecond) start finish →
      WithDeadline deadline now finish

/-! ## How much of the time passes -/

/-- There is nothing to wait for, or a whole number of milliseconds. -/
def Whole (d : Int) : Prop := d ≤ 0 ∨ d % millisecond = 0

/-- Truncation loses nothing of a whole number of milliseconds, and of no other
number. -/
theorem toMilliseconds_whole {d : Int} (h : 0 < d) :
    d ≤ toMilliseconds d * millisecond ↔ Whole d := by
  unfold toMilliseconds Whole millisecond
  rw [Int.tdiv_eq_ediv_of_nonneg (Int.le_of_lt h)]
  omega

theorem toMilliseconds_nonneg {d : Int} (h : 0 < d) : 0 ≤ toMilliseconds d := by
  unfold toMilliseconds millisecond
  rw [Int.tdiv_eq_ediv_of_nonneg (Int.le_of_lt h)]
  omega

/-- To cast milliseconds to milliseconds changes nothing. -/
theorem toMilliseconds_mul (ms : Int) : toMilliseconds (ms * millisecond) = ms :=
  Int.mul_tdiv_cancel ms (by decide)

/-- A sleep that returns took its time. -/
theorem SleepFor.late {delay start finish : Int} (h : SleepFor delay start .returned finish) :
    start + delay * millisecond ≤ finish := by
  unfold millisecond at *
  cases h with
  | ready hd hf => omega
  | fired hd hs ht hf =>
    unfold millisecond at ht
    omega

/-- It may take no longer. -/
theorem SleepFor.exact {delay : Int} (h : 0 ≤ delay) (start : Int) :
    SleepFor delay start .returned (start + delay * millisecond) := by
  rcases Int.lt_or_eq_of_le h with hpos | rfl
  · exact .fired hpos (Int.le_refl _) (Int.le_refl _) (Int.le_refl _)
  · exact .ready (Int.le_refl _) (by omega)

/-- Who waits for the whole milliseconds in what is left when the clock is read
is never early when these are all that is left, and only then. -/
theorem punctual_iff {deadline now : Int} {Ends : Int → Prop}
    (past : ∀ {finish}, deadline ≤ now → Ends finish → now ≤ finish)
    (late : ∀ {finish}, now < deadline → Ends finish →
      now + toMilliseconds (deadline - now) * millisecond ≤ finish)
    (exact : now < deadline → Ends (now + toMilliseconds (deadline - now) * millisecond)) :
    (∀ finish, Ends finish → deadline ≤ finish) ↔ Whole (deadline - now) := by
  by_cases hlt : now < deadline
  · rw [← toMilliseconds_whole (by omega)]
    constructor
    · intro h
      have := h _ (exact hlt)
      omega
    · intro h finish hends
      have := late hlt hends
      omega
  · constructor
    · intro _
      exact .inl (by omega)
    · intro _ finish hends
      have := past (by omega) hends
      omega

theorem sleepUntil_punctual (deadline now : Int) :
    (∀ finish, SleepUntil deadline now .returned finish → deadline ≤ finish) ↔
      Whole (deadline - now) := by
  refine punctual_iff ?_ ?_ ?_
  · intro finish hd h
    cases h with
    | past _ hf => exact hf
    | sleeps hlt => omega
  · intro finish hlt h
    cases h with
    | past hd => omega
    | sleeps _ hs hsleep =>
      have := hsleep.late
      omega
  · intro hlt
    exact .sleeps hlt (Int.le_refl _) (.exact (toMilliseconds_nonneg (by omega)) now)

theorem spawnAt_punctual (deadline now : Int) :
    (∀ finish, SpawnAt deadline now finish → deadline ≤ finish) ↔ Whole (deadline - now) := by
  refine punctual_iff ?_ ?_ ?_
  · intro finish hd h
    cases h with
    | past _ hf => exact hf
    | sleeps hlt => omega
  · intro finish hlt h
    cases h with
    | past hd => omega
    | sleeps _ hs hsleep =>
      have := hsleep.late
      omega
  · intro hlt
    exact .sleeps hlt (Int.le_refl _) (.exact (toMilliseconds_nonneg (by omega)) now)

theorem TimesOut.late {timeout start finish : Int} (h : TimesOut timeout start finish)
    (hpos : 0 ≤ timeout) : start + timeout * millisecond ≤ finish := by
  cases h with
  | atOnce ht hf =>
    unfold millisecond
    omega
  | wins _ hb hs hf =>
    have := hs.late
    omega

theorem TimesOut.exact {timeout : Int} (h : 0 ≤ timeout) (start : Int) :
    TimesOut timeout start (start + timeout * millisecond) := by
  rcases Int.lt_or_eq_of_le h with hpos | rfl
  · exact .wins hpos (Int.le_refl _) (.exact h start) (Int.le_refl _)
  · exact .atOnce (Int.le_refl _) (by omega)

theorem withDeadline_punctual (deadline now : Int) :
    (∀ finish, WithDeadline deadline now finish → deadline ≤ finish) ↔
      Whole (deadline - now) := by
  refine punctual_iff ?_ ?_ ?_
  · intro finish hd h
    cases h with
    | past _ hf => exact hf
    | runs hlt => omega
  · intro finish hlt h
    cases h with
    | past hd => omega
    | runs _ hs hout =>
      unfold WithTimeout at hout
      rw [toMilliseconds_mul] at hout
      have := hout.late (toMilliseconds_nonneg (by omega))
      omega
  · intro hlt
    refine .runs hlt (Int.le_refl _) ?_
    unfold WithTimeout
    rw [toMilliseconds_mul]
    exact .exact (toMilliseconds_nonneg (by omega)) now

theorem withTimeout_punctual (timeout start : Int) :
    (∀ finish, WithTimeout timeout start finish → start + timeout ≤ finish) ↔ Whole timeout := by
  have h := @punctual_iff (start + timeout) start (WithTimeout timeout start)
  rw [show start + timeout - start = timeout by omega] at h
  refine h ?_ ?_ ?_
  · intro finish _ hout
    cases hout with
    | atOnce _ hf => exact hf
    | wins hpos hb hs hf =>
      have := hs.late
      unfold millisecond at this
      omega
  · intro finish hlt hout
    exact hout.late (toMilliseconds_nonneg (by omega))
  · intro hlt
    exact .exact (toMilliseconds_nonneg (by omega)) start

/-- No timer is early exactly when what is to be waited for is a whole number of
milliseconds, or nothing. -/
theorem timers_punctual_iff (deadline now timeout start : Int) :
    ((∀ finish, SleepUntil deadline now .returned finish → deadline ≤ finish) ↔
      Whole (deadline - now)) ∧
    ((∀ finish, ({ expiry := deadline } : SteadyTimer).Wait now .returned finish →
      deadline ≤ finish) ↔ Whole (deadline - now)) ∧
    ((∀ finish, SpawnAt deadline now finish → deadline ≤ finish) ↔ Whole (deadline - now)) ∧
    ((∀ finish, WithDeadline deadline now finish → deadline ≤ finish) ↔
      Whole (deadline - now)) ∧
    ((∀ finish, WithTimeout timeout start finish → start + timeout ≤ finish) ↔ Whole timeout) :=
  ⟨sleepUntil_punctual deadline now, sleepUntil_punctual deadline now,
    spawnAt_punctual deadline now, withDeadline_punctual deadline now,
    withTimeout_punctual timeout start⟩

/-- Half a millisecond of one and a half is not slept, and a deadline half a
millisecond away has no time at all. -/
theorem timers_early :
    (¬ ∀ finish, SleepUntil 1500000 0 .returned finish → 1500000 ≤ finish) ∧
      ¬ ∀ finish, WithDeadline 500000 0 finish → 500000 ≤ finish := by
  constructor
  · intro h
    have hearly : SleepUntil 1500000 0 .returned 1000000 :=
      .sleeps (by decide) (Int.le_refl 0)
        (.fired (by decide) (Int.le_refl 0) (by decide) (Int.le_refl 1000000))
    have := h _ hearly
    omega
  · intro h
    have hearly : WithDeadline 500000 0 0 :=
      .runs (by decide) (Int.le_refl 0) (.atOnce (by decide) (Int.le_refl 0))
    have := h _ hearly
    omega

end LuvCoro.Timing
