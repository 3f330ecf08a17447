import LuvCoro.Lib.Transition
import LuvCoro.Timing.FixedRate

/-! # `spawn_every` and `spawn_every_immediate`

Translated from `include/luvcoro/runtime.hpp`: the two tasks that sleep for the
interval between one call and the next. Times are what the clock of the loop shows, by
which libuv measures its timers. -/
namespace LuvCoro.Timing.Periodic

open Transition

/-- `make_spawn_every_task_impl` and `make_spawn_every_immediate_task_impl` -/
inductive Variant where
  | every
  | immediate
  deriving DecidableEq, Repr

inductive Point where
  /-- Before `while (!stop_token.stop_requested())`. -/
  | loop
  /-- In the `await_suspend` of `sleep_for`. -/
  | suspending
  | sleeping (since : Int)
  /-- `sleep_for` has returned. -/
  | awake
  /-- The token has been found not to ask for a stop; a stop may still come before the
  callable is called. -/
  | starting
  | calling (since : Int)
  /-- The callable has returned. -/
  | called
  | done (result : Except Thrown Unit)

/-- A call of the callable that is over. -/
structure Call where
  began : Int
  ended : Int
  result : Except Thrown Unit

structure Task where
  /-- What the clock showed when the task began. -/
  started : Int
  /-- What the clock showed last. -/
  now : Int
  stopRequested : Bool := false
  point : Point := .loop
  /-- The latest first. -/
  calls : List Call := []

inductive Action where
  /-- The task looks at its stop token. -/
  | check
  /-- The sleep starts its timer; `failed` is what `post` throws. -/
  | suspend (failed : Option String)
  /-- The sleep ends; `failed` is what it throws when it is not cancelled. -/
  | wake (failed : Option String)
  /-- The callable is called. -/
  | call
  /-- The callable returns or throws. -/
  | ended (result : Except Thrown Unit)

inductive Label where
  /-- By `cancel` of any copy of the `periodic_task`, or by the callable. -/
  | requestStop
  | act (now : Int) (action : Action)

/-- `catch (const operation_cancelled&) { co_return; }` -/
def caught : Except Thrown Unit → Except Thrown Unit
  | .error .operationCancelled => .ok ()
  | result => result

namespace Task

def finish (s : Task) (result : Except Thrown Unit) : Task :=
  { s with point := .done (caught result) }

/-- `if (stop_token.stop_requested()) break;`, and where the task goes on. -/
def unlessStopped (s : Task) (next : Point) : Task :=
  if s.stopRequested then s.finish (.ok ()) else { s with point := next }

def act (variant : Variant) (interval : Interval) (s : Task) : Action → Option Task
  | .check =>
    match s.point, variant with
    | .loop, .every => some (s.unlessStopped .suspending)
    | .loop, .immediate => some (s.unlessStopped .starting)
    | .awake, .every => some (s.unlessStopped .starting)
    -- `sleep_for` is the last statement of the loop
    | .awake, .immediate => some { s with point := .loop }
    | .called, .every => some { s with point := .loop }
    | .called, .immediate => some (s.unlessStopped .suspending)
    | _, _ => none
  | .suspend failed =>
    match s.point with
    | .suspending =>
      if s.stopRequested then some (s.finish (.error .operationCancelled))
      else
        match failed with
        | some what => some (s.finish (.error (.other what)))
        | none => some { s with point := .sleeping s.now }
    | _ => none
  | .wake failed =>
    match s.point with
    | .sleeping since =>
      -- `await_resume` looks at the token first
      if s.stopRequested then some (s.finish (.error .operationCancelled))
      else
        match failed with
        | some what => some (s.finish (.error (.other what)))
        | none =>
          if since + interval.length ≤ s.now then some { s with point := .awake } else none
    | _ => none
  | .call =>
    match s.point with
    | .starting => some { s with point := .calling s.now }
    | _ => none
  | .ended result =>
    match s.point with
    | .calling since =>
      let t := { s with
        calls := { began := since, ended := s.now, result := result } :: s.calls }
      match result with
      | .error e => some (t.finish (.error e))
      | .ok () => some { t with point := .called }
    | _ => none

def step (variant : Variant) (interval : Interval) (s : Task) : Label → Option Task
  | .requestStop => some { s with stopRequested := true }
  | .act now action =>
    if s.now ≤ now then act variant interval { s with now := now } action else none

end Task

def periodic (variant : Variant) (interval : Interval) : System Task Label where
  init s := ∃ t, s = { started := t, now := t }
  step := Task.step variant interval

def Variant.refusal : Variant → String
  | .every => "luvcoro::spawn_every requires a positive interval"
  | .immediate => "luvcoro::spawn_every_immediate requires a positive interval"

theorem pos_of_not_le {delay : Int} (h : ¬ delay ≤ 0) : 0 < delay := Int.not_le.mp h

/-- `spawn_every` and `spawn_every_immediate`, when the task can be spawned. -/
def spawnEvery (variant : Variant) (interval : Int) : Except String (System Task Label) :=
  let delay := toMilliseconds interval
  if h : delay ≤ 0 then .error variant.refusal
  else .ok (periodic variant { delay := delay, positive := pos_of_not_le h })

/-! ## The times of the calls -/

/-- When the next call may begin, after the calls `calls`. -/
def opens (variant : Variant) (interval : Interval) (started : Int) : List Call → Int
  | [] =>
    match variant with
    | .every => started + interval.length
    | .immediate => started
  | c :: _ => c.ended + interval.length

/-- Each call, the latest first, begins no sooner than the interval after the end of
the one before. -/
def Spaced (variant : Variant) (interval : Interval) (started : Int) : List Call → Prop
  | [] => True
  | c :: older =>
    opens variant interval started older ≤ c.began ∧ c.began ≤ c.ended ∧
      Spaced variant interval started older

/-- How many intervals there are before the first call. -/
def lead : Variant → Nat
  | .every => 1
  | .immediate => 0

/-- When the calls began, the latest first; the last one may still run. -/
def Task.begun (s : Task) : List Int :=
  match s.point with
  | .calling since => since :: s.calls.map Call.began
  | _ => s.calls.map Call.began

section
variable {variant : Variant} {interval : Interval} {started : Int}

/-- The call after `older` begins when that many intervals have passed. -/
theorem Spaced.opens_le {older : List Call} (h : Spaced variant interval started older) :
    started + ((older.length + lead variant : Nat) : Int) * interval.length ≤
      opens variant interval started older := by
  induction older with
  | nil => cases variant <;> simp [opens, lead]
  | cons c older ih =>
    obtain ⟨hopens, hended, holder⟩ := h
    have hpast := ih holder
    have hcount : (((c :: older).length + lead variant : Nat) : Int) =
        ((older.length + lead variant : Nat) : Int) + 1 := by
      rw [List.length_cons]
      omega
    rw [hcount, Int.add_mul, Int.one_mul]
    simp only [opens]
    omega

/-- The calls up to any of them are spaced. -/
theorem Spaced.suffix {newer older : List Call}
    (h : Spaced variant interval started (newer ++ older)) :
    Spaced variant interval started older := by
  induction newer with
  | nil => exact h
  | cons c newer ih => exact ih h.2.2

end

/-! ## The steps -/

/-- What a step of the task itself does to it. -/
inductive Moves (variant : Variant) (interval : Interval) (s : Task) : Task → Prop
  | finishes {now : Int} (result : Except Thrown Unit) : s.now ≤ now →
      (∀ r, s.point ≠ .done r) → (∀ t, s.point ≠ .calling t) →
      Moves variant interval s ({ s with now := now }.finish result)
  | suspends {now : Int} : s.now ≤ now →
      (s.point = .loop ∧ variant = .every ∨ s.point = .called ∧ variant = .immediate) →
      s.stopRequested = false →
      Moves variant interval s { s with now := now, point := .suspending }
  | permits {now : Int} : s.now ≤ now →
      (s.point = .loop ∧ variant = .immediate ∨ s.point = .awake ∧ variant = .every) →
      s.stopRequested = false →
      Moves variant interval s { s with now := now, point := .starting }
  | begins {now : Int} : s.now ≤ now → s.point = .starting →
      Moves variant interval s { s with now := now, point := .calling now }
  | repeats {now : Int} : s.now ≤ now →
      (s.point = .awake ∧ variant = .immediate ∨ s.point = .called ∧ variant = .every) →
      Moves variant interval s { s with now := now, point := .loop }
  | sleeps {now : Int} : s.now ≤ now → s.point = .suspending → s.stopRequested = false →
      Moves variant interval s { s with now := now, point := .sleeping now }
  | wakes {now since : Int} : s.now ≤ now → s.point = .sleeping since →
      s.stopRequested = false → since + interval.length ≤ now →
      Moves variant interval s { s with now := now, point := .awake }
  | returns {now since : Int} : s.now ≤ now → s.point = .calling since →
      Moves variant interval s { s with
        now := now
        calls := { began := since, ended := now, result := .ok () } :: s.calls
        point := .called }
  | throws {now since : Int} (e : Thrown) : s.now ≤ now → s.point = .calling since →
      Moves variant interval s
        ({ s with
          now := now
          calls := { began := since, ended := now, result := .error e } :: s.calls }.finish
            (.error e))

section
variable {variant : Variant} {interval : Interval} {s t : Task}

theorem moves_of_check {now : Int} (hnow : s.now ≤ now)
    (h : ({ s with now := now } : Task).act variant interval .check = some t) :
    Moves variant interval s t := by
  simp only [Task.act, Task.unlessStopped] at h
  split at h
  · rename_i hp
    split at h <;> cases h
    · exact .finishes (.ok ()) hnow (by simp [hp]) (by simp [hp])
    · exact .suspends hnow (.inl ⟨hp, rfl⟩) (by simp_all)
  · rename_i hp
    split at h <;> cases h
    · exact .finishes (.ok ()) hnow (by simp [hp]) (by simp [hp])
    · exact .permits hnow (.inl ⟨hp, rfl⟩) (by simp_all)
  · rename_i hp
    split at h <;> cases h
    · exact .finishes (.ok ()) hnow (by simp [hp]) (by simp [hp])
    · exact .permits hnow (.inr ⟨hp, rfl⟩) (by simp_all)
  · rename_i hp
    cases h
    exact .repeats hnow (.inl ⟨hp, rfl⟩)
  · rename_i hp
    cases h
    exact .repeats hnow (.inr ⟨hp, rfl⟩)
  · rename_i hp
    split at h <;> cases h
    · exact .finishes (.ok ()) hnow (by simp [hp]) (by simp [hp])
    · exact .suspends hnow (.inr ⟨hp, rfl⟩) (by simp_all)
  · cases h

theorem moves_of_act {now : Int} {action : Action}
    (h : s.step variant interval (.act now action) = some t) : Moves variant interval s t := by
  simp only [Task.step] at h
  split at h
  case isFalse => cases h
  rename_i hnow
  cases action with
  | check => exact moves_of_check hnow h
  | suspend failed =>
    simp only [Task.act] at h
    split at h
    · rename_i hp
      split at h
      · cases h
        exact .finishes _ hnow (by simp [hp]) (by simp [hp])
      · rename_i hs
        split at h <;> cases h
        · exact .finishes _ hnow (by simp [hp]) (by simp [hp])
        · exact .sleeps hnow hp (by simpa using hs)
    · cases h
  | wake failed =>
    simp only [Task.act] at h
    split at h
    · rename_i since hp
      split at h
      · cases h
        exact .finishes _ hnow (by simp [hp]) (by simp [hp])
      · rename_i hs
        split at h
        · cases h
          exact .finishes _ hnow (by simp [hp]) (by simp [hp])
        · split at h <;> cases h
          rename_i hlate
          exact .wakes hnow hp (by simpa using hs) hlate
    · cases h
  | call =>
    simp only [Task.act] at h
    split at h
    · rename_i hp
      cases h
      exact .begins hnow hp
    · cases h
  | ended result =>
    simp only [Task.act] at h
    split at h
    · rename_i since hp
      split at h <;> cases h
      · exact .throws _ hnow hp
      · exact .returns hnow hp
    · cases h

end

/-! ## The invariant -/

/-- Where the task is in its round, and what its calls have come to. -/
structure Inv (variant : Variant) (interval : Interval) (s : Task) : Prop where
  spaced : Spaced variant interval s.started s.calls
  /-- No call has ended later than now. -/
  past : ∀ c ∈ s.calls.head?, c.ended ≤ s.now
  started : s.started ≤ s.now
  sleeps : ∀ t, s.point = .sleeping t →
    opens variant interval s.started s.calls ≤ t + interval.length
  /-- After a sleep, and where the loop begins with the call, a call may begin. -/
  due : (s.point = .awake ∨ s.point = .starting ∨ s.point = .loop ∧ variant = .immediate) →
    opens variant interval s.started s.calls ≤ s.now
  calling : ∀ t, s.point = .calling t →
    opens variant interval s.started s.calls ≤ t ∧ t ≤ s.now
  /-- Every call has returned, but for the last one of a task that is done. -/
  returned : ∀ c ∈ s.calls, c.result = .ok () ∨
    s.calls.head? = some c ∧ s.point = .done (caught c.result)
  /-- `operation_cancelled` does not leave the task. -/
  quiet : s.point ≠ .done (.error .operationCancelled)

section
variable {variant : Variant} {interval : Interval} {s t : Task}

theorem caught_quiet (result : Except Thrown Unit) :
    caught result ≠ .error .operationCancelled := by
  intro h
  cases result with
  | ok u => cases h
  | error e => cases e <;> cases h

/-- A sleep that starts now ends when a call may begin. -/
theorem Inv.opens_le (h : Inv variant interval s) :
    opens variant interval s.started s.calls ≤ s.now + interval.length := by
  have hpos := interval.length_pos
  have hstarted := h.started
  have hpast := h.past
  cases hc : s.calls with
  | nil => cases variant <;> simp only [opens] <;> omega
  | cons c older =>
    rw [hc] at hpast
    have := hpast c rfl
    simp only [opens]
    omega

theorem Inv.all_returned (h : Inv variant interval s) (hp : ∀ r, s.point ≠ .done r) :
    ∀ c ∈ s.calls, c.result = .ok () := by
  intro c hc
  rcases h.returned c hc with hok | ⟨_, hdone⟩
  · exact hok
  · exact absurd hdone (hp _)

/-- The calls are the same at the new point, where a call may begin if one begins there. -/
theorem Inv.goesOn (h : Inv variant interval s) {now : Int} {p : Point} (hnow : s.now ≤ now)
    (hp : ∀ r, s.point ≠ .done r) (hquiet : p ≠ .done (.error .operationCancelled))
    (hsleeps : ∀ t, p = .sleeping t → t = now)
    (hdue : (p = .awake ∨ p = .starting ∨ p = .loop ∧ variant = .immediate ∨
      ∃ t, p = .calling t) → opens variant interval s.started s.calls ≤ now)
    (hcalling : ∀ t, p = .calling t → t = now) :
    Inv variant interval { s with now := now, point := p } where
  spaced := h.spaced
  past c hc := Int.le_trans (h.past c hc) hnow
  started := Int.le_trans h.started hnow
  sleeps t ht := by
    have := h.opens_le
    cases hsleeps t ht
    dsimp only
    omega
  due hd := by
    refine hdue ?_
    rcases hd with hd | hd | hd
    · exact .inl hd
    · exact .inr (.inl hd)
    · exact .inr (.inr (.inl hd))
  calling t ht := by
    cases hcalling t ht
    exact ⟨hdue (.inr (.inr (.inr ⟨now, ht⟩))), Int.le_refl now⟩
  returned c hc := .inl (h.all_returned hp c hc)
  quiet := hquiet

/-- The call that runs is over, and the task is done if it has thrown. -/
theorem Inv.callEnds (h : Inv variant interval s) {now since : Int} {p : Point}
    (result : Except Thrown Unit) (hnow : s.now ≤ now) (hp : s.point = .calling since)
    (hnext : result = .ok () ∧ p = .called ∨ p = .done (caught result)) :
    Inv variant interval { s with
      now := now
      calls := { began := since, ended := now, result := result } :: s.calls
      point := p } := by
  obtain ⟨hopens, hsince⟩ := h.calling since hp
  refine ⟨⟨hopens, Int.le_trans hsince hnow, h.spaced⟩, ?_, Int.le_trans h.started hnow,
    ?_, ?_, ?_, ?_, ?_⟩
  · intro c hc
    cases hc
    exact Int.le_refl now
  · intro t ht
    rcases hnext with ⟨_, rfl⟩ | rfl <;> cases ht
  · intro hd
    rcases hnext with ⟨_, rfl⟩ | rfl <;> simp at hd
  · intro t ht
    rcases hnext with ⟨_, rfl⟩ | rfl <;> cases ht
  · intro c hc
    rcases List.mem_cons.mp hc with rfl | hc
    · rcases hnext with ⟨hok, _⟩ | hdone
      · exact .inl hok
      · exact .inr ⟨rfl, hdone⟩
    · exact .inl (h.all_returned (by simp [hp]) c hc)
  · rcases hnext with ⟨_, rfl⟩ | rfl
    · simp
    · intro hq
      exact caught_quiet result (by simpa using hq)

theorem inv_moves (h : Inv variant interval s) (hm : Moves variant interval s t) :
    Inv variant interval t := by
  cases hm with
  | finishes result hnow hdone _ =>
    refine h.goesOn hnow hdone ?_ (by simp) (by simp) (by simp)
    intro hq
    exact caught_quiet result (by simpa using hq)
  | suspends hnow hp =>
    refine h.goesOn hnow ?_ (by simp) (by simp) (by simp) (by simp)
    rcases hp with ⟨hp, _⟩ | ⟨hp, _⟩ <;> simp [hp]
  | permits hnow hp =>
    have hdue := h.due (by rcases hp with hp | ⟨hp, _⟩ <;> simp [hp])
    refine h.goesOn hnow ?_ (by simp) (by simp) (fun _ => Int.le_trans hdue hnow) (by simp)
    rcases hp with ⟨hp, _⟩ | ⟨hp, _⟩ <;> simp [hp]
  | begins hnow hp =>
    have hdue := h.due (.inr (.inl hp))
    refine h.goesOn hnow (by simp [hp]) (by simp) (by simp)
      (fun _ => Int.le_trans hdue hnow) ?_
    intro t ht
    cases ht
    rfl
  | repeats hnow hp =>
    refine h.goesOn hnow ?_ (by simp) (by simp) ?_ (by simp)
    · rcases hp with ⟨hp, _⟩ | ⟨hp, _⟩ <;> simp [hp]
    · intro hd
      rcases hp with ⟨hp, _⟩ | ⟨_, hv⟩
      · exact Int.le_trans (h.due (.inl hp)) hnow
      · simp [hv] at hd
  | sleeps hnow hp =>
    refine h.goesOn hnow (by simp [hp]) (by simp) ?_ (by simp) (by simp)
    intro t ht
    cases ht
    rfl
  | @wakes now since hnow hp _ hlate =>
    refine h.goesOn hnow (by simp [hp]) (by simp) (by simp) ?_ (by simp)
    intro _
    exact Int.le_trans (h.sleeps since hp) hlate
  | returns hnow hp => exact h.callEnds (.ok ()) hnow hp (.inl ⟨rfl, rfl⟩)
  | throws e hnow hp => exact h.callEnds (.error e) hnow hp (.inr rfl)

theorem inv_reachable (h : Reachable (periodic variant interval) s) :
    Inv variant interval s := by
  refine h.invariant ?_ ?_
  · rintro s ⟨t, rfl⟩
    exact ⟨trivial, by simp, Int.le_refl t, by simp, by cases variant <;> simp [opens],
      by simp, by simp, by simp⟩
  · intro s l t _ hs hstep
    cases l with
    | requestStop =>
      cases hstep
      exact ⟨hs.spaced, hs.past, hs.started, hs.sleeps, hs.due, hs.calling, hs.returned,
        hs.quiet⟩
    | act now action => exact inv_moves hs (moves_of_act hstep)

end

/-! ## After a stop -/

/-- Stop has been requested, or the task is done. -/
def Over (s : Task) : Prop := s.stopRequested = true ∨ ∃ r, s.point = .done r

/-- How many steps a task that is to stop has before it at most. -/
def Point.remaining : Point → Nat
  | .done _ => 0
  | .loop | .suspending | .sleeping _ => 1
  | .awake | .called => 2
  | .calling _ => 3
  | .starting => 4

/-- How many calls may still begin when the task is to stop. -/
def Point.unbegun : Point → Nat
  | .starting => 1
  | _ => 0

/-- The steps of the task itself. -/
def Label.isAct : Label → Bool
  | .requestStop => false
  | .act _ _ => true

section
variable {variant : Variant} {interval : Interval} {s t : Task}

theorem Moves.not_done (hm : Moves variant interval s t) (r : Except Thrown Unit) :
    s.point ≠ .done r := by
  intro hr
  cases hm with
  | finishes _ _ hdone => exact hdone r hr
  | suspends _ hp => simp [hr] at hp
  | permits _ hp => simp [hr] at hp
  | begins _ hp => simp [hr] at hp
  | repeats _ hp => simp [hr] at hp
  | sleeps _ hp => simp [hr] at hp
  | wakes _ hp => simp [hr] at hp
  | returns _ hp => simp [hr] at hp
  | throws _ _ hp => simp [hr] at hp

/-- When stop has been requested a step begins the call that is about to begin, or none,
and comes closer to the end. -/
theorem Moves.stopping (hm : Moves variant interval s t) (hs : s.stopRequested = true) :
    t.stopRequested = true ∧ t.point.remaining < s.point.remaining ∧
      ∃ more, t.begun = more ++ s.begun ∧ more.length + t.point.unbegun ≤ s.point.unbegun := by
  cases hm with
  | finishes result hnow hdone hcalling =>
    refine ⟨hs, ?_, [], ?_, by simp [Task.finish, Point.unbegun]⟩
    · cases hp : s.point with
      | done r => exact absurd hp (hdone r)
      | _ => simp [Task.finish, Point.remaining]
    · -- no call runs, before and after
      simp only [Task.begun, Task.finish, List.nil_append]
  | suspends _ _ hno => simp [hs] at hno
  | permits _ _ hno => simp [hs] at hno
  | sleeps _ _ hno => simp [hs] at hno
  | wakes _ _ hno => simp [hs] at hno
  | @begins now _ hp =>
    exact ⟨hs, by simp [Point.remaining, hp], [now], by simp [Task.begun, hp],
      by simp [Point.unbegun, hp]⟩
  | repeats _ hp =>
    rcases hp with ⟨hp, _⟩ | ⟨hp, _⟩
    · exact ⟨hs, by simp [Point.remaining, hp], [], by simp [Task.begun, hp],
        by simp [Point.unbegun]⟩
    · exact ⟨hs, by simp [Point.remaining, hp], [], by simp [Task.begun, hp],
        by simp [Point.unbegun]⟩
  | returns _ hp =>
    exact ⟨hs, by simp [Point.remaining, hp], [], by simp [Task.begun, hp],
      by simp [Point.unbegun]⟩
  | throws _ _ hp =>
    exact ⟨hs, by simp [Task.finish, Point.remaining, hp], [],
      by simp [Task.begun, Task.finish, hp], by simp [Task.finish, Point.unbegun]⟩

/-- A task that is to stop can go on until it is done. -/
theorem act_enabled (hs : s.stopRequested = true) (hp : ∀ r, s.point ≠ .done r) {now : Int}
    (hnow : s.now ≤ now) : ∃ action, (s.step variant interval (.act now action)).isSome := by
  simp only [Task.step, if_pos hnow]
  cases hpoint : s.point with
  | loop => exact ⟨.check, by cases variant <;> simp [Task.act]⟩
  | suspending => exact ⟨.suspend none, by simp [Task.act, hs]⟩
  | sleeping since => exact ⟨.wake none, by simp [Task.act, hs]⟩
  | awake => exact ⟨.check, by cases variant <;> simp [Task.act]⟩
  | starting => exact ⟨.call, by simp [Task.act]⟩
  | calling since => exact ⟨.ended (.ok ()), by simp [Task.act]⟩
  | called => exact ⟨.check, by cases variant <;> simp [Task.act]⟩
  | done r => exact absurd hpoint (hp r)

theorem run_over {ls : List Label} (hs : Over s)
    (h : run (periodic variant interval) s ls = some t) :
    Over t ∧ ls.countP Label.isAct + t.point.remaining ≤ s.point.remaining ∧
      ∃ more, t.begun = more ++ s.begun ∧ more.length + t.point.unbegun ≤ s.point.unbegun := by
  induction ls generalizing s with
  | nil =>
    cases h
    exact ⟨hs, by simp, [], rfl, by simp⟩
  | cons l ls ih =>
    simp only [run, Option.bind_eq_some_iff] at h
    obtain ⟨u, hu, h⟩ := h
    cases l with
    | requestStop =>
      cases hu
      obtain ⟨ht, hcount, hbegun⟩ := ih (.inl rfl) h
      exact ⟨ht, by simpa [Label.isAct] using hcount, hbegun⟩
    | act now action =>
      have hm := moves_of_act hu
      rcases hs with hs | ⟨r, hr⟩
      · obtain ⟨hstop, hlt, first, hfirst, hone⟩ := hm.stopping hs
        obtain ⟨ht, hcount, rest, hrest, hleft⟩ := ih (.inl hstop) h
        refine ⟨ht, ?_, rest ++ first, ?_, ?_⟩
        · simp only [List.countP_cons, Label.isAct, if_true]
          omega
        · rw [hrest, hfirst, List.append_assoc]
        · rw [List.length_append]
          omega
      · exact absurd hr (hm.not_done r)

/-- At most the call that is about to begin begins. -/
theorem begun_of_unbegun {more : List Int} (h : t.begun = more ++ s.begun)
    (hle : more.length ≤ s.point.unbegun) :
    t.begun = s.begun ∨ s.point = .starting ∧ ∃ b, t.begun = b :: s.begun := by
  cases more with
  | nil => exact .inl h
  | cons b rest =>
    right
    cases hp : s.point with
    | starting =>
      simp only [hp, Point.unbegun, List.length_cons] at hle
      cases List.eq_nil_of_length_eq_zero (show rest.length = 0 by omega)
      exact ⟨rfl, b, h⟩
    | _ => simp [hp, Point.unbegun] at hle

end

/-- In every run the calls come one after another, each at least the interval after the
end of the one before, and the first one after the interval where the task begins with a
sleep; so the call after `older` begins when that many intervals have passed. A call that
does not return is the last one, and `operation_cancelled` does not leave the task. Once
stop has been requested no call begins but the one that a task that has looked at its
token before is about to begin, and the task takes four steps more at most; it can take
them until it is done. -/
theorem every_rounds {variant : Variant} {interval : Interval} {s : Task}
    (h : Reachable (periodic variant interval) s) :
    Spaced variant interval s.started s.calls ∧
      (∀ t, s.point = .calling t →
        opens variant interval s.started s.calls ≤ t ∧ t ≤ s.now) ∧
      (∀ newer c older, s.calls = newer ++ c :: older →
        s.started + ((older.length + lead variant : Nat) : Int) * interval.length ≤ c.began) ∧
      (∀ c ∈ s.calls, c.result = .ok () ∨
        s.calls.head? = some c ∧ s.point = .done (caught c.result)) ∧
      s.point ≠ .done (.error .operationCancelled) ∧
      ∀ ls t, Over s → run (periodic variant interval) s ls = some t →
        (t.begun = s.begun ∨ s.point = .starting ∧ ∃ b, t.begun = b :: s.begun) ∧
          ls.countP Label.isAct ≤ 4 ∧
          ((∃ r, t.point = .done r) ∨ ∀ now, t.now ≤ now →
            ∃ action, (t.step variant interval (.act now action)).isSome) := by
  have hinv := inv_reachable h
  refine ⟨hinv.spaced, hinv.calling, ?_, hinv.returned, hinv.quiet, ?_⟩
  · intro newer c older hc
    have hspaced := hinv.spaced
    rw [hc] at hspaced
    obtain ⟨hopens, _, holder⟩ := hspaced.suffix
    exact Int.le_trans holder.opens_le hopens
  · intro ls t hs hr
    obtain ⟨ht, hcount, more, hbegun, hmore⟩ := run_over hs hr
    have hfour : s.point.remaining ≤ 4 := by cases s.point <;> simp [Point.remaining]
    refine ⟨begun_of_unbegun hbegun (by omega), by omega, ?_⟩
    by_cases hdone : ∃ r, t.point = .done r
    · exact .inl hdone
    · refine .inr ?_
      intro now hnow
      have hstop : t.stopRequested = true := ht.resolve_right hdone
      refine act_enabled hstop ?_ hnow
      intro r hr
      exact hdone ⟨r, hr⟩

def everyMillisecond : Interval := { delay := 1, positive := by decide }

def firstCall : Call := { began := 1100000, ended := 1200000, result := .ok () }

def secondCall : Call :=
  { began := 2500000, ended := 2600000, result := .error (.other "refused") }

/-- The callable throws in the second round, two milliseconds and more after the start. -/
theorem every_rounds_throws :
    Spaced .every everyMillisecond 0 [secondCall, firstCall] ∧
      0 + (([firstCall].length + lead .every : Nat) : Int) * everyMillisecond.length ≤
        secondCall.began := by
  have h0 : Reachable (periodic .every everyMillisecond) { started := 0, now := 0 } :=
    .init ⟨0, rfl⟩
  have h : Reachable (periodic .every everyMillisecond)
      { started := 0, now := 2600000, point := .done (.error (.other "refused")),
        calls := [secondCall, firstCall] } :=
    h0.run (show run _ _
      [.act 0 .check, .act 0 (.suspend none), .act 1100000 (.wake none), .act 1100000 .check,
        .act 1100000 .call, .act 1200000 (.ended (.ok ())), .act 1200000 .check,
        .act 1200000 .check, .act 1300000 (.suspend none), .act 2500000 (.wake none),
        .act 2500000 .check, .act 2500000 .call,
        .act 2600000 (.ended (.error (.other "refused")))] = some _ by
      simp [run, periodic, Task.step, Task.act, Task.unlessStopped, Task.finish, caught,
        everyMillisecond, Interval.length, millisecond, firstCall, secondCall])
  have hall := every_rounds h
  exact ⟨hall.1, hall.2.2.1 [] secondCall [firstCall] rfl⟩

end LuvCoro.Timing.Periodic
