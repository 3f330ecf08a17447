import LuvCoro.Lib.Transition
import LuvCoro.Timing.Sleep

/-! # `spawn_every_fixed_rate`

Translated from `include/luvcoro/runtime.hpp`: the task that awaits one slot after
another and starts the callable in each. The system is the task with its clock
and its stop token, which others may set at any time. -/
namespace LuvCoro.Timing

open Transition

/-- The interval of a periodic task, in milliseconds. -/
structure Interval where
  delay : Int
  positive : 0 < delay

def Interval.length (interval : Interval) : Int := interval.delay * millisecond

theorem Interval.length_pos (interval : Interval) : 0 < interval.length :=
  Int.mul_pos interval.positive (by decide)

/-- `while (next_deadline <= now) next_deadline += interval;` -/
def catchUp (interval : Interval) (nextDeadline now : Int) : Int :=
  if nextDeadline ≤ now then catchUp interval (nextDeadline + interval.length) now
  else nextDeadline
termination_by (now + 1 - nextDeadline).toNat
decreasing_by
  have := interval.length_pos
  omega

/-! ## The task -/

inductive Thrown where
  | operationCancelled
  | other (what : String)
  deriving DecidableEq, Repr

inductive Point where
  /-- Before `while (!stop_token.stop_requested())`. -/
  | loop
  | readClock
  | sleeping
  /-- `sleep_until` has returned. -/
  | awake
  /-- The token has been found not to ask for a stop, which has decided the tick; a stop
  may still come before the callable is called. -/
  | starting
  | calling
  /-- The task has returned, or thrown what the callable or the sleep has thrown. -/
  | done (result : Except Thrown Unit)

/-- A slot that has been awaited, and what the clock showed before. -/
structure Awaited where
  deadline : Int
  now : Int
  deriving DecidableEq, Repr

structure Task where
  /-- What the clock showed when the task began. -/
  started : Int
  nextDeadline : Int
  /-- What the clock showed last. -/
  now : Int
  stopRequested : Bool := false
  point : Point := .loop
  /-- The latest first. -/
  awaited : List Awaited := []
  /-- The slots in which the task has looked at the token and gone on to the callable, the
  latest first. -/
  ticks : List Int := []

inductive Label where
  | requestStop
  /-- The task looks at its stop token. -/
  | check
  | readClock (now : Int)
  /-- The sleep ends; `failed` is what it throws when it is not cancelled. -/
  | wake (failed : Option String)
  /-- The callable is called. -/
  | call
  /-- The callable returns or throws. -/
  | ticked (result : Except Thrown Unit)

namespace Task

/-- `catch (const operation_cancelled&) { co_return; }` -/
def leave (s : Task) (e : Thrown) : Task :=
  match e with
  | .operationCancelled => { s with point := .done (.ok ()) }
  | .other what => { s with point := .done (.error (.other what)) }

def step (interval : Interval) (s : Task) : Label → Option Task
  | .requestStop => some { s with stopRequested := true }
  | .check =>
    match s.point with
    | .loop =>
      if s.stopRequested then some { s with point := .done (.ok ()) }
      else some { s with point := .readClock }
    | .awake =>
      if s.stopRequested then some { s with point := .done (.ok ()) }
      else some { s with point := .starting, ticks := s.nextDeadline :: s.ticks }
    | _ => none
  | .readClock now =>
    match s.point with
    | .readClock =>
      if s.now ≤ now then
        let deadline := catchUp interval s.nextDeadline now
        some { s with
          now := now
          nextDeadline := deadline
          point := .sleeping
          awaited := { deadline := deadline, now := now } :: s.awaited }
      else none
    | _ => none
  | .wake failed =>
    match s.point with
    | .sleeping =>
      -- `sleep_for` looks at the token when it is resumed
      if s.stopRequested then some (s.leave .operationCancelled)
      else
        match failed with
        | some what => some (s.leave (.other what))
        | none => some { s with point := .awake }
    | _ => none
  | .call =>
    match s.point with
    | .starting => some { s with point := .calling }
    | _ => none
  | .ticked result =>
    match s.point with
    | .calling =>
      match result with
      | .error e => some (s.leave e)
      | .ok () =>
        some { s with nextDeadline := s.nextDeadline + interval.length, point := .loop }
    | _ => none

end Task

/-- The task begins when the clock shows `t`. -/
def Task.start (interval : Interval) (t : Int) : Task :=
  { started := t, nextDeadline := t + interval.length, now := t }

def fixedRate (interval : Interval) : System Task Label where
  init s := ∃ t, s = Task.start interval t
  step := Task.step interval

/-- An interval of less than a millisecond is refused. -/
def spawnEveryFixedRate (interval : Int) : Except String (System Task Label) :=
  let delay := toMilliseconds interval
  if h : delay ≤ 0 then .error "luvcoro::spawn_every_fixed_rate requires a positive interval"
  else .ok (fixedRate { delay := delay, positive := Int.not_le.mp h })

/-- What a step does to the task. -/
inductive Moves (interval : Interval) (s : Task) : Task → Prop
  | stops : Moves interval s { s with stopRequested := true }
  | leaves (r : Except Thrown Unit) : Moves interval s { s with point := .done r }
  | goesOn : s.point = .loop → Moves interval s { s with point := .readClock }
  | sleeps {now : Int} : s.point = .readClock → s.now ≤ now →
      Moves interval s { s with
        now := now
        nextDeadline := catchUp interval s.nextDeadline now
        point := .sleeping
        awaited := { deadline := catchUp interval s.nextDeadline now, now := now } :: s.awaited }
  | wakes : s.point = .sleeping → Moves interval s { s with point := .awake }
  | ticks : s.point = .awake → s.stopRequested = false →
      Moves interval s { s with point := .starting, ticks := s.nextDeadline :: s.ticks }
  | calls : s.point = .starting → Moves interval s { s with point := .calling }
  | returns : s.point = .calling →
      Moves interval s { s with nextDeadline := s.nextDeadline + interval.length, point := .loop }

theorem moves_leave (interval : Interval) (s : Task) (e : Thrown) :
    Moves interval s (s.leave e) := by
  cases e with
  | operationCancelled => exact .leaves _
  | other what => exact .leaves _

theorem moves_of_step {interval : Interval} {s t : Task} {l : Label}
    (h : s.step interval l = some t) : Moves interval s t := by
  cases l with
  | requestStop =>
    cases h
    exact .stops
  | check =>
    simp only [Task.step] at h
    split at h
    · rename_i hp
      split at h
      · cases h
        exact .leaves _
      · cases h
        exact .goesOn hp
    · rename_i hp
      split at h
      · cases h
        exact .leaves _
      · rename_i hs
        cases h
        exact .ticks hp (by simpa using hs)
    · cases h
  | readClock now =>
    simp only [Task.step] at h
    split at h
    · rename_i hp
      split at h
      · rename_i hnow
        cases h
        exact .sleeps hp hnow
      · cases h
    · cases h
  | wake failed =>
    simp only [Task.step] at h
    split at h
    · rename_i hp
      split at h
      · cases h
        exact moves_leave interval s _
      · split at h
        · cases h
          exact moves_leave interval s _
        · cases h
          exact .wakes hp
    · cases h
  | call =>
    simp only [Task.step] at h
    split at h
    · rename_i hp
      cases h
      exact .calls hp
    · cases h
  | ticked result =>
    simp only [Task.step] at h
    split at h
    · rename_i hp
      split at h
      · cases h
        exact moves_leave interval s _
      · cases h
        exact .returns hp
    · cases h

/-! ## Slots -/

/-- `d` is a slot of a task that started at `t`. -/
def IsSlot (interval : Interval) (t d : Int) : Prop := ∃ k : Int, 1 ≤ k ∧ d = t + k * interval.length

section
variable {interval : Interval} {t : Int}

theorem IsSlot.next {d : Int} (h : IsSlot interval t d) :
    IsSlot interval t (d + interval.length) := by
  obtain ⟨k, hk, rfl⟩ := h
  refine ⟨k + 1, by omega, ?_⟩
  rw [Int.add_mul, Int.one_mul, Int.add_assoc]

/-- There is no slot between one and the next. -/
theorem IsSlot.add_le {d d' : Int} (h : IsSlot interval t d) (h' : IsSlot interval t d')
    (hlt : d < d') : d + interval.length ≤ d' := by
  obtain ⟨k, _, rfl⟩ := h
  obtain ⟨m, _, rfl⟩ := h'
  have hpos := Int.le_of_lt interval.length_pos
  have hkm : k + 1 ≤ m := by
    by_cases hkm : k < m
    · exact hkm
    · have := Int.mul_le_mul_of_nonneg_right (Int.not_lt.mp hkm) hpos
      omega
  have := Int.mul_le_mul_of_nonneg_right hkm hpos
  rw [Int.add_mul, Int.one_mul] at this
  omega

/-- The first slot is the least. -/
theorem IsSlot.first_le {d : Int} (h : IsSlot interval t d) : t + interval.length ≤ d := by
  obtain ⟨k, hk, rfl⟩ := h
  have := Int.mul_le_mul_of_nonneg_right hk (Int.le_of_lt interval.length_pos)
  rw [Int.one_mul] at this
  omega

theorem isSlot_first : IsSlot interval t (t + interval.length) :=
  ⟨1, Int.le_refl 1, by rw [Int.one_mul]⟩

/-- The loop ends at the least slot from `nextDeadline` on that is still to come. -/
theorem catchUp_least {nextDeadline : Int} (h : IsSlot interval t nextDeadline) (now : Int) :
    IsSlot interval t (catchUp interval nextDeadline now) ∧
      now < catchUp interval nextDeadline now ∧
      nextDeadline ≤ catchUp interval nextDeadline now ∧
      ∀ d, IsSlot interval t d → nextDeadline ≤ d → now < d →
        catchUp interval nextDeadline now ≤ d := by
  have hpos := interval.length_pos
  induction hm : (now + 1 - nextDeadline).toNat using Nat.strongRecOn generalizing nextDeadline with
  | ind m ih =>
    unfold catchUp
    by_cases hle : nextDeadline ≤ now
    · rw [if_pos hle]
      obtain ⟨hslot, hnow, hge, hleast⟩ :=
        ih _ (by omega) h.next rfl
      refine ⟨hslot, hnow, by omega, ?_⟩
      intro d hd hged hnowd
      exact hleast d hd (h.add_le hd (by omega)) hnowd
    · rw [if_neg hle]
      exact ⟨h, by omega, Int.le_refl _, fun d _ hd _ => hd⟩

end

/-- `a` is for the least slot that is later than the clock and than the slot
before it. -/
structure Next (interval : Interval) (t : Int) (previous : Option Int) (a : Awaited) : Prop where
  slot : IsSlot interval t a.deadline
  future : a.now < a.deadline
  later : ∀ d ∈ previous, d < a.deadline
  least : ∀ d, IsSlot interval t d → a.now < d → (∀ p ∈ previous, p < d) → a.deadline ≤ d

/-- Each slot of the list, the latest first, is the next one after those before. -/
def Scheduled (interval : Interval) (t : Int) : List Awaited → Prop
  | [] => True
  | a :: older => Next interval t (older.head?.map Awaited.deadline) a ∧ Scheduled interval t older

/-- Where the task is in its round. -/
inductive Phase (interval : Interval) (s : Task) : Prop
  | first : s.point = .loop ∨ s.point = .readClock → s.awaited = [] → s.ticks = [] →
      s.nextDeadline = s.started + interval.length → Phase interval s
  | between {a : Awaited} {older : List Awaited} :
      s.point = .loop ∨ s.point = .readClock → s.awaited = a :: older →
      s.ticks = s.awaited.map Awaited.deadline →
      s.nextDeadline = a.deadline + interval.length → Phase interval s
  | waits {a : Awaited} {older : List Awaited} :
      s.point = .sleeping ∨ s.point = .awake → s.awaited = a :: older →
      s.ticks = older.map Awaited.deadline → s.nextDeadline = a.deadline → Phase interval s
  | calls {a : Awaited} {older : List Awaited} :
      s.point = .starting ∨ s.point = .calling → s.awaited = a :: older →
      s.ticks = s.awaited.map Awaited.deadline →
      s.nextDeadline = a.deadline → Phase interval s
  | done {r : Except Thrown Unit} : s.point = .done r →
      s.ticks = s.awaited.map Awaited.deadline ∨ s.ticks = s.awaited.tail.map Awaited.deadline →
      Phase interval s

structure Inv (interval : Interval) (s : Task) : Prop where
  slot : IsSlot interval s.started s.nextDeadline
  scheduled : Scheduled interval s.started s.awaited
  phase : Phase interval s

section
variable {interval : Interval} {s t : Task}

theorem inv_start (interval : Interval) (t : Int) : Inv interval (Task.start interval t) :=
  ⟨isSlot_first, trivial, .first (.inl rfl) rfl rfl rfl⟩

theorem Phase.of_between (h : Phase interval s) (hp : s.point = .loop ∨ s.point = .readClock) :
    s.ticks = s.awaited.map Awaited.deadline ∧
      (s.awaited = [] ∧ s.nextDeadline = s.started + interval.length ∨
        ∃ a older, s.awaited = a :: older ∧ s.nextDeadline = a.deadline + interval.length) := by
  cases h with
  | first _ ha ht hn => exact ⟨by rw [ha, ht]; rfl, .inl ⟨ha, hn⟩⟩
  | between _ ha ht hn => exact ⟨ht, .inr ⟨_, _, ha, hn⟩⟩
  | waits hw => rcases hp with hp | hp <;> rcases hw with hw | hw <;> rw [hp] at hw <;> cases hw
  | calls hw => rcases hp with hp | hp <;> rcases hw with hw | hw <;> rw [hp] at hw <;> cases hw
  | done hw => rcases hp with hp | hp <;> rw [hp] at hw <;> cases hw

theorem Phase.of_waits (h : Phase interval s) (hp : s.point = .sleeping ∨ s.point = .awake) :
    ∃ a older, s.awaited = a :: older ∧ s.ticks = older.map Awaited.deadline ∧
      s.nextDeadline = a.deadline := by
  cases h with
  | waits _ ha ht hn => exact ⟨_, _, ha, ht, hn⟩
  | first hw => rcases hp with hp | hp <;> rcases hw with hw | hw <;> rw [hp] at hw <;> cases hw
  | between hw => rcases hp with hp | hp <;> rcases hw with hw | hw <;> rw [hp] at hw <;> cases hw
  | calls hw => rcases hp with hp | hp <;> rcases hw with hw | hw <;> rw [hp] at hw <;> cases hw
  | done hw => rcases hp with hp | hp <;> rw [hp] at hw <;> cases hw

theorem Phase.of_calls (h : Phase interval s) (hp : s.point = .starting ∨ s.point = .calling) :
    ∃ a older, s.awaited = a :: older ∧ s.ticks = s.awaited.map Awaited.deadline ∧
      s.nextDeadline = a.deadline := by
  cases h with
  | calls _ ha ht hn => exact ⟨_, _, ha, ht, hn⟩
  | first hw => rcases hp with hp | hp <;> rcases hw with hw | hw <;> rw [hp] at hw <;> cases hw
  | between hw => rcases hp with hp | hp <;> rcases hw with hw | hw <;> rw [hp] at hw <;> cases hw
  | waits hw => rcases hp with hp | hp <;> rcases hw with hw | hw <;> rw [hp] at hw <;> cases hw
  | done hw => rcases hp with hp | hp <;> rw [hp] at hw <;> cases hw

theorem Phase.ticks (h : Phase interval s) :
    s.ticks = s.awaited.map Awaited.deadline ∨ s.ticks = s.awaited.tail.map Awaited.deadline := by
  cases h with
  | first _ ha ht _ => exact .inl (by rw [ha, ht]; rfl)
  | between _ _ ht _ => exact .inl ht
  | waits _ ha ht _ => exact .inr (by rw [ha, ht]; rfl)
  | calls _ _ ht _ => exact .inl ht
  | done _ ht => exact ht

/-- The slot that is slept for is the next one. -/
theorem next_of_catchUp (h : Inv interval s) (hp : s.point = .readClock) (now : Int) :
    Next interval s.started (s.awaited.head?.map Awaited.deadline)
      { deadline := catchUp interval s.nextDeadline now, now := now } := by
  obtain ⟨hslot, hnow, hge, hleast⟩ := catchUp_least h.slot now
  have hpos := interval.length_pos
  obtain ⟨_, ⟨hnone, hnext⟩ | ⟨a, older, hsome, hnext⟩⟩ := h.phase.of_between (.inr hp)
  · rw [hnone]
    refine ⟨hslot, hnow, by simp, ?_⟩
    intro d hd hnowd _
    exact hleast d hd (hnext ▸ hd.first_le) hnowd
  · have ha : IsSlot interval s.started a.deadline := by
      have := h.scheduled
      rw [hsome] at this
      exact this.1.slot
    rw [hsome]
    refine ⟨hslot, hnow, ?_, ?_⟩
    · intro d hd
      cases hd
      show a.deadline < catchUp interval s.nextDeadline now
      omega
    · intro d hd hnowd hlater
      refine hleast d hd ?_ hnowd
      rw [hnext]
      exact ha.add_le hd (hlater a.deadline rfl)

theorem inv_moves (h : Inv interval s) (hm : Moves interval s t) : Inv interval t := by
  cases hm with
  | stops =>
    refine ⟨h.slot, h.scheduled, ?_⟩
    cases h.phase with
    | first hp ha ht hn => exact .first hp ha ht hn
    | between hp ha ht hn => exact .between hp ha ht hn
    | waits hp ha ht hn => exact .waits hp ha ht hn
    | calls hp ha ht hn => exact .calls hp ha ht hn
    | done hp ht => exact .done hp ht
  | leaves r => exact ⟨h.slot, h.scheduled, .done rfl h.phase.ticks⟩
  | goesOn hl =>
    refine ⟨h.slot, h.scheduled, ?_⟩
    obtain ⟨ht, ⟨ha, hn⟩ | ⟨a, older, ha, hn⟩⟩ := h.phase.of_between (.inl hl)
    · exact .first (.inr rfl) ha (by dsimp only; rw [ht, ha]; rfl) hn
    · exact .between (.inr rfl) ha ht hn
  | @sleeps now hr hnow =>
    have hnext := next_of_catchUp h hr now
    have ht := (h.phase.of_between (.inr hr)).1
    exact ⟨hnext.slot, ⟨hnext, h.scheduled⟩, .waits (.inl rfl) rfl ht rfl⟩
  | wakes hs =>
    obtain ⟨a, older, ha, ht, hn⟩ := h.phase.of_waits (.inl hs)
    exact ⟨h.slot, h.scheduled, .waits (.inr rfl) ha ht hn⟩
  | ticks hw hstop =>
    obtain ⟨a, older, ha, ht, hn⟩ := h.phase.of_waits (.inr hw)
    refine ⟨h.slot, h.scheduled, .calls (.inl rfl) ha ?_ hn⟩
    dsimp only
    rw [ha, ht, hn]
    rfl
  | calls hs =>
    obtain ⟨a, older, ha, ht, hn⟩ := h.phase.of_calls (.inl hs)
    exact ⟨h.slot, h.scheduled, .calls (.inr rfl) ha ht hn⟩
  | returns hc =>
    obtain ⟨a, older, ha, ht, hn⟩ := h.phase.of_calls (.inr hc)
    exact ⟨h.slot.next, h.scheduled, .between (.inl rfl) ha ht (by dsimp only; rw [hn])⟩

theorem inv_reachable (h : Reachable (fixedRate interval) s) : Inv interval s := by
  refine h.invariant ?_ ?_
  · rintro s ⟨t, rfl⟩
    exact inv_start interval t
  · intro s l t _ hs hstep
    exact inv_moves hs (moves_of_step hstep)

/-! ## The slots of a run -/

theorem Scheduled.decreases {t : Int} {slots : List Awaited} (h : Scheduled interval t slots) :
    slots.Pairwise fun a b => b.deadline < a.deadline := by
  induction slots with
  | nil => exact .nil
  | cons a older ih =>
    obtain ⟨hnext, holder⟩ := h
    have hpair := ih holder
    refine .cons ?_ hpair
    intro b hb
    cases older with
    | nil => cases hb
    | cons c older =>
      have hca := hnext.later c.deadline rfl
      rcases List.mem_cons.mp hb with rfl | hb
      · exact hca
      · have := List.rel_of_pairwise_cons hpair hb
        omega

/-- Stop has been requested, or the task is done. -/
def Ended (s : Task) : Prop := s.stopRequested = true ∨ ∃ r, s.point = .done r

/-- The callable is about to be called, or runs. -/
def Ticking (s : Task) : Prop := s.point = .starting ∨ s.point = .calling

/-- From then on a step starts nothing. -/
theorem Moves.ended (hm : Moves interval s t) (hs : Ended s) :
    Ended t ∧ t.ticks = s.ticks ∧ (Ticking t → Ticking s) := by
  rcases hs with hs | ⟨r, hr⟩
  · cases hm with
    | stops => exact ⟨.inl rfl, rfl, fun h => h⟩
    | ticks _ hno =>
      rw [hs] at hno
      cases hno
    | calls hp => exact ⟨.inl hs, rfl, fun _ => .inl hp⟩
    | leaves => exact ⟨.inl hs, rfl, by simp [Ticking]⟩
    | goesOn => exact ⟨.inl hs, rfl, by simp [Ticking]⟩
    | sleeps => exact ⟨.inl hs, rfl, by simp [Ticking]⟩
    | wakes => exact ⟨.inl hs, rfl, by simp [Ticking]⟩
    | returns => exact ⟨.inl hs, rfl, by simp [Ticking]⟩
  · cases hm with
    | stops => exact ⟨.inl rfl, rfl, fun h => h⟩
    | leaves => exact ⟨.inr ⟨_, rfl⟩, rfl, by simp [Ticking]⟩
    | goesOn hp => rw [hr] at hp; cases hp
    | sleeps hp => rw [hr] at hp; cases hp
    | wakes hp => rw [hr] at hp; cases hp
    | ticks hp => rw [hr] at hp; cases hp
    | calls hp => rw [hr] at hp; cases hp
    | returns hp => rw [hr] at hp; cases hp

end

/-- In every run the awaited slots, the latest first, are each the least one later
than the clock and the slot before; none ticks twice. Once stop has been
requested, or the task is done, no further tick starts: the callable is called only when
the task had looked at the token before. -/
theorem fixed_rate_slots {interval : Interval} {s : Task}
    (h : Reachable (fixedRate interval) s) :
    Scheduled interval s.started s.awaited ∧
      (s.awaited.Pairwise fun a b => b.deadline < a.deadline) ∧
      s.ticks.Nodup ∧ (∀ d ∈ s.ticks, d ∈ s.awaited.map Awaited.deadline) ∧
      ∀ ls t, Ended s → run (fixedRate interval) s ls = some t →
        t.ticks = s.ticks ∧ (Ticking t → Ticking s) := by
  have hinv := inv_reachable h
  have hdec := hinv.scheduled.decreases
  have hsub : s.ticks.Sublist (s.awaited.map Awaited.deadline) := by
    rcases hinv.phase.ticks with ht | ht
    · exact ht ▸ List.Sublist.refl _
    · rw [ht]
      exact (List.tail_sublist _).map _
  refine ⟨hinv.scheduled, hdec, ?_, fun d hd => hsub.subset hd, ?_⟩
  · refine hsub.nodup (List.Pairwise.map Awaited.deadline ?_ hdec)
    intro a b hlt
    exact Int.ne_of_gt hlt
  · intro ls t hs hr
    have hrun := h.run_invariant
      (I := fun u => Ended u ∧ u.ticks = s.ticks ∧ (Ticking u → Ticking s))
      ⟨hs, rfl, fun h => h⟩ ?_ hr
    · exact hrun.2
    · intro u l v _ hu hstep
      obtain ⟨hended, hticks, hcalls⟩ := (moves_of_step hstep).ended hu.1
      exact ⟨hended, hticks.trans hu.2.1, fun hv => hu.2.2 (hcalls hv)⟩

/-- The task has begun late, and sleeps until the third slot. -/
theorem fixed_rate_slots_late :
    Scheduled { delay := 1, positive := by decide } 0 [{ deadline := 3000000, now := 2500000 }] ∧
      IsSlot { delay := 1, positive := by decide } 0 3000000 := by
  have h0 : Reachable (fixedRate { delay := 1, positive := by decide })
      (Task.start { delay := 1, positive := by decide } 0) := .init ⟨0, rfl⟩
  have h2 : Reachable (fixedRate { delay := 1, positive := by decide })
      { started := 0, nextDeadline := 3000000, now := 2500000, point := .sleeping,
        awaited := [{ deadline := 3000000, now := 2500000 }] } := by
    refine (h0.next (l := .check) rfl).next (l := .readClock 2500000) ?_
    simp [fixedRate, Task.step, Task.start, catchUp, Interval.length, millisecond]
  have hall := (fixed_rate_slots h2).1
  exact ⟨hall, hall.1.slot⟩

end LuvCoro.Timing
