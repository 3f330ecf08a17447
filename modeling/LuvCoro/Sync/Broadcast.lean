import Mathlib.Algebra.GroupWithZero.Nat
import LuvCoro.Lib.Transition
import LuvCoro.Sync.Waiters

/-! # `local_async_event::set` and `local_async_condition_variable::notify_all`

Both take waiters from the front of `waiters_` until it is empty, and resume
each on the spot. What a resumed coroutine does until it suspends again runs
inside the call, on the same queue. Calls on other threads, which
`require_runtime_thread` refuses, are left out. -/
namespace LuvCoro.Sync.Broadcast

open Transition

inductive Object
  | event
  | conditionVariable
  deriving DecidableEq

/-- What runs on the object before a resumed coroutine gives control back: calls
of the event's `reset`, of `set` or `notify_all`, of the condition variable's
`notify_one`, and of `wait`, which goes on differently if it has to suspend. -/
inductive Behaviour
  | done
  | reset (next : Behaviour)
  | wakeAll (next : Behaviour)
  | notifyOne (next : Behaviour)
  /-- `unlocked` runs inside the condition variable's `mutex.unlock()`. -/
  | wait (stopRequested : Bool) (unlocked passed suspended : Behaviour)

inductive Frame
  /-- At the head of the loop of `set` or `notify_all`. -/
  | draining
  | running (b : Behaviour)
  /-- In the condition variable's `wait`, behind `mutex.unlock()`. -/
  | suspending (i : OpId) (passed suspended : Behaviour)

/-- The object, and the calls that are under way on the loop thread. `log` has
the waiters that were completed, `next` numbers the next one. -/
structure Machine where
  queue : Waiters
  signaled : Bool
  next : OpId
  stack : List Frame
  log : List OpId

section
variable (object : Object) (script : OpId → Behaviour)

/-- The popped waiter is resumed if it has a continuation. -/
def Machine.wake (m : Machine) (i : OpId) (q : Waiters) (stack : List Frame) : Machine :=
  { m with
    queue := q
    log := m.log ++ [i]
    stack := if (q.waiter i).continuation then .running (script i) :: stack else stack }

/-- A new waiter at the end of the queue. -/
def Machine.enqueue (m : Machine) (w : Waiter) (stack : List Frame) : Machine :=
  { m with
    queue := (m.queue.set m.next fun _ => w).pushBack m.next
    next := m.next + 1
    stack := stack }

/-- The loop, up to the waiter it resumes. -/
def Machine.drain (m : Machine) (stack : List Frame) : Machine :=
  match m.queue.prune.popFront with
  | none => { m with queue := m.queue.prune, stack := stack }
  | some (i, q) => m.wake script i q (.draining :: stack)

def Machine.notifyOne (m : Machine) (stack : List Frame) : Machine :=
  match m.queue.prune.popFront with
  | none => { m with queue := m.queue.prune, stack := stack }
  | some (i, q) => m.wake script i q stack

def Machine.wakeAll (m : Machine) (stack : List Frame) : Machine :=
  { m with signaled := m.signaled || object == .event, stack := .draining :: stack }

/-- `wait`, up to where it suspends or returns. -/
def Machine.wait (m : Machine) (stopRequested : Bool) (unlocked passed suspended : Behaviour)
    (stack : List Frame) : Machine :=
  match object with
  | .event =>
    let q := m.queue.prune
    if m.signaled || stopRequested then { m with queue := q, stack := .running passed :: stack }
    else { m with queue := q }.enqueue { continuation := true } (.running suspended :: stack)
  | .conditionVariable =>
    m.enqueue {} (.running unlocked :: .suspending m.next passed suspended :: stack)

def step (m : Machine) : Option Machine :=
  match m.stack with
  | [] => none
  | .draining :: stack => some (m.drain script stack)
  | .running .done :: stack => some { m with stack := stack }
  | .running (.reset b) :: stack =>
    some { m with signaled := false, stack := .running b :: stack }
  | .running (.wakeAll b) :: stack => some (m.wakeAll object (.running b :: stack))
  | .running (.notifyOne b) :: stack => some (m.notifyOne script (.running b :: stack))
  | .running (.wait stopRequested unlocked passed suspended) :: stack =>
    some (m.wait object stopRequested unlocked passed suspended stack)
  | .suspending i passed suspended :: stack =>
    if (m.queue.waiter i).completed then some { m with stack := .running passed :: stack }
    else
      some { m with
        queue := m.queue.set i Waiter.suspend
        stack := .running suspended :: stack }

end

/-- A call of `set` or `notify_all`: the object it finds, whose waiters have
numbers below `next`, and what each resumed coroutine will do. -/
structure Call where
  object : Object
  script : OpId → Behaviour
  queue : Waiters
  signaled : Bool
  next : OpId
  wellFormed : queue.WellFormed
  numbered : ∀ i ∈ queue.waiters, i < next

namespace Call

def entry (c : Call) : Machine :=
  { queue := c.queue, signaled := c.signaled, next := c.next, stack := [], log := [] }

def system (c : Call) : System Machine Unit where
  init m := m = c.entry.wakeAll c.object []
  step m _ := step c.object c.script m

/-- The call returns, and has woken those who waited when it was made. -/
def WakesPresent (c : Call) : Prop :=
  ∃ m, Reachable c.system m ∧ m.stack = [] ∧ m.log = c.queue.active

end Call

/-- The next step is a `wait` that queues itself. -/
def Enqueues (object : Object) (m : Machine) : Prop :=
  match m.stack with
  | .running (.wait stopRequested _ _ _) :: _ =>
    object = .event → m.signaled = false ∧ stopRequested = false
  | _ => False

/-! ## What every step keeps -/

section
variable {object : Object} {script : OpId → Behaviour} {m m' : Machine} {i k : OpId}

/-- The queue is in order, and once the call has returned nobody is left in it. -/
structure Base (m : Machine) : Prop where
  wellFormed : m.queue.WellFormed
  numbered : ∀ i ∈ m.queue.waiters, i < m.next
  bottom : m.stack.getLast? = some .draining ∨ m.stack = [] ∧ m.queue.active = []

/-- Who waits or has been woken, in order. -/
def Machine.seen (m : Machine) : List OpId := m.log ++ m.queue.active

/-- What one step does to the queue: waiters leave its front for `log`, or a new
one comes to its end. -/
inductive Moved (object : Object) (m m' : Machine) : Prop
  | kept : m'.seen = m.seen → m'.next = m.next → Moved object m m'
  | enqueued : Enqueues object m → m'.seen = m.seen ++ [m.next] → m'.next = m.next + 1 →
      Moved object m m'

theorem getLast?_tail {f : Frame} {fs : List Frame}
    (h : (f :: fs).getLast? = some .draining) (hf : f ≠ .draining) :
    fs.getLast? = some .draining := by
  cases fs with
  | nil =>
    have he : f = .draining := by simpa using h
    exact absurd he hf
  | cons g gs => simpa using h

theorem getLast?_cons {f : Frame} {fs : List Frame} (h : fs.getLast? = some .draining) :
    (f :: fs).getLast? = some .draining := by
  cases fs with
  | nil => simp at h
  | cons g gs => simpa using h

/-- An upper bound on the steps a behaviour takes itself, as long as no `wait` of
it queues. -/
def Behaviour.cost : Behaviour → Nat
  | .done => 1
  | .reset b | .wakeAll b | .notifyOne b => b.cost + 2
  | .wait _ _ passed suspended => passed.cost + suspended.cost + 1

def Frame.cost : Frame → Nat
  | .draining => 1
  | .running b => b.cost
  | .suspending _ passed suspended => passed.cost + suspended.cost + 1

def queueCost (script : OpId → Behaviour) (q : Waiters) : Nat :=
  (q.active.map fun i => (script i).cost + 1).sum

def Machine.cost (script : OpId → Behaviour) (m : Machine) : Nat :=
  (m.stack.map Frame.cost).sum + queueCost script m.queue

theorem queueCost_pops {q r : Waiters} (h : Pops q [i] r) :
    queueCost script q = (script i).cost + 1 + queueCost script r := by
  unfold queueCost
  rw [h.active, List.map_append, List.sum_append]
  simp

theorem queueCost_prune (q : Waiters) : queueCost script q.prune = queueCost script q := by
  unfold queueCost
  rw [active_prune]

/-- What one step keeps, what it does to the queue, and that it comes nearer to
the end unless a waiter queues. -/
structure Stepped (object : Object) (script : OpId → Behaviour) (m m' : Machine) : Prop where
  base : Base m'
  moved : Moved object m m'
  nearer : ¬ Enqueues object m → m'.cost script < m.cost script

/-- A step which leaves the queue as it is and keeps the loop below it. -/
theorem stepped_quiet (hb : Base m) {stack : List Frame} {signaled : Bool}
    (hlast : stack.getLast? = some .draining)
    (hcost : (stack.map Frame.cost).sum < (m.stack.map Frame.cost).sum) :
    Stepped object script m { m with signaled := signaled, stack := stack } := by
  refine ⟨⟨hb.wellFormed, hb.numbered, .inl hlast⟩, .kept rfl rfl, fun _ => ?_⟩
  exact Nat.add_lt_add_right hcost _

/-- Waking the oldest waiter, with what is to come after it on the stack. -/
theorem stepped_wake (hb : Base m) {q : Waiters} {stack : List Frame} (hp : Pops m.queue [i] q)
    (hlast : stack.getLast? = some .draining)
    (hcost : (stack.map Frame.cost).sum ≤ (m.stack.map Frame.cost).sum) :
    Stepped object script m (m.wake script i q stack) := by
  refine ⟨⟨hp.wellFormed hb.wellFormed, fun j hj => hb.numbered j (hp.sublist.subset hj), .inl ?_⟩,
    .kept ?_ rfl, fun _ => ?_⟩
  · unfold Machine.wake
    dsimp only
    split
    · exact getLast?_cons hlast
    · exact hlast
  · show (m.log ++ [i]) ++ q.active = m.log ++ m.queue.active
    rw [hp.active, List.append_assoc]
  · have hq : queueCost script m.queue = _ := queueCost_pops hp
    have hstack : ((m.wake script i q stack).stack.map Frame.cost).sum ≤
        (script i).cost + (stack.map Frame.cost).sum := by
      unfold Machine.wake
      dsimp only
      split
      · exact Nat.le_of_eq (List.sum_cons ..)
      · exact Nat.le_add_left ..
    have hsame : (m.wake script i q stack).queue = q := rfl
    unfold Machine.cost
    rw [hsame]
    omega

theorem stepped_drain (hb : Base m) {fs : List Frame} (hs : m.stack = .draining :: fs) :
    Stepped object script m (m.drain script fs) := by
  have hlast : m.stack.getLast? = some .draining := by
    rcases hb.bottom with h | ⟨h, _⟩
    · exact h
    · rw [hs] at h
      cases h
  have hfront := popFront_spec hb.wellFormed
  unfold Machine.drain
  cases hp : m.queue.prune.popFront with
  | none =>
    rw [hp] at hfront
    refine ⟨⟨wellFormed_prune hb.wellFormed,
      fun j hj => hb.numbered j ((prune_sublist _).subset hj), ?_⟩, .kept ?_ rfl, fun _ => ?_⟩
    · cases fs with
      | nil => exact .inr ⟨rfl, (active_prune _).trans hfront⟩
      | cons g gs => exact .inl (by simpa [hs] using hlast)
    · show m.log ++ m.queue.prune.active = m.log ++ m.queue.active
      rw [active_prune]
    · simp [Machine.cost, hs, queueCost_prune, Frame.cost]
  | some x =>
    obtain ⟨i, q⟩ := x
    rw [hp] at hfront
    exact stepped_wake hb hfront (hs ▸ hlast) (Nat.le_of_eq (by rw [hs]))

theorem stepped_notifyOne (hb : Base m) {stack : List Frame}
    (hlast : stack.getLast? = some .draining)
    (hcost : (stack.map Frame.cost).sum < (m.stack.map Frame.cost).sum) :
    Stepped object script m (m.notifyOne script stack) := by
  have hfront := popFront_spec hb.wellFormed
  unfold Machine.notifyOne
  cases hp : m.queue.prune.popFront with
  | none =>
    refine ⟨⟨wellFormed_prune hb.wellFormed,
      fun j hj => hb.numbered j ((prune_sublist _).subset hj), .inl hlast⟩, .kept ?_ rfl,
      fun _ => ?_⟩
    · show m.log ++ m.queue.prune.active = m.log ++ m.queue.active
      rw [active_prune]
    · show _ + queueCost script m.queue.prune < _
      rw [queueCost_prune]
      exact Nat.add_lt_add_right hcost _
  | some x =>
    obtain ⟨i, q⟩ := x
    rw [hp] at hfront
    exact stepped_wake hb hfront hlast (Nat.le_of_lt hcost)

/-- A waiter which queues is behind all others. -/
theorem stepped_enqueue (hb : Base m) (he : Enqueues object m) {w : Waiter}
    (hw : w.active = true) (hc : w.completed = false) {stack : List Frame}
    (hlast : stack.getLast? = some .draining) :
    Stepped object script m (m.enqueue w stack) := by
  have hn : m.next ∉ m.queue.waiters := fun h => Nat.lt_irrefl _ (hb.numbered _ h)
  have hself : (m.queue.set m.next fun _ => w).waiter m.next = w :=
    set_self m.queue m.next fun _ => w
  have hact : ((m.queue.set m.next fun _ => w).waiter m.next).active = true := by rw [hself, hw]
  have hcomp : ((m.queue.set m.next fun _ => w).waiter m.next).completed = false := by
    rw [hself, hc]
  refine ⟨⟨?_, fun j hj => ?_, .inl hlast⟩, .enqueued he ?_ rfl, fun h => absurd he h⟩
  · exact wellFormed_pushBack (wellFormed_set hb.wellFormed hn _) hn hcomp
  · rcases List.mem_append.mp hj with hj | hj
    · exact Nat.lt_succ_of_lt (hb.numbered j hj)
    · exact List.mem_singleton.mp hj ▸ Nat.lt_succ_self _
  · show m.log ++ ((m.queue.set m.next fun _ => w).pushBack m.next).active =
      (m.log ++ m.queue.active) ++ [m.next]
    rw [active_pushBack hact, active_set hn, List.append_assoc]

theorem base_prune (hb : Base m) : Base { m with queue := m.queue.prune } := by
  refine ⟨wellFormed_prune hb.wellFormed,
    fun j hj => hb.numbered j ((prune_sublist _).subset hj), ?_⟩
  rw [active_prune]
  exact hb.bottom

theorem stepped_wait (hb : Base m) {stopRequested : Bool} {unlocked passed suspended : Behaviour}
    {fs : List Frame} (hs : m.stack = .running (.wait stopRequested unlocked passed suspended) :: fs)
    (hlast : fs.getLast? = some .draining) :
    Stepped object script m (m.wait object stopRequested unlocked passed suspended fs) := by
  have hpruned := base_prune hb
  unfold Machine.wait
  cases object with
  | event =>
    dsimp only
    split
    · refine ⟨⟨hpruned.wellFormed, hpruned.numbered, .inl (getLast?_cons hlast)⟩, .kept ?_ rfl,
        fun _ => ?_⟩
      · show m.log ++ m.queue.prune.active = m.log ++ m.queue.active
        rw [active_prune]
      · simp only [Machine.cost, hs, queueCost_prune, List.map_cons, List.sum_cons, Frame.cost,
          Behaviour.cost]
        omega
    · rename_i hwaits
      have he : Enqueues .event m := by
        unfold Enqueues
        rw [hs]
        intro _
        simpa using hwaits
      have hst : Stepped .event script { m with queue := m.queue.prune }
          ({ m with queue := m.queue.prune }.enqueue { continuation := true }
            (.running suspended :: fs)) :=
        stepped_enqueue hpruned he rfl rfl (getLast?_cons hlast)
      refine ⟨hst.base, ?_, fun h => absurd he h⟩
      cases hst.moved with
      | kept hseen hnext => exact absurd hnext (Nat.succ_ne_self _)
      | enqueued _ hseen hnext =>
        refine .enqueued he (hseen.trans ?_) hnext
        show (m.log ++ m.queue.prune.active) ++ _ = _
        rw [active_prune]
        rfl
  | conditionVariable =>
    have he : Enqueues .conditionVariable m := by
      unfold Enqueues
      rw [hs]
      exact nofun
    exact stepped_enqueue hb he rfl rfl (getLast?_cons (getLast?_cons hlast))

/-- What `wait` does behind `mutex.unlock()`. -/
theorem stepped_suspend (hb : Base m) {passed suspended : Behaviour} {fs : List Frame}
    (hs : m.stack = .suspending k passed suspended :: fs)
    (hlast : fs.getLast? = some .draining) :
    Stepped object script m { m with
      queue := m.queue.set k Waiter.suspend
      stack := .running suspended :: fs } := by
  have hactive : (m.queue.set k Waiter.suspend).active = m.queue.active := by
    refine List.filter_congr fun j _ => ?_
    by_cases hj : j = k
    · subst hj
      rw [set_self]
      rfl
    · rw [set_of_ne _ _ hj]
  refine ⟨⟨⟨hb.wellFormed.nodup, fun j hj => ?_⟩, hb.numbered, .inl (getLast?_cons hlast)⟩,
    .kept ?_ rfl, fun _ => ?_⟩
  · rw [hactive] at hj
    have hp := hb.wellFormed.pending j hj
    by_cases hjk : j = k
    · subst hjk
      rw [set_self]
      exact hp
    · rw [set_of_ne _ _ hjk]
      exact hp
  · show m.log ++ _ = m.log ++ _
    rw [hactive]
  · simp only [Machine.cost, hs, queueCost, hactive, List.map_cons, List.sum_cons, Frame.cost]
    omega

/-- The step lemma. -/
theorem step_stepped (hb : Base m) (h : step object script m = some m') :
    Stepped object script m m' := by
  have hlast : m.stack.getLast? = some .draining := by
    rcases hb.bottom with hl | ⟨hs, _⟩
    · exact hl
    · simp [step, hs] at h
  unfold step at h
  split at h
  · cases h
  · rename_i fs hs
    cases h
    exact stepped_drain hb hs
  · rename_i fs hs
    cases h
    rw [hs] at hlast
    refine stepped_quiet hb (getLast?_tail hlast nofun) ?_
    simp [hs, Frame.cost, Behaviour.cost]
  · rename_i b fs hs
    cases h
    rw [hs] at hlast
    refine stepped_quiet hb (getLast?_cons (getLast?_tail hlast nofun)) ?_
    simp [hs, Frame.cost, Behaviour.cost]
  · rename_i b fs hs
    cases h
    rw [hs] at hlast
    refine stepped_quiet hb (getLast?_cons (getLast?_cons (getLast?_tail hlast nofun))) ?_
    simp [hs, Frame.cost, Behaviour.cost]
    omega
  · rename_i b fs hs
    cases h
    rw [hs] at hlast
    refine stepped_notifyOne hb (getLast?_cons (getLast?_tail hlast nofun)) ?_
    simp [hs, Frame.cost, Behaviour.cost]
  · rename_i fs hs
    cases h
    rw [hs] at hlast
    exact stepped_wait hb hs (getLast?_tail hlast nofun)
  · rename_i k passed suspended fs hs
    rw [hs] at hlast
    have htail := getLast?_tail hlast nofun
    split at h <;> cases h
    · refine stepped_quiet hb (getLast?_cons htail) ?_
      simp only [hs, Frame.cost, List.map_cons, List.sum_cons]
      omega
    · exact stepped_suspend hb hs htail

end

/-! ## The whole call -/

section
variable {c : Call} {m : Machine}

theorem reachable_base (h : Reachable c.system m) : Base m := by
  refine h.invariant (fun m hm => ?_) fun m _ m' _ hb hs => (step_stepped hb hs).base
  cases hm
  exact ⟨c.wellFormed, c.numbered, .inl rfl⟩

/-- As long as nobody queues, those who waited are woken in order. -/
theorem seen_of_quiet (hquiet : ∀ m, Reachable c.system m → ¬ Enqueues c.object m)
    (h : Reachable c.system m) : m.seen = c.queue.active := by
  refine h.invariant (I := fun m => m.seen = c.queue.active) (fun m hm => ?_) ?_
  · cases hm
    rfl
  · intro m _ m' hm hseen hs
    cases (step_stepped (reachable_base hm) hs).moved with
    | kept hk _ => exact hk.trans hseen
    | enqueued he _ _ => exact absurd he (hquiet m hm)

theorem length_seen_le {m' : Machine} (h : Moved c.object m m') :
    m.seen.length ≤ m'.seen.length := by
  cases h with
  | kept hk _ => exact Nat.le_of_eq (congrArg List.length hk).symm
  | enqueued _ hseen _ =>
    rw [hseen, List.length_append]
    exact Nat.le_add_right ..

theorem queue_length_le (h : Reachable c.system m) :
    c.queue.active.length ≤ m.seen.length := by
  refine h.invariant (I := fun m => c.queue.active.length ≤ m.seen.length) (fun m hm => ?_) ?_
  · cases hm
    exact Nat.le_refl _
  · intro m _ m' hm hle hs
    exact Nat.le_trans hle (length_seen_le (step_stepped (reachable_base hm) hs).moved)

/-- Behind a call that has returned nobody is left in the queue. -/
theorem seen_of_returned (h : Reachable c.system m) (hs : m.stack = []) : m.seen = m.log := by
  rcases (reachable_base h).bottom with hb | ⟨_, hactive⟩
  · rw [hs] at hb
    cases hb
  · unfold Machine.seen
    rw [hactive, List.append_nil]

theorem enqueues_next (he : Enqueues c.object m) :
    ∃ m', step c.object c.script m = some m' ∧ m'.next = m.next + 1 := by
  unfold Enqueues at he
  split at he
  · rename_i stopRequested unlocked passed suspended fs hs
    refine ⟨_, by rw [step, hs], ?_⟩
    unfold Machine.wait
    cases ho : c.object with
    | event =>
      obtain ⟨hsig, hstop⟩ := he ho
      simp [hsig, hstop, Machine.enqueue]
    | conditionVariable => rfl
  · exact he.elim

/-- Whoever queues during the call is woken by it, or keeps it from returning. -/
theorem not_wakesPresent (h : Reachable c.system m) (he : Enqueues c.object m) :
    ¬ c.WakesPresent := by
  intro ⟨t, ht, hstack, hlog⟩
  have hend : ∀ l, c.system.step t l = none := by
    intro l
    show step c.object c.script t = none
    rw [step, hstack]
  obtain ⟨m', hs, hnext⟩ := enqueues_next he
  have hm' : Reachable c.system m' := h.next (l := ()) hs
  obtain ⟨ls, hr⟩ := hm'.before_end ht (fun s t hs ht => hs.trans ht.symm)
    (fun s l l' t u ht hu => Option.some.inj (ht.symm.trans hu)) hend
  have hlater : m'.seen.length ≤ t.seen.length := by
    refine hm'.run_invariant (I := fun t => m'.seen.length ≤ t.seen.length) (Nat.le_refl _) ?_ hr
    intro u _ v hu hle hs
    exact Nat.le_trans hle (length_seen_le (step_stepped (reachable_base hu) hs).moved)
  have hgrown : m'.seen.length = m.seen.length + 1 := by
    cases (step_stepped (reachable_base h) hs).moved with
    | kept _ hk => exact absurd (hk.symm.trans hnext) (Nat.ne_of_lt (Nat.lt_succ_self _))
    | enqueued _ hseen _ => simp [hseen]
  have hle := queue_length_le h
  rw [seen_of_returned ht hstack, hlog] at hlater
  omega

/-- A call during which nobody queues returns. -/
theorem wakesPresent_of_quiet (hquiet : ∀ m, Reachable c.system m → ¬ Enqueues c.object m) :
    c.WakesPresent := by
  have h0 : Reachable c.system (c.entry.wakeAll c.object []) := .init rfl
  obtain ⟨m, hm, hend⟩ := h0.halts (f := Machine.cost c.script) fun m _ m' hm hs =>
    (step_stepped (reachable_base hm) hs).nearer (hquiet m hm)
  have hstack : m.stack = [] := by
    have hnone : step c.object c.script m = none := hend ()
    unfold step at hnone
    split at hnone
    · assumption
    all_goals first | cases hnone | (split at hnone <;> cases hnone)
  refine ⟨m, hm, hstack, ?_⟩
  rw [← seen_of_returned hm hstack, seen_of_quiet hquiet hm]

/-- A call of `set` or `notify_all` returns and has woken those who waited when it
was made, in order, if and only if no `wait` queues itself while it runs. -/
theorem wakesPresent_iff (c : Call) :
    c.WakesPresent ↔ ∀ m, Reachable c.system m → ¬ Enqueues c.object m := by
  constructor
  · intro h m hm he
    exact not_wakesPresent hm he h
  · exact wakesPresent_of_quiet

/-- Everybody who waits for the event resets it when woken, and waits again. -/
def resetAndWait : Call where
  object := .event
  script _ := .reset (.wait false .done .done .done)
  queue := { waiters := [0], waiter := fun _ => { continuation := true } }
  signaled := false
  next := 1
  wellFormed := ⟨List.nodup_singleton 0, fun _ _ => rfl⟩
  numbered := fun _ h => List.mem_singleton.mp h ▸ Nat.one_pos

theorem resetAndWait_not_wakesPresent : ¬ resetAndWait.WakesPresent := by
  have h0 : Reachable resetAndWait.system (resetAndWait.entry.wakeAll .event []) := .init rfl
  have h2 := h0.run (show run resetAndWait.system _ [(), ()] = some _ from rfl)
  exact not_wakesPresent h2 fun _ => ⟨rfl, rfl⟩

end

end LuvCoro.Sync.Broadcast
