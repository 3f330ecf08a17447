import LuvCoro.Lib.Transition
import LuvCoro.Sync.Permits

/-! # The two semaphores on one thread

A program of coroutines that all run on the loop thread, with one semaphore. A
coroutine that `release` resumes runs inside the call, up to where it suspends,
and may call the semaphore again. `require_runtime_thread` never throws here, and is
left out. -/
namespace LuvCoro.Sync.SameThread

open Transition

inductive Semaphore
  | async
  | localAsync
  deriving DecidableEq

/-- What a coroutine does next. -/
inductive Command (σ : Type)
  | done
  | acquire (next : σ)
  | tryAcquire (next : Bool → σ)
  | available (next : Int → σ)
  | release (count : Int) (next thrown : σ)
  /-- It suspends for something else. -/
  | yield (next : σ)
  | spawn (child next : σ)

inductive Frame (σ : Type)
  | running (s : σ)
  /-- In the loop of `async_semaphore::release` over `ready_waiters`. -/
  | resuming (readyWaiters : List OpId)
  /-- In the loop of `local_async_semaphore::release`. -/
  | handing (count : Nat)

inductive Event
  | acquired (i : OpId)
  | tried (granted : Bool)
  | available (permits : Int)
  deriving DecidableEq

/-- `ready` are the coroutines that the loop may run next; `next` numbers the
calls of `acquire`. -/
structure Machine (σ : Type) where
  waiters : Waiters := {}
  permits : Int
  next : OpId := 0
  continuation : OpId → Option σ := fun _ => none
  stack : List (Frame σ) := []
  ready : List σ
  log : List Event := []

variable {σ : Type}

namespace Machine

/-- `continuation.resume()`, and behind it the rest of the call. -/
def resume (m : Machine σ) (i : OpId) (stack : List (Frame σ)) : Machine σ :=
  match m.continuation i with
  | none => { m with stack := stack }
  | some s => { m with stack := .running s :: stack, log := m.log ++ [.acquired i] }

def acquire (m : Machine σ) (s : σ) (stack : List (Frame σ)) : Machine σ :=
  let q := m.waiters.prune
  if 0 < m.permits then
    { m with
      waiters := q
      permits := m.permits - 1
      next := m.next + 1
      stack := .running s :: stack
      log := m.log ++ [.acquired m.next] }
  else
    { m with
      waiters := (q.set m.next fun _ => { continuation := true }).pushBack m.next
      next := m.next + 1
      continuation := Function.update m.continuation m.next (some s)
      stack := stack }

def tryAcquire (m : Machine σ) (s : Bool → σ) (stack : List (Frame σ)) : Machine σ :=
  let q := m.waiters.prune
  let granted := decide (0 < m.permits)
  { m with
    waiters := q
    permits := if granted then m.permits - 1 else m.permits
    stack := .running (s granted) :: stack
    log := m.log ++ [.tried granted] }

/-- The loop over `ready_waiters`. -/
def resumeNext (m : Machine σ) (readyWaiters : List OpId) (stack : List (Frame σ)) :
    Machine σ :=
  match readyWaiters with
  | [] => { m with stack := stack }
  | i :: is => m.resume i (.resuming is :: stack)

/-- `async_semaphore::release` -/
def release (m : Machine σ) (count : Int) (s thrown : σ) (stack : List (Frame σ)) : Machine σ :=
  match asyncSemaphoreRelease count m.permits m.waiters with
  | .error _ => { m with stack := .running thrown :: stack }
  | .ok (is, permits, q) =>
    { m with waiters := q, permits := permits }.resumeNext is (.running s :: stack)

/-- The loop of `local_async_semaphore::release`, and what follows it. -/
def handNext (m : Machine σ) (count : Nat) (stack : List (Frame σ)) : Machine σ :=
  let q := m.waiters.prune
  match (if 0 < count then q.popFront else none) with
  | none => { m with waiters := q, permits := m.permits + count, stack := stack }
  | some (i, q) => { m with waiters := q }.resume i (.handing (count - 1) :: stack)

/-- `local_async_semaphore::release` -/
def localRelease (m : Machine σ) (count : Int) (s thrown : σ) (stack : List (Frame σ)) :
    Machine σ :=
  if count ≤ 0 then { m with stack := .running thrown :: stack }
  else m.handNext count.toNat (.running s :: stack)

end Machine

/-- What the coroutine on top of the stack does. -/
def perform (semaphore : Semaphore) (m : Machine σ) (stack : List (Frame σ)) :
    Command σ → Machine σ
  | .done => { m with stack := stack }
  | .acquire s => m.acquire s stack
  | .tryAcquire s => m.tryAcquire s stack
  | .available s =>
    { m with stack := .running (s m.permits) :: stack, log := m.log ++ [.available m.permits] }
  | .release count s thrown =>
    match semaphore with
    | .async => m.release count s thrown stack
    | .localAsync => m.localRelease count s thrown stack
  | .yield s => { m with stack := stack, ready := m.ready ++ [s] }
  | .spawn child s => { m with stack := .running s :: stack, ready := m.ready ++ [child] }

inductive Label
  | run
  /-- The loop runs a coroutine. -/
  | pick (k : Nat)

def step (semaphore : Semaphore) (program : σ → Command σ) (m : Machine σ) :
    Label → Option (Machine σ)
  | .pick k =>
    match m.stack, m.ready[k]? with
    | [], some s => some { m with stack := [.running s], ready := m.ready.eraseIdx k }
    | _, _ => none
  | .run =>
    match m.stack with
    | [] => none
    | .running s :: stack => some (perform semaphore m stack (program s))
    | .resuming is :: stack => some (m.resumeNext is stack)
    | .handing count :: stack => some (m.handNext count stack)

def system (semaphore : Semaphore) (program : σ → Command σ) (initial : Nat) (start : List σ) :
    System (Machine σ) Label where
  init m := m = { permits := initial, ready := start }
  step := step semaphore program

/-- The same program with the one and with the other semaphore, step by step. -/
def both (program : σ → Command σ) (initial : Nat) (start : List σ) :
    System (Machine σ × Machine σ) Label where
  init m := m.1 = { permits := initial, ready := start } ∧ m.2 = m.1
  step m l := do
    let a ← step .async program m.1 l
    let b ← step .localAsync program m.2 l
    pure (a, b)

/-- What the calls of `release` in progress have still to hand out. -/
def units : List (Frame σ) → Nat
  | [] => 0
  | .handing count :: stack => count + units stack
  | _ :: stack => units stack

/-- There is somebody in the queue for every unit that is still to be handed out. -/
def Covered (m : Machine σ) : Prop := units m.stack ≤ m.waiters.active.length

/-- What a call of `local_async_semaphore` is to find. -/
def Settled (m : Machine σ) : Command σ → Prop
  | .available _ => Covered m
  | .tryAcquire _ | .acquire _ => Covered m ∨ 0 < m.permits
  | .release count _ _ =>
    count ≤ 0 ∨ count ≤ maxSize ∧ (units m.stack = 0 ∨ m.waiters.active = [])
  | _ => True

/-- The call that comes next finds it. -/
def Undisturbed (program : σ → Command σ) (m : Machine σ) : Prop :=
  ∀ s stack, m.stack = .running s :: stack → Settled m (program s)

/-! ## The two machines side by side -/

/-- The stacks differ in the call of `release` that has waiters left, if any. -/
inductive Stacks : List OpId → Nat → List (Frame σ) → List (Frame σ) → Prop
  | nil : Stacks [] 0 [] []
  | running {is : List OpId} {count : Nat} {a b : List (Frame σ)} (s : σ) :
      Stacks is count a b → Stacks is count (.running s :: a) (.running s :: b)
  | releasing {a b : List (Frame σ)} (is : List OpId) (count : Nat) :
      Stacks [] 0 a b → Stacks is count (.resuming is :: a) (.handing count :: b)

/-- `a` has handed out the `count` units that `b` has still to hand out. -/
structure Ahead (count : Nat) (a b : Machine σ) : Prop where
  active : a.waiters.active = b.waiters.active.drop count
  permits : a.permits = b.permits + (count - b.waiters.active.length : Nat)
  next : a.next = b.next
  continuation : a.continuation = b.continuation
  ready : a.ready = b.ready
  log : a.log = b.log
  wellFormed : a.waiters.WellFormed ∧ b.waiters.WellFormed
  numbered : ∀ i, i ∈ a.waiters.waiters ∨ i ∈ b.waiters.waiters → i < a.next
  nonneg : 0 ≤ b.permits

structure Agree (a b : Machine σ) : Prop extends Ahead (units b.stack) a b where
  frames : Stacks (b.waiters.active.take (units b.stack)) (units b.stack) a.stack b.stack

section
variable {a b : Machine σ} {sa sb : List (Frame σ)} {is : List OpId} {count : Nat}

theorem Stacks.units (h : Stacks is count sa sb) : units sb = count := by
  induction h with
  | nil => rfl
  | running s _ ih => exact ih
  | releasing is count _ ih =>
    show count + SameThread.units _ = count
    rw [ih]
    rfl

theorem Stacks.shape (h : Stacks is count sa sb) :
    (sa = [] ∧ sb = []) ∨
      (∃ s ra rb, sa = .running s :: ra ∧ sb = .running s :: rb ∧ Stacks is count ra rb) ∨
      ∃ ra rb, sa = .resuming is :: ra ∧ sb = .handing count :: rb ∧ Stacks [] 0 ra rb := by
  cases h with
  | nil => exact .inl ⟨rfl, rfl⟩
  | running s h => exact .inr (.inl ⟨s, _, _, rfl, rfl, h⟩)
  | releasing is count h => exact .inr (.inr ⟨_, _, rfl, rfl, h⟩)

/-- The front of the queue has gone to `a` before, and goes to `b` now. -/
theorem agree_resume {i : OpId} {rest : List OpId} (h : Ahead count a b)
    (hrest : b.waiters.active.take count = rest) (hs : Stacks [] 0 sa sb) :
    Agree (a.resume i (.resuming rest :: sa)) (b.resume i (.handing count :: sb)) := by
  have hu : units sb = 0 := hs.units
  have hsum : units (Frame.handing count :: sb) = count := by
    show count + units sb = count
    rw [hu]
    rfl
  unfold Machine.resume
  rw [h.continuation]
  cases b.continuation i with
  | none =>
    dsimp only
    refine ⟨?_, ?_⟩
    · show Ahead (units (Frame.handing count :: sb)) _ _
      rw [hsum]
      exact ⟨h.active, h.permits, h.next, rfl, h.ready, h.log, h.wellFormed, h.numbered, h.nonneg⟩
    · show Stacks (b.waiters.active.take (units (Frame.handing count :: sb)))
        (units (Frame.handing count :: sb)) _ _
      rw [hsum, hrest]
      exact .releasing rest count hs
  | some s =>
    dsimp only
    refine ⟨?_, ?_⟩
    · show Ahead (units (Frame.handing count :: sb)) _ _
      rw [hsum]
      refine ⟨h.active, h.permits, h.next, rfl, h.ready, ?_, h.wellFormed, h.numbered, h.nonneg⟩
      show a.log ++ _ = b.log ++ _
      rw [h.log]
    · show Stacks (b.waiters.active.take (units (Frame.handing count :: sb)))
        (units (Frame.handing count :: sb)) _ _
      rw [hsum, hrest]
      exact .running s (.releasing rest count hs)

/-- One turn of the two loops: `b` serves the waiter that `a` has taken out. -/
theorem agree_next (h : Ahead count a b) (hs : Stacks [] 0 sa sb) :
    Agree (a.resumeNext (b.waiters.active.take count) sa) (b.handNext count sb) := by
  have hu : units sb = 0 := hs.units
  have hfront := popFront_spec h.wellFormed.2
  -- nobody is left, or nothing
  have hend : ∀ q : Waiters, q.active = b.waiters.active → q.WellFormed →
      q.waiters.Sublist b.waiters.waiters →
      (count = 0 ∨ b.waiters.active = []) →
      Agree { a with stack := sa }
        { b with waiters := q, permits := b.permits + count, stack := sb } := by
    intro q hq hwf hsub hnone
    have hdrop : b.waiters.active.drop count = b.waiters.active := by
      rcases hnone with rfl | hn
      · rfl
      · rw [hn, List.drop_nil]
    have htake : q.active.take 0 = [] := rfl
    refine ⟨?_, ?_⟩
    · show Ahead (units sb) _ _
      rw [hu]
      refine ⟨?_, ?_, h.next, h.continuation, h.ready, h.log, ⟨h.wellFormed.1, hwf⟩, ?_,
        Int.add_nonneg h.nonneg (Int.natCast_nonneg count)⟩
      · show a.waiters.active = q.active.drop 0
        rw [h.active, hdrop, hq]
        rfl
      · show a.permits = b.permits + count + ((0 - q.active.length : Nat) : Int)
        rw [h.permits, Nat.zero_sub]
        rcases hnone with rfl | hn
        · simp
        · rw [hn]
          simp
      · intro i hi
        exact h.numbered i (hi.imp id fun hm => hsub.subset hm)
    · show Stacks (q.active.take (units sb)) (units sb) sa sb
      rw [hu]
      exact hs
  unfold Machine.handNext
  dsimp only
  cases count with
  | zero =>
    exact hend b.waiters.prune (active_prune _) (wellFormed_prune h.wellFormed.2)
      (prune_sublist _) (.inl rfl)
  | succ count =>
    rw [if_pos (Nat.succ_pos count)]
    cases hp : b.waiters.prune.popFront with
    | none =>
      rw [hp] at hfront
      rw [hfront]
      exact hend b.waiters.prune (active_prune _) (wellFormed_prune h.wellFormed.2)
        (prune_sublist _) (.inr hfront)
    | some x =>
      obtain ⟨i, q⟩ := x
      rw [hp] at hfront
      have hpops : Pops b.waiters [i] q := hfront
      have hact : b.waiters.active = i :: q.active := hpops.active
      rw [hact, List.take_succ_cons]
      refine agree_resume (b := { b with waiters := q }) ?_ rfl hs
      refine ⟨?_, ?_, h.next, h.continuation, h.ready, h.log,
        ⟨h.wellFormed.1, hpops.wellFormed h.wellFormed.2⟩, ?_, h.nonneg⟩
      · rw [h.active, hact]
        rfl
      · show a.permits = b.permits + ((count - q.active.length : Nat) : Int)
        rw [h.permits, hact, List.length_cons, Nat.add_sub_add_right]
      · intro j hj
        exact h.numbered j (hj.imp id fun hm => hpops.sublist.subset hm)

/-- `release` while nothing is left to be handed out. -/
theorem agree_release {n : Int} {s thrown : σ} (h : Ahead 0 a b) (hs : Stacks [] 0 sa sb)
    (hn : ¬ n ≤ 0) (hmax : n ≤ maxSize) :
    Agree (a.release n s thrown sa) (b.localRelease n s thrown sb) := by
  have hrel : asyncSemaphoreRelease n a.permits a.waiters = .ok
      ((Waiters.popLoop n.toNat a.waiters.prune).1,
        a.permits + (n - (Waiters.popLoop n.toNat a.waiters.prune).1.length),
        (Waiters.popLoop n.toNat a.waiters.prune).2) := by
    unfold asyncSemaphoreRelease
    rw [if_neg hn, if_neg (Int.not_lt.mpr hmax)]
  obtain ⟨htake, hpops, _⟩ := asyncSemaphoreRelease_pops hrel h.wellFormed.1
  have hact : a.waiters.active = b.waiters.active := h.active.trans List.drop_zero
  have hperm : a.permits = b.permits := by
    rw [h.permits, Nat.zero_sub]
    simp
  unfold Machine.release Machine.localRelease
  rw [hrel, if_neg hn]
  dsimp only
  generalize Waiters.popLoop n.toNat a.waiters.prune = r at htake hpops
  rw [htake, hact]
  refine agree_next ?_ (.running s hs)
  refine ⟨?_, ?_, h.next, h.continuation, h.ready, h.log,
    ⟨hpops.wellFormed h.wellFormed.1, h.wellFormed.2⟩, ?_, h.nonneg⟩
  · show r.2.active = b.waiters.active.drop n.toNat
    have happ := hpops.active
    rw [htake, hact] at happ
    exact (List.append_cancel_left ((List.take_append_drop _ _).trans happ)).symm
  · show a.permits + (n - ((b.waiters.active.take n.toNat).length : Int)) =
      b.permits + ((n.toNat - b.waiters.active.length : Nat) : Int)
    rw [hperm, List.length_take]
    omega
  · intro i hi
    exact h.numbered i (hi.imp (fun hm => hpops.sublist.subset hm) id)

/-- `release` while nobody is in the queue. -/
theorem agree_release_empty {n : Int} {s thrown : σ} (h : Ahead (units sb) a b)
    (hs : Stacks [] (units sb) sa sb) (hn : ¬ n ≤ 0) (hmax : n ≤ maxSize)
    (hb : b.waiters.active = []) :
    Agree (a.release n s thrown sa) (b.localRelease n s thrown sb) := by
  have ha : a.waiters.active = [] := by rw [h.active, hb, List.drop_nil]
  have hrel : asyncSemaphoreRelease n a.permits a.waiters = .ok
      ((Waiters.popLoop n.toNat a.waiters.prune).1,
        a.permits + (n - (Waiters.popLoop n.toNat a.waiters.prune).1.length),
        (Waiters.popLoop n.toNat a.waiters.prune).2) := by
    unfold asyncSemaphoreRelease
    rw [if_neg hn, if_neg (Int.not_lt.mpr hmax)]
  obtain ⟨htake, hpops, _⟩ := asyncSemaphoreRelease_pops hrel h.wellFormed.1
  have hfront := popFront_spec h.wellFormed.2
  have hnone : b.waiters.prune.popFront = none := by
    cases hp : b.waiters.prune.popFront with
    | none => rfl
    | some x =>
      rw [hp] at hfront
      have hact : b.waiters.active = x.1 :: x.2.active := Pops.active hfront
      rw [hb] at hact
      cases hact
  unfold Machine.release Machine.localRelease Machine.handNext
  rw [hrel, if_neg hn]
  dsimp only
  generalize Waiters.popLoop n.toNat a.waiters.prune = r at htake hpops
  rw [ha, List.take_nil] at htake
  rw [htake, hnone, ite_self]
  dsimp only [Machine.resumeNext]
  refine ⟨?_, ?_⟩
  · show Ahead (units sb) _ _
    refine ⟨?_, ?_, h.next, h.continuation, h.ready, h.log,
      ⟨hpops.wellFormed h.wellFormed.1, wellFormed_prune h.wellFormed.2⟩, ?_,
      Int.add_nonneg h.nonneg (Int.natCast_nonneg n.toNat)⟩
    · show r.2.active = b.waiters.prune.active.drop (units sb)
      have happ := hpops.active
      rw [htake, ha, List.nil_append] at happ
      rw [active_prune, hb, List.drop_nil]
      exact happ.symm
    · show a.permits + (n - ((([] : List OpId).length : Nat) : Int)) =
        b.permits + (n.toNat : Int) + ((units sb - b.waiters.prune.active.length : Nat) : Int)
      rw [active_prune, h.permits]
      simp only [List.length_nil]
      omega
    · intro i hi
      exact h.numbered i (hi.imp (fun hm => hpops.sublist.subset hm)
        fun hm => (prune_sublist _).subset hm)
  · show Stacks (b.waiters.prune.active.take (units sb)) (units sb) _ _
    rw [active_prune, hb, List.take_nil]
    exact .running s hs

/-- What the coroutine on top of both stacks may rely on, when the queue stays as
it is. -/
theorem agree_push {s : σ} (h : Ahead (units sb) a b)
    (hs : Stacks (b.waiters.active.take (units sb)) (units sb) sa sb) :
    Agree { a with stack := .running s :: sa } { b with stack := .running s :: sb } :=
  ⟨⟨h.active, h.permits, h.next, h.continuation, h.ready, h.log, h.wellFormed, h.numbered,
    h.nonneg⟩, .running s hs⟩

/-- The look at the front of the queue. -/
theorem ahead_prune (h : Ahead count a b) :
    Ahead count { a with waiters := a.waiters.prune } { b with waiters := b.waiters.prune } := by
  refine ⟨?_, ?_, h.next, h.continuation, h.ready, h.log,
    ⟨wellFormed_prune h.wellFormed.1, wellFormed_prune h.wellFormed.2⟩, ?_, h.nonneg⟩
  · show a.waiters.prune.active = b.waiters.prune.active.drop count
    rw [active_prune, active_prune]
    exact h.active
  · show a.permits = b.permits + ((count - b.waiters.prune.active.length : Nat) : Int)
    rw [active_prune]
    exact h.permits
  · intro i hi
    exact h.numbered i (hi.imp (fun hm => (prune_sublist _).subset hm)
      fun hm => (prune_sublist _).subset hm)

/-- Where everything is covered or there are permits, both find the same. -/
theorem granted_iff (h : Ahead count a b)
    (hc : count ≤ b.waiters.active.length ∨ 0 < b.permits) : 0 < a.permits ↔ 0 < b.permits := by
  rw [h.permits]
  omega

/-- A new waiter at the end of the queue. -/
theorem enqueue_spec {q : Waiters} {n : OpId} (hq : q.WellFormed) (hn : n ∉ q.waiters) :
    ((q.prune.set n fun _ => { continuation := true }).pushBack n).active = q.active ++ [n] ∧
      ((q.prune.set n fun _ => { continuation := true }).pushBack n).WellFormed ∧
      ∀ i ∈ ((q.prune.set n fun _ => { continuation := true }).pushBack n).waiters,
        i ∈ q.waiters ∨ i = n := by
  have hout : n ∉ q.prune.waiters := fun hm => hn ((prune_sublist q).subset hm)
  have hself : (q.prune.set n fun _ => { continuation := true }).waiter n =
      { continuation := true } := set_self ..
  refine ⟨?_, ?_, ?_⟩
  · rw [active_pushBack (by rw [hself]), active_set hout, active_prune]
  · exact wellFormed_pushBack (wellFormed_set (wellFormed_prune hq) hout _) hout (by rw [hself])
  · intro i hi
    rcases List.mem_append.mp hi with hi | hi
    · exact .inl ((prune_sublist q).subset hi)
    · exact .inr (List.mem_singleton.mp hi)

theorem agree_acquire {s : σ} (h : Ahead (units sb) a b)
    (hs : Stacks (b.waiters.active.take (units sb)) (units sb) sa sb)
    (hc : units sb ≤ b.waiters.active.length ∨ 0 < b.permits) :
    Agree (a.acquire s sa) (b.acquire s sb) := by
  have hiff := granted_iff h hc
  have hp := ahead_prune h
  unfold Machine.acquire
  dsimp only
  by_cases hb : 0 < b.permits
  · rw [if_pos (hiff.mpr hb), if_pos hb]
    refine ⟨⟨hp.active, ?_, ?_, h.continuation, h.ready, ?_, hp.wellFormed, ?_,
      Int.sub_nonneg_of_le hb⟩, ?_⟩
    · show a.permits - 1 = b.permits - 1 + ((units sb - b.waiters.prune.active.length : Nat) : Int)
      rw [active_prune, h.permits]
      omega
    · exact congrArg (· + 1) h.next
    · show a.log ++ _ = b.log ++ _
      rw [h.log, h.next]
    · intro i hi
      exact Nat.lt_succ_of_lt (hp.numbered i hi)
    · show Stacks (b.waiters.prune.active.take (units sb)) (units sb) _ _
      rw [active_prune]
      exact .running s hs
  · rw [if_neg fun ha => hb (hiff.mp ha), if_neg hb]
    have hcovered := hc.resolve_right hb
    have hna : b.next ∉ a.waiters.waiters := by
      intro hm
      exact Nat.lt_irrefl _ (h.next ▸ h.numbered _ (.inl hm))
    have hnb : b.next ∉ b.waiters.waiters := by
      intro hm
      exact Nat.lt_irrefl _ (h.next ▸ h.numbered _ (.inr hm))
    obtain ⟨haact, hawf, hamem⟩ := enqueue_spec h.wellFormed.1 hna
    obtain ⟨hbact, hbwf, hbmem⟩ := enqueue_spec h.wellFormed.2 hnb
    rw [h.next, h.continuation]
    refine ⟨?_, ?_⟩
    · show Ahead (units sb) _ _
      refine ⟨?_, ?_, rfl, rfl, h.ready, h.log, ⟨hawf, hbwf⟩, ?_, h.nonneg⟩
      · show Waiters.active _ = (Waiters.active _).drop (units sb)
        rw [haact, hbact, List.drop_append_of_le_length hcovered, h.active]
      · show a.permits = b.permits + ((units sb - (Waiters.active _).length : Nat) : Int)
        rw [hbact, h.permits, List.length_append, List.length_singleton]
        omega
      · intro i hi
        show i < b.next + 1
        rcases hi with hi | hi
        · rcases hamem i hi with hm | he
          · exact Nat.lt_succ_of_lt (h.next ▸ h.numbered i (.inl hm))
          · exact he ▸ Nat.lt_succ_self _
        · rcases hbmem i hi with hm | he
          · exact Nat.lt_succ_of_lt (h.next ▸ h.numbered i (.inr hm))
          · exact he ▸ Nat.lt_succ_self _
    · show Stacks ((Waiters.active _).take (units sb)) (units sb) sa sb
      rw [hbact, List.take_append_of_le_length hcovered]
      exact hs

theorem agree_tryAcquire {s : Bool → σ} (h : Ahead (units sb) a b)
    (hs : Stacks (b.waiters.active.take (units sb)) (units sb) sa sb)
    (hc : units sb ≤ b.waiters.active.length ∨ 0 < b.permits) :
    Agree (a.tryAcquire s sa) (b.tryAcquire s sb) := by
  have hp := ahead_prune h
  have hiff : decide (0 < a.permits) = decide (0 < b.permits) :=
    decide_eq_decide.mpr (granted_iff h hc)
  unfold Machine.tryAcquire
  dsimp only
  rw [hiff]
  refine ⟨⟨hp.active, ?_, h.next, h.continuation, h.ready, ?_, hp.wellFormed, hp.numbered, ?_⟩, ?_⟩
  · show (if decide (0 < b.permits) = true then a.permits - 1 else a.permits) =
      (if decide (0 < b.permits) = true then b.permits - 1 else b.permits) +
        ((units sb - b.waiters.prune.active.length : Nat) : Int)
    rw [active_prune, h.permits]
    split <;> omega
  · show a.log ++ _ = b.log ++ _
    rw [h.log]
  · have hnn := h.nonneg
    show 0 ≤ if decide (0 < b.permits) = true then b.permits - 1 else b.permits
    split
    · rename_i hd
      have := of_decide_eq_true hd
      omega
    · exact hnn
  · show Stacks (b.waiters.prune.active.take (units sb)) (units sb) _ _
    rw [active_prune]
    exact .running _ hs

/-- The coroutine that runs finds the local semaphore settled. -/
theorem agree_perform {c : Command σ} (h : Ahead (units sb) a b)
    (hs : Stacks (b.waiters.active.take (units sb)) (units sb) sa sb)
    (hu : units b.stack = units sb) (hg : Settled b c) :
    Agree (perform .async a sa c) (perform .localAsync b sb c) := by
  unfold Settled Covered at hg
  rw [hu] at hg
  cases c with
  | done =>
    exact ⟨⟨h.active, h.permits, h.next, h.continuation, h.ready, h.log, h.wellFormed,
      h.numbered, h.nonneg⟩, hs⟩
  | acquire s => exact agree_acquire h hs hg
  | tryAcquire s => exact agree_tryAcquire h hs hg
  | available s =>
    have hperm : a.permits = b.permits := by
      rw [h.permits, Nat.sub_eq_zero_of_le hg]
      simp
    dsimp only [perform]
    rw [hperm]
    refine ⟨⟨h.active, hperm.symm ▸ h.permits, h.next, h.continuation, h.ready, ?_, h.wellFormed,
      h.numbered, h.nonneg⟩, .running _ hs⟩
    show a.log ++ _ = b.log ++ _
    rw [h.log]
  | release n s thrown =>
    show Agree (a.release n s thrown sa) (b.localRelease n s thrown sb)
    by_cases hn : n ≤ 0
    · unfold Machine.release Machine.localRelease asyncSemaphoreRelease
      rw [if_pos hn, if_pos hn]
      exact agree_push h hs
    · obtain ⟨hmax, hz | hempty⟩ := hg.resolve_left hn
      · rw [hz] at h hs
        exact agree_release h hs hn hmax
      · rw [hempty, List.take_nil] at hs
        exact agree_release_empty h hs hn hmax hempty
  | yield s =>
    refine ⟨⟨h.active, h.permits, h.next, h.continuation, ?_, h.log, h.wellFormed, h.numbered,
      h.nonneg⟩, hs⟩
    show a.ready ++ [s] = b.ready ++ [s]
    rw [h.ready]
  | spawn child s =>
    refine ⟨⟨h.active, h.permits, h.next, h.continuation, ?_, h.log, h.wellFormed, h.numbered,
      h.nonneg⟩, .running s hs⟩
    show a.ready ++ [child] = b.ready ++ [child]
    rw [h.ready]

/-- The step lemma. -/
theorem agree_step {program : σ → Command σ} {l : Label} {a' b' : Machine σ} (h : Agree a b)
    (hg : Undisturbed program b) (ha : step .async program a l = some a')
    (hb : step .localAsync program b l = some b') : Agree a' b' := by
  have hahead := h.toAhead
  have hframes := h.frames
  cases l with
  | pick k =>
    simp only [step] at ha hb
    split at ha
    · rename_i hsa hra
      split at hb
      · rename_i hsb hrb
        cases ha
        cases hb
        rw [h.ready, hrb] at hra
        cases hra
        rw [hsb] at hahead
        refine ⟨⟨hahead.active, hahead.permits, h.next, h.continuation, ?_, h.log, h.wellFormed,
          h.numbered, h.nonneg⟩, .running _ .nil⟩
        show a.ready.eraseIdx k = b.ready.eraseIdx k
        rw [h.ready]
      · cases hb
    · cases ha
  | run =>
    generalize hn : units b.stack = n at hahead hframes
    rcases hframes.shape with ⟨hsa, _⟩ | ⟨s, ra, rb, hsa, hsb, hrest⟩ | ⟨ra, rb, hsa, hsb, hrest⟩
    · simp only [step, hsa] at ha
      cases ha
    · simp only [step, hsa] at ha
      simp only [step, hsb] at hb
      cases ha
      cases hb
      have hu : units b.stack = units rb := by rw [hsb]; rfl
      rw [← hn, hu] at hahead hrest
      exact agree_perform hahead hrest hu (hg s rb hsb)
    · simp only [step, hsa] at ha
      simp only [step, hsb] at hb
      cases ha
      cases hb
      exact agree_next hahead hrest

/-- Neither machine is stuck where the other is not. -/
theorem isSome_step {program : σ → Command σ} (h : Agree a b) (l : Label) :
    (step .async program a l).isSome = (step .localAsync program b l).isSome := by
  have hframes := h.frames
  generalize units b.stack = n at hframes
  cases l with
  | pick k =>
    rcases hframes.shape with ⟨hsa, hsb⟩ | ⟨s, ra, rb, hsa, hsb, _⟩ | ⟨ra, rb, hsa, hsb, _⟩
    · simp only [step, hsa, hsb, h.ready]
      cases b.ready[k]? <;> rfl
    · simp only [step, hsa, hsb]
    · simp only [step, hsa, hsb]
  | run =>
    rcases hframes.shape with ⟨hsa, hsb⟩ | ⟨s, ra, rb, hsa, hsb, _⟩ | ⟨ra, rb, hsa, hsb, _⟩
    · simp only [step, hsa, hsb]
    · simp only [step, hsa, hsb, Option.isSome_some]
    · simp only [step, hsa, hsb, Option.isSome_some]

/-- A call that is answered: it finds the local semaphore settled, or is answered
differently. -/
theorem answers_iff {program : σ → Command σ} {s : σ} {rb : List (Frame σ)} {a' b' : Machine σ}
    (h : Agree a b) (hsb : b.stack = .running s :: rb)
    (hask : (∃ f, program s = .available f) ∨ ∃ f, program s = .tryAcquire f)
    (ha : step .async program a .run = some a') (hb : step .localAsync program b .run = some b') :
    a'.log = b'.log ↔ Settled b (program s) := by
  constructor
  · intro hlog
    have hframes := h.frames
    have hperm := h.permits
    have hnn := h.nonneg
    have hlogs := h.log
    generalize units b.stack = n at hframes
    rcases hframes.shape with ⟨_, hn⟩ | ⟨s', ra, rb', hsa, hsb', _⟩ | ⟨_, _, _, hn, _⟩
    · rw [hsb] at hn
      cases hn
    · rw [hsb] at hsb'
      cases hsb'
      simp only [step, hsa] at ha
      simp only [step, hsb] at hb
      cases ha
      cases hb
      rcases hask with ⟨f, hf⟩ | ⟨f, hf⟩
      · rw [hf] at hlog ⊢
        have hsame : a.permits = b.permits := by
          have hl : a.log ++ [Event.available a.permits] = b.log ++ [Event.available b.permits] :=
            hlog
          rw [hlogs] at hl
          have hev := List.append_cancel_left hl
          simpa using hev
        show units b.stack ≤ b.waiters.active.length
        omega
      · rw [hf] at hlog ⊢
        have hsame : decide (0 < a.permits) = decide (0 < b.permits) := by
          have hl : a.log ++ [Event.tried (decide (0 < a.permits))] =
            b.log ++ [Event.tried (decide (0 < b.permits))] := hlog
          rw [hlogs] at hl
          have hev := List.append_cancel_left hl
          simpa using hev
        show units b.stack ≤ b.waiters.active.length ∨ 0 < b.permits
        have hiff := decide_eq_decide.mp hsame
        omega
    · rw [hsb] at hn
      cases hn
  · intro hg
    have hund : Undisturbed program b := by
      intro s' stack hs'
      rw [hsb] at hs'
      cases hs'
      exact hg
    exact (agree_step h hund ha hb).log

end

theorem reachable_agree {program : σ → Command σ} {initial : Nat} {start : List σ}
    {m : Machine σ × Machine σ}
    (h : ReachableBy (both program initial start) (fun m _ => Undisturbed program m.2) m) :
    Agree m.1 m.2 := by
  refine h.invariant (I := fun m => Agree m.1 m.2) ?_ ?_
  · intro m h0
    obtain ⟨a, b⟩ := m
    obtain ⟨ha, hb⟩ := h0
    dsimp only at ha hb
    subst hb
    subst ha
    have hnew : ({} : Waiters).WellFormed := ⟨List.nodup_nil, by simp [Waiters.active]⟩
    refine ⟨⟨rfl, ?_, rfl, rfl, rfl, rfl, ⟨hnew, hnew⟩, by simp, Int.natCast_nonneg _⟩, .nil⟩
    exact (Int.add_zero _).symm
  · intro m l t _ hI hg hs
    simp only [both, Option.bind_eq_bind, Option.bind_eq_some_iff] at hs
    obtain ⟨a, ha, b, hb, ht⟩ := hs
    cases ht
    exact agree_step hI hg ha hb

/-- As long as every call finds the local semaphore settled, the answers and the
acquired permits are the same, and neither program is stuck; and a call that is
answered is answered alike if and only if it finds it settled. -/
theorem local_semaphore_agrees (program : σ → Command σ) (initial : Nat) (start : List σ)
    {a b : Machine σ} (h : ReachableBy (both program initial start)
      (fun m _ => Undisturbed program m.2) (a, b)) :
    a.log = b.log ∧
      (∀ l, (step .async program a l).isSome = (step .localAsync program b l).isSome) ∧
      ∀ s stack a' b', b.stack = .running s :: stack →
        (∃ f, program s = .available f) ∨ (∃ f, program s = .tryAcquire f) →
        step .async program a .run = some a' → step .localAsync program b .run = some b' →
        (a'.log = b'.log ↔ Settled b (program s)) := by
  have hagree : Agree a b := reachable_agree h
  refine ⟨hagree.log, isSome_step hagree, ?_⟩
  intro s stack a' b' hstack hask ha hb
  exact answers_iff hagree hstack hask ha hb

/-- Coroutine 0 acquires and then looks and tries; coroutine 4 releases once, and
coroutine 5 releases two units; coroutine 6 releases too many, and looks, whether it
is refused or not. -/
def looks : Nat → Command Nat
  | 0 => .acquire 1
  | 1 => .available fun _ => 2
  | 2 => .tryAcquire fun _ => 3
  | 4 => .release 1 3 3
  | 5 => .release 2 3 3
  | 6 => .release (maxSize + 1) 7 7
  | 7 => .available fun _ => 3
  | _ => .done

theorem local_semaphore_agrees_once : ∃ a b : Machine Nat,
    a.log = b.log ∧ b.log = [.acquired 0, .available 0] := by
  have h₀ : ReachableBy (both looks 0 [0, 4]) (fun m _ => Undisturbed looks m.2)
      ({ permits := 0, ready := [0, 4] }, { permits := 0, ready := [0, 4] }) := .init ⟨rfl, rfl⟩
  have h₁ := h₀.step (l := .pick 0) (by intro s stack hs; cases hs) rfl
  have h₂ := h₁.step (l := .run)
    (by intro s stack hs; cases hs; exact .inl (Nat.zero_le _)) rfl
  have h₃ := h₂.step (l := .pick 0) (by intro s stack hs; cases hs) rfl
  have h₄ := h₃.step (l := .run)
    (by intro s stack hs; cases hs; exact .inr ⟨by decide, .inl rfl⟩) rfl
  have h₅ := h₄.step (l := .run) (by intro s stack hs; cases hs; exact Nat.zero_le _) rfl
  exact ⟨_, _, (local_semaphore_agrees looks 0 [0, 4] h₅).1, rfl⟩

/-- With two units for one waiter it looks and tries before the other is back. And one
semaphore refuses to release more than a vector has room for. -/
theorem local_semaphore_differs : (∃ a b : Machine Nat,
    run (system .async looks 0 [0, 5]) { permits := 0, ready := [0, 5] }
      [.pick 0, .run, .pick 0, .run, .run, .run, .run, .run, .run] = some a ∧
    run (system .localAsync looks 0 [0, 5]) { permits := 0, ready := [0, 5] }
      [.pick 0, .run, .pick 0, .run, .run, .run, .run, .run, .run] = some b ∧
    a.stack.length = 0 ∧ b.stack.length = 0 ∧
    a.log = [.acquired 0, .available 1, .tried true] ∧
    b.log = [.acquired 0, .available 0, .tried false]) ∧
    ∃ a b : Machine Nat,
      run (system .async looks 0 [6]) { permits := 0, ready := [6] }
        [.pick 0, .run, .run] = some a ∧
      run (system .localAsync looks 0 [6]) { permits := 0, ready := [6] }
        [.pick 0, .run, .run] = some b ∧
      a.log = [.available 0] ∧ b.log = [.available (maxSize + 1)] :=
  ⟨⟨_, _, rfl, rfl, rfl, rfl, rfl, rfl⟩, _, _, rfl, rfl, rfl, rfl⟩

end LuvCoro.Sync.SameThread
