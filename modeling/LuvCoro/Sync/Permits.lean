import Mathlib.Algebra.GroupWithZero.Nat
import LuvCoro.Sync.Local

/-! # What mutexes and semaphores keep

Both versions of a primitive refine the abstract permit queue; what is known of
that is read here in the terms of the primitive. -/
namespace LuvCoro.Sync

open Transition PermitQueue

section
variable {ρ κ : Type} {P : Primitive ρ κ} {n : Int} {s : Sys ρ} {i : OpId}

/-- Hand-offs are in the order of the queue, but for the cancelled, and nobody is
both granted a permit and cancelled. -/
structure Fair (s : Sys ρ) : Prop where
  fifo : s.shared.history.enqueued.filter (· ∉ s.shared.history.cancelled) =
    s.shared.history.handedOff ++ s.shared.toWaiters.active
  exclusive : ∀ i ∈ s.shared.grants, (s.shared.waiter i).cancelled = false
  acquired : ∀ i, (s.op i).pc = .done .acquired → i ∈ s.shared.grants
  cancelled : ∀ i, (s.op i).pc = .done .cancelled → i ∉ s.shared.grants

theorem fair_of_base (h : Base P n s) (ha : ∀ j, Arrived s j) : Fair s := by
  have hex : ∀ i ∈ s.shared.grants, (s.shared.waiter i).cancelled = false := by
    intro i hi
    have hn := h.sound.exclusive (i := i) hi
    by_contra hc
    have hflag := (h.coherent.flag i).mp (by simpa using hc)
    exact hn (List.mem_append.mpr hflag)
  refine ⟨h.sound.fifo, hex, fun i hpc => ?_, fun i hpc hm => ?_⟩
  · have hi := ha i
    unfold Arrived at hi
    rw [hpc] at hi
    exact hi
  · have hi := ha i
    unfold Arrived at hi
    rw [hpc] at hi
    cases (hex i hm).symm.trans hi

end

/-! ## Mutexes -/

/-- One holder or none, a free mutex has no active waiter, and hand-offs are fair. -/
structure MutexSafe (s : Sys Bool) : Prop extends Fair s where
  balance : (s.shared.grants.length : Int) - s.shared.history.released =
    if s.shared.resource then 1 else 0
  idle : s.shared.resource = false → s.shared.toWaiters.active = []

theorem mutexSafe_of_base {message : String} {s : Sys Bool} (h : Base (mutex message) 1 s)
    (ha : ∀ j, Arrived s j) : MutexSafe s := by
  refine ⟨fair_of_base h ha, ?_, fun hf => ?_⟩
  · have hb : mutexPermits s.shared.resource + (s.shared.grants.length : Int) =
        1 + s.shared.history.released := h.sound.balance
    cases hl : s.shared.resource with
    | true =>
      rw [hl] at hb
      simp only [mutexPermits, if_true] at hb ⊢
      omega
    | false =>
      rw [hl] at hb
      simp only [mutexPermits, Bool.false_eq_true, if_false] at hb ⊢
      omega
  · refine h.sound.idle ?_
    show 0 < mutexPermits s.shared.resource
    rw [hf]
    decide

/-- In every reachable state of `async_mutex` and of `local_async_mutex` the
grants are one more than the unlocks exactly when it is locked. -/
theorem mutex_safe : (∀ s, Reachable (system asyncMutex false) s → MutexSafe s) ∧
    ∀ s, Reachable (Local.system Local.localMutex false) s → MutexSafe s := by
  refine ⟨fun s h => ?_, fun s h => ?_⟩
  · have hp : 0 ≤ asyncMutex.permits false := by decide
    exact mutexSafe_of_base (reachable_base hp h) (reachable_honest hp h).arrived
  · have hp : 0 ≤ Local.localMutex.permits false := by decide
    have hb := Local.reachable_base hp h
    exact mutexSafe_of_base hb.toBase hb.arrived

theorem mutex_safe_handed_off : ∃ s : Sys Bool, s.shared.history.handedOff = [1] ∧
    s.shared.resource = true ∧ MutexSafe s := by
  have h₀ : Reachable (system asyncMutex false) (Sys.new false) := .init rfl
  have h := h₀.run (show run (system asyncMutex false) _ [.call 0 true false, .run 0, .run 0,
    .call 1 true false, .run 1, .run 1, .run 1, .run 1, .run 1, .release () true, .resume 0] =
      some _ from rfl)
  exact ⟨_, rfl, rfl, mutex_safe.1 _ h⟩

/-! ## Semaphores -/

/-- Permits and grants are what there was and what has been released, less what
calls of `release` in progress have still to release. -/
structure SemaphoreSafe (initial : Int) (requested pending : Nat) (s : Sys Int) : Prop extends
    Fair s where
  balance : s.shared.resource + s.shared.grants.length + pending = initial + requested
  nonneg : 0 ≤ s.shared.resource
  idle : 0 < s.shared.resource → s.shared.toWaiters.active = []

theorem semaphoreSafe_of_base {κ : Type} {P : Primitive Int κ} {initial : Int} {s : Sys Int}
    {requested pending : Nat} (hP : P.permits = id) (h : Base P initial s)
    (ha : ∀ j, Arrived s j) (hr : requested = s.shared.history.released + pending) :
    SemaphoreSafe initial requested pending s := by
  have hperm : P.permits s.shared.resource = s.shared.resource := by rw [hP]; rfl
  refine ⟨fair_of_base h ha, ?_, ?_, fun hpos => ?_⟩
  · have hb : P.permits s.shared.resource + (s.shared.grants.length : Int) =
        initial + s.shared.history.released := h.sound.balance
    rw [hperm] at hb
    omega
  · have hn : 0 ≤ P.permits s.shared.resource := h.sound.nonneg
    rwa [hperm] at hn
  · refine h.sound.idle ?_
    show 0 < P.permits s.shared.resource
    rwa [hperm]

/-! ### `local_async_semaphore::release` -/

/-- One turn of the loop, or what follows it: `count` is what is left. -/
def localSemaphoreTurn (count : Nat) (permits : Int) (q : Waiters) :
    Except Error (List OpId × Int × Waiters) :=
  let q := q.prune
  match (if 0 < count then q.popFront else none) with
  | some (i, q) => .ok ([i], permits, q)
  | none => .ok ([], permits + count, q)

/-- What a turn releases: one permit when there is somebody to be served. -/
def localSemaphoreUnits (count : Nat) (q : Waiters) : Nat :=
  if 0 < count ∧ q.active ≠ [] then 1 else count

theorem localSemaphoreTurn_pops {count : Nat} {permits r : Int} {q q' : Waiters}
    {is : List OpId} (h : localSemaphoreTurn count permits q = .ok (is, r, q'))
    (hq : q.WellFormed) : is = q.active.take (localSemaphoreUnits count q) ∧ Pops q is q' ∧
      r = permits + (localSemaphoreUnits count q - is.length) := by
  have hfront := popFront_spec hq
  unfold localSemaphoreTurn localSemaphoreUnits at *
  by_cases hc : 0 < count
  · cases hp : q.prune.popFront with
    | none =>
      rw [hp] at hfront
      simp only [hc, if_true, hp, Except.ok.injEq, Prod.mk.injEq] at h
      obtain ⟨rfl, rfl, rfl⟩ := h
      have hn : ¬ (0 < count ∧ q.active ≠ []) := fun hx => hx.2 hfront
      rw [if_neg hn, hfront]
      exact ⟨List.take_nil.symm, pops_prune q, by simp⟩
    | some x =>
      obtain ⟨i, p⟩ := x
      rw [hp] at hfront
      simp only [hc, if_true, hp, Except.ok.injEq, Prod.mk.injEq] at h
      obtain ⟨rfl, rfl, rfl⟩ := h
      have hact : q.active = i :: p.active := hfront.active
      have hy : 0 < count ∧ q.active ≠ [] := ⟨hc, by rw [hact]; exact List.cons_ne_nil _ _⟩
      rw [if_pos hy, hact]
      exact ⟨rfl, hfront, by simp⟩
  · have hz : count = 0 := by omega
    subst hz
    simp only [Nat.lt_irrefl, if_false, Except.ok.injEq, Prod.mk.injEq] at h
    obtain ⟨rfl, rfl, rfl⟩ := h
    exact ⟨by simp, pops_prune q, by simp⟩

def localSemaphore : Primitive Int Nat where
  take := semaphoreTake
  release := localSemaphoreTurn
  permits := id
  units := localSemaphoreUnits
  take_some := semaphoreTake_some
  take_none := semaphoreTake_none
  release_pops := localSemaphoreTurn_pops

/-- `local_async_semaphore`. -/
structure LocalSemaphore extends Sys Int where
  /-- What each call of `release` in progress has still to release. -/
  releasing : List Nat := []
  /-- The counts of all calls of `release`. -/
  requested : Nat := 0

inductive SemaphoreLabel where
  | call (l : Label Nat)
  | release (count : Int)
  | turn (c : Nat)

namespace LocalSemaphore

/-- The check at the start of `release`. -/
def checkRelease (count : Int) : Except Error Nat :=
  if count ≤ 0 then .error (.invalidArgument "local_async_semaphore release count must be > 0")
  else .ok count.toNat

/-- One call of `release` goes on. The coroutine it resumes may call back before
its next turn. -/
def turn (s : LocalSemaphore) (c : Nat) : Option LocalSemaphore :=
  match s.releasing[c]? with
  | none => none
  | some count =>
    match Local.serve localSemaphore s.toSys count with
    | .error _ => none
    | .ok (is, t) =>
      some { s with
        toSys := t
        releasing :=
          if is.isEmpty then s.releasing.eraseIdx c else s.releasing.set c (count - 1) }

def step (s : LocalSemaphore) : SemaphoreLabel → Option LocalSemaphore
  | .call (.release _ _) => none
  | .call l => (Local.step localSemaphore s.toSys l).map fun t => { s with toSys := t }
  | .release count =>
    match checkRelease count with
    -- it throws
    | .error _ => some s
    | .ok n =>
      some { s with releasing := s.releasing ++ [n], requested := s.requested + n }
  | .turn c => s.turn c

def system (initial : Int) : System LocalSemaphore SemaphoreLabel where
  init s := s = { toSys := Sys.new initial }
  step := step

/-- The permits of every call of `release` are released, or on the way. -/
structure Inv (initial : Int) (s : LocalSemaphore) : Prop where
  base : Local.Base localSemaphore initial s.toSys
  requested : s.requested = s.shared.history.released + s.releasing.sum

end LocalSemaphore

open LocalSemaphore

variable {initial : Int} {s t : LocalSemaphore}

theorem sum_split {l : List Nat} {c n : Nat} (hc : l[c]? = some n) :
    l.sum = (l.take c).sum + (n + (l.drop (c + 1)).sum) := by
  obtain ⟨hlt, hx⟩ := List.getElem?_eq_some_iff.mp hc
  have hsplit : l = l.take c ++ n :: l.drop (c + 1) := by
    rw [← hx, List.getElem_cons_drop, List.take_append_drop]
  conv_lhs => rw [hsplit]
  rw [List.sum_append, List.sum_cons]

theorem sum_set_pred {l : List Nat} {c n : Nat} (hc : l[c]? = some n) (hn : 0 < n) :
    (l.set c (n - 1)).sum + 1 = l.sum := by
  have hlt := (List.getElem?_eq_some_iff.mp hc).1
  have hsum := sum_split hc
  rw [List.set_eq_take_append_cons_drop, if_pos hlt, List.sum_append, List.sum_cons, hsum]
  omega

theorem sum_eraseIdx {l : List Nat} {c n : Nat} (hc : l[c]? = some n) :
    (l.eraseIdx c).sum + n = l.sum := by
  have hsum := sum_split hc
  rw [List.eraseIdx_eq_take_drop_succ, List.sum_append, hsum]
  omega

theorem turn_inv {c : Nat} (h : Inv initial s) (hs : s.turn c = some t) : Inv initial t := by
  unfold LocalSemaphore.turn at hs
  split at hs
  · cases hs
  · rename_i count hc
    split at hs
    · cases hs
    · rename_i is u hserve
      cases hs
      have hst := Local.serve_stepped h.base hserve
      obtain ⟨htake, hrel⟩ := Local.serve_released h.base hserve
      refine ⟨hst.keeps, ?_⟩
      have hreq := h.requested
      have hunits : localSemaphore.units count s.shared.toWaiters =
          localSemaphoreUnits count s.shared.toWaiters := rfl
      rw [hunits] at htake hrel
      unfold localSemaphoreUnits at *
      show s.requested = u.shared.history.released +
        (if is.isEmpty then s.releasing.eraseIdx c else s.releasing.set c (count - 1)).sum
      by_cases hy : 0 < count ∧ s.shared.toWaiters.active ≠ []
      · -- a permit went to a waiter
        have hne : is.isEmpty = false := by
          rw [if_pos hy] at htake
          cases ha : s.shared.toWaiters.active with
          | nil => exact absurd ha hy.2
          | cons i js =>
            rw [htake, ha]
            rfl
        have hsum := sum_set_pred hc hy.1
        rw [if_pos hy] at hrel
        rw [hne, if_neg Bool.false_ne_true]
        omega
      · -- what was left became permits
        have hnil : is.isEmpty = true := by
          rw [if_neg hy] at htake
          rw [htake, List.isEmpty_iff]
          by_cases hz : 0 < count
          · have ha : s.shared.toWaiters.active = [] := by
              by_contra hne
              exact hy ⟨hz, hne⟩
            rw [ha, List.take_nil]
          · have hz' : count = 0 := by omega
            rw [hz', List.take_zero]
        have hsum := sum_eraseIdx hc
        rw [if_neg hy] at hrel
        rw [hnil, if_pos rfl]
        omega

theorem localSemaphore_inv {l : SemaphoreLabel} (h : Inv initial s)
    (hs : LocalSemaphore.step s l = some t) : Inv initial t := by
  cases l with
  | call l =>
    have hcall : (∀ k b, l ≠ .release k b) ∧ (Local.step localSemaphore s.toSys l).map
        (fun u => ({ s with toSys := u } : LocalSemaphore)) = some t := by
      cases l with
      | release k onLoop => cases hs
      | _ => exact ⟨nofun, hs⟩
    obtain ⟨hl, hs⟩ := hcall
    obtain ⟨u, hu, rfl⟩ := Option.map_eq_some_iff.mp hs
    refine ⟨(Local.step_stepped h.base hu).keeps, ?_⟩
    have hrel := Local.step_released hl hu
    exact h.requested.trans (congrArg (· + s.releasing.sum) hrel.symm)
  | release count =>
    simp only [LocalSemaphore.step] at hs
    split at hs
    · cases hs
      exact h
    · rename_i n _
      cases hs
      refine ⟨h.base, ?_⟩
      have hreq := h.requested
      show s.requested + n = s.shared.history.released + (s.releasing ++ [n]).sum
      rw [List.sum_append, List.sum_singleton, hreq]
      omega
  | turn c => exact turn_inv h hs

theorem localSemaphore_reachable (hi : 0 ≤ initial)
    (h : Reachable (LocalSemaphore.system initial) s) : Inv initial s := by
  refine h.invariant ?_ ?_
  · intro s h0
    cases h0
    exact ⟨Local.base_new (P := localSemaphore) hi, rfl⟩
  · intro s l t _ hI hs
    exact localSemaphore_inv hI hs

/-- In every reachable state of `async_semaphore` and of `local_async_semaphore`
no permit is minted or lost. -/
theorem semaphore_safe (initial : Int) (hi : 0 ≤ initial) :
    (∀ s, Reachable (system asyncSemaphore initial) s →
      SemaphoreSafe initial s.shared.history.released 0 s) ∧
    ∀ s, Reachable (LocalSemaphore.system initial) s →
      SemaphoreSafe initial s.requested s.releasing.sum s.toSys := by
  refine ⟨fun s h => ?_, fun s h => ?_⟩
  · exact semaphoreSafe_of_base rfl (reachable_base (P := asyncSemaphore) hi h)
      (reachable_honest (P := asyncSemaphore) hi h).arrived rfl
  · obtain ⟨hb, hr⟩ := localSemaphore_reachable hi h
    exact semaphoreSafe_of_base rfl hb.toBase hb.arrived hr

theorem semaphore_safe_between_turns : ∃ s : LocalSemaphore, s.releasing = [1] ∧
    s.shared.grants = [0] ∧ SemaphoreSafe 0 2 1 s.toSys := by
  have h₀ : Reachable (LocalSemaphore.system 0) { toSys := Sys.new 0 } := .init rfl
  have h := h₀.run (show run (LocalSemaphore.system 0) _ [.call (.call 0 true false),
    .call (.run 0), .call (.run 0), .call (.run 0), .release 2, .turn 0] = some _ from rfl)
  exact ⟨_, rfl, rfl, (semaphore_safe 0 (by decide)).2 _ h⟩

end LuvCoro.Sync
