import LuvCoro.Lib.PermitQueue
import LuvCoro.Sync.Waiters

/-! # Mutexes and semaphores

Both keep permits, one or many, and hand them to the queue of waiters first.
What differs is when a permit can be taken and what a release checks and leaves;
the critical sections around that are the same code. -/
namespace LuvCoro.Sync

open PermitQueue

inductive Error where
  | runtimeError (message : String)
  | invalidArgument (message : String)
  | lengthError (message : String)
  deriving DecidableEq

/-- What the critical sections have done: who took a permit at once, who queued,
and of these who was handed one and who was cancelled, who was refused before,
and how much was released. -/
structure History where
  granted : List OpId := []
  enqueued : List OpId := []
  handedOff : List OpId := []
  cancelled : List OpId := []
  refused : List OpId := []
  released : Nat := 0

/-- What `mutex_` protects, with its history. -/
structure Shared (ρ : Type) extends Waiters where
  resource : ρ
  history : History := {}

/-- The resource of a primitive: how a permit is taken, given whether the queue
is empty, and what a release does, with the waiters it completes. A release of
`units`, which may depend on the queue, serves that many waiters, and what is
left over becomes permits. -/
structure Primitive (ρ κ : Type) where
  take : ρ → Bool → Option ρ
  release : κ → ρ → Waiters → Except Error (List OpId × ρ × Waiters)
  permits : ρ → Int
  units : κ → Waiters → Nat
  take_some : ∀ {r e r'}, take r e = some r' → 0 < permits r ∧ permits r' = permits r - 1
  take_none : ∀ {r}, take r true = none → permits r ≤ 0
  release_pops : ∀ {k r q is r' q'}, release k r q = .ok (is, r', q') → q.WellFormed →
    is = q.active.take (units k q) ∧ Pops q is q' ∧
      permits r' = permits r + (units k q - is.length)

/-! ## The primitives -/

/-- `!locked_ && waiters_.empty()`. -/
def mutexTake (locked empty : Bool) : Option Bool :=
  if !locked && empty then some true else none

def mutexPermits (locked : Bool) : Int := if locked then 0 else 1

/-- `unlock`. -/
def mutexUnlock (message : String) (locked : Bool) (q : Waiters) :
    Except Error (List OpId × Bool × Waiters) :=
  if !locked then .error (.runtimeError message)
  else
    match q.prune.popFront with
    | none => .ok ([], false, q.prune)
    | some (i, q) => .ok ([i], locked, q)

theorem mutexTake_some {locked empty r : Bool} (h : mutexTake locked empty = some r) :
    0 < mutexPermits locked ∧ mutexPermits r = mutexPermits locked - 1 := by
  unfold mutexTake at h
  split at h
  · rename_i hc
    cases h
    cases locked
    · decide
    · cases hc
  · cases h

theorem mutexTake_none {locked : Bool} (h : mutexTake locked true = none) :
    mutexPermits locked ≤ 0 := by
  cases locked
  · cases h
  · decide

theorem mutexUnlock_pops {message : String} {locked r : Bool} {q q' : Waiters} {is : List OpId}
    (h : mutexUnlock message locked q = .ok (is, r, q')) (hq : q.WellFormed) :
    is = q.active.take 1 ∧ Pops q is q' ∧
      mutexPermits r = mutexPermits locked + ((1 : Nat) - is.length) := by
  unfold mutexUnlock at h
  cases locked with
  | false => cases h
  | true =>
    have hfront := popFront_spec hq
    cases hp : q.prune.popFront with
    | none =>
      rw [hp] at hfront
      simp only [hp, Bool.not_true, Bool.false_eq_true, if_false, Except.ok.injEq,
        Prod.mk.injEq] at h
      obtain ⟨rfl, rfl, rfl⟩ := h
      exact ⟨by rw [hfront]; rfl, pops_prune q, by decide⟩
    | some x =>
      obtain ⟨i, p⟩ := x
      rw [hp] at hfront
      simp only [hp, Bool.not_true, Bool.false_eq_true, if_false, Except.ok.injEq,
        Prod.mk.injEq] at h
      obtain ⟨rfl, rfl, rfl⟩ := h
      exact ⟨by rw [hfront.active]; rfl, hfront, by simp⟩

def mutex (message : String) : Primitive Bool Unit where
  take := mutexTake
  release _ := mutexUnlock message
  permits := mutexPermits
  units _ _ := 1
  take_some := mutexTake_some
  take_none := mutexTake_none
  release_pops := mutexUnlock_pops

def asyncMutex : Primitive Bool Unit := mutex "async_mutex is not locked"

/-- `permits_ > 0`. -/
def semaphoreTake (permits : Int) (_ : Bool) : Option Int :=
  if 0 < permits then some (permits - 1) else none

/-- `max_size()` of a vector of shared pointers, on a machine of 64 bits. -/
def maxSize : Int := 576460752303423487

/-- `async_semaphore::release`, up to the resumptions. -/
def asyncSemaphoreRelease (count : Int) (permits : Int) (q : Waiters) :
    Except Error (List OpId × Int × Waiters) :=
  if count ≤ 0 then
    .error (.invalidArgument "async_semaphore release count must be > 0")
  -- `ready_waiters` makes room for all of them at once, before anything is released
  else if maxSize < count then .error (.lengthError "vector::reserve")
  else
    let r := Waiters.popLoop count.toNat q.prune
    .ok (r.1, permits + (count - r.1.length), r.2)

theorem semaphoreTake_some {permits r : Int} {empty : Bool}
    (h : semaphoreTake permits empty = some r) : 0 < permits ∧ r = permits - 1 := by
  simp only [semaphoreTake, Option.ite_none_right_eq_some, Option.some.injEq] at h
  exact ⟨h.1, h.2.symm⟩

theorem semaphoreTake_none {permits : Int} {empty : Bool}
    (h : semaphoreTake permits empty = none) : permits ≤ 0 := by
  unfold semaphoreTake at h
  split at h
  · cases h
  · omega

theorem asyncSemaphoreRelease_pops {count permits r : Int} {q q' : Waiters} {is : List OpId}
    (h : asyncSemaphoreRelease count permits q = .ok (is, r, q')) (hq : q.WellFormed) :
    is = q.active.take count.toNat ∧ Pops q is q' ∧ r = permits + (count.toNat - is.length) := by
  unfold asyncSemaphoreRelease at h
  split at h
  · cases h
  · rename_i hc
    split at h
    · cases h
    simp only [Except.ok.injEq, Prod.mk.injEq] at h
    obtain ⟨rfl, rfl, rfl⟩ := h
    obtain ⟨htake, hpops⟩ := popLoop_spec count.toNat hq
    exact ⟨htake, hpops, by omega⟩

def asyncSemaphore : Primitive Int Int where
  take := semaphoreTake
  release := asyncSemaphoreRelease
  permits := id
  units count _ := count.toNat
  take_some := semaphoreTake_some
  take_none := semaphoreTake_none
  release_pops := asyncSemaphoreRelease_pops

/-! ## The critical sections -/

namespace History

def grant (h : History) (i : OpId) : History :=
  { h with granted := h.granted ++ [i] }

def enqueue (h : History) (i : OpId) : History := { h with enqueued := h.enqueued ++ [i] }

def refuse (h : History) (i : OpId) : History := { h with refused := h.refused ++ [i] }

def cancel (h : History) (i : OpId) : History := { h with cancelled := h.cancelled ++ [i] }

def handOff (h : History) (n : Nat) (is : List OpId) : History :=
  { h with released := h.released + n, handedOff := h.handedOff ++ is }

/-- The call has a permit, or has given up. -/
def Settled (h : History) (i : OpId) : Prop :=
  i ∈ h.granted ∨ i ∈ h.handedOff ∨ i ∈ h.cancelled ∨ i ∈ h.refused

end History

variable {ρ κ : Type}

namespace Shared

def set (sh : Shared ρ) (i : OpId) (f : Waiter → Waiter) : Shared ρ :=
  { sh with toWaiters := sh.toWaiters.set i f }

/-- `try_lock` and `try_acquire`; every acquisition begins like this. -/
def tryTake (P : Primitive ρ κ) (sh : Shared ρ) (i : OpId) : Bool × Shared ρ :=
  let q := sh.toWaiters.prune
  match P.take sh.resource q.waiters.isEmpty with
  | some r => (true, { toWaiters := q, resource := r, history := sh.history.grant i })
  | none => (false, { sh with toWaiters := q })

/-- The section of `await_ready`. -/
def takeReady (P : Primitive ρ κ) (sh : Shared ρ) (i : OpId) : Bool × Shared ρ :=
  let r := sh.tryTake P i
  if r.1 then (true, r.2.set i Waiter.acquire) else r

/-- The section of `await_suspend`; the continuation is set just before it. -/
def takeOrEnqueue (P : Primitive ρ κ) (sh : Shared ρ) (i : OpId) : Bool × Shared ρ :=
  let r := (sh.set i Waiter.suspend).tryTake P i
  if r.1 then (true, r.2.set i Waiter.acquire)
  else (false,
    { r.2 with toWaiters := r.2.toWaiters.pushBack i, history := r.2.history.enqueue i })

/-- `await_suspend` finds that stop has been requested. -/
def refuse (sh : Shared ρ) (i : OpId) : Shared ρ :=
  { sh with toWaiters := sh.toWaiters.set i Waiter.refuse, history := sh.history.refuse i }

/-- `cancel_waiter`, when it does anything. -/
def cancel (sh : Shared ρ) (i : OpId) : Option (Shared ρ) :=
  (sh.toWaiters.cancelWaiter i).map fun q =>
    { sh with toWaiters := q, history := sh.history.cancel i }

/-- `unlock` and `release`, with the waiters to resume. -/
def release (P : Primitive ρ κ) (sh : Shared ρ) (k : κ) : Except Error (List OpId × Shared ρ) :=
  match P.release k sh.resource sh.toWaiters with
  | .error e => .error e
  | .ok (is, r, q) =>
    let n := P.units k sh.toWaiters
    .ok (is, { toWaiters := q, resource := r, history := sh.history.handOff n is })

/-- Who has been granted a permit. -/
def grants (sh : Shared ρ) : List OpId := sh.history.granted ++ sh.history.handedOff

/-- The permits of a primitive that began with `n`, and its history. -/
def ledger (P : Primitive ρ κ) (n : Int) (sh : Shared ρ) : Ledger OpId where
  initial := n
  permits := P.permits sh.resource
  queue := sh.toWaiters.active
  granted := sh.history.granted
  enqueued := sh.history.enqueued
  handed := sh.history.handedOff
  withdrawn := sh.history.cancelled
  refused := sh.history.refused
  released := sh.history.released

end Shared

/-! ## Sections as moves of the ledger -/

/-- What the records say about the history, where `pre` are the operations that
have not come to their acquisition. -/
structure Coherent (pre : OpId → Prop) (sh : Shared ρ) : Prop where
  wellFormed : sh.toWaiters.WellFormed
  record : ∀ i, pre i → sh.waiter i = {}
  queue : ∀ i, pre i → i ∉ sh.waiters
  fresh : ∀ i, pre i →
    i ∉ sh.history.granted ∧ i ∉ sh.history.enqueued ∧ i ∉ sh.history.refused
  live : ∀ i ∈ sh.history.enqueued, (sh.waiter i).active = true → i ∈ sh.waiters
  flag : ∀ i, (sh.waiter i).cancelled = true ↔
    i ∈ sh.history.cancelled ∨ i ∈ sh.history.refused
  settled : ∀ i, (sh.waiter i).completed = true → sh.history.Settled i

/-- The ledger stays, or makes one move. -/
def Moved (P : Primitive ρ κ) (n : Int) (sh sh' : Shared ρ) : Prop :=
  sh'.ledger P n = sh.ledger P n ∨
    ∃ m, PermitQueue.step (sh.ledger P n) m = some (sh'.ledger P n)

/-- What never goes back. -/
structure Later (sh sh' : Shared ρ) : Prop where
  completed : ∀ i, (sh.waiter i).completed = true → (sh'.waiter i).completed = true
  cancelled : ∀ i, (sh.waiter i).cancelled = true → (sh'.waiter i).cancelled = true
  grants : sh.grants ⊆ sh'.grants
  enqueued : sh.history.enqueued ⊆ sh'.history.enqueued

theorem mem_snoc {α : Type} {l : List α} {a b : α} (h : a ∈ l ++ [b]) (hn : a ≠ b) : a ∈ l :=
  (List.mem_append.mp h).resolve_right fun hm => hn (List.mem_singleton.mp hm)

theorem mem_snoc_self {α : Type} (l : List α) (a : α) : a ∈ l ++ [a] :=
  List.mem_append_right _ (List.mem_singleton.mpr rfl)

section
variable {P : Primitive ρ κ} {n : Int} {pre pre' : OpId → Prop} {sh sh' : Shared ρ} {i : OpId}

/-- For a section whose calls before their acquisition do not matter. -/
theorem nobody (j : OpId) (hj : (fun _ : OpId => False) j) : pre j ∧ j ≠ i := hj.elim

theorem Coherent.mono (h : Coherent pre sh) (hp : ∀ j, pre' j → pre j) : Coherent pre' sh :=
  ⟨h.wellFormed, fun j hj => h.record j (hp j hj), fun j hj => h.queue j (hp j hj),
    fun j hj => h.fresh j (hp j hj), h.live, h.flag, h.settled⟩

theorem coherent_prune (h : Coherent pre sh) :
    Coherent pre { sh with toWaiters := sh.toWaiters.prune } := by
  refine ⟨wellFormed_prune h.wellFormed, h.record, fun j hj hm => ?_, h.fresh, fun j hj ha => ?_,
    h.flag, h.settled⟩
  · exact h.queue j hj ((prune_sublist _).subset hm)
  · have hm : j ∈ sh.toWaiters.active := mem_active.mpr ⟨h.live j hj ha, ha⟩
    rw [← active_prune] at hm
    exact (mem_active.mp hm).1

theorem ledger_prune : Shared.ledger P n { sh with toWaiters := sh.toWaiters.prune } =
    sh.ledger P n := by
  simp only [Shared.ledger, active_prune]

theorem ledger_set (hi : i ∉ sh.waiters) (f : Waiter → Waiter) :
    (sh.set i f).ledger P n = sh.ledger P n := by
  have hact : (sh.toWaiters.set i f).active = sh.toWaiters.active := active_set hi f
  simp only [Shared.ledger, Shared.set, hact]

/-- The record of somebody who never queued. -/
theorem coherent_set (h : Coherent pre sh) (hi : ¬ pre i) (hq : i ∉ sh.waiters)
    (he : i ∉ sh.history.enqueued) {f : Waiter → Waiter}
    (hf : (f (sh.waiter i)).cancelled = (sh.waiter i).cancelled)
    (hc : (f (sh.waiter i)).completed = true → sh.history.Settled i) :
    Coherent pre (sh.set i f) := by
  have hoth : ∀ j, j ≠ i → (sh.set i f).waiter j = sh.waiter j := fun j hj => set_of_ne _ f hj
  refine ⟨wellFormed_set h.wellFormed hq f, fun j hj => ?_, h.queue, h.fresh, fun j hj ha => ?_,
    fun j => ?_, fun j hj => ?_⟩
  · have hne : j ≠ i := fun he => hi (he ▸ hj)
    exact (hoth j hne).trans (h.record j hj)
  · have hne : j ≠ i := fun hji => he (hji ▸ hj)
    rw [hoth j hne] at ha
    exact h.live j hj ha
  · by_cases hj : j = i
    · subst hj
      rw [show (sh.set j f).waiter j = f (sh.waiter j) from set_self .., hf]
      exact h.flag j
    · rw [hoth j hj]
      exact h.flag j
  · by_cases he : j = i
    · subst he
      rw [show (sh.set j f).waiter j = f (sh.waiter j) from set_self ..] at hj
      exact hc hj
    · rw [hoth j he] at hj
      exact h.settled j hj

/-- A permit is taken at once. -/
theorem coherent_grant {r : ρ} (h : Coherent pre sh) (hp : ∀ j, pre' j → pre j ∧ j ≠ i) :
    Coherent pre' { sh with resource := r, history := sh.history.grant i } := by
  have hs := h.mono fun j hj => (hp j hj).1
  refine ⟨hs.wellFormed, hs.record, hs.queue, fun j hj => ?_, hs.live, hs.flag, fun j hj => ?_⟩
  · obtain ⟨h₁, h₂, h₃⟩ := hs.fresh j hj
    exact ⟨fun hm => h₁ (mem_snoc hm (hp j hj).2), h₂, h₃⟩
  · exact (hs.settled j hj).imp_left (List.mem_append_left _)

/-- An operation with a record of its own joins the queue. -/
theorem coherent_enqueue (h : Coherent pre sh) (hi : ¬ pre i) (hq : i ∉ sh.waiters)
    (hc : (sh.waiter i).completed = false) :
    Coherent pre { sh with
      toWaiters := sh.toWaiters.pushBack i, history := sh.history.enqueue i } := by
  have hne : ∀ j, pre j → j ≠ i := fun j hj he => hi (he ▸ hj)
  refine ⟨wellFormed_pushBack h.wellFormed hq hc, h.record, fun j hj hm => ?_, fun j hj => ?_,
    fun j hj ha => ?_, h.flag, h.settled⟩
  · exact h.queue j hj (mem_snoc hm (hne j hj))
  · obtain ⟨h₁, h₂, h₃⟩ := h.fresh j hj
    exact ⟨h₁, fun hm => h₂ (mem_snoc hm (hne j hj)), h₃⟩
  · by_cases he : j = i
    · rw [he]
      exact mem_snoc_self _ i
    · exact List.mem_append_left _ (h.live j (mem_snoc hj he) ha)

theorem coherent_refuse (h : Coherent pre sh) (hi : pre i)
    (hp : ∀ j, pre' j → pre j ∧ j ≠ i) : Coherent pre' (sh.refuse i) := by
  have hoth : ∀ j, j ≠ i → (sh.refuse i).waiter j = sh.waiter j := fun j hj => set_of_ne _ _ hj
  refine ⟨wellFormed_set h.wellFormed (h.queue i hi) _, fun j hj => ?_,
    fun j hj => h.queue j (hp j hj).1, fun j hj => ?_, fun j hj ha => ?_, fun j => ?_,
    fun j hj => ?_⟩
  · rw [hoth j (hp j hj).2]
    exact h.record j (hp j hj).1
  · obtain ⟨h₁, h₂, h₃⟩ := h.fresh j (hp j hj).1
    exact ⟨h₁, h₂, fun hm => h₃ (mem_snoc hm (hp j hj).2)⟩
  · have hne : j ≠ i := fun he => (h.fresh i hi).2.1 (he ▸ hj)
    rw [hoth j hne] at ha
    exact h.live j hj ha
  · by_cases hj : j = i
    · subst hj
      refine ⟨fun _ => .inr (mem_snoc_self _ j), fun _ => ?_⟩
      exact congrArg Waiter.cancelled (set_self sh.toWaiters j Waiter.refuse)
    · rw [hoth j hj, h.flag j]
      exact or_congr_right ⟨List.mem_append_left _, fun hm => mem_snoc hm hj⟩
  · by_cases he : j = i
    · rw [he]
      exact .inr (.inr (.inr (mem_snoc_self _ i)))
    · rw [hoth j he] at hj
      exact (h.settled j hj).imp id (Or.imp id (Or.imp id (List.mem_append_left _)))

theorem coherent_cancel (h : Coherent pre sh) (hs : sh.cancel i = some sh') (hi : ¬ pre i) :
    Coherent pre sh' := by
  obtain ⟨q, hq, rfl⟩ := Option.map_eq_some_iff.mp hs
  obtain ⟨_, _, rfl⟩ := cancelWaiter_spec hq
  have hoth : ∀ j, j ≠ i → (sh.toWaiters.set i Waiter.cancel).waiter j = sh.waiter j :=
    fun j hj => set_of_ne _ _ hj
  refine ⟨wellFormed_cancel h.wellFormed i, fun j hj => ?_, h.queue, h.fresh, fun j hj ha => ?_,
    fun j => ?_, fun j hj => ?_⟩
  · have hne : j ≠ i := fun he => hi (he ▸ hj)
    exact (hoth j hne).trans (h.record j hj)
  · by_cases he : j = i
    · subst he
      have hrec := congrArg Waiter.active (set_self sh.toWaiters j Waiter.cancel)
      cases hrec.symm.trans ha
    · exact h.live j hj (congrArg Waiter.active (hoth j he) ▸ ha)
  · by_cases hj : j = i
    · subst hj
      refine ⟨fun _ => .inl (mem_snoc_self _ j), fun _ => ?_⟩
      exact congrArg Waiter.cancelled (set_self sh.toWaiters j Waiter.cancel)
    · rw [show (sh.toWaiters.set i Waiter.cancel).waiter j = sh.waiter j from hoth j hj, h.flag j]
      exact or_congr_left ⟨List.mem_append_left _, fun hm => mem_snoc hm hj⟩
  · by_cases he : j = i
    · rw [he]
      exact .inr (.inr (.inl (mem_snoc_self _ i)))
    · rw [show (sh.toWaiters.set i Waiter.cancel).waiter j = sh.waiter j from hoth j he] at hj
      exact (h.settled j hj).imp id (Or.imp id (Or.imp (List.mem_append_left _) id))

/-- Waiters are completed from the front, with whatever that releases. -/
theorem coherent_handOff {is : List OpId} {r : ρ} {q : Waiters} (h : Coherent pre sh)
    (hp : Pops sh.toWaiters is q) (m : Nat) :
    Coherent pre { toWaiters := q, resource := r, history := sh.history.handOff m is } := by
  have hmem : ∀ j ∈ is, j ∈ sh.waiters := by
    intro j hj
    have ha : j ∈ sh.toWaiters.active := by
      rw [hp.active]
      exact List.mem_append_left _ hj
    exact (mem_active.mp ha).1
  refine ⟨hp.wellFormed h.wellFormed, fun j hj => ?_, fun j hj hm => ?_, h.fresh, fun j hj ha => ?_,
    fun j => ?_, fun j hj => ?_⟩
  · have hn : j ∉ is := fun hm => h.queue j hj (hmem j hm)
    exact (hp.others j hn).trans (h.record j hj)
  · exact h.queue j hj (hp.sublist.subset hm)
  · by_cases hm : j ∈ is
    · cases (congrArg Waiter.active (hp.completed j hm)).symm.trans ha
    · have hact : j ∈ sh.toWaiters.active :=
        mem_active.mpr ⟨h.live j hj ((congrArg Waiter.active (hp.others j hm)).symm.trans ha),
          (congrArg Waiter.active (hp.others j hm)).symm.trans ha⟩
      rw [hp.active] at hact
      exact (mem_active.mp ((List.mem_append.mp hact).resolve_left hm)).1
  · have hflag : (q.waiter j).cancelled = (sh.waiter j).cancelled := by
      by_cases hm : j ∈ is
      · rw [hp.completed j hm]
        rfl
      · rw [hp.others j hm]
    show (q.waiter j).cancelled = true ↔ _
    rw [hflag]
    exact h.flag j
  · by_cases hm : j ∈ is
    · exact .inr (.inl (List.mem_append_right _ hm))
    · have hj' : (sh.waiter j).completed = true := by
        rw [← hp.others j hm]
        exact hj
      exact (h.settled j hj').imp id (Or.imp (List.mem_append_left _) id)

/-! ## What the sections do -/

/-- The section leaves `w` as the record of `i`, and puts `tail` behind the
waiters. -/
structure Touches (sh sh' : Shared ρ) (i : OpId) (w : Waiter) (tail : List OpId) : Prop where
  record : sh'.waiter i = w
  others : ∀ j, j ≠ i → sh'.waiter j = sh.waiter j
  active : sh'.toWaiters.active = sh.toWaiters.active ++ tail
  enqueued : sh.history.enqueued ⊆ sh'.history.enqueued

theorem later_refl (sh : Shared ρ) : Later sh sh :=
  ⟨fun _ h => h, fun _ h => h, List.Subset.refl _, List.Subset.refl _⟩

theorem Moved.grants (h : Moved P n sh sh') : sh.grants ⊆ sh'.grants := by
  rcases h with he | ⟨m, hm⟩
  · have hg := congrArg Ledger.granted he
    have hh := congrArg Ledger.handed he
    intro i hi
    unfold Shared.grants at *
    rw [show sh'.history.granted = sh.history.granted from hg,
      show sh'.history.handedOff = sh.history.handedOff from hh]
    exact hi
  · exact holders_subset hm

/-- A section of a call that had no record yet. -/
theorem Touches.later {w : Waiter} {tail : List OpId} (h : Touches sh sh' i w tail)
    (hm : Moved P n sh sh') (hi : sh.waiter i = {}) : Later sh sh' := by
  refine ⟨fun j hj => ?_, fun j hj => ?_, hm.grants, h.enqueued⟩
  · by_cases he : j = i
    · subst he
      rw [hi] at hj
      cases hj
    · rwa [h.others j he]
  · by_cases he : j = i
    · subst he
      rw [hi] at hj
      cases hj
    · rwa [h.others j he]

/-- `try_lock` and its like take a permit, or there is none. -/
theorem tryTake_spec (hs : Sound (sh.ledger P n)) (hf : (sh.ledger P n).Fresh i) :
    (∃ r, sh.tryTake P i = (true,
        { toWaiters := sh.toWaiters.prune, resource := r, history := sh.history.grant i }) ∧
        PermitQueue.step (sh.ledger P n) (.take i) = some ((sh.tryTake P i).2.ledger P n)) ∨
    (P.permits sh.resource ≤ 0 ∧
      sh.tryTake P i = (false, { sh with toWaiters := sh.toWaiters.prune })) := by
  have hempty : sh.toWaiters.prune.waiters.isEmpty = sh.toWaiters.active.isEmpty := prune_isEmpty
  cases ht : P.take sh.resource sh.toWaiters.prune.waiters.isEmpty with
  | some r =>
    obtain ⟨hpos, hperm⟩ := P.take_some ht
    have heq : sh.tryTake P i = (true,
        { toWaiters := sh.toWaiters.prune, resource := r, history := sh.history.grant i }) := by
      simp only [Shared.tryTake, ht]
    rw [heq]
    refine .inl ⟨r, rfl, ?_⟩
    have hpos' : 0 < (sh.ledger P n).permits := hpos
    simp only [PermitQueue.step, hpos', hf, and_self, if_true, Option.some.injEq]
    simp only [Shared.ledger, active_prune, hperm, History.grant]
  | none =>
    have heq : sh.tryTake P i = (false, { sh with toWaiters := sh.toWaiters.prune }) := by
      simp only [Shared.tryTake, ht]
    refine .inr ⟨?_, heq⟩
    by_contra hpos
    have hq : (sh.ledger P n).queue = [] := hs.idle (by show 0 < P.permits _; omega)
    have hnil : sh.toWaiters.active = [] := hq
    rw [hempty, hnil] at ht
    exact hpos (P.take_none ht)

section
variable (h : Coherent pre sh) (hs : Sound (sh.ledger P n)) (hi : pre i)
  (hp : ∀ j, pre' j → pre j ∧ j ≠ i)

include h hs hi hp

/-- `try_lock`, `try_acquire`. -/
theorem tryTake_keeps : Coherent pre' (sh.tryTake P i).2 ∧ Moved P n sh (sh.tryTake P i).2 ∧
    Touches sh (sh.tryTake P i).2 i {} [] := by
  have hact : sh.toWaiters.prune.active = sh.toWaiters.active ++ [] := by
    rw [active_prune, List.append_nil]
  rcases tryTake_spec hs (h.fresh i hi) with ⟨r, heq, hstep⟩ | ⟨_, heq⟩
  · refine ⟨?_, .inr ⟨_, hstep⟩, ?_⟩
    · rw [heq]
      exact coherent_grant (coherent_prune h) hp
    · rw [heq]
      exact ⟨h.record i hi, fun _ _ => rfl, hact, List.Subset.refl _⟩
  · rw [heq]
    exact ⟨(coherent_prune h).mono fun j hj => (hp j hj).1, .inl ledger_prune,
      ⟨h.record i hi, fun _ _ => rfl, hact, List.Subset.refl _⟩⟩

/-- `await_ready` takes a permit or leaves everything to `await_suspend`. -/
theorem takeReady_keeps : Moved P n sh (sh.takeReady P i).2 ∧
    if (sh.takeReady P i).1 then
      Coherent pre' (sh.takeReady P i).2 ∧ Touches sh (sh.takeReady P i).2 i (Waiter.acquire {}) []
    else Coherent pre (sh.takeReady P i).2 ∧ Touches sh (sh.takeReady P i).2 i {} [] := by
  unfold Shared.takeReady
  have hact : sh.toWaiters.prune.active = sh.toWaiters.active ++ [] := by
    rw [active_prune, List.append_nil]
  rcases tryTake_spec hs (h.fresh i hi) with ⟨r, heq, hstep⟩ | ⟨_, heq⟩
  · have hq : i ∉ sh.toWaiters.prune.waiters := (coherent_prune h).queue i hi
    have hni : ¬ pre' i := fun hi' => (hp i hi').2 rfl
    simp only [heq, if_true]
    refine ⟨.inr ⟨.take i, ?_⟩, ?_, ?_⟩
    · rw [hstep, heq]
      exact congrArg some (ledger_set hq _).symm
    · exact coherent_set (coherent_grant (coherent_prune h) hp) hni hq (h.fresh i hi).2.1 rfl
        fun _ => .inl (mem_snoc_self _ i)
    · refine ⟨?_, fun j hj => set_of_ne _ _ hj, (active_set hq _).trans hact, List.Subset.refl _⟩
      exact (set_self ..).trans (congrArg Waiter.acquire (h.record i hi))
  · simp only [heq, Bool.false_eq_true, if_false]
    exact ⟨.inl ledger_prune, coherent_prune h, h.record i hi, fun _ _ => rfl, hact,
      List.Subset.refl _⟩

/-- `await_suspend` takes a permit or queues the operation. -/
theorem takeOrEnqueue_keeps : Coherent pre' (sh.takeOrEnqueue P i).2 ∧
    Moved P n sh (sh.takeOrEnqueue P i).2 ∧
    if (sh.takeOrEnqueue P i).1 then
      Touches sh (sh.takeOrEnqueue P i).2 i (Waiter.acquire (Waiter.suspend {})) []
    else Touches sh (sh.takeOrEnqueue P i).2 i (Waiter.suspend {}) [i] ∧
      i ∈ (sh.takeOrEnqueue P i).2.history.enqueued := by
  have hq₀ := h.queue i hi
  have hni : ¬ pre' i := fun hi' => (hp i hi').2 rfl
  have hrec : (sh.set i Waiter.suspend).waiter i = Waiter.suspend {} :=
    (set_self ..).trans (congrArg Waiter.suspend (h.record i hi))
  have hled : (sh.set i Waiter.suspend).ledger P n = sh.ledger P n := ledger_set hq₀ _
  have hset : Coherent pre' (sh.set i Waiter.suspend) :=
    coherent_set (h.mono fun j hj => (hp j hj).1) hni hq₀ (h.fresh i hi).2.1 rfl fun hc => by
      rw [h.record i hi] at hc
      cases hc
  have hpr := coherent_prune hset
  have hact : (sh.set i Waiter.suspend).toWaiters.prune.active = sh.toWaiters.active ++ [] := by
    rw [active_prune, List.append_nil]
    exact active_set hq₀ _
  have hq : i ∉ (sh.set i Waiter.suspend).toWaiters.prune.waiters :=
    fun hm => hq₀ ((prune_sublist (sh.set i Waiter.suspend).toWaiters).subset hm)
  have hfr : ((sh.set i Waiter.suspend).ledger P n).Fresh i := h.fresh i hi
  unfold Shared.takeOrEnqueue
  rcases tryTake_spec (hled.symm ▸ hs) hfr with ⟨r, heq, hstep⟩ | ⟨hperm, heq⟩
  · simp only [heq, if_true]
    refine ⟨?_, .inr ⟨.take i, ?_⟩, ?_, fun j hj => ?_, (active_set hq _).trans hact,
      List.Subset.refl _⟩
    · have hg := coherent_grant (i := i) (r := r) hpr fun j hj => ⟨hj, (hp j hj).2⟩
      exact coherent_set hg hni hq (h.fresh i hi).2.1 rfl fun _ => .inl (mem_snoc_self _ i)
    · rw [← hled, hstep, heq]
      exact congrArg some (ledger_set hq _).symm
    · exact (set_self ..).trans (congrArg Waiter.acquire hrec)
    · exact (set_of_ne _ _ hj).trans (set_of_ne _ _ hj)
  · simp only [heq, Bool.false_eq_true, if_false]
    have hact' : ((sh.set i Waiter.suspend).toWaiters.prune.pushBack i).active =
        sh.toWaiters.active ++ [i] := by
      rw [active_pushBack (q := (sh.set i Waiter.suspend).toWaiters.prune)
        (congrArg Waiter.active hrec), hact, List.append_nil]
    refine ⟨?_, .inr ⟨.enqueue i, ?_⟩, ⟨hrec, fun j hj => set_of_ne _ _ hj, hact',
      List.subset_append_left _ _⟩, mem_snoc_self _ i⟩
    · exact coherent_enqueue hpr hni hq (congrArg Waiter.completed hrec)
    · have hperm' : (sh.ledger P n).permits ≤ 0 := hperm
      have hf : (sh.ledger P n).Fresh i := h.fresh i hi
      simp only [PermitQueue.step, hperm', hf, and_self, if_true, Option.some.injEq]
      unfold Shared.ledger
      rw [hact']
      rfl

omit hs in
/-- `await_suspend` refuses to wait when stop has been requested. -/
theorem refuse_keeps : Coherent pre' (sh.refuse i) ∧ Moved P n sh (sh.refuse i) ∧
    Touches sh (sh.refuse i) i (Waiter.refuse {}) [] := by
  have hact : (sh.toWaiters.set i Waiter.refuse).active = sh.toWaiters.active :=
    active_set (h.queue i hi) _
  refine ⟨coherent_refuse h hi hp, .inr ⟨.refuse i, ?_⟩, ?_, fun j hj => set_of_ne _ _ hj, ?_,
    List.Subset.refl _⟩
  · have hf : (sh.ledger P n).Fresh i := h.fresh i hi
    simp only [PermitQueue.step, hf, if_true, Option.some.injEq]
    simp only [Shared.ledger, Shared.refuse, hact, History.refuse]
  · exact (set_self ..).trans (congrArg Waiter.refuse (h.record i hi))
  · rw [List.append_nil]
    exact hact

end

/-- `cancel_waiter` takes a waiter out of the queue. -/
theorem cancel_keeps (h : Coherent pre sh) (hc : sh.cancel i = some sh') (hi : ¬ pre i)
    (he : i ∈ sh.history.enqueued) : Coherent pre sh' ∧ Moved P n sh sh' ∧
      i ∈ sh.toWaiters.active ∧ sh'.waiter i = (sh.waiter i).cancel ∧
      (∀ j, j ≠ i → sh'.waiter j = sh.waiter j) ∧
      sh'.toWaiters.active = sh.toWaiters.active.filter (· ≠ i) ∧
      sh'.history.enqueued = sh.history.enqueued := by
  have hcoh := coherent_cancel h hc hi
  obtain ⟨q, hq, rfl⟩ := Option.map_eq_some_iff.mp hc
  obtain ⟨ha, _, rfl⟩ := cancelWaiter_spec hq
  have hm : i ∈ sh.toWaiters.active := mem_active.mpr ⟨h.live i he ha, ha⟩
  refine ⟨hcoh, .inr ⟨.withdraw i, ?_⟩, hm, set_self .., fun j hj => set_of_ne _ _ hj,
    active_cancel _ i, rfl⟩
  have hm' : i ∈ (sh.ledger P n).queue := hm
  simp only [PermitQueue.step, hm', if_true, Option.some.injEq]
  simp only [Shared.ledger, active_cancel, History.cancel]

/-- Only `unlock` and `release` release. -/
@[simp] theorem tryTake_released (P : Primitive ρ κ) (sh : Shared ρ) (i : OpId) :
    (sh.tryTake P i).2.history.released = sh.history.released := by
  unfold Shared.tryTake
  dsimp only
  split <;> rfl

@[simp] theorem takeReady_released (P : Primitive ρ κ) (sh : Shared ρ) (i : OpId) :
    (sh.takeReady P i).2.history.released = sh.history.released := by
  unfold Shared.takeReady
  dsimp only
  split
  · exact tryTake_released P sh i
  · exact tryTake_released P sh i

@[simp] theorem takeOrEnqueue_released (P : Primitive ρ κ) (sh : Shared ρ) (i : OpId) :
    (sh.takeOrEnqueue P i).2.history.released = sh.history.released := by
  unfold Shared.takeOrEnqueue
  dsimp only
  split
  · exact tryTake_released P (sh.set i Waiter.suspend) i
  · exact tryTake_released P (sh.set i Waiter.suspend) i

theorem cancel_released (hc : sh.cancel i = some sh') :
    sh'.history.released = sh.history.released := by
  obtain ⟨q, _, rfl⟩ := Option.map_eq_some_iff.mp hc
  rfl

theorem cancel_later (hc : sh.cancel i = some sh') : Later sh sh' := by
  obtain ⟨q, hq, rfl⟩ := Option.map_eq_some_iff.mp hc
  obtain ⟨_, _, rfl⟩ := cancelWaiter_spec hq
  refine ⟨fun j hj => ?_, fun j hj => ?_, List.Subset.refl _, List.Subset.refl _⟩
  · by_cases he : j = i
    · subst he
      exact congrArg Waiter.completed (set_self ..)
    · exact (congrArg Waiter.completed (set_of_ne _ _ he)).trans hj
  · by_cases he : j = i
    · subst he
      exact congrArg Waiter.cancelled (set_self ..)
    · exact (congrArg Waiter.cancelled (set_of_ne _ _ he)).trans hj

/-- `unlock` and `release` serve the front of the queue. -/
theorem release_keeps {k : κ} {is : List OpId} (h : Coherent pre sh)
    (hr : sh.release P k = .ok (is, sh')) : Coherent pre sh' ∧ Moved P n sh sh' ∧
      is = sh.toWaiters.active.take (P.units k sh.toWaiters) ∧ Pops sh.toWaiters is sh'.toWaiters ∧
      sh'.history.enqueued = sh.history.enqueued := by
  unfold Shared.release at hr
  split at hr
  · cases hr
  · rename_i js r q hrel
    cases hr
    obtain ⟨htake, hpops, hperm⟩ := P.release_pops hrel h.wellFormed
    have hdrop : q.active = sh.toWaiters.active.drop (P.units k sh.toWaiters) := by
      have happ := hpops.active
      rw [htake] at happ
      exact (List.append_cancel_left ((List.take_append_drop _ _).trans happ)).symm
    refine ⟨coherent_handOff h hpops _, .inr ⟨.release (P.units k sh.toWaiters), ?_⟩, htake, hpops, rfl⟩
    refine congrArg some ?_
    simp only [Shared.ledger, PermitQueue.Ledger.release, History.handOff, hperm, hdrop, ← htake]

theorem release_later {k : κ} {is : List OpId} (h : Coherent pre sh)
    (hr : sh.release P k = .ok (is, sh')) : Later sh sh' := by
  obtain ⟨_, hm, _, hpops, henq⟩ := release_keeps (n := 0) h hr
  refine ⟨fun j hj => ?_, fun j hj => ?_, hm.grants, henq ▸ List.Subset.refl _⟩
  · by_cases hi : j ∈ is
    · exact congrArg Waiter.completed (hpops.completed j hi)
    · exact (congrArg Waiter.completed (hpops.others j hi)).trans hj
  · by_cases hi : j ∈ is
    · exact (congrArg Waiter.cancelled (hpops.completed j hi)).trans hj
    · exact (congrArg Waiter.cancelled (hpops.others j hi)).trans hj

end

end LuvCoro.Sync
