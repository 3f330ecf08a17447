import LuvCoro.Sync.Primitive
import LuvCoro.Sync.Resume

/-! # `async_mutex::lock` and `async_semaphore::acquire`

The awaiters of both take the same steps, with a section under `mutex_` at three
of them. An operation is one call. -/
namespace LuvCoro.Sync

open Transition PermitQueue

/-- How a call ends; `unavailable` is the `false` of `try_lock`. -/
inductive Result where
  | acquired
  | cancelled
  | unavailable
  deriving DecidableEq

/-- Where a call is: at `await_ready`, at the parts of `await_suspend` (the stop
check, the section, the stop callback, the last look at `completed`), suspended,
or at `await_resume`. -/
inductive Pc where
  | idle
  | ready
  | suspend
  | enqueue
  | register
  | recheck
  | suspended
  | resumed
  | done (r : Result)
  deriving DecidableEq

/-- A call, with its stop token and callback. -/
structure Op where
  pc : Pc := .idle
  onLoop : Bool := false
  stopPossible : Bool := false
  stopRequested : Bool := false
  registered : Bool := false

structure Sys (ρ : Type) extends Resumptions where
  shared : Shared ρ
  op : OpId → Op := fun _ => {}
  /-- How often the coroutine went on without being resumed, and how often it was
  resumed. -/
  continuedInline : OpId → Nat := fun _ => 0
  resumed : OpId → Nat := fun _ => 0

inductive Label (κ : Type) where
  | call (i : OpId) (onLoop stopPossible : Bool)
  | run (i : OpId)
  | tryTake (i : OpId)
  | release (k : κ) (onLoop : Bool)
  | requestStop (i : OpId)
  | stopCallback (i : OpId) (onLoop : Bool)
  | resume (c : Nat)
  | runPosted
  | shutdown

variable {ρ κ : Type}

namespace Sys

def setOp (s : Sys ρ) (i : OpId) (o : Op) : Sys ρ := { s with op := Function.update s.op i o }

def goto (s : Sys ρ) (i : OpId) (p : Pc) : Sys ρ := s.setOp i { s.op i with pc := p }

/-- `await_ready` answers `true` or `await_suspend` answers `false`. -/
def continueInline (s : Sys ρ) (i : OpId) : Sys ρ :=
  { s with
    continuedInline := Function.update s.continuedInline i (s.continuedInline i + 1) }.goto i
      .resumed

/-- `cancel_waiter`, with the resumption it leaves to be made. -/
def cancelWaiter (s : Sys ρ) (i : OpId) (onLoop : Bool) : Sys ρ :=
  match s.shared.cancel i with
  | none => s
  | some sh =>
    let is := if (sh.waiter i).continuation then [i] else []
    { s with shared := sh, toResumptions := s.toResumptions.start onLoop is }

/-- `continuation.resume()`; a coroutine that is not suspended there is not
continued by it. -/
def resumeCoroutine (s : Sys ρ) (i : OpId) : Sys ρ :=
  let s := { s with resumed := Function.update s.resumed i (s.resumed i + 1) }
  match (s.op i).pc with
  | .suspended => s.goto i .resumed
  | _ => s

/-- The resumptions have made a step, which resumes at most one coroutine. -/
def continueWith (s : Sys ρ) (r : Resumptions × Option OpId) : Sys ρ :=
  let s := { s with toResumptions := r.1 }
  match r.2 with
  | none => s
  | some i => s.resumeCoroutine i

def continuation (s : Sys ρ) (i : OpId) : Bool := (s.shared.waiter i).continuation

end Sys

/-- The next step of a call. -/
def runOp (P : Primitive ρ κ) (s : Sys ρ) (i : OpId) : Option (Sys ρ) :=
  let o := s.op i
  match o.pc with
  | .ready =>
    let r := s.shared.takeReady P i
    let s := { s with shared := r.2 }
    some (if r.1 then s.continueInline i else s.goto i .suspend)
  | .suspend =>
    some (if o.stopRequested then { s with shared := s.shared.refuse i }.continueInline i
      else s.goto i .enqueue)
  | .enqueue =>
    let r := s.shared.takeOrEnqueue P i
    let s := { s with shared := r.2 }
    some (if r.1 then s.continueInline i else s.goto i .register)
  | .register =>
    some (if !o.stopPossible then s.goto i .recheck
      else if o.stopRequested then (s.cancelWaiter i o.onLoop).goto i .recheck
      else s.setOp i { o with registered := true, pc := .recheck })
  | .recheck =>
    some (if (s.shared.waiter i).completed then s.continueInline i else s.goto i .suspended)
  | .resumed =>
    let r := if (s.shared.waiter i).cancelled then .cancelled else .acquired
    some (s.setOp i { o with registered := false, pc := .done r })
  | .idle | .suspended | .done _ => none

def step (P : Primitive ρ κ) (s : Sys ρ) : Label κ → Option (Sys ρ)
  | .call i onLoop stopPossible =>
    match (s.op i).pc with
    | .idle =>
      some (s.setOp i { s.op i with pc := .ready, onLoop := onLoop, stopPossible := stopPossible })
    | _ => none
  | .run i => runOp P s i
  | .tryTake i =>
    match (s.op i).pc with
    | .idle =>
      let r := s.shared.tryTake P i
      some ({ s with shared := r.2 }.goto i (.done (if r.1 then .acquired else .unavailable)))
    | _ => none
  | .release k onLoop =>
    match s.shared.release P k with
    | .ok (is, sh) =>
      some { s with shared := sh, toResumptions := s.toResumptions.start onLoop is }
    -- it throws
    | .error _ => some s
  | .requestStop i =>
    if (s.op i).stopRequested then none
    else some (s.setOp i { s.op i with stopRequested := true })
  | .stopCallback i onLoop =>
    if (s.op i).stopRequested && (s.op i).registered then
      some ((s.cancelWaiter i onLoop).setOp i { s.op i with registered := false })
    else none
  | .resume c => (s.toResumptions.next s.continuation c).map s.continueWith
  | .runPosted => (s.toResumptions.runPosted s.continuation).map s.continueWith
  | .shutdown => some { s with shuttingDown := true }

/-- A new primitive. -/
def Sys.new (r : ρ) : Sys ρ := { shared := { resource := r } }

def system (P : Primitive ρ κ) (r : ρ) : System (Sys ρ) (Label κ) where
  init s := s = Sys.new r
  step := step P

/-! ## Every step is a move of the ledger -/

/-- The call has not come to its acquisition. -/
def Pc.pre : Pc → Bool
  | .idle | .ready | .suspend | .enqueue => true
  | _ => false

/-- What holds in every reachable state. -/
structure Base (P : Primitive ρ κ) (n : Int) (s : Sys ρ) : Prop where
  coherent : Coherent (fun i => (s.op i).pc.pre = true) s.shared
  sound : Sound (s.shared.ledger P n)
  enqueued : ∀ i, (s.op i).registered = true ∨ (s.op i).pc = .register →
    i ∈ s.shared.history.enqueued

section
variable {P : Primitive ρ κ} {n : Int} {s t : Sys ρ} {i j : OpId}

@[simp] theorem setOp_shared (s : Sys ρ) (i : OpId) (o : Op) :
    (s.setOp i o).shared = s.shared := rfl

@[simp] theorem setOp_self (s : Sys ρ) (i : OpId) (o : Op) : (s.setOp i o).op i = o :=
  Function.update_self ..

theorem setOp_of_ne (s : Sys ρ) (o : Op) (h : j ≠ i) : (s.setOp i o).op j = s.op j :=
  Function.update_of_ne h ..

theorem cancelWaiter_op (s : Sys ρ) (i : OpId) (onLoop : Bool) :
    (s.cancelWaiter i onLoop).op = s.op := by
  unfold Sys.cancelWaiter
  split <;> rfl

theorem resumeCoroutine_shared (s : Sys ρ) (i : OpId) :
    (s.resumeCoroutine i).shared = s.shared := by
  unfold Sys.resumeCoroutine
  dsimp only
  split <;> rfl

/-- A resumption moves only the coroutine that waits for it. -/
theorem resumeCoroutine_op (s : Sys ρ) (i j : OpId) : (s.resumeCoroutine i).op j = s.op j ∨
    j = i ∧ (s.op i).pc = .suspended ∧
      (s.resumeCoroutine i).op i = { s.op i with pc := .resumed } := by
  unfold Sys.resumeCoroutine
  dsimp only
  split
  · rename_i hpc
    by_cases hj : j = i
    · subst hj
      exact .inr ⟨rfl, hpc, setOp_self _ _ _⟩
    · exact .inl (setOp_of_ne _ _ hj)
  · exact .inl rfl

/-- What a step does: it leaves the sections alone, or it is one section. -/
structure Stepped (P : Primitive ρ κ) (n : Int) (s t : Sys ρ) : Prop where
  moved : Moved P n s.shared t.shared
  later : Later s.shared t.shared
  base : Base P n t

theorem sound_moved {sh sh' : Shared ρ} (h : Sound (sh.ledger P n)) (hm : Moved P n sh sh') :
    Sound (sh'.ledger P n) := by
  rcases hm with he | ⟨m, hm⟩
  · rw [he]
    exact h
  · exact step_sound h hm

/-- A step outside the sections. -/
theorem stepped_keep (h : Base P n s) (hsh : t.shared = s.shared)
    (hpre : ∀ j, (t.op j).pc.pre = true → (s.op j).pc.pre = true)
    (henq : ∀ j, (t.op j).registered = true ∨ (t.op j).pc = .register →
      (s.op j).registered = true ∨ (s.op j).pc = .register) : Stepped P n s t := by
  refine ⟨.inl (by rw [hsh]), hsh ▸ later_refl _, ?_, by rw [hsh]; exact h.sound,
    fun j hj => ?_⟩
  · rw [hsh]
    exact h.coherent.mono hpre
  · rw [hsh]
    exact h.enqueued j (henq j hj)

/-- The same, when only the call `i` goes on. -/
theorem stepped_op {o : Op} (h : Base P n s) (hpre : o.pc.pre = true → (s.op i).pc.pre = true)
    (henq : o.registered = true ∨ o.pc = .register →
      (s.op i).registered = true ∨ (s.op i).pc = .register) : Stepped P n s (s.setOp i o) := by
  refine stepped_keep h rfl (fun j hj => ?_) fun j hj => ?_
  · by_cases he : j = i
    · subst he
      rw [setOp_self] at hj
      exact hpre hj
    · rwa [setOp_of_ne s o he] at hj
  · by_cases he : j = i
    · subst he
      rw [setOp_self] at hj
      exact henq hj
    · rwa [setOp_of_ne s o he] at hj

/-- A section of the call `i`, which comes to its acquisition. -/
theorem stepped_section {sh : Shared ρ} {o : Op} {w : Waiter} {tail : List OpId} (h : Base P n s)
    (hp : (s.op i).pc.pre = true) (ht : t.shared = sh) (hop : t.op = Function.update s.op i o)
    (hc : Coherent (fun j => (t.op j).pc.pre = true) sh) (hm : Moved P n s.shared sh)
    (htouch : Touches s.shared sh i w tail)
    (henq : o.registered = true ∨ o.pc = .register → i ∈ sh.history.enqueued) :
    Stepped P n s t := by
  subst ht
  refine ⟨hm, htouch.later hm (h.coherent.record i hp), hc, sound_moved h.sound hm, fun j hj => ?_⟩
  rw [hop] at hj
  by_cases he : j = i
  · subst he
    rw [Function.update_self] at hj
    exact henq hj
  · rw [Function.update_of_ne he] at hj
    exact htouch.enqueued (h.enqueued j hj)

/-- The calls before their acquisition, when `i` is past its own. -/
theorem pre_update {o : Op} (ho : o.pc.pre = false) (j : OpId)
    (hj : (Function.update s.op i o j).pc.pre = true) : (s.op j).pc.pre = true ∧ j ≠ i := by
  by_cases he : j = i
  · subst he
    rw [Function.update_self, ho] at hj
    cases hj
  · rw [Function.update_of_ne he] at hj
    exact ⟨hj, he⟩

theorem registered_pre (h : Base P n s) (hi : (s.op i).pc.pre = true) :
    (s.op i).registered = false := by
  by_contra hr
  exact (h.coherent.fresh i hi).2.1 (h.enqueued i (.inl (by simpa using hr)))

/-- `cancel_waiter` for a call that has queued. -/
theorem stepped_cancelWaiter (h : Base P n s) (he : i ∈ s.shared.history.enqueued)
    (onLoop : Bool) : Stepped P n s (s.cancelWaiter i onLoop) := by
  cases hc : s.shared.cancel i with
  | none =>
    have heq : s.cancelWaiter i onLoop = s := by simp only [Sys.cancelWaiter, hc]
    rw [heq]
    exact ⟨.inl rfl, later_refl _, h⟩
  | some sh =>
    have hpre : ¬ (s.op i).pc.pre = true := fun hp => (h.coherent.fresh i hp).2.1 he
    obtain ⟨hcoh, hm, _, _, _, _, henq⟩ := cancel_keeps (n := n) h.coherent hc hpre he
    have hsh : (s.cancelWaiter i onLoop).shared = sh := by simp only [Sys.cancelWaiter, hc]
    have hop := cancelWaiter_op s i onLoop
    refine ⟨hsh ▸ hm, hsh ▸ cancel_later hc, ?_, ?_, fun j hj => ?_⟩
    · rw [hsh, hop]
      exact hcoh
    · rw [hsh]
      exact sound_moved h.sound hm
    · rw [hop] at hj
      rw [hsh, henq]
      exact h.enqueued j hj

theorem Stepped.trans_op {u : Sys ρ} {o : Op} (h : Stepped P n s u)
    (hpre : o.pc.pre = true → (u.op i).pc.pre = true)
    (henq : o.registered = true ∨ o.pc = .register →
      (u.op i).registered = true ∨ (u.op i).pc = .register) : Stepped P n s (u.setOp i o) :=
  ⟨h.moved, h.later, (stepped_op h.base hpre henq).base⟩

theorem stepped_resume (h : Base P n s) (hsh : t.shared = s.shared)
    (hop : ∀ j, t.op j = s.op j ∨ (s.op j).pc = .suspended ∧
      t.op j = { s.op j with pc := .resumed }) : Stepped P n s t := by
  refine stepped_keep h hsh (fun j hj => ?_) fun j hj => ?_
  · rcases hop j with he | ⟨_, he⟩
    · rwa [he] at hj
    · rw [he] at hj
      cases hj
  · rcases hop j with he | ⟨_, he⟩
    · rwa [he] at hj
    · rw [he] at hj
      exact .inl (hj.resolve_right nofun)

theorem continueWith_op (s : Sys ρ) (r : Resumptions × Option OpId) :
    (s.continueWith r).shared = s.shared ∧
      ∀ j, (s.continueWith r).op j = s.op j ∨ (s.op j).pc = .suspended ∧
        (s.continueWith r).op j = { s.op j with pc := .resumed } := by
  obtain ⟨r, o⟩ := r
  cases o with
  | none => exact ⟨rfl, fun _ => .inl rfl⟩
  | some i =>
    refine ⟨resumeCoroutine_shared _ i, fun j => ?_⟩
    rcases resumeCoroutine_op { s with toResumptions := r } i j with he | ⟨rfl, hpc, he⟩
    · exact .inl he
    · exact .inr ⟨hpc, he⟩

/-- The steps of a call. -/
theorem runOp_stepped (h : Base P n s) (hs : runOp P s i = some t) : Stepped P n s t := by
  unfold runOp at hs
  cases hpc : (s.op i).pc with
  | ready =>
    have hpre : (s.op i).pc.pre = true := by rw [hpc]; rfl
    have hreg := registered_pre h hpre
    simp only [hpc, Option.some.injEq] at hs
    have hk := takeReady_keeps h.coherent h.sound hpre
      (pre_update (s := s) (i := i) (o := { s.op i with pc := .resumed }) rfl)
    cases hr : (s.shared.takeReady P i).1 with
    | true =>
      rw [hr, if_pos rfl] at hs hk
      subst hs
      obtain ⟨hm, hc, ht⟩ := hk
      exact stepped_section h hpre rfl rfl hc hm ht fun hx => by simp [hreg] at hx
    | false =>
      rw [hr, if_neg Bool.false_ne_true] at hs hk
      subst hs
      obtain ⟨hm, hc, ht⟩ := hk
      refine stepped_section h hpre rfl rfl ?_ hm ht fun hx => by simp [hreg] at hx
      refine hc.mono fun j hj => ?_
      by_cases he : j = i
      · rw [he]
        exact hpre
      · exact setOp_of_ne s { s.op i with pc := .suspend } he ▸ hj
  | suspend =>
    have hpre : (s.op i).pc.pre = true := by rw [hpc]; rfl
    have hreg := registered_pre h hpre
    simp only [hpc, Option.some.injEq] at hs
    by_cases hr : (s.op i).stopRequested = true
    · rw [if_pos hr] at hs
      subst hs
      obtain ⟨hc, hm, ht⟩ := refuse_keeps (P := P) (n := n) h.coherent hpre
        (pre_update (s := s) (i := i) (o := { s.op i with pc := .resumed }) rfl)
      exact stepped_section h hpre rfl rfl hc hm ht fun hx => by simp [hreg] at hx
    · rw [if_neg hr] at hs
      subst hs
      exact stepped_op h (fun _ => hpre) fun hx => by simp [hreg] at hx
  | enqueue =>
    have hpre : (s.op i).pc.pre = true := by rw [hpc]; rfl
    have hreg := registered_pre h hpre
    simp only [hpc, Option.some.injEq] at hs
    cases hr : (s.shared.takeOrEnqueue P i).1 with
    | true =>
      have hk := takeOrEnqueue_keeps h.coherent h.sound hpre
        (pre_update (s := s) (i := i) (o := { s.op i with pc := .resumed }) rfl)
      rw [hr, if_pos rfl] at hs hk
      subst hs
      obtain ⟨hc, hm, ht⟩ := hk
      exact stepped_section h hpre rfl rfl hc hm ht fun hx => by simp [hreg] at hx
    | false =>
      have hk := takeOrEnqueue_keeps h.coherent h.sound hpre
        (pre_update (s := s) (i := i) (o := { s.op i with pc := .register }) rfl)
      rw [hr, if_neg Bool.false_ne_true] at hs hk
      subst hs
      obtain ⟨hc, hm, ht, henq⟩ := hk
      exact stepped_section h hpre rfl rfl hc hm ht fun _ => henq
  | register =>
    have henq := h.enqueued i (.inr hpc)
    simp only [hpc, Option.some.injEq] at hs
    split at hs
    · subst hs
      exact stepped_op h nofun fun _ => .inr hpc
    · split at hs
      · subst hs
        have hst := stepped_cancelWaiter h henq (s.op i).onLoop
        have hop := cancelWaiter_op s i (s.op i).onLoop
        exact hst.trans_op nofun fun _ => .inr (by rw [hop, hpc])
      · subst hs
        exact stepped_op h nofun fun _ => .inr hpc
  | recheck =>
    simp only [hpc, Option.some.injEq] at hs
    split at hs
    · subst hs
      have hst : Stepped P n s { s with
          continuedInline :=
            Function.update s.continuedInline i (s.continuedInline i + 1) } :=
        ⟨.inl rfl, later_refl _, h.coherent, h.sound, h.enqueued⟩
      exact hst.trans_op nofun fun hx => .inl (hx.resolve_right nofun)
    · subst hs
      exact stepped_op h nofun fun hx => .inl (hx.resolve_right nofun)
  | resumed =>
    simp only [hpc, Option.some.injEq] at hs
    subst hs
    exact stepped_op h nofun nofun
  | idle | suspended | done _ => simp [hpc] at hs

/-- A call of `unlock` or `release`. -/
theorem release_stepped {k : κ} {onLoop : Bool} (h : Base P n s)
    (hs : step P s (.release k onLoop) = some t) : Stepped P n s t := by
  simp only [step] at hs
  split at hs
  · rename_i is sh hrel
    cases hs
    obtain ⟨hc, hm, _, _, henq⟩ := release_keeps (n := n) h.coherent hrel
    exact ⟨hm, release_later h.coherent hrel, hc, sound_moved h.sound hm,
      fun j hj => henq ▸ h.enqueued j hj⟩
  · cases hs
    exact ⟨.inl rfl, later_refl _, h⟩

/-- The step lemma: every step leaves the ledger, or is one move of it. -/
theorem step_stepped {l : Label κ} (h : Base P n s) (hs : step P s l = some t) :
    Stepped P n s t := by
  cases l with
  | call i onLoop stopPossible =>
    simp only [step] at hs
    split at hs
    · rename_i hpc
      cases hs
      have hpre : (s.op i).pc.pre = true := by rw [hpc]; rfl
      have hreg := registered_pre h hpre
      exact stepped_op h (fun _ => hpre) fun hx => by simp [hreg] at hx
    · cases hs
  | run i => exact runOp_stepped h hs
  | tryTake i =>
    simp only [step] at hs
    split at hs
    · rename_i hpc
      cases hs
      have hpre : (s.op i).pc.pre = true := by rw [hpc]; rfl
      have hreg := registered_pre h hpre
      obtain ⟨hc, hm, ht⟩ := tryTake_keeps h.coherent h.sound hpre
        (pre_update (s := s) (i := i) (o := { s.op i with
          pc := .done (if (s.shared.tryTake P i).1 then .acquired else .unavailable) }) rfl)
      exact stepped_section h hpre rfl rfl hc hm ht fun hx => by simp [hreg] at hx
    · cases hs
  | release k onLoop => exact release_stepped h hs
  | requestStop i =>
    simp only [step] at hs
    split at hs
    · cases hs
    · cases hs
      exact stepped_op h id id
  | stopCallback i onLoop =>
    simp only [step, Bool.and_eq_true] at hs
    split at hs
    · rename_i hc
      cases hs
      have hst := stepped_cancelWaiter h (h.enqueued i (.inl hc.2)) onLoop
      have hop := cancelWaiter_op s i onLoop
      exact hst.trans_op (by rw [hop]; exact id) fun hx => .inr (by
        rw [hop]
        exact hx.resolve_left nofun)
    · cases hs
  | resume c =>
    obtain ⟨r, _, rfl⟩ := Option.map_eq_some_iff.mp hs
    obtain ⟨hsh, hop⟩ := continueWith_op s r
    exact stepped_resume h hsh hop
  | runPosted =>
    obtain ⟨r, _, rfl⟩ := Option.map_eq_some_iff.mp hs
    obtain ⟨hsh, hop⟩ := continueWith_op s r
    exact stepped_resume h hsh hop
  | shutdown =>
    cases hs
    exact ⟨.inl rfl, later_refl _, h.coherent, h.sound, h.enqueued⟩

theorem coherent_new (pre : OpId → Prop) (r : ρ) :
    Coherent pre (({ resource := r } : Shared ρ)) := by
  refine ⟨⟨List.nodup_nil, nofun⟩, fun _ _ => rfl, fun _ _ => nofun,
    fun _ _ => ⟨nofun, nofun, nofun⟩, nofun, fun i => ⟨nofun, ?_⟩, nofun⟩
  intro hi
  rcases hi with hi | hi <;> cases hi

theorem base_new {r : ρ} (hr : 0 ≤ P.permits r) : Base P (P.permits r) (Sys.new r) := by
  refine ⟨coherent_new _ r, sound_new hr, fun i hi => ?_⟩
  rcases hi with hi | hi <;> cases hi

theorem reachable_base {r : ρ} (hr : 0 ≤ P.permits r) (h : Reachable (system P r) s) :
    Base P (P.permits r) s := by
  refine h.invariant ?_ ?_
  · intro s h0
    cases h0
    exact base_new hr
  · intro s l t _ hI hs
    exact (step_stepped hI hs).base

/-- The permits are kept as the abstract ledger keeps them. -/
theorem refines {r : ρ} (hr : 0 ≤ P.permits r) :
    Refines (system P r) (PermitQueue.system (P.permits r))
      (fun s => s.shared.ledger P (P.permits r)) := by
  refine ⟨fun s h0 => ?_, fun s l t h hs => ?_⟩
  · cases h0
    rfl
  · exact (step_stepped (reachable_base hr h) hs).moved

theorem cancelWaiter_released (s : Sys ρ) (i : OpId) (onLoop : Bool) :
    (s.cancelWaiter i onLoop).shared.history.released = s.shared.history.released := by
  unfold Sys.cancelWaiter
  split
  · rfl
  · rename_i sh hc
    exact cancel_released hc

theorem runOp_released (hs : runOp P s i = some t) :
    t.shared.history.released = s.shared.history.released := by
  unfold runOp at hs
  cases hpc : (s.op i).pc with
  | ready =>
    simp only [hpc, Option.some.injEq] at hs
    split at hs <;> subst hs
    · exact takeReady_released P s.shared i
    · exact takeReady_released P s.shared i
  | enqueue =>
    simp only [hpc, Option.some.injEq] at hs
    split at hs <;> subst hs
    · exact takeOrEnqueue_released P s.shared i
    · exact takeOrEnqueue_released P s.shared i
  | register =>
    simp only [hpc, Option.some.injEq] at hs
    split at hs
    · subst hs
      rfl
    · split at hs <;> subst hs
      · exact cancelWaiter_released s i (s.op i).onLoop
      · rfl
  | suspend | recheck =>
    simp only [hpc, Option.some.injEq] at hs
    split at hs <;> subst hs <;> rfl
  | resumed =>
    simp only [hpc, Option.some.injEq] at hs
    subst hs
    rfl
  | idle | suspended | done _ => simp [hpc] at hs

/-- Only `unlock` and `release` release. -/
theorem step_released {l : Label κ} (hl : ∀ k onLoop, l ≠ .release k onLoop)
    (hs : step P s l = some t) : t.shared.history.released = s.shared.history.released := by
  cases l with
  | run i => exact runOp_released hs
  | tryTake i =>
    simp only [step] at hs
    split at hs
    · cases hs
      exact tryTake_released P s.shared i
    · cases hs
  | release k onLoop => exact absurd rfl (hl k onLoop)
  | call i onLoop stopPossible =>
    simp only [step] at hs
    split at hs <;> cases hs
    rfl
  | requestStop i =>
    simp only [step] at hs
    split at hs <;> cases hs
    rfl
  | stopCallback i onLoop =>
    simp only [step] at hs
    split at hs <;> cases hs
    exact cancelWaiter_released s i onLoop
  | resume c | runPosted =>
    obtain ⟨r, _, rfl⟩ := Option.map_eq_some_iff.mp hs
    rw [(continueWith_op s r).1]
  | shutdown =>
    cases hs
    rfl

/-! ## What the end of a call means -/

/-- A coroutine goes on when its waiter is completed, and its call ends with a
permit or with the waiter's cancellation. -/
def Ending (sh : Shared ρ) (i : OpId) : Pc → Prop
  | .resumed => (sh.waiter i).completed = true
  | .done .acquired => i ∈ sh.grants
  | .done .cancelled => (sh.waiter i).cancelled = true
  | _ => True

def Arrived (s : Sys ρ) (i : OpId) : Prop := Ending s.shared i (s.op i).pc

theorem arrived_later (h : Arrived s i) (hl : Later s.shared t.shared)
    (hpc : (t.op i).pc = (s.op i).pc) : Arrived t i := by
  unfold Arrived Ending at *
  rw [hpc]
  split at h
  · exact hl.completed i h
  · exact hl.grants h
  · exact hl.cancelled i h
  · trivial

theorem arrived_setOp {o : Op} (h : ∀ j, Arrived s j) (hi : Ending s.shared i o.pc) (j : OpId) :
    Arrived (s.setOp i o) j := by
  by_cases hj : j = i
  · subst hj
    unfold Arrived
    rw [setOp_self]
    exact hi
  · exact arrived_later (h j) (later_refl _) (congrArg Op.pc (setOp_of_ne s o hj))

/-- A section of the call `i` and where it leaves the call. -/
theorem arrived_section {sh : Shared ρ} {o : Op} (h : ∀ j, Arrived s j) (hst : Stepped P n s t)
    (ht : t.shared = sh) (hop : t.op = Function.update s.op i o)
    (hi : Ending sh i o.pc) (j : OpId) : Arrived t j := by
  by_cases hj : j = i
  · subst hj
    unfold Arrived
    rw [hop, ht, Function.update_self]
    exact hi
  · refine arrived_later (h j) hst.later ?_
    rw [hop, Function.update_of_ne hj]

/-- A completed waiter that is not cancelled has a permit. -/
theorem grants_of_completed (h : Base P n s) (hc : (s.shared.waiter i).completed = true)
    (hn : (s.shared.waiter i).cancelled = false) : i ∈ s.shared.grants := by
  rcases h.coherent.settled i hc with hg | hh | hx | hx
  · exact List.mem_append_left _ hg
  · exact List.mem_append_right _ hh
  · cases hn.symm.trans ((h.coherent.flag i).mpr (.inl hx))
  · cases hn.symm.trans ((h.coherent.flag i).mpr (.inr hx))

theorem arrived_runOp (h : Base P n s) (ha : ∀ j, Arrived s j) (hs : runOp P s i = some t)
    (j : OpId) : Arrived t j := by
  have hst := runOp_stepped h hs
  unfold runOp at hs
  cases hpc : (s.op i).pc with
  | ready =>
    have hpre : (s.op i).pc.pre = true := by rw [hpc]; rfl
    simp only [hpc, Option.some.injEq] at hs
    have hk := takeReady_keeps h.coherent h.sound hpre
      (pre_update (s := s) (i := i) (o := { s.op i with pc := .resumed }) rfl)
    split at hs
    · rename_i hr
      rw [if_pos hr] at hk
      subst hs
      exact arrived_section ha hst rfl rfl (congrArg Waiter.completed hk.2.2.record) j
    · subst hs
      exact arrived_section ha hst rfl rfl trivial j
  | suspend =>
    have hpre : (s.op i).pc.pre = true := by rw [hpc]; rfl
    simp only [hpc, Option.some.injEq] at hs
    split at hs
    · subst hs
      have hk := refuse_keeps (P := P) (n := n) h.coherent hpre
        (pre_update (s := s) (i := i) (o := { s.op i with pc := .resumed }) rfl)
      exact arrived_section ha hst rfl rfl (congrArg Waiter.completed hk.2.2.record) j
    · subst hs
      exact arrived_section ha hst rfl rfl trivial j
  | enqueue =>
    have hpre : (s.op i).pc.pre = true := by rw [hpc]; rfl
    simp only [hpc, Option.some.injEq] at hs
    have hk := (takeOrEnqueue_keeps h.coherent h.sound hpre
      (pre_update (s := s) (i := i) (o := { s.op i with pc := .resumed }) rfl)).2.2
    split at hs
    · rename_i hr
      rw [if_pos hr] at hk
      subst hs
      exact arrived_section ha hst rfl rfl (congrArg Waiter.completed hk.record) j
    · subst hs
      exact arrived_section ha hst rfl rfl trivial j
  | register =>
    simp only [hpc, Option.some.injEq] at hs
    split at hs
    · subst hs
      exact arrived_section ha hst rfl rfl trivial j
    · split at hs
      · subst hs
        have hop := cancelWaiter_op s i (s.op i).onLoop
        exact arrived_section ha hst rfl (congrArg (Function.update · i _) hop) trivial j
      · subst hs
        exact arrived_section ha hst rfl rfl trivial j
  | recheck =>
    simp only [hpc, Option.some.injEq] at hs
    split at hs
    · rename_i hc
      subst hs
      exact arrived_section ha hst rfl rfl (hc) j
    · subst hs
      exact arrived_section ha hst rfl rfl trivial j
  | resumed =>
    simp only [hpc, Option.some.injEq] at hs
    have hi := ha i
    unfold Arrived at hi
    rw [hpc] at hi
    subst hs
    refine arrived_section ha hst rfl rfl (?_ : Ending s.shared i _) j
    cases hc : (s.shared.waiter i).cancelled with
    | true => exact hc
    | false => exact grants_of_completed h hi hc
  | idle | suspended | done _ => simp [hpc] at hs

theorem arrived_tryTake (h : Base P n s) (ha : ∀ j, Arrived s j)
    (hs : step P s (.tryTake i) = some t) (j : OpId) : Arrived t j := by
  have hst := step_stepped h hs
  simp only [step] at hs
  split at hs
  · rename_i hpc
    have hpre : (s.op i).pc.pre = true := by rw [hpc]; rfl
    cases hs
    refine arrived_section ha hst rfl rfl ?_ j
    rcases tryTake_spec h.sound (h.coherent.fresh i hpre) with ⟨r, heq, _⟩ | ⟨_, heq⟩
    · rw [heq]
      exact List.mem_append_left _ (mem_snoc_self _ i)
    · rw [heq]
      trivial
  · cases hs

/-- A step that moves no call. -/
theorem arrived_same (ha : ∀ j, Arrived s j) (hst : Stepped P n s t)
    (hop : ∀ j, (t.op j).pc = (s.op j).pc) (j : OpId) : Arrived t j :=
  arrived_later (ha j) hst.later (hop j)

theorem setOp_pc {o : Op} (ho : o.pc = (s.op i).pc) (j : OpId) :
    ((s.setOp i o).op j).pc = (s.op j).pc := by
  by_cases hj : j = i
  · rw [hj, setOp_self, ho]
  · rw [setOp_of_ne _ _ hj]

end

/-- Whoever is to be resumed is completed, and the calls have arrived. -/
structure Honest (s : Sys ρ) : Prop where
  owed : ∀ i ∈ s.owed, (s.shared.waiter i).completed = true
  arrived : ∀ i, Arrived s i

section
variable {P : Primitive ρ κ} {n : Int} {s t : Sys ρ} {i j : OpId}

theorem owed_cancelWaiter (ho : ∀ j ∈ s.owed, (s.shared.waiter j).completed = true)
    (onLoop : Bool) (j : OpId) (hj : j ∈ (s.cancelWaiter i onLoop).owed) :
    ((s.cancelWaiter i onLoop).shared.waiter j).completed = true := by
  unfold Sys.cancelWaiter at *
  cases hc : s.shared.cancel i with
  | none =>
    rw [hc] at hj
    exact ho j hj
  | some sh =>
    rw [hc] at hj
    have hm := (owed_start s.toResumptions onLoop _).subset hj
    rcases List.mem_append.mp hm with hm | hm
    · have he : j = i := by
        split at hm
        · exact List.mem_singleton.mp hm
        · cases hm
      subst he
      obtain ⟨q, hq, rfl⟩ := Option.map_eq_some_iff.mp hc
      obtain ⟨_, _, rfl⟩ := cancelWaiter_spec hq
      exact congrArg Waiter.completed (set_self ..)
    · exact (cancel_later hc).completed j (ho j hm)

theorem owed_runOp (ho : ∀ j ∈ s.owed, (s.shared.waiter j).completed = true)
    (hst : Stepped P n s t) (hs : runOp P s i = some t) (j : OpId) (hj : j ∈ t.owed) :
    (t.shared.waiter j).completed = true := by
  unfold runOp at hs
  cases hpc : (s.op i).pc with
  | register =>
    simp only [hpc, Option.some.injEq] at hs
    split at hs
    · subst hs
      exact ho j hj
    · split at hs
      · subst hs
        exact owed_cancelWaiter ho _ j hj
      · subst hs
        exact ho j hj
  | ready | suspend | enqueue | recheck =>
    simp only [hpc, Option.some.injEq] at hs
    have howed : t.owed = s.owed := by
      split at hs <;> subst hs <;> rfl
    exact hst.later.completed j (ho j (howed ▸ hj))
  | resumed =>
    simp only [hpc, Option.some.injEq] at hs
    subst hs
    exact ho j hj
  | idle | suspended | done _ => simp [hpc] at hs

theorem honest_continueWith {r : Resumptions} {o : Option OpId} {b : Bool} (h : Honest s)
    (ho : Resumptions.Outcome s.toResumptions s.continuation b r o) :
    Honest (s.continueWith (r, o)) := by
  have hsub : r.owed ⊆ s.owed := by
    cases ho with
    | resumed i _ hp | skipped i _ hp => exact fun j hj => hp.symm.subset (List.mem_cons_of_mem _ hj)
    | posted hp => exact hp.symm.subset
    | refused _ hs => exact hs
  obtain ⟨hsh, hop⟩ := continueWith_op s (r, o)
  have howed : (s.continueWith (r, o)).owed = r.owed := by
    cases o with
    | none => rfl
    | some i =>
      simp only [Sys.continueWith, Sys.resumeCoroutine]
      split <;> rfl
  refine ⟨fun j hj => ?_, fun j => ?_⟩
  · rw [hsh]
    exact h.owed j (hsub (howed ▸ hj))
  · rcases hop j with he | ⟨hpc, he⟩
    · exact arrived_later (h.arrived j) (hsh ▸ later_refl _) (congrArg Op.pc he)
    · -- it is resumed, so it was to be resumed
      have hcompl : (s.shared.waiter j).completed = true := by
        cases ho with
        | resumed i hc hp =>
          by_cases hj : j = i
          · subst hj
            exact h.owed j (hp.symm.subset List.mem_cons_self)
          · have hne := (resumeCoroutine_op { s with toResumptions := r } i j).resolve_right
              fun hx => hj hx.1
            have heq : (s.continueWith (r, some i)).op j = s.op j := hne
            rw [heq] at he
            rw [he] at hpc
            cases hpc
        | posted _ | skipped _ _ _ | refused _ _ =>
          have heq : (s.continueWith (r, none)).op j = s.op j := rfl
          rw [heq] at he
          rw [he] at hpc
          cases hpc
      unfold Arrived
      rw [he, hsh]
      exact hcompl

theorem step_honest {l : Label κ} (hb : Base P n s) (h : Honest s) (hs : step P s l = some t) :
    Honest t := by
  have hst := step_stepped hb hs
  cases l with
  | call i onLoop stopPossible =>
    simp only [step] at hs
    split at hs
    · cases hs
      exact ⟨h.owed, arrived_setOp h.arrived trivial⟩
    · cases hs
  | run i => exact ⟨owed_runOp h.owed hst hs, arrived_runOp hb h.arrived hs⟩
  | tryTake i =>
    refine ⟨fun j hj => ?_, arrived_tryTake hb h.arrived hs⟩
    refine hst.later.completed j (h.owed j ?_)
    simp only [step] at hs
    split at hs
    · cases hs
      exact hj
    · cases hs
  | release k onLoop =>
    simp only [step] at hs
    split at hs
    · rename_i is sh hrel
      cases hs
      obtain ⟨_, _, _, hpops, _⟩ := release_keeps (n := n) hb.coherent hrel
      refine ⟨fun j hj => ?_, arrived_same h.arrived hst fun _ => rfl⟩
      rcases List.mem_append.mp ((owed_start s.toResumptions onLoop is).subset hj) with hm | hm
      · exact congrArg Waiter.completed (hpops.completed j hm)
      · exact hst.later.completed j (h.owed j hm)
    · cases hs
      exact h
  | requestStop i =>
    simp only [step] at hs
    split at hs
    · cases hs
    · cases hs
      exact ⟨h.owed, arrived_same h.arrived hst (setOp_pc rfl)⟩
  | stopCallback i onLoop =>
    simp only [step] at hs
    split at hs
    · cases hs
      have hop := cancelWaiter_op s i onLoop
      refine ⟨owed_cancelWaiter h.owed onLoop, arrived_same h.arrived hst fun j => ?_⟩
      rw [setOp_pc (by rw [hop]), hop]
    · cases hs
  | resume c =>
    obtain ⟨⟨r, o⟩, hr, rfl⟩ := Option.map_eq_some_iff.mp hs
    exact honest_continueWith h (next_outcome hr).1
  | runPosted =>
    obtain ⟨⟨r, o⟩, hr, rfl⟩ := Option.map_eq_some_iff.mp hs
    exact honest_continueWith h (runPosted_outcome hr).1
  | shutdown =>
    cases hs
    exact ⟨h.owed, h.arrived⟩

theorem reachable_honest {r : ρ} (hr : 0 ≤ P.permits r) (h : Reachable (system P r) s) :
    Honest s := by
  refine h.invariant ?_ ?_
  · intro s h0
    cases h0
    exact ⟨nofun, fun _ => trivial⟩
  · intro s l t hreach hI hs
    exact step_honest (reachable_base hr hreach) hI hs

end

end LuvCoro.Sync
