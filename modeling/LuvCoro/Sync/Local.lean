import LuvCoro.Sync.Acquire

/-! # `local_async_mutex` and `local_async_semaphore`

Their calls take the steps of the thread-safe ones, all on the loop thread:
nobody comes between the section of `await_suspend` and its end, a completed
waiter is resumed on the spot, and `cancel_waiter` posts what it does. The steps
here may come in any order, which includes every nesting of resumed coroutines. A
call on another thread throws in `require_runtime_thread` before it does anything;
such calls are left out. -/
namespace LuvCoro.Sync.Local

open Transition PermitQueue

variable {ρ κ : Type}

/-- `cancel_waiter`: a refused post is ignored. -/
def postCancel (s : Sys ρ) (i : OpId) : Sys ρ :=
  if s.shuttingDown then s else { s with posted := s.posted ++ [i] }

/-- A waiter is resumed if it has a continuation. -/
def resumeWaiter (s : Sys ρ) (i : OpId) : Sys ρ :=
  if (s.shared.waiter i).continuation then s.resumeCoroutine i else s

/-- The closure posted by `cancel_waiter`. -/
def runPosted (s : Sys ρ) : Option (Sys ρ) :=
  match s.posted with
  | [] => none
  | i :: is =>
    let s := { s with posted := is }
    match s.shared.cancel i with
    | none => some s
    | some sh => some (resumeWaiter { s with shared := sh } i)

/-- `stop_callback.emplace`. -/
def register (s : Sys ρ) (i : OpId) : Sys ρ :=
  let o := s.op i
  if !o.stopPossible then s
  else if o.stopRequested then postCancel s i
  else s.setOp i { o with registered := true }

/-- The next step of a call. -/
def runOp (P : Primitive ρ κ) (s : Sys ρ) (i : OpId) : Option (Sys ρ) :=
  match (s.op i).pc with
  | .enqueue =>
    let r := s.shared.takeOrEnqueue P i
    let s := { s with shared := r.2 }
    if r.1 then some (s.continueInline i)
    else
      let s := register s i
      some (if (s.shared.waiter i).completed then s.continueInline i else s.goto i .suspended)
  | .register | .recheck => none
  | _ => Sync.runOp P s i

/-- The critical part of `unlock` and `release`, with the waiters it resumes. -/
def serve (P : Primitive ρ κ) (s : Sys ρ) (k : κ) : Except Error (List OpId × Sys ρ) :=
  match s.shared.release P k with
  | .error e => .error e
  | .ok (is, sh) => .ok (is, is.foldl resumeWaiter { s with shared := sh })

def step (P : Primitive ρ κ) (s : Sys ρ) : Label κ → Option (Sys ρ)
  | .run i => runOp P s i
  | .release k _ =>
    match serve P s k with
    | .error _ => some s
    | .ok r => some r.2
  | .stopCallback i _ =>
    if (s.op i).stopRequested && (s.op i).registered then
      some ((postCancel s i).setOp i { s.op i with registered := false })
    else none
  | .resume _ => none
  | .runPosted => runPosted s
  | .call i onLoop stopPossible => Sync.step P s (.call i onLoop stopPossible)
  | .tryTake i => Sync.step P s (.tryTake i)
  | .requestStop i => Sync.step P s (.requestStop i)
  | .shutdown => Sync.step P s .shutdown

def system (P : Primitive ρ κ) (r : ρ) : System (Sys ρ) (Label κ) where
  init s := s = Sys.new r
  step := step P

def localMutex : Primitive Bool Unit := mutex "local_async_mutex is not locked"

/-! ## What the steps keep -/

/-- What holds in every reachable state: whoever is to be cancelled has queued. -/
structure Base (P : Primitive ρ κ) (n : Int) (s : Sys ρ) : Prop extends Sync.Base P n s where
  posted : ∀ i ∈ s.posted, i ∈ s.shared.history.enqueued
  arrived : ∀ i, Arrived s i

/-- A step is a move of the ledger, and nothing is taken back. -/
structure Stepped (P : Primitive ρ κ) (n : Int) (s t : Sys ρ) : Prop extends
    Sync.Stepped P n s t where
  arrived : ∀ i, Arrived t i
  posted : ∀ i ∈ t.posted, i ∈ t.shared.history.enqueued

section
variable {P : Primitive ρ κ} {n : Int} {s t u : Sys ρ} {i j : OpId}

theorem Stepped.keeps (h : Stepped P n s t) : Base P n t := ⟨h.base, h.posted, h.arrived⟩

theorem stepped_refl (h : Base P n s) : Stepped P n s s :=
  ⟨⟨.inl rfl, later_refl _, h.toBase⟩, h.arrived, h.posted⟩

theorem resumeCoroutine_posted (s : Sys ρ) (i : OpId) :
    (s.resumeCoroutine i).posted = s.posted := by
  unfold Sys.resumeCoroutine
  dsimp only
  split <;> rfl

theorem resumeWaiter_shared (s : Sys ρ) (i : OpId) : (resumeWaiter s i).shared = s.shared := by
  unfold resumeWaiter
  split
  · exact resumeCoroutine_shared s i
  · rfl

/-- A completed waiter is resumed. -/
theorem stepped_resumeWaiter (h : Stepped P n s u) (hc : (u.shared.waiter i).completed = true) :
    Stepped P n s (resumeWaiter u i) := by
  have hsh := resumeWaiter_shared u i
  have hpost : (resumeWaiter u i).posted = u.posted := by
    unfold resumeWaiter
    split
    · exact resumeCoroutine_posted u i
    · rfl
  have hop : ∀ j, (resumeWaiter u i).op j = u.op j ∨
      j = i ∧ (u.op i).pc = .suspended ∧ (resumeWaiter u i).op i =
        { u.op i with pc := .resumed } := by
    intro j
    unfold resumeWaiter
    split
    · exact resumeCoroutine_op u i j
    · exact .inl rfl
  have hst : Sync.Stepped P n u (resumeWaiter u i) := by
    refine stepped_resume h.base hsh fun j => ?_
    rcases hop j with he | ⟨rfl, hpc, he⟩
    · exact .inl he
    · exact .inr ⟨hpc, he⟩
  refine ⟨⟨hsh ▸ h.moved, hsh ▸ h.later, hst.base⟩, fun j => ?_, fun j hj => ?_⟩
  · rcases hop j with he | ⟨rfl, _, he⟩
    · exact arrived_later (h.arrived j) hst.later (congrArg Op.pc he)
    · unfold Arrived
      rw [he, hsh]
      exact hc
  · rw [hsh]
    exact h.posted j (hpost ▸ hj)

theorem stepped_resumeAll (is : List OpId) (h : Stepped P n s u)
    (hc : ∀ i ∈ is, (u.shared.waiter i).completed = true) :
    Stepped P n s (is.foldl resumeWaiter u) := by
  induction is generalizing u with
  | nil => exact h
  | cons i is ih =>
    refine ih (stepped_resumeWaiter h (hc i List.mem_cons_self)) fun j hj => ?_
    rw [resumeWaiter_shared]
    exact hc j (List.mem_cons_of_mem _ hj)

/-- `unlock`, and one turn of `release`. -/
theorem serve_stepped {k : κ} {is : List OpId} (h : Base P n s)
    (hs : serve P s k = .ok (is, t)) : Stepped P n s t := by
  unfold serve at hs
  split at hs
  · cases hs
  · rename_i js sh hrel
    cases hs
    obtain ⟨hc, hm, _, hpops, henq⟩ := release_keeps (n := n) h.coherent hrel
    have hl := release_later h.coherent hrel
    have hst : Sync.Stepped P n s { s with shared := sh } :=
      ⟨hm, hl, hc, sound_moved h.sound hm, fun j hj => henq ▸ h.enqueued j hj⟩
    refine stepped_resumeAll is ⟨hst, arrived_same h.arrived hst fun _ => rfl, fun j hj => ?_⟩ ?_
    · exact henq ▸ h.posted j hj
    · intro i hi
      exact congrArg Waiter.completed (hpops.completed i hi)

theorem runPosted_stepped (h : Base P n s) (hs : runPosted s = some t) : Stepped P n s t := by
  unfold runPosted at hs
  split at hs
  · cases hs
  · rename_i i is hp
    have hmem : ∀ j ∈ is, j ∈ s.posted := fun j hj => hp ▸ List.mem_cons_of_mem _ hj
    have he : i ∈ s.shared.history.enqueued := h.posted i (hp ▸ List.mem_cons_self)
    have hpre : ¬ (s.op i).pc.pre = true := fun hx => (h.coherent.fresh i hx).2.1 he
    dsimp only at hs
    split at hs
    · cases hs
      exact ⟨⟨.inl rfl, later_refl _, h.coherent, h.sound, h.enqueued⟩, h.arrived,
        fun j hj => h.posted j (hmem j hj)⟩
    · rename_i sh hc
      cases hs
      obtain ⟨hcoh, hm, _, hrec, _, _, henq⟩ := cancel_keeps (P := P) (n := n) h.coherent hc hpre he
      have hst : Sync.Stepped P n s { s with posted := is, shared := sh } :=
        ⟨hm, cancel_later hc, hcoh, sound_moved h.sound hm, fun j hj => henq ▸ h.enqueued j hj⟩
      refine stepped_resumeWaiter ⟨hst, arrived_same h.arrived hst fun _ => rfl, fun j hj => ?_⟩ ?_
      · exact henq ▸ h.posted j (hmem j hj)
      · exact congrArg Waiter.completed hrec

theorem postCancel_posted (s : Sys ρ) (i : OpId) (hj : j ∈ (postCancel s i).posted) :
    j ∈ s.posted ∨ j = i := by
  unfold postCancel at hj
  split at hj
  · exact .inl hj
  · exact (List.mem_append.mp hj).imp id List.mem_singleton.mp

/-- Posting leaves everything else. -/
theorem postCancel_keeps (s : Sys ρ) (i : OpId) : (postCancel s i).shared = s.shared ∧
    (postCancel s i).op = s.op := by
  unfold postCancel
  split
  · exact ⟨rfl, rfl⟩
  · exact ⟨rfl, rfl⟩

theorem register_keeps (s : Sys ρ) (i : OpId) : (register s i).shared = s.shared ∧
    (∀ j ∈ (register s i).posted, j ∈ s.posted ∨ j = i) ∧
    ∃ o, (register s i).op = Function.update s.op i o ∧ o.pc = (s.op i).pc := by
  unfold register
  dsimp only
  split
  · exact ⟨rfl, fun _ h => .inl h, s.op i, (Function.update_eq_self i s.op).symm, rfl⟩
  · split
    · obtain ⟨hsh, hop⟩ := postCancel_keeps s i
      refine ⟨hsh, fun j hj => postCancel_posted s i hj, s.op i, ?_, rfl⟩
      rw [hop, Function.update_eq_self]
    · exact ⟨rfl, fun _ h => .inl h, _, rfl, rfl⟩

/-- `await_suspend` up to its end. -/
theorem enqueue_stepped (h : Base P n s) (hpc : (s.op i).pc = .enqueue)
    (hs : runOp P s i = some t) : Stepped P n s t := by
  have hpre : (s.op i).pc.pre = true := by rw [hpc]; rfl
  have hreg := registered_pre h.toBase hpre
  simp only [runOp, hpc] at hs
  split at hs
  · rename_i hr
    cases hs
    obtain ⟨hc, hm, ht⟩ := takeOrEnqueue_keeps h.coherent h.sound hpre
      (pre_update (s := s) (i := i) (o := { s.op i with pc := .resumed }) rfl)
    rw [if_pos hr] at ht
    have hst := stepped_section h.toBase hpre (t := Sys.continueInline
      { s with shared := (s.shared.takeOrEnqueue P i).2 } i) rfl rfl hc hm ht
      fun hx => by simp [hreg] at hx
    refine ⟨hst, arrived_section h.arrived hst rfl rfl (congrArg Waiter.completed ht.record),
      fun j hj => ht.enqueued (h.posted j hj)⟩
  · rename_i hr
    obtain ⟨hc, hm, ht⟩ := takeOrEnqueue_keeps h.coherent h.sound hpre
      (pre_update (s := s) (i := i) (o := { s.op i with pc := .suspended }) rfl)
    rw [if_neg hr] at ht
    obtain ⟨ht, henq⟩ := ht
    obtain ⟨hsh, hpost, o, hop, _⟩ :=
      register_keeps { s with shared := (s.shared.takeOrEnqueue P i).2 } i
    -- it has just been queued, so it is not completed
    have hcompl : ((register { s with shared := (s.shared.takeOrEnqueue P i).2 } i).shared.waiter
        i).completed = false := by
      rw [hsh]
      exact congrArg Waiter.completed ht.record
    rw [hcompl, if_neg Bool.false_ne_true] at hs
    cases hs
    have hop' : ((register { s with shared := (s.shared.takeOrEnqueue P i).2 } i).goto i
        .suspended).op = Function.update s.op i { o with pc := .suspended } := by
      simp only [Sys.goto, Sys.setOp, hop, Function.update_self, Function.update_idem]
    have hcoh : Coherent (fun j => (((register { s with
        shared := (s.shared.takeOrEnqueue P i).2 } i).goto i .suspended).op j).pc.pre = true)
        (s.shared.takeOrEnqueue P i).2 := by
      refine hc.mono fun j hj => ?_
      rw [hop'] at hj
      by_cases he : j = i
      · subst he
        rw [Function.update_self] at hj
        cases hj
      · rw [Function.update_of_ne he] at hj ⊢
        exact hj
    have hst := stepped_section h.toBase hpre (t := (register { s with
      shared := (s.shared.takeOrEnqueue P i).2 } i).goto i .suspended) hsh hop' hcoh hm ht
      fun _ => henq
    refine ⟨hst, arrived_section h.arrived hst hsh hop' trivial, fun j hj => ?_⟩
    have hsh' : ((register { s with shared := (s.shared.takeOrEnqueue P i).2 } i).goto i
        .suspended).shared = (s.shared.takeOrEnqueue P i).2 := hsh
    rw [hsh']
    rcases hpost j hj with hj | hj
    · exact ht.enqueued (h.posted j hj)
    · rw [hj]
      exact henq

theorem runOp_stepped (h : Base P n s) (hs : runOp P s i = some t) : Stepped P n s t := by
  cases hpc : (s.op i).pc with
  | enqueue => exact enqueue_stepped h hpc hs
  | register | recheck => simp [runOp, hpc] at hs
  | idle | ready | suspend | suspended | resumed | done _ =>
    have hs' : Sync.runOp P s i = some t := by simpa only [runOp, hpc] using hs
    have hst := Sync.runOp_stepped h.toBase hs'
    refine ⟨hst, arrived_runOp h.toBase h.arrived hs', fun j hj => ?_⟩
    have hpost : t.posted = s.posted := by
      simp only [Sync.runOp, hpc, Option.some.injEq, reduceCtorEq] at hs'
      try split at hs'
      all_goals subst hs'
      all_goals rfl
    exact hst.later.enqueued (h.posted j (hpost ▸ hj))

/-- The step lemma. -/
theorem step_stepped {l : Label κ} (h : Base P n s) (hs : step P s l = some t) :
    Stepped P n s t := by
  cases l with
  | call i onLoop stopPossible =>
    have hs' : Sync.step P s (.call i onLoop stopPossible) = some t := hs
    have hst := Sync.step_stepped h.toBase hs'
    simp only [Sync.step] at hs'
    split at hs'
    · cases hs'
      exact ⟨hst, arrived_setOp h.arrived trivial, h.posted⟩
    · cases hs'
  | run i => exact runOp_stepped h hs
  | tryTake i =>
    have hs' : Sync.step P s (.tryTake i) = some t := hs
    have hst := Sync.step_stepped h.toBase hs'
    refine ⟨hst, arrived_tryTake h.toBase h.arrived hs', fun j hj => ?_⟩
    have hpost : t.posted = s.posted := by
      simp only [Sync.step] at hs'
      split at hs'
      · cases hs'
        rfl
      · cases hs'
    exact hst.later.enqueued (h.posted j (hpost ▸ hj))
  | release k onLoop =>
    simp only [step] at hs
    split at hs
    · cases hs
      exact stepped_refl h
    · rename_i r hr
      cases hs
      exact serve_stepped h hr
  | requestStop i =>
    have hs' : Sync.step P s (.requestStop i) = some t := hs
    have hst := Sync.step_stepped h.toBase hs'
    simp only [Sync.step] at hs'
    split at hs'
    · cases hs'
    · cases hs'
      exact ⟨hst, arrived_same h.arrived hst (setOp_pc rfl), h.posted⟩
  | stopCallback i onLoop =>
    simp only [step, Bool.and_eq_true] at hs
    split at hs
    · rename_i hc
      cases hs
      obtain ⟨hsh, hop⟩ := postCancel_keeps s i
      have hst : Sync.Stepped P n s (postCancel s i) :=
        stepped_keep h.toBase hsh (fun _ hj => hop ▸ hj) fun _ hj => hop ▸ hj
      have hst' := hst.trans_op (i := i) (o := { s.op i with registered := false })
        (by rw [hop]; exact id) fun hx => .inr (by
          rw [hop]
          exact hx.resolve_left (by simp))
      refine ⟨hst', arrived_same h.arrived hst' fun j => ?_, fun j hj => ?_⟩
      · rw [setOp_pc (by rw [hop]), hop]
      · rw [setOp_shared, hsh]
        rcases postCancel_posted s i hj with hj | hj
        · exact h.posted j hj
        · rw [hj]
          exact h.enqueued i (.inl hc.2)
    · cases hs
  | resume c => cases hs
  | runPosted => exact runPosted_stepped h hs
  | shutdown =>
    have hs' : Sync.step P s .shutdown = some t := hs
    have hst := Sync.step_stepped h.toBase hs'
    cases hs'
    exact ⟨hst, arrived_same h.arrived hst fun _ => rfl, h.posted⟩

/-- Only `unlock` and `release` release. -/
theorem step_released {l : Label κ} (hl : ∀ k onLoop, l ≠ .release k onLoop)
    (hs : step P s l = some t) : t.shared.history.released = s.shared.history.released := by
  cases l with
  | run i =>
    have hs' : runOp P s i = some t := hs
    cases hpc : (s.op i).pc with
    | enqueue =>
      simp only [runOp, hpc] at hs'
      have hreg := (register_keeps { s with shared := (s.shared.takeOrEnqueue P i).2 } i).1
      have hsh : t.shared = (s.shared.takeOrEnqueue P i).2 := by
        split at hs'
        · cases hs'
          rfl
        · split at hs' <;> cases hs' <;> exact hreg
      rw [hsh]
      exact takeOrEnqueue_released P s.shared i
    | register | recheck => simp [runOp, hpc] at hs'
    | idle | ready | suspend | suspended | resumed | done _ =>
      refine runOp_released (P := P) (s := s) (i := i) ?_
      simpa only [runOp, hpc] using hs'
  | release k onLoop => exact absurd rfl (hl k onLoop)
  | stopCallback i onLoop =>
    simp only [step] at hs
    split at hs <;> cases hs
    rw [setOp_shared, (postCancel_keeps s i).1]
  | resume c => cases hs
  | runPosted =>
    have hs' : runPosted s = some t := hs
    unfold runPosted at hs'
    split at hs'
    · cases hs'
    · dsimp only at hs'
      split at hs' <;> cases hs'
      · rfl
      · rename_i sh hc
        rw [resumeWaiter_shared]
        exact cancel_released hc
  | call i onLoop stopPossible =>
    exact Sync.step_released (P := P) (l := .call i onLoop stopPossible) nofun hs
  | tryTake i => exact Sync.step_released (P := P) (l := .tryTake i) nofun hs
  | requestStop i => exact Sync.step_released (P := P) (l := .requestStop i) nofun hs
  | shutdown => exact Sync.step_released (P := P) (l := .shutdown) nofun hs

/-- What one call of `unlock`, or one turn of `release`, has served. -/
theorem serve_released {k : κ} {is : List OpId} (h : Base P n s)
    (hs : serve P s k = .ok (is, t)) : is = s.shared.toWaiters.active.take
        (P.units k s.shared.toWaiters) ∧
      t.shared.history.released =
        s.shared.history.released + P.units k s.shared.toWaiters := by
  unfold serve at hs
  split at hs
  · cases hs
  · rename_i js sh hrel
    cases hs
    have htake := (release_keeps (n := n) h.coherent hrel).2.2.1
    refine ⟨htake, ?_⟩
    have hfold : ∀ (ks : List OpId) (u : Sys ρ), (ks.foldl resumeWaiter u).shared = u.shared := by
      intro ks
      induction ks with
      | nil => exact fun _ => rfl
      | cons i ks ih =>
        intro u
        exact (ih _).trans (resumeWaiter_shared u i)
    rw [hfold]
    unfold Shared.release at hrel
    split at hrel
    · cases hrel
    · cases hrel
      rfl

theorem base_new {r : ρ} (hr : 0 ≤ P.permits r) : Base P (P.permits r) (Sys.new r) :=
  ⟨Sync.base_new hr, nofun, fun _ => trivial⟩

theorem reachable_base {r : ρ} (hr : 0 ≤ P.permits r) (h : Reachable (system P r) s) :
    Base P (P.permits r) s := by
  refine h.invariant ?_ ?_
  · intro s h0
    cases h0
    exact base_new hr
  · intro s l t _ hI hs
    exact (step_stepped hI hs).keeps

/-- The permits are kept as the abstract ledger keeps them. -/
theorem refines {r : ρ} (hr : 0 ≤ P.permits r) :
    Refines (system P r) (PermitQueue.system (P.permits r))
      (fun s => s.shared.ledger P (P.permits r)) := by
  refine ⟨fun s h0 => ?_, fun s l t h hs => ?_⟩
  · cases h0
    rfl
  · exact (step_stepped (reachable_base hr h) hs).moved

end

end LuvCoro.Sync.Local
