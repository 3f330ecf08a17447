import LuvCoro.Sync.Contract

/-! # `local_async_condition_variable`

The same calls on the loop thread alone: `await_ready` and `await_suspend` are
one piece, a completed waiter is resumed on the spot, a stop request posts the
cancellation, and `notify_all` serves the front of the live queue until nobody
is there. Calls on other threads, which `require_runtime_thread` refuses, are left
out. -/
namespace LuvCoro.Sync.Local

open Transition PermitQueue Resumptions

/-- The closures posted by `cancel_waiter` are `posted`. -/
structure LocalWorld extends World where
  /-- The calls of `notify_all` in progress. -/
  notifying : Nat := 0

inductive LocalWorldLabel where
  | mutex (l : Label Unit)
  | unlock (j : OpId)
  | wait (i j : OpId) (stopPossible : Bool)
  | run (i : OpId)
  | notifyOne
  | notifyAll
  /-- The loop of a `notify_all` goes on. -/
  | turn
  | requestStop (i : OpId)
  | stopCallback (i : OpId)
  | runPosted
  | shutdown

namespace Cv

def postCancel (w : World) (i : OpId) : World :=
  if w.shuttingDown then w else { w with posted := w.posted ++ [i] }

def resumeWaiter (w : World) (i : OpId) : World :=
  if w.continuation i then w.resumeCoroutine i else w

/-- `stop_callback.emplace`. -/
def register (w : World) (i : OpId) : World :=
  let o := w.wait i
  if !o.stopPossible then w
  else if o.stopRequested then postCancel w i
  else w.setWait i { o with registered := true }

/-- `mutex.unlock()` in `wait`. -/
def unlockWait (w : World) (i : OpId) : World :=
  let o := w.wait i
  match serve localMutex w.mutex () with
  | .error _ => w.goto i .threw
  | .ok r =>
    { w with
      mutex := r.2, unlocked := w.unlocked ++ [o.caller], released := w.released ++ [i] }.goto i
        .ready

/-- `await_suspend`. -/
def suspend (w : World) (i : OpId) : World :=
  let w := { w with cv := w.cv.set i Waiter.suspend }
  if (w.cv.waiter i).completed then w.continueInline i else w.goto i .suspended

/-- The next step of a call of `wait`. -/
def runWait (w : World) (i : OpId) : Option World :=
  let o := w.wait i
  match o.pc with
  | .enqueue => some ({ w with cv := w.cv.enqueueWaiter i }.goto i .register)
  | .register => some ((register w i).goto i .unlock)
  | .unlock => some (unlockWait w i)
  | .ready =>
    some (if (w.cv.waiter i).completed then w.continueInline i else suspend w i)
  | .resumed =>
    (Local.step localMutex w.mutex (.call i o.onLoop false)).map fun m =>
      { w with mutex := m }.setWait i
        { o with registered := false, cancelled := (w.cv.waiter i).cancelled, pc := .relock }
  | .relock =>
    match (w.mutex.op i).pc with
    | .done .acquired => some (w.goto i (.done o.cancelled))
    | .done .cancelled => some (w.goto i (.done true))
    | _ => none
  | .idle | .suspend | .recheck | .suspended | .done _ | .threw => none

/-- `notify_one`, which is also one turn of `notify_all`. -/
def notifyOne (w : World) : List OpId × World :=
  match w.cv.release conditionVariable .one with
  | .error _ => ([], w)
  | .ok (is, sh) => (is, is.foldl resumeWaiter { w with cv := sh })

/-- The closure posted by `cancel_waiter`. -/
def runPosted (w : World) : Option World :=
  match w.posted with
  | [] => none
  | i :: is =>
    let w := { w with posted := is }
    match w.cv.cancel i with
    | none => some w
    | some sh => some (resumeWaiter { w with cv := sh } i)

end Cv

namespace LocalWorld

def step (w : LocalWorld) : LocalWorldLabel → Option LocalWorld
  | .mutex l =>
    if w.mutexFree l then
      (Local.step localMutex w.mutex l).map fun m => { w with mutex := m }
    else none
  | .unlock j =>
    if w.inside j then
      (Local.step localMutex w.mutex (.release () true)).map fun m =>
        { w with mutex := m, left := w.left ++ [j], unlocked := w.unlocked ++ [j] }
    else none
  | .wait i j stopPossible =>
    match (w.wait i).pc, (w.mutex.op i).pc with
    | .idle, .idle =>
      if w.inside j && !(w.mutex.op i).stopRequested then
        some { w with
          toWorld := { w.toWorld with left := w.left ++ [j] }.setWait i
            { w.wait i with
              pc := .enqueue, caller := j, onLoop := true, stopPossible := stopPossible } }
      else none
    | _, _ => none
  | .run i => (Cv.runWait w.toWorld i).map fun v => { w with toWorld := v }
  | .notifyOne => some { w with toWorld := (Cv.notifyOne w.toWorld).2 }
  | .notifyAll => some { w with notifying := w.notifying + 1 }
  | .turn =>
    if w.notifying = 0 then none
    else
      let r := Cv.notifyOne w.toWorld
      some { w with
        toWorld := r.2, notifying := if r.1.isEmpty then w.notifying - 1 else w.notifying }
  | .requestStop i =>
    if (w.wait i).stopRequested then none
    else some { w with
      toWorld := w.toWorld.setWait i { w.wait i with stopRequested := true } }
  | .stopCallback i =>
    if (w.wait i).stopRequested && (w.wait i).registered then
      some { w with
        toWorld := (Cv.postCancel w.toWorld i).setWait i { w.wait i with registered := false } }
    else none
  | .runPosted => (Cv.runPosted w.toWorld).map fun v => { w with toWorld := v }
  | .shutdown =>
    (Local.step localMutex w.mutex .shutdown).map fun m =>
      { w with mutex := m, shuttingDown := true }

def system : System LocalWorld LocalWorldLabel where
  init w := w = {}
  step := step

end LocalWorld

/-! ## The mutex -/

section
variable {m m' : Sys Bool}

theorem mutexOk_local (h : Reachable (Local.system localMutex false) m) : MutexOk m := by
  have hp : 0 ≤ localMutex.permits false := by decide
  have hb := reachable_base hp h
  refine ⟨hb.sound, hb.arrived, ?_⟩
  have ha : Local.Asked m := by
    refine h.invariant ?_ ?_
    · intro s h0
      cases h0
      exact ⟨nofun, nofun⟩
    · intro s l t hreach hI hs
      exact (step_stops (reachable_base hp hreach) hI hs).2
  exact ha.asked

theorem asked_local (h : Reachable (Local.system localMutex false) m) : Local.Asked m := by
  have hp : 0 ≤ localMutex.permits false := by decide
  refine h.invariant ?_ ?_
  · intro s h0
    cases h0
    exact ⟨nofun, nofun⟩
  · intro s l t hreach hI hs
    exact (step_stops (reachable_base hp hreach) hI hs).2

theorem mutexStep_local {l : Label Unit} (h : Reachable (Local.system localMutex false) m)
    (hs : Local.step localMutex m l = some m') (hl : ∀ k onLoop, l ≠ .release k onLoop) :
    MutexStep m m' 0 ∧ Unasked m m' l := by
  have hp : 0 ≤ localMutex.permits false := by decide
  have hb := reachable_base hp h
  have hst := step_stepped hb hs
  have hnext : Reachable (Local.system localMutex false) m' := h.next hs
  have hok := mutexOk_local hnext
  have hstops := (step_stops hb (asked_local h) hs).1
  have hrel := step_released hl hs
  by_cases hr : ∃ i, l = .requestStop i
  · obtain ⟨i, rfl⟩ := hr
    have hs' : Sync.step localMutex m (.requestStop i) = some m' := hs
    refine ⟨⟨hok, hst.later.grants, hrel, fun j r hj => ?_⟩, fun j hj => ?_⟩
    · rw [(requestStop_op hs' j).2]
      exact hj
    · rw [(requestStop_op hs' j).1 fun he => hj (he ▸ rfl)]
  · have ho := hstops fun i he => hr ⟨i, he⟩
    exact ⟨⟨hok, hst.later.grants, hrel, fun j => (ho j).2⟩, fun j _ => (ho j).1⟩

theorem serve_locked (h : Reachable (Local.system localMutex false) m)
    (hlocked : m.shared.resource = true) : ∃ is m', serve localMutex m () = .ok (is, m') ∧
      Local.step localMutex m (.release () true) = some m' ∧ MutexStep m m' 1 ∧
      ∀ i, (m'.op i).stopRequested = (m.op i).stopRequested := by
  have hp : 0 ≤ localMutex.permits false := by decide
  have hb := reachable_base hp h
  obtain ⟨is, sh, hrel, _⟩ := release_locked "local_async_mutex is not locked" hlocked
  have hrel' : m.shared.release localMutex () = .ok (is, sh) := hrel
  have hserve : serve localMutex m () =
      .ok (is, is.foldl resumeWaiter { m with shared := sh }) := by
    simp only [serve, hrel']
  have hs : Local.step localMutex m (.release () true) =
      some (is.foldl resumeWaiter { m with shared := sh }) := by
    simp only [Local.step, hserve]
  have hnext : Reachable (Local.system localMutex false)
      (is.foldl resumeWaiter { m with shared := sh }) := h.next (l := .release () true) hs
  have hst := step_stepped hb hs
  have ho := (step_stops hb (asked_local h) hs).1 (by simp)
  have hcount := (serve_released hb hserve).2
  refine ⟨is, _, hserve, hs, ⟨mutexOk_local hnext, hst.later.grants, hcount, fun j => (ho j).2⟩,
    fun j => (ho j).1⟩

end

/-! ## What the steps keep -/

/-- What holds in every reachable state. -/
structure LocalKept (w : World) : Prop where
  mutex : Reachable (Local.system localMutex false) w.mutex
  cv : CvBase w
  own : Own w
  posted : ∀ i ∈ w.posted, (w.wait i).pc.pre = false
  stage : ∀ i, Stage False w i

section
variable {w v : World} {i j : OpId}

/-- Who is not suspended does not depend on being resumed. -/
theorem stage_any {p q : Prop} (h : Stage p w j) (hn : (w.wait j).pc ≠ .suspended) :
    Stage q w j := by
  unfold Stage at *
  cases hpc : (w.wait j).pc with
  | suspended => exact absurd hpc hn
  | _ =>
    simp only [hpc] at h ⊢
    try exact h

theorem own_count (h : Own w) (f g : OpId → Nat) :
    Own { w with continuedInline := f, resumed := g } :=
  ⟨h.nodup, h.granted, h.count, h.left, h.unlockedLeft, h.early, h.unique, h.quiet, h.order,
    h.settled, h.sane⟩

/-- A waiter that has just been completed is resumed if it is suspended. -/
theorem resumeWaiter_keeps (hm : Reachable (Local.system localMutex false) w.mutex)
    (hcv : CvBase w) (hown : Own w) (hpost : ∀ i ∈ w.posted, (w.wait i).pc.pre = false)
    (hst : ∀ j, Stage (j = i) w j) (hc : (w.cv.waiter i).completed = true)
    (hpc : (w.wait i).pc ≠ .relock) : LocalKept (Cv.resumeWaiter w i) := by
  unfold Cv.resumeWaiter
  by_cases hcont : w.continuation i = true
  · rw [if_pos hcont]
    have hcv' := cvBase_resumeCoroutine hcv i
    have hown' := own_count hown w.continuedInline (Function.update w.resumed i (w.resumed i + 1))
    by_cases hs : (w.wait i).pc = .suspended
    · have heq : w.resumeCoroutine i = ({ w with
          resumed := Function.update w.resumed i (w.resumed i + 1) } : World).goto i .resumed := by
        simp only [World.resumeCoroutine, hs]
      have hwait : ∀ k, k ≠ i → (w.resumeCoroutine i).wait k = w.wait k := by
        intro k hk
        rw [heq]
        exact setWait_of_ne _ _ hk
      have hself : (w.resumeCoroutine i).wait i = { w.wait i with pc := .resumed } := by
        rw [heq]
        exact setWait_self _ _ _
      have hposted : (w.resumeCoroutine i).posted = w.posted := by rw [heq]; rfl
      refine ⟨?_, hcv', ?_, fun k hk => ?_, fun k => ?_⟩
      · rw [heq]
        exact hm
      · rw [heq]
        refine own_setWait hown' ?_ rfl (by simp)
        show (w.wait i).pc.past = true
        rw [hs]
        rfl
      · by_cases he : k = i
        · rw [he, hself]
          rfl
        · rw [hwait k he]
          exact hpost k (hposted ▸ hk)
      · by_cases he : k = i
        · subst he
          unfold Stage
          rw [hself]
          show ((w.resumeCoroutine k).cv.waiter k).completed = true
          rw [heq]
          exact hc
        · have hcv : (w.resumeCoroutine i).cv = w.cv := by rw [heq]; rfl
          have hmu : (w.resumeCoroutine i).mutex = w.mutex := by rw [heq]; rfl
          refine stage_later (hst k) (congrArg Wait.pc (hwait k he))
            (congrArg Wait.cancelled (hwait k he)) (by rw [hcv]) (fun hx => he hx) fun r hr => ?_
          rw [hmu]
          exact hr
    · have heq : w.resumeCoroutine i = { w with
          resumed := Function.update w.resumed i (w.resumed i + 1) } := by
        unfold World.resumeCoroutine
        dsimp only
        split
        · rename_i hx
          exact absurd hx hs
        · rename_i hx
          exact absurd hx hpc
        · rfl
      rw [heq] at hcv' ⊢
      refine ⟨hm, hcv', hown', hpost, fun k => ?_⟩
      by_cases he : k = i
      · subst he
        exact stage_any (w := { w with
          resumed := Function.update w.resumed k (w.resumed k + 1) }) (hst k) hs
      · exact stage_later (hst k) rfl rfl rfl (fun hx => he hx) fun _ => id
  · rw [if_neg hcont]
    refine ⟨hm, hcv, hown, hpost, fun k => ?_⟩
    by_cases he : k = i
    · subst he
      refine stage_any (hst k) fun hs => ?_
      have hk := hst k
      unfold Stage at hk
      rw [hs] at hk
      exact hcont hk.1
    · exact stage_later (hst k) rfl rfl rfl (fun hx => he hx) fun _ => id

/-- A waiter is completed and resumed. -/
theorem kept_served {sh : Shared Unit} {r : Resumptions} (h : LocalKept w)
    (hcv : CvBase { w with cv := sh, toResumptions := r })
    (hr : ∀ k ∈ r.posted, k ∈ w.posted)
    (henq : sh.history.enqueued = w.cv.history.enqueued)
    (hn : (w.cv.waiter i).completed = false) (hc : (sh.waiter i).completed = true)
    (hcont : (sh.waiter i).continuation = (w.cv.waiter i).continuation)
    (hoth : ∀ k, k ≠ i → sh.waiter k = w.cv.waiter k) :
    LocalKept (Cv.resumeWaiter { w with cv := sh, toResumptions := r } i) := by
  refine resumeWaiter_keeps h.mutex hcv (own_cv h.own henq) (fun k hk => h.posted k (hr k hk))
    (fun k => ?_) hc fun hp => ?_
  · by_cases he : k = i
    · rw [he]
      exact stage_complete (h.stage i) hn hcont fun _ => rfl
    · exact stage_later (h.stage k) rfl rfl (hoth k he) (fun hx => hx.elim) fun _ => id
  · have hi := h.stage i
    have hp' : (w.wait i).pc = .relock := hp
    unfold Stage at hi
    rw [hp'] at hi
    cases hn.symm.trans hi.1

theorem kept_notifyOne (h : LocalKept w) : LocalKept (Cv.notifyOne w).2 := by
  unfold Cv.notifyOne
  cases hrel : w.cv.release conditionVariable .one with
  | error e => exact h
  | ok x =>
    obtain ⟨is, sh⟩ := x
    obtain ⟨_, _, htake, hpops, henq⟩ := release_keeps (n := 0) h.cv.coherent hrel
    have hcv := cvBase_notify (r := w.toResumptions) h.cv hrel
    have htake' : is = w.cv.toWaiters.active.take (min 1 w.cv.toWaiters.active.length) := htake
    cases hact : w.cv.toWaiters.active with
    | nil =>
      rw [hact, List.take_nil] at htake'
      subst htake'
      refine ⟨h.mutex, hcv, own_cv h.own henq, h.posted, fun k => ?_⟩
      exact stage_later (h.stage k) rfl rfl (hpops.others k nofun) id fun _ => id
    | cons i js =>
      rw [hact, List.length_cons, Nat.min_eq_left (Nat.le_add_left 1 _)] at htake'
      subst htake'
      have hmem : i ∈ w.cv.toWaiters.active := by
        rw [hact]
        exact List.mem_cons_self
      have hrec := hpops.completed i (List.mem_singleton.mpr rfl)
      refine kept_served (r := w.toResumptions) h hcv (fun k hk => hk) henq
        (h.cv.coherent.wellFormed.pending i hmem) (congrArg Waiter.completed hrec) ?_ fun k hk => ?_
      · rw [hrec]
        rfl
      · exact hpops.others k fun hm => hk (List.mem_singleton.mp hm)

theorem kept_runPosted (h : LocalKept w) (hs : Cv.runPosted w = some v) : LocalKept v := by
  unfold Cv.runPosted at hs
  split at hs
  · cases hs
  · rename_i i is hp
    have hmem : ∀ k ∈ is, k ∈ w.posted := fun k hk => hp ▸ List.mem_cons_of_mem _ hk
    have hi : (w.wait i).pc.pre = false := h.posted i (hp ▸ List.mem_cons_self)
    dsimp only at hs
    split at hs <;> cases hs
    · refine ⟨h.mutex, ?_, own_cv h.own rfl, fun k hk => h.posted k (hmem k hk), h.stage⟩
      exact h.cv.frame rfl rfl
    · rename_i sh hc
      have hpre : ¬ (w.wait i).pc.pre = true := by rw [hi]; exact Bool.false_ne_true
      obtain ⟨_, _, hact, hrec, hoth, _, henq⟩ :=
        cancel_keeps (P := conditionVariable) (n := 0) h.cv.coherent hc hpre (h.cv.enqueued i hi)
      refine kept_served (r := { w.toResumptions with posted := is }) h (cvBase_cancel h.cv hi hc)
        (fun k hk => hmem k hk) henq (h.cv.coherent.wellFormed.pending i hact)
        (congrArg Waiter.completed hrec) ?_ hoth
      rw [hrec]
      rfl

/-- Posting a cancellation leaves everything else. -/
theorem kept_postCancel (h : LocalKept w) (hi : (w.wait i).pc.pre = false) :
    LocalKept (Cv.postCancel w i) ∧ (Cv.postCancel w i).wait = w.wait := by
  unfold Cv.postCancel
  split
  · exact ⟨h, rfl⟩
  · refine ⟨⟨h.mutex, ?_, own_cv h.own rfl, fun k hk => ?_, h.stage⟩, rfl⟩
    · exact h.cv.frame rfl rfl
    · rcases List.mem_append.mp hk with hk | hk
      · exact h.posted k hk
      · rw [List.mem_singleton.mp hk]
        exact hi

/-- Only the call `i` goes on. -/
theorem posted_setWait {o : Wait} (h : ∀ k ∈ w.posted, (w.wait k).pc.pre = false)
    (ho : o.pc.pre = false) (k : OpId) (hk : k ∈ w.posted) :
    ((w.setWait i o).wait k).pc.pre = false := by
  by_cases he : k = i
  · rw [he, setWait_self]
    exact ho
  · rw [setWait_of_ne w o he]
    exact h k hk

/-- A call goes on by itself. -/
theorem kept_continueInline (h : LocalKept w) (hpast : (w.wait i).pc.past = true)
    (hpre : (w.wait i).pc.pre = false) (hc : (w.cv.waiter i).completed = true) :
    LocalKept (w.continueInline i) := by
  have hown := own_count h.own (Function.update w.continuedInline i (w.continuedInline i + 1))
    w.resumed
  have hb : ∀ k, Stage False { w with
      continuedInline :=
        Function.update w.continuedInline i (w.continuedInline i + 1) } k := h.stage
  refine ⟨h.mutex, cvBase_continueInline h.cv hpre, own_setWait hown hpast rfl nofun,
    posted_setWait h.posted rfl, stage_setWait hb ?_⟩
  unfold Stage
  rw [setWait_self]
  exact hc

theorem kept_suspend (h : LocalKept w) (hpc : (w.wait i).pc = .ready)
    (hn : ¬ (w.cv.waiter i).completed = true) : LocalKept (Cv.suspend w i) := by
  have hpre : (w.wait i).pc.pre = false := by rw [hpc]; rfl
  have hfl := suspend_flags w.cv.toWaiters i
  have hcompl : ¬ ((w.cv.set i Waiter.suspend).waiter i).completed = true := by
    rw [show ((w.cv.set i Waiter.suspend).waiter i).completed = (w.cv.waiter i).completed from
      (hfl i).2.1]
    exact hn
  unfold Cv.suspend
  dsimp only
  rw [if_neg hcompl]
  have hown : Own { w with cv := w.cv.set i Waiter.suspend } := own_cv h.own rfl
  refine ⟨h.mutex, cvBase_goto (cvBase_suspend h.cv hpre) hpre rfl, ?_,
    posted_setWait (w := { w with cv := w.cv.set i Waiter.suspend }) h.posted rfl, fun k => ?_⟩
  · refine own_setWait hown ?_ rfl nofun
    show (w.wait i).pc.past = true
    rw [hpc]
    rfl
  · by_cases he : k = i
    · subst he
      unfold Stage
      rw [World.goto, setWait_self]
      exact ⟨congrArg Waiter.continuation (set_self ..), fun hx => hcompl hx⟩
    · have hw := setWait_of_ne ({ w with cv := w.cv.set i Waiter.suspend } : World)
        { w.wait i with pc := .suspended } he
      exact stage_later (h.stage k) (congrArg Wait.pc hw) (congrArg Wait.cancelled hw)
        (set_of_ne _ _ he) id fun _ => id

theorem kept_runWait (h : LocalKept w) (hs : Cv.runWait w i = some v) : LocalKept v := by
  have hok := mutexOk_local h.mutex
  have hst := h.stage i
  unfold Cv.runWait at hs
  unfold Stage at hst
  cases hpc : (w.wait i).pc with
  | enqueue =>
    simp only [hpc, Option.some.injEq] at hs
    subst hs
    have hb : ∀ k, Stage False { w with cv := w.cv.enqueueWaiter i } k := h.stage
    exact ⟨h.mutex, cvBase_enqueue h.cv hpc, own_enqueue hok h.own hpc,
      posted_setWait (w := { w with cv := w.cv.enqueueWaiter i }) h.posted rfl,
      stage_free hb (.inr (.inl rfl))⟩
  | register =>
    have hpre : (w.wait i).pc.pre = false := by rw [hpc]; rfl
    simp only [hpc, Option.some.injEq] at hs
    subst hs
    have hnext : ∀ u : World, LocalKept u → (u.wait i).pc = .register →
        LocalKept (u.goto i .unlock) := by
      intro u hu hp
      have hpre' : (u.wait i).pc.pre = false := by rw [hp]; rfl
      exact ⟨hu.mutex, cvBase_goto hu.cv hpre' rfl, own_register hu.own hp rfl rfl,
        posted_setWait hu.posted rfl, stage_free hu.stage (.inr (.inr (.inl rfl)))⟩
    unfold Cv.register
    dsimp only
    split
    · exact hnext w h hpc
    · split
      · obtain ⟨hk, hwait⟩ := kept_postCancel h hpre
        exact hnext _ hk (by rw [hwait]; exact hpc)
      · refine hnext _ ⟨h.mutex, cvBase_setWait h.cv rfl fun _ => .inr hpre, own_same h.own rfl rfl,
          posted_setWait h.posted hpre, stage_same h.stage rfl rfl⟩ ?_
        rw [setWait_self]
        exact hpc
  | unlock =>
    have hpre : (w.wait i).pc.pre = false := by rw [hpc]; rfl
    have hlocked := (holds_of_early hok h.own (i := i) (by rw [hpc]; rfl)).1
    obtain ⟨is, m, hserve, hrel, hms, hq⟩ := serve_locked h.mutex hlocked
    simp only [hpc, Cv.unlockWait, hserve, Option.some.injEq] at hs
    subst hs
    have hnext : Reachable (Local.system localMutex false) m :=
      h.mutex.next (l := .release () true) hrel
    have hb : ∀ k, Stage False { w with
        mutex := m, unlocked := w.unlocked ++ [(w.wait i).caller],
        released := w.released ++ [i] } k :=
      fun k => stage_later (h.stage k) rfl rfl rfl id (hms.done k)
    have hcv : CvBase { w with
        mutex := m, unlocked := w.unlocked ++ [(w.wait i).caller],
        released := w.released ++ [i] } :=
      h.cv.frame rfl rfl
    exact ⟨hnext, cvBase_goto hcv hpre rfl, own_unlockWait hok h.own hpc hms hq rfl,
      posted_setWait (w := { w with
        mutex := m, unlocked := w.unlocked ++ [(w.wait i).caller],
        released := w.released ++ [i] }) h.posted rfl,
      stage_free hb (.inr (.inr (.inr (.inl rfl))))⟩
  | ready =>
    simp only [hpc, Option.some.injEq] at hs
    split at hs <;> subst hs <;> rename_i hc
    · exact kept_continueInline h (by rw [hpc]; rfl) (by rw [hpc]; rfl) hc
    · exact kept_suspend h hpc hc
  | resumed =>
    have hpre : (w.wait i).pc.pre = false := by rw [hpc]; rfl
    have hpast : (w.wait i).pc.past = true := by rw [hpc]; rfl
    simp only [hpc] at hst
    simp only [hpc] at hs
    obtain ⟨m, hm, rfl⟩ := Option.map_eq_some_iff.mp hs
    obtain ⟨hms, hq⟩ := mutexStep_local h.mutex hm nofun
    have hnext : Reachable (Local.system localMutex false) m :=
      h.mutex.next (l := .call i (w.wait i).onLoop false) hm
    have hown := own_mutex h.own hms fun k _ => hq k nofun
    have hcv : CvBase { w with mutex := m } :=
      h.cv.frame rfl rfl
    have hb : ∀ k, Stage False { w with mutex := m } k :=
      fun k => stage_later (h.stage k) rfl rfl rfl id (hms.done k)
    refine ⟨hnext, cvBase_setWait hcv hpre.symm nofun, own_setWait hown hpast rfl nofun,
      posted_setWait (w := { w with mutex := m }) h.posted rfl, stage_setWait hb ?_⟩
    unfold Stage
    rw [setWait_self]
    exact ⟨hst, rfl⟩
  | relock =>
    have hpre : (w.wait i).pc.pre = false := by rw [hpc]; rfl
    have hpast : (w.wait i).pc.past = true := by rw [hpc]; rfl
    simp only [hpc] at hst
    simp only [hpc] at hs
    split at hs <;> cases hs <;> rename_i hd
    · refine ⟨h.mutex, cvBase_goto h.cv hpre rfl, own_setWait h.own hpast rfl nofun,
        posted_setWait h.posted rfl, stage_setWait h.stage ?_⟩
      unfold Stage
      rw [setWait_self]
      exact ⟨hst.1, hst.2, hd⟩
    · exact absurd rfl (acquired_of_done hok h.own (by rw [hpc]; exact nofun) hd)
  | idle | suspend | recheck | suspended | done _ | threw => simp [hpc] at hs

end

/-- The step lemma. -/
theorem localKept_step {w v : LocalWorld} {l : LocalWorldLabel} (h : LocalKept w.toWorld)
    (hs : w.step l = some v) : LocalKept v.toWorld := by
  have hok := mutexOk_local h.mutex
  cases l with
  | mutex l =>
    simp only [LocalWorld.step] at hs
    split at hs
    · rename_i hfree
      obtain ⟨m, hm, rfl⟩ := Option.map_eq_some_iff.mp hs
      have hrel : ∀ k onLoop, l ≠ .release k onLoop := by
        intro k onLoop he
        rw [he] at hfree
        cases hfree
      obtain ⟨hms, hq⟩ := mutexStep_local h.mutex hm hrel
      have hnext : Reachable (Local.system localMutex false) m := h.mutex.next hm
      have hquiet : ∀ i, (w.wait i).pc ≠ .idle →
          (m.op i).stopRequested = (w.mutex.op i).stopRequested := by
        intro i hi
        refine hq i fun he => ?_
        rw [he] at hfree
        exact hi (by simpa [World.mutexFree] using hfree)
      exact ⟨hnext, h.cv.frame rfl rfl,
        own_mutex h.own hms hquiet, h.posted,
        fun j => stage_later (h.stage j) rfl rfl rfl id (hms.done j)⟩
    · cases hs
  | unlock k =>
    simp only [LocalWorld.step] at hs
    split at hs
    · rename_i hin
      obtain ⟨m, hm, rfl⟩ := Option.map_eq_some_iff.mp hs
      have hlocked := (holds_of_inside hok h.own hin).1
      obtain ⟨is, m', _, hrel, hms, hq⟩ := serve_locked h.mutex hlocked
      cases hm.symm.trans hrel
      have hnext : Reachable (Local.system localMutex false) m :=
        h.mutex.next (l := .release () true) hm
      exact ⟨hnext, h.cv.frame rfl rfl,
        own_unlock hok h.own hin hms hq, h.posted,
        fun j => stage_later (h.stage j) rfl rfl rfl id (hms.done j)⟩
    · cases hs
  | wait i k stopPossible =>
    simp only [LocalWorld.step] at hs
    split at hs
    · rename_i hpc hm
      split at hs
      · rename_i hc
        rw [Bool.and_eq_true] at hc
        cases hs
        have hpre : (w.wait i).pc.pre = true := by rw [hpc]; rfl
        have hb : ∀ x, Stage False { w.toWorld with left := w.left ++ [k] } x := h.stage
        have hcv : CvBase { w.toWorld with left := w.left ++ [k] } :=
          h.cv.frame rfl rfl
        refine ⟨h.mutex, cvBase_setWait hcv hpre.symm .inl,
          own_wait hok h.own hc.1 hpc hm (by simpa using hc.2) rfl rfl, fun j hj => ?_,
          stage_free hb (.inl rfl)⟩
        have hne : j ≠ i := by
          intro he
          cases (h.posted j hj).symm.trans (he ▸ hpre)
        rw [setWait_of_ne _ _ hne]
        exact h.posted j hj
      · cases hs
    · cases hs
  | run i =>
    obtain ⟨u, hu, rfl⟩ := Option.map_eq_some_iff.mp hs
    exact kept_runWait h hu
  | notifyOne =>
    cases hs
    exact kept_notifyOne h
  | notifyAll =>
    cases hs
    exact h
  | turn =>
    simp only [LocalWorld.step] at hs
    split at hs
    · cases hs
    · cases hs
      exact kept_notifyOne h
  | requestStop i =>
    simp only [LocalWorld.step] at hs
    split at hs <;> cases hs
    refine ⟨h.mutex, cvBase_setWait h.cv rfl .inl, own_same h.own rfl rfl, fun j hj => ?_,
      stage_same h.stage rfl rfl⟩
    by_cases he : j = i
    · rw [he, setWait_self]
      exact he ▸ h.posted j hj
    · rw [setWait_of_ne _ _ he]
      exact h.posted j hj
  | stopCallback i =>
    simp only [LocalWorld.step, Bool.and_eq_true] at hs
    split at hs
    · rename_i hc
      cases hs
      have hpre := h.cv.registered i hc.2
      obtain ⟨hk, hwait⟩ := kept_postCancel h hpre
      refine ⟨hk.mutex, cvBase_setWait hk.cv (by rw [hwait]) (by simp),
        own_same hk.own (by rw [hwait])
        (by rw [hwait]), posted_setWait hk.posted hpre, stage_same hk.stage (by rw [hwait])
        (by rw [hwait])⟩
    · cases hs
  | runPosted =>
    obtain ⟨u, hu, rfl⟩ := Option.map_eq_some_iff.mp hs
    exact kept_runPosted h hu
  | shutdown =>
    obtain ⟨hms, hq⟩ := mutexStep_local (l := .shutdown) h.mutex rfl (by simp)
    have hnext : Reachable (Local.system localMutex false)
        { w.mutex with shuttingDown := true } := h.mutex.next (l := .shutdown) rfl
    cases hs
    have hown := own_mutex h.own hms fun j _ => hq j (by simp)
    exact ⟨hnext, h.cv.frame rfl rfl, own_cv hown rfl,
      h.posted, fun j => stage_later (h.stage j) rfl rfl rfl id (hms.done j)⟩

theorem reachable_localKept {w : LocalWorld} (h : Reachable LocalWorld.system w) :
    LocalKept w.toWorld := by
  refine h.invariant (I := fun w => LocalKept w.toWorld) ?_ ?_
  · intro w h0
    cases h0
    exact ⟨.init rfl, cvBase_new, kept_new.own, nofun, fun _ => trivial⟩
  · intro w l v _ hI hs
    exact localKept_step hI hs

/-- `local_async_condition_variable` in every run. -/
theorem local_contract {w : LocalWorld} (h : Reachable LocalWorld.system w) :
    Contract w.toWorld ∧
      (∀ i, (w.wait i).pc = .suspended → (w.cv.waiter i).completed = false) ∧
      ∀ i, w.earliest = some i →
        ∃ v, w.step .notifyOne = some v ∧ Notified w.toWorld v.toWorld i := by
  have hk := reachable_localKept h
  have hok := mutexOk_local hk.mutex
  refine ⟨contract_of_own hok hk.cv hk.own hk.stage, fun i hpc => ?_, fun i hi => ?_⟩
  · have hst := hk.stage i
    unfold Stage at hst
    rw [hpc] at hst
    by_contra hc
    exact hst.2 (by simpa using hc)
  · obtain ⟨sh, hrel, hh, hc, hn⟩ := notifyOne_earliest hk.cv hk.own hi
    have hcv : (Cv.notifyOne w.toWorld).2.cv = sh := by
      have hres : ∀ u : World, (Cv.resumeWaiter u i).cv = u.cv := by
        intro u
        unfold Cv.resumeWaiter World.resumeCoroutine
        dsimp only
        split
        · split <;> rfl
        · rfl
      simp only [Cv.notifyOne, hrel, List.foldl_cons, List.foldl_nil, hres]
    refine ⟨{ w with toWorld := (Cv.notifyOne w.toWorld).2 }, rfl, ?_, ?_, ?_⟩
    · rw [hcv]
      exact hh
    · rw [hcv]
      exact hc
    · rw [hcv]
      exact hn

end LuvCoro.Sync.Local

namespace LuvCoro.Sync

open Transition

/-- What both condition variables promise, in undisturbed runs of the thread-safe
one and in all runs of the local one: the contract; a completed call is not left
suspended, but for a resumption under way; and `notify_one` serves the earliest
call that has unlocked the mutex. -/
theorem condition_contract {w : World} {v : Local.LocalWorld}
    (hw : ReachableBy World.system World.Undisturbed w)
    (hv : Reachable Local.LocalWorld.system v) :
    (Contract w ∧
      (∀ i, (w.wait i).pc = .suspended → (w.cv.waiter i).completed = true → i ∈ w.owed) ∧
      ∀ i onLoop, w.earliest = some i →
        ∃ w', w.step (.notify .one onLoop) = some w' ∧ Notified w w' i) ∧
    Contract v.toWorld ∧
      (∀ i, (v.wait i).pc = .suspended → (v.cv.waiter i).completed = false) ∧
      ∀ i, v.earliest = some i →
        ∃ v', v.step .notifyOne = some v' ∧ Notified v.toWorld v'.toWorld i :=
  ⟨async_contract hw, Local.local_contract hv⟩

theorem condition_contract_suspended : ∃ w v : World, (w.wait 1).pc = .suspended ∧
    w.step (.notify .one true) = some v ∧ Notified w v 1 := by
  have h₀ : ReachableBy World.system World.Undisturbed {} := .init rfl
  have h₁ := h₀.step (l := .mutex (.call 0 true false)) (by exact trivial) rfl
  have h₂ := h₁.step (l := .mutex (.run 0)) (by exact trivial) rfl
  have h₃ := h₂.step (l := .mutex (.run 0)) (by exact trivial) rfl
  have h₄ := h₃.step (l := .wait 1 0 true false) (by exact trivial) rfl
  have h₅ := h₄.step (l := .run 1) (by exact trivial) rfl
  have h₆ := h₅.step (l := .run 1) (by exact trivial) rfl
  have h₇ := h₆.step (l := .run 1) (by exact trivial) rfl
  have h₈ := h₇.step (l := .run 1) (by exact trivial) rfl
  have h₉ := h₈.step (l := .run 1) (by exact trivial) rfl
  have h₁₀ := h₉.step (l := .run 1) (by exact trivial) rfl
  obtain ⟨v, hv, hn⟩ := (condition_contract h₁₀ (.init rfl)).1.2.2 1 true (by decide)
  exact ⟨_, v, rfl, hv, hn⟩

/-- A coroutine that went on by itself waits for the mutex when its posted
resumption comes, which ends the call without the mutex. -/
theorem wait_ends_without_mutex : ¬ ∀ w, Reachable World.system w → Contract w := by
  intro hall
  have h₀ : Reachable World.system {} := .init rfl
  have h := h₀.run (show run World.system _ [.mutex (.call 0 true false), .mutex (.run 0),
    .mutex (.run 0), .wait 1 0 true false, .run 1, .run 1, .run 1, .run 1, .run 1,
    .notify .one false, .resume 0, .run 1, .mutex (.call 2 true false), .mutex (.run 2),
    .mutex (.run 2), .run 1, .mutex (.run 1), .mutex (.run 1), .mutex (.run 1), .mutex (.run 1),
    .mutex (.run 1), .runPosted] = some _ from rfl)
  have hh := (hall _ h).holds 1 false rfl (by decide)
  exact absurd ((hh.2 2).mp ⟨by decide, by decide⟩) (by decide)

end LuvCoro.Sync
