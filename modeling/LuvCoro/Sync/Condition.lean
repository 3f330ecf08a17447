import LuvCoro.Sync.Once

/-! # `async_condition_variable`

A condition variable is a queue of waiters without permits: a notification
serves the front of it and is lost when nobody is there. `wait` queues itself,
unlocks the mutex, waits, and locks the mutex again. -/
namespace LuvCoro.Sync

open Transition PermitQueue Resumptions

/-! ## The queue -/

inductive Notify where
  | one
  | all
  deriving DecidableEq

/-- The section of `notify_one`. -/
def notifyOne (q : Waiters) : List OpId × Waiters :=
  match q.prune.popFront with
  | none => ([], q.prune)
  | some (i, q) => ([i], q)

/-- The section of `notify_all`. -/
def notifyAll (q : Waiters) : List OpId × Waiters := Waiters.popLoop q.waiters.length q.prune

def notify : Notify → Waiters → List OpId × Waiters
  | .one => notifyOne
  | .all => notifyAll

/-- How many waiters a notification serves. -/
def notifyUnits : Notify → Waiters → Nat
  | .one, q => min 1 q.active.length
  | .all, q => q.active.length

theorem notify_pops (k : Notify) {q : Waiters} (hq : q.WellFormed) :
    (notify k q).1 = q.active.take (notifyUnits k q) ∧ Pops q (notify k q).1 (notify k q).2 := by
  cases k with
  | one =>
    have hfront := popFront_spec hq
    cases hp : q.prune.popFront with
    | none =>
      rw [hp] at hfront
      have hn : notify .one q = ([], q.prune) := by simp only [notify, notifyOne, hp]
      rw [hn]
      exact ⟨by rw [hfront, List.take_nil], pops_prune q⟩
    | some x =>
      obtain ⟨i, r⟩ := x
      rw [hp] at hfront
      have hn : notify .one q = ([i], r) := by simp only [notify, notifyOne, hp]
      have hact : q.active = i :: r.active := hfront.active
      rw [hn]
      refine ⟨?_, hfront⟩
      show [i] = q.active.take (min 1 q.active.length)
      rw [hact, List.length_cons, Nat.min_eq_left (Nat.le_add_left 1 _)]
      rfl
  | all =>
    obtain ⟨htake, hpops⟩ := popLoop_spec q.waiters.length hq
    refine ⟨?_, hpops⟩
    have hle : q.active.length ≤ q.waiters.length := List.length_filter_le _ _
    show (Waiters.popLoop q.waiters.length q.prune).1 = q.active.take q.active.length
    rw [htake, List.take_of_length_le hle, List.take_length]

theorem length_take_notifyUnits (k : Notify) (q : Waiters) :
    (q.active.take (notifyUnits k q)).length = notifyUnits k q := by
  rw [List.length_take]
  cases k with
  | one => exact Nat.min_eq_left (Nat.min_le_right _ _)
  | all => exact Nat.min_self _

/-- The condition variable as a primitive that never has a permit. -/
def conditionVariable : Primitive Unit Notify where
  take _ _ := none
  release k _ q := .ok ((notify k q).1, (), (notify k q).2)
  permits _ := 0
  units := notifyUnits
  take_some := nofun
  take_none _ := Int.le_refl 0
  release_pops := by
    intro k r q is r' q' h hq
    obtain ⟨htake, hpops⟩ := notify_pops k hq
    cases h
    refine ⟨htake, hpops, ?_⟩
    have hlen := length_take_notifyUnits k q
    rw [← htake] at hlen
    rw [hlen]
    simp

/-- The waiter is put into the queue as it is. -/
def Shared.enqueueWaiter (sh : Shared Unit) (i : OpId) : Shared Unit :=
  { sh with toWaiters := sh.toWaiters.pushBack i, history := sh.history.enqueue i }

/-! ## The program -/

/-- Where a call of `wait` is: before it is queued, its stop callback, the
`unlock`, `await_ready`, the two parts of `await_suspend`, suspended, at
`await_resume`, and in the `lock` at the end, which may end the call with
`operation_cancelled`. -/
inductive WaitPc where
  | idle
  | enqueue
  | register
  | unlock
  | ready
  | suspend
  | recheck
  | suspended
  | resumed
  | relock
  | done (cancelled : Bool)
  /-- `unlock` threw. -/
  | threw
  deriving DecidableEq

/-- A call of `wait`, by the coroutine that locked the mutex with `caller`. -/
structure Wait where
  pc : WaitPc := .idle
  caller : OpId := 0
  onLoop : Bool := false
  stopPossible : Bool := false
  stopRequested : Bool := false
  registered : Bool := false
  /-- The local variable of `wait`. -/
  cancelled : Bool := false

/-- The condition variable, its mutex, and the calls of `wait`: the lock at the
end of call `i` is call `i` of the mutex. The resumptions are those of the
condition variable. -/
structure World extends Resumptions where
  mutex : Sys Bool := Sys.new false
  cv : Shared Unit := { resource := () }
  wait : OpId → Wait := fun _ => {}
  /-- The calls of `lock`, `try_lock` and `wait` whose coroutines have left their
  critical section, by `unlock` or another `wait`; those of them whose lock has
  been unlocked; and the calls of `wait` that have unlocked, in order. -/
  left : List OpId := []
  unlocked : List OpId := []
  released : List OpId := []
  continuedInline : OpId → Nat := fun _ => 0
  resumed : OpId → Nat := fun _ => 0

inductive WorldLabel where
  | mutex (l : Label Unit)
  | unlock (j : OpId) (onLoop : Bool)
  | wait (i j : OpId) (onLoop stopPossible : Bool)
  | run (i : OpId)
  | notify (k : Notify) (onLoop : Bool)
  | requestStop (i : OpId)
  | stopCallback (i : OpId) (onLoop : Bool)
  | resume (c : Nat)
  | runPosted
  | shutdown

namespace World

def setWait (w : World) (i : OpId) (o : Wait) : World :=
  { w with wait := Function.update w.wait i o }

def goto (w : World) (i : OpId) (p : WaitPc) : World := w.setWait i { w.wait i with pc := p }

def continuation (w : World) (i : OpId) : Bool := (w.cv.waiter i).continuation

/-- `await_ready` answers `true` or `await_suspend` answers `false`. -/
def continueInline (w : World) (i : OpId) : World :=
  { w with
    continuedInline := Function.update w.continuedInline i (w.continuedInline i + 1) }.goto i
      .resumed

def cancelWaiter (w : World) (i : OpId) (onLoop : Bool) : World :=
  match w.cv.cancel i with
  | none => w
  | some sh =>
    let is := if (sh.waiter i).continuation then [i] else []
    { w with cv := sh, toResumptions := w.toResumptions.start onLoop is }

/-- `continuation.resume()` continues the coroutine of `wait` wherever it is
suspended, and that may be the lock at its end. -/
def resumeCoroutine (w : World) (i : OpId) : World :=
  let w := { w with resumed := Function.update w.resumed i (w.resumed i + 1) }
  match (w.wait i).pc with
  | .suspended => w.goto i .resumed
  | .relock => w.goto i (.done (w.wait i).cancelled)
  | _ => w

def continueWith (w : World) (r : Resumptions × Option OpId) : World :=
  let w := { w with toResumptions := r.1 }
  match r.2 with
  | none => w
  | some i => w.resumeCoroutine i

/-- The coroutine has locked the mutex by the call `j`, which has returned, and
has not left its critical section. -/
def inside (w : World) (j : OpId) : Bool :=
  decide ((w.mutex.op j).pc = .done .acquired) &&
    (match (w.wait j).pc with
      | .idle | .done _ => true
      | _ => false) && !w.left.contains j

/-- Which steps of the mutex are free: calls that no `wait` makes, and what
follows them. -/
def mutexFree (w : World) : Label Unit → Bool
  | .call i _ _ | .tryTake i | .requestStop i => decide ((w.wait i).pc = .idle)
  | .release _ _ | .shutdown => false
  | _ => true

end World

/-- `mutex.unlock()` in `wait`; the caller has left already. -/
def World.unlockWait (w : World) (i : OpId) : Option World :=
  let o := w.wait i
  match w.mutex.shared.release asyncMutex () with
  | .error _ => some (w.goto i .threw)
  | .ok _ =>
    (step asyncMutex w.mutex (.release () o.onLoop)).map fun m =>
      { w with
        mutex := m, unlocked := w.unlocked ++ [o.caller], released := w.released ++ [i] }.goto i
          .ready

/-- The next step of a call of `wait`. -/
def runWait (w : World) (i : OpId) : Option World :=
  let o := w.wait i
  match o.pc with
  | .enqueue => some ({ w with cv := w.cv.enqueueWaiter i }.goto i .register)
  | .register =>
    some (if !o.stopPossible then w.goto i .unlock
      else if o.stopRequested then (w.cancelWaiter i o.onLoop).goto i .unlock
      else w.setWait i { o with registered := true, pc := .unlock })
  | .unlock => w.unlockWait i
  | .ready =>
    some (if (w.cv.waiter i).completed then w.continueInline i else w.goto i .suspend)
  | .suspend => some ({ w with cv := w.cv.set i Waiter.suspend }.goto i .recheck)
  | .recheck =>
    some (if (w.cv.waiter i).completed then w.continueInline i else w.goto i .suspended)
  | .resumed =>
    (step asyncMutex w.mutex (.call i o.onLoop false)).map fun m =>
      { w with mutex := m }.setWait i
        { o with registered := false, cancelled := (w.cv.waiter i).cancelled, pc := .relock }
  | .relock =>
    match (w.mutex.op i).pc with
    | .done .acquired => some (w.goto i (.done o.cancelled))
    | .done .cancelled => some (w.goto i (.done true))
    | _ => none
  | .idle | .suspended | .done _ | .threw => none

def World.step (w : World) : WorldLabel → Option World
  | .mutex l =>
    if w.mutexFree l then (Sync.step asyncMutex w.mutex l).map fun m => { w with mutex := m }
    else none
  | .unlock j onLoop =>
    if w.inside j then
      (Sync.step asyncMutex w.mutex (.release () onLoop)).map fun m =>
        { w with mutex := m, left := w.left ++ [j], unlocked := w.unlocked ++ [j] }
    else none
  | .wait i j onLoop stopPossible =>
    match (w.wait i).pc, (w.mutex.op i).pc with
    | .idle, .idle =>
      if w.inside j && !(w.mutex.op i).stopRequested then
        some ({ w with left := w.left ++ [j] }.setWait i
          { w.wait i with
            pc := .enqueue, caller := j, onLoop := onLoop, stopPossible := stopPossible })
      else none
    | _, _ => none
  | .run i => runWait w i
  | .notify k onLoop =>
    match w.cv.release conditionVariable k with
    | .ok (is, sh) => some { w with cv := sh, toResumptions := w.toResumptions.start onLoop is }
    | .error _ => none
  | .requestStop i =>
    if (w.wait i).stopRequested then none
    else some (w.setWait i { w.wait i with stopRequested := true })
  | .stopCallback i onLoop =>
    if (w.wait i).stopRequested && (w.wait i).registered then
      some ((w.cancelWaiter i onLoop).setWait i { w.wait i with registered := false })
    else none
  | .resume c => (w.toResumptions.next w.continuation c).map w.continueWith
  | .runPosted => (w.toResumptions.runPosted w.continuation).map w.continueWith
  | .shutdown =>
    (Sync.step asyncMutex w.mutex .shutdown).map fun m =>
      { w with mutex := m, shuttingDown := true }

def World.system : System World WorldLabel where
  init w := w = {}
  step := World.step

/-! ## The queue of waiters along a run -/

/-- The call has not queued. -/
def WaitPc.pre : WaitPc → Bool
  | .idle | .enqueue => true
  | _ => false

/-- What holds of the queue in every reachable state. -/
structure CvBase (w : World) : Prop where
  coherent : Coherent (fun i => (w.wait i).pc.pre = true) w.cv
  sound : Sound (w.cv.ledger conditionVariable 0)
  enqueued : ∀ i, (w.wait i).pc.pre = false → i ∈ w.cv.history.enqueued
  registered : ∀ i, (w.wait i).registered = true → (w.wait i).pc.pre = false

section
variable {w v : World} {i j : OpId}

@[simp] theorem setWait_self (w : World) (i : OpId) (o : Wait) : (w.setWait i o).wait i = o :=
  Function.update_self ..

theorem setWait_of_ne (w : World) (o : Wait) (h : j ≠ i) : (w.setWait i o).wait j = w.wait j :=
  Function.update_of_ne h ..

/-- A coroutine that is suspended does not look at its flags, so it may be given
a continuation. -/
theorem active_suspend (q : Waiters) (i : OpId) : (q.set i Waiter.suspend).active = q.active := by
  refine List.filter_congr fun j _ => ?_
  by_cases hj : j = i
  · subst hj
    rw [set_self]
    rfl
  · rw [set_of_ne q _ hj]

theorem suspend_flags (q : Waiters) (i j : OpId) :
    ((q.set i Waiter.suspend).waiter j).active = (q.waiter j).active ∧
    ((q.set i Waiter.suspend).waiter j).completed = (q.waiter j).completed ∧
    ((q.set i Waiter.suspend).waiter j).cancelled = (q.waiter j).cancelled := by
  by_cases hj : j = i
  · subst hj
    rw [set_self]
    exact ⟨rfl, rfl, rfl⟩
  · rw [set_of_ne q _ hj]
    exact ⟨rfl, rfl, rfl⟩

theorem coherent_suspend {pre : OpId → Prop} {sh : Shared Unit} (h : Coherent pre sh)
    (hi : ¬ pre i) : Coherent pre (sh.set i Waiter.suspend) := by
  have hfl := suspend_flags sh.toWaiters i
  refine ⟨⟨h.wellFormed.nodup, fun j hj => ?_⟩, fun j hj => ?_, h.queue, h.fresh, fun j hj ha => ?_,
    fun j => ?_, fun j hj => ?_⟩
  · have hact : (sh.set i Waiter.suspend).toWaiters.active = sh.toWaiters.active :=
      active_suspend sh.toWaiters i
    exact (hfl j).2.1.trans (h.wellFormed.pending j (hact ▸ hj))
  · have hne : j ≠ i := fun he => hi (he ▸ hj)
    exact (set_of_ne sh.toWaiters _ hne).trans (h.record j hj)
  · exact h.live j hj ((hfl j).1.symm.trans ha)
  · exact (iff_of_eq (congrArg (· = true) (hfl j).2.2)).trans (h.flag j)
  · exact h.settled j ((hfl j).2.1.symm.trans hj)

theorem sound_cvMoved {sh sh' : Shared Unit} (h : Sound (sh.ledger conditionVariable 0))
    (hm : Moved conditionVariable 0 sh sh') : Sound (sh'.ledger conditionVariable 0) :=
  sound_moved h hm

/-- A step that leaves the queue alone. -/
theorem cvBase_keep (h : CvBase w) (hcv : v.cv = w.cv)
    (hpc : ∀ j, (v.wait j).pc.pre = (w.wait j).pc.pre)
    (hreg : ∀ j, (v.wait j).registered = true →
      (w.wait j).registered = true ∨ (w.wait j).pc.pre = false) : CvBase v := by
  refine ⟨?_, by rw [hcv]; exact h.sound, fun j hj => ?_, fun j hj => ?_⟩
  · rw [hcv]
    exact h.coherent.mono fun j hj => (hpc j).symm.trans hj
  · rw [hcv]
    exact h.enqueued j ((hpc j).symm.trans hj)
  · rw [hpc j]
    exact (hreg j hj).elim (h.registered j) id

/-- What touches neither the queue nor a call. -/
theorem CvBase.frame (h : CvBase w) (hcv : v.cv = w.cv) (hw : v.wait = w.wait) : CvBase v :=
  cvBase_keep h hcv (fun j => by rw [hw]) fun j hj => .inl (by rw [← hw]; exact hj)

/-- The same, when only the call `i` goes on. -/
theorem cvBase_setWait {o : Wait} (h : CvBase w) (hpc : o.pc.pre = (w.wait i).pc.pre)
    (hreg : o.registered = true → (w.wait i).registered = true ∨ (w.wait i).pc.pre = false) :
    CvBase (w.setWait i o) := by
  refine cvBase_keep h rfl (fun j => ?_) fun j hj => ?_
  · by_cases he : j = i
    · subst he
      rw [setWait_self]
      exact hpc
    · rw [setWait_of_ne w o he]
  · by_cases he : j = i
    · subst he
      rw [setWait_self] at hj
      exact hreg hj
    · rw [setWait_of_ne w o he] at hj
      exact .inl hj

theorem cvBase_goto {p : WaitPc} (h : CvBase w) (hi : (w.wait i).pc.pre = false)
    (hp : p.pre = false) : CvBase (w.goto i p) :=
  cvBase_setWait h (hp.trans hi.symm) .inl

/-- `wait` queues its waiter. -/
theorem cvBase_enqueue (h : CvBase w) (hpc : (w.wait i).pc = .enqueue) :
    CvBase ({ w with cv := w.cv.enqueueWaiter i }.goto i .register) := by
  have hpre : (w.wait i).pc.pre = true := by rw [hpc]; rfl
  have hrec := h.coherent.record i hpre
  have hwait : ∀ j, j ≠ i → (({ w with cv := w.cv.enqueueWaiter i } : World).goto i
      .register).wait j = w.wait j := fun j hj => setWait_of_ne _ _ hj
  have hself : (({ w with cv := w.cv.enqueueWaiter i } : World).goto i .register).wait i =
      { w.wait i with pc := .register } := setWait_self _ _ _
  have hpost : Coherent (fun j => ((({ w with cv := w.cv.enqueueWaiter i } : World).goto i
      .register).wait j).pc.pre = true) w.cv := by
    refine h.coherent.mono fun j hj => ?_
    by_cases he : j = i
    · rw [he]
      exact hpre
    · rwa [hwait j he] at hj
  refine ⟨?_, ?_, fun j hj => ?_, fun j hj => ?_⟩
  · refine coherent_enqueue hpost ?_ (h.coherent.queue i hpre) (congrArg Waiter.completed hrec)
    rw [hself]
    exact Bool.false_ne_true
  · refine sound_cvMoved h.sound (.inr ⟨.enqueue i, ?_⟩)
    have hperm : (w.cv.ledger conditionVariable 0).permits ≤ 0 := Int.le_refl 0
    have hf : (w.cv.ledger conditionVariable 0).Fresh i := h.coherent.fresh i hpre
    simp only [PermitQueue.step, hperm, hf, and_self, if_true, Option.some.injEq]
    have hact : (w.cv.enqueueWaiter i).toWaiters.active = w.cv.toWaiters.active ++ [i] :=
      active_pushBack (congrArg Waiter.active hrec)
    have hcv : (({ w with cv := w.cv.enqueueWaiter i } : World).goto i .register).cv =
        w.cv.enqueueWaiter i := rfl
    simp only [hcv, Shared.ledger, hact]
    rfl
  · by_cases he : j = i
    · rw [he]
      exact mem_snoc_self _ i
    · rw [hwait j he] at hj
      exact List.mem_append_left _ (h.enqueued j hj)
  · by_cases he : j = i
    · rw [he, hself]
      rfl
    · rw [hwait j he] at hj ⊢
      exact h.registered j hj

/-- `await_suspend` sets the continuation. -/
theorem cvBase_suspend (h : CvBase w) (hi : (w.wait i).pc.pre = false) :
    CvBase { w with cv := w.cv.set i Waiter.suspend } := by
  refine ⟨coherent_suspend h.coherent (by rw [hi]; exact Bool.false_ne_true), ?_, h.enqueued,
    h.registered⟩
  have hled : (w.cv.set i Waiter.suspend).ledger conditionVariable 0 =
      w.cv.ledger conditionVariable 0 := by
    simp only [Shared.ledger, Shared.set, active_suspend]
  rw [hled]
  exact h.sound

theorem cvBase_cancel {sh : Shared Unit} {r : Resumptions} (h : CvBase w)
    (hi : (w.wait i).pc.pre = false) (hc : w.cv.cancel i = some sh) :
    CvBase { w with cv := sh, toResumptions := r } := by
  have hpre : ¬ (w.wait i).pc.pre = true := by rw [hi]; exact Bool.false_ne_true
  obtain ⟨hcoh, hm, _, _, _, _, henq⟩ :=
    cancel_keeps (P := conditionVariable) (n := 0) h.coherent hc hpre (h.enqueued i hi)
  exact ⟨hcoh, sound_cvMoved h.sound hm, fun j hj => henq ▸ h.enqueued j hj, h.registered⟩

theorem cvBase_notify {sh : Shared Unit} {r : Resumptions} {k : Notify} {is : List OpId}
    (h : CvBase w) (hr : w.cv.release conditionVariable k = .ok (is, sh)) :
    CvBase { w with cv := sh, toResumptions := r } := by
  obtain ⟨hcoh, hm, _, _, henq⟩ := release_keeps (n := 0) h.coherent hr
  exact ⟨hcoh, sound_cvMoved h.sound hm, fun j hj => henq ▸ h.enqueued j hj, h.registered⟩

theorem cancelWaiter_wait (w : World) (i : OpId) (onLoop : Bool) :
    (w.cancelWaiter i onLoop).wait = w.wait := by
  unfold World.cancelWaiter
  split <;> rfl

theorem cvBase_cancelWaiter (h : CvBase w) (hi : (w.wait i).pc.pre = false) (onLoop : Bool) :
    CvBase (w.cancelWaiter i onLoop) := by
  unfold World.cancelWaiter
  split
  · exact h
  · rename_i sh hc
    exact cvBase_cancel h hi hc

/-- A resumed coroutine was at its suspension, or in the lock at its end. -/
theorem cvBase_resumeCoroutine (h : CvBase w) (i : OpId) : CvBase (w.resumeCoroutine i) := by
  have hb : CvBase { w with resumed := Function.update w.resumed i (w.resumed i + 1) } :=
    ⟨h.coherent, h.sound, h.enqueued, h.registered⟩
  unfold World.resumeCoroutine
  dsimp only
  split
  · rename_i hpc
    exact cvBase_goto hb (by rw [hpc]; rfl) rfl
  · rename_i hpc
    exact cvBase_goto hb (by rw [hpc]; rfl) rfl
  · exact hb

theorem cvBase_continueWith (h : CvBase w) (r : Resumptions × Option OpId) :
    CvBase (w.continueWith r) := by
  obtain ⟨r, o⟩ := r
  have hb : CvBase { w with toResumptions := r } :=
    ⟨h.coherent, h.sound, h.enqueued, h.registered⟩
  cases o with
  | none => exact hb
  | some i => exact cvBase_resumeCoroutine hb i

theorem cvBase_continueInline (h : CvBase w) (hi : (w.wait i).pc.pre = false) :
    CvBase (w.continueInline i) := by
  have hb : CvBase { w with
      continuedInline :=
        Function.update w.continuedInline i (w.continuedInline i + 1) } :=
    ⟨h.coherent, h.sound, h.enqueued, h.registered⟩
  exact cvBase_goto hb hi rfl

theorem cvBase_runWait (h : CvBase w) (hs : runWait w i = some v) : CvBase v := by
  unfold runWait at hs
  cases hpc : (w.wait i).pc with
  | enqueue =>
    simp only [hpc, Option.some.injEq] at hs
    subst hs
    exact cvBase_enqueue h hpc
  | register =>
    have hi : (w.wait i).pc.pre = false := by rw [hpc]; rfl
    simp only [hpc, Option.some.injEq] at hs
    split at hs
    · subst hs
      exact cvBase_goto h hi rfl
    · split at hs <;> subst hs
      · have hb := cvBase_cancelWaiter h hi (w.wait i).onLoop
        refine cvBase_goto hb ?_ rfl
        rw [cancelWaiter_wait]
        exact hi
      · exact cvBase_setWait h hi.symm fun _ => .inr hi
  | unlock =>
    have hi : (w.wait i).pc.pre = false := by rw [hpc]; rfl
    simp only [hpc, World.unlockWait] at hs
    split at hs
    · cases hs
      exact cvBase_goto h hi rfl
    · obtain ⟨m, _, rfl⟩ := Option.map_eq_some_iff.mp hs
      have hb : CvBase { w with
          mutex := m, unlocked := w.unlocked ++ [(w.wait i).caller],
          released := w.released ++ [i] } := ⟨h.coherent, h.sound, h.enqueued, h.registered⟩
      exact cvBase_goto hb hi rfl
  | ready =>
    have hi : (w.wait i).pc.pre = false := by rw [hpc]; rfl
    simp only [hpc, Option.some.injEq] at hs
    split at hs <;> subst hs
    · exact cvBase_continueInline h hi
    · exact cvBase_goto h hi rfl
  | suspend =>
    have hi : (w.wait i).pc.pre = false := by rw [hpc]; rfl
    simp only [hpc, Option.some.injEq] at hs
    subst hs
    exact cvBase_goto (cvBase_suspend h hi) hi rfl
  | recheck =>
    have hi : (w.wait i).pc.pre = false := by rw [hpc]; rfl
    simp only [hpc, Option.some.injEq] at hs
    split at hs <;> subst hs
    · exact cvBase_continueInline h hi
    · exact cvBase_goto h hi rfl
  | resumed =>
    have hi : (w.wait i).pc.pre = false := by rw [hpc]; rfl
    simp only [hpc] at hs
    obtain ⟨m, _, rfl⟩ := Option.map_eq_some_iff.mp hs
    have hb : CvBase { w with mutex := m } := ⟨h.coherent, h.sound, h.enqueued, h.registered⟩
    exact cvBase_setWait hb hi.symm nofun
  | relock =>
    have hi : (w.wait i).pc.pre = false := by rw [hpc]; rfl
    simp only [hpc] at hs
    split at hs <;> cases hs
    · exact cvBase_goto h hi rfl
    · exact cvBase_goto h hi rfl
  | idle | suspended | done _ | threw => simp [hpc] at hs

/-- The step lemma for the queue. -/
theorem cvBase_step {l : WorldLabel} (h : CvBase w) (hs : w.step l = some v) : CvBase v := by
  cases l with
  | mutex l =>
    simp only [World.step] at hs
    split at hs
    · obtain ⟨m, _, rfl⟩ := Option.map_eq_some_iff.mp hs
      exact ⟨h.coherent, h.sound, h.enqueued, h.registered⟩
    · cases hs
  | unlock j onLoop =>
    simp only [World.step] at hs
    split at hs
    · obtain ⟨m, _, rfl⟩ := Option.map_eq_some_iff.mp hs
      exact ⟨h.coherent, h.sound, h.enqueued, h.registered⟩
    · cases hs
  | wait i j onLoop stopPossible =>
    simp only [World.step] at hs
    split at hs
    · rename_i hpc _
      have hi : (w.wait i).pc.pre = true := by rw [hpc]; rfl
      split at hs
      · cases hs
        have hb : CvBase { w with left := w.left ++ [j] } :=
          ⟨h.coherent, h.sound, h.enqueued, h.registered⟩
        exact cvBase_setWait hb hi.symm .inl
      · cases hs
    · cases hs
  | run i => exact cvBase_runWait h hs
  | notify k onLoop =>
    simp only [World.step] at hs
    split at hs
    · rename_i hr
      cases hs
      exact cvBase_notify h hr
    · cases hs
  | requestStop i =>
    simp only [World.step] at hs
    split at hs <;> cases hs
    exact cvBase_setWait h rfl .inl
  | stopCallback i onLoop =>
    simp only [World.step, Bool.and_eq_true] at hs
    split at hs
    · rename_i hc
      cases hs
      have hi := h.registered i hc.2
      have hb := cvBase_cancelWaiter h hi onLoop
      exact cvBase_setWait hb (by rw [cancelWaiter_wait]) nofun
    · cases hs
  | resume c | runPosted =>
    obtain ⟨r, _, rfl⟩ := Option.map_eq_some_iff.mp hs
    exact cvBase_continueWith h r
  | shutdown =>
    cases hs
    exact ⟨h.coherent, h.sound, h.enqueued, h.registered⟩

theorem cvBase_new : CvBase {} := by
  refine ⟨coherent_new _ _, sound_new (Int.le_refl 0), nofun, nofun⟩

theorem reachable_cvBase (h : Reachable World.system w) : CvBase w := by
  refine h.invariant ?_ ?_
  · intro w h0
    cases h0
    exact cvBase_new
  · intro w l v _ hI hs
    exact cvBase_step hI hs

end

end LuvCoro.Sync
