import LuvCoro.Sync.LocalCondition

/-! # Calls of `wait` without the mutex

`wait` is also called by coroutines that have not locked the mutex. Where nobody
has, `unlock` throws, and by then the waiter is in the queue. -/
namespace LuvCoro.Sync

open Transition PermitQueue Resumptions

inductive AnyLabel where
  | checked (l : WorldLabel)
  /-- A call of `wait` by anyone. -/
  | wait (i : OpId) (onLoop stopPossible : Bool)

namespace World

/-- Call `i` of `wait` begins. -/
def waitAnyway (w : World) (i : OpId) (onLoop stopPossible : Bool) : Option World :=
  match (w.wait i).pc, (w.mutex.op i).pc with
  | .idle, .idle =>
    if (w.mutex.op i).stopRequested then none
    else some (w.setWait i
      { w.wait i with pc := .enqueue, onLoop := onLoop, stopPossible := stopPossible })
  | _, _ => none

def anyStep (w : World) : AnyLabel → Option World
  | .checked l => w.step l
  | .wait i onLoop stopPossible => w.waitAnyway i onLoop stopPossible

def anySystem : System World AnyLabel where
  init w := w = {}
  step := anyStep

/-- A call that comes to the `unlock` of a mutex that is not locked has been
cancelled. -/
def Withdrawn (w : World) (i : OpId) : Prop :=
  (w.wait i).pc = .unlock → w.mutex.shared.resource = false → (w.cv.waiter i).cancelled = true

def Untraced (w : World) : AnyLabel → Prop
  | .checked (.run i) => w.Withdrawn i
  | _ => True

end World

/-- The call has queued its waiter, and has neither thrown nor been resumed. -/
def WaitPc.waiting : WaitPc → Bool
  | .register | .unlock | .ready | .suspend | .recheck | .suspended => true
  | _ => false

/-- Whoever is in the queue waits, and a call that `unlock` ended was cancelled. -/
structure Rightful (w : World) : Prop where
  waits : ∀ i ∈ w.cv.toWaiters.active, (w.wait i).pc.waiting = true
  threw : ∀ i, (w.wait i).pc = .threw → (w.cv.waiter i).cancelled = true

/-- A notification completes the first in the queue, whose call waits, and leaves
the others there. -/
structure Heard (w v : World) : Prop where
  rest : v.cv.toWaiters.active = w.cv.toWaiters.active.drop 1
  first : ∀ i ∈ w.cv.toWaiters.active.take 1, (w.wait i).pc.waiting = true ∧
    (w.cv.waiter i).completed = false ∧ (v.cv.waiter i).completed = true

section
variable {w v : World} {i j : OpId}

/-- Nobody is put into the queue. -/
theorem rightful_of (h : Rightful w) (hact : ∀ j ∈ v.cv.toWaiters.active,
      j ∈ w.cv.toWaiters.active ∧ ((w.wait j).pc.waiting = true → (v.wait j).pc.waiting = true))
    (hthrew : ∀ j, (v.wait j).pc = .threw →
      (w.wait j).pc = .threw ∨ (v.cv.waiter j).cancelled = true)
    (hflag : ∀ j, (w.cv.waiter j).cancelled = true → (v.cv.waiter j).cancelled = true) :
    Rightful v := by
  refine ⟨?_, ?_⟩
  · intro j hj
    obtain ⟨hw, hkeep⟩ := hact j hj
    exact hkeep (h.waits j hw)
  · intro j hj
    rcases hthrew j hj with hw | hc
    · exact hflag j (h.threw j hw)
    · exact hc

theorem Rightful.frame (h : Rightful w) (hcv : v.cv = w.cv) (hw : v.wait = w.wait) :
    Rightful v := by
  refine rightful_of h ?_ ?_ ?_ <;> rw [hcv]
  · exact fun j hj => ⟨hj, by rw [hw]; exact id⟩
  · exact fun j hj => .inl (by rw [← hw]; exact hj)
  · exact fun j => id

theorem rightful_setWait {o : Wait} (h : Rightful w)
    (hpc : o.pc.waiting = true ∨ i ∉ w.cv.toWaiters.active)
    (hthrew : o.pc = .threw → (w.wait i).pc = .threw ∨ (w.cv.waiter i).cancelled = true) :
    Rightful (w.setWait i o) := by
  refine rightful_of h ?_ ?_ (fun j => id)
  · intro j hj
    refine ⟨hj, ?_⟩
    by_cases he : j = i
    · subst he
      rw [setWait_self]
      intro _
      exact hpc.resolve_right fun hn => hn hj
    · rw [setWait_of_ne w o he]
      exact id
  · intro j hj
    by_cases he : j = i
    · subst he
      rw [setWait_self] at hj
      exact hthrew hj
    · rw [setWait_of_ne w o he] at hj
      exact .inl hj

theorem rightful_goto {p : WaitPc} (h : Rightful w)
    (hpc : p.waiting = true ∨ i ∉ w.cv.toWaiters.active) (hthrew : p ≠ .threw) :
    Rightful (w.goto i p) :=
  rightful_setWait h hpc fun he => absurd he hthrew

/-- The queue is served, or a waiter of it is changed. -/
theorem rightful_cv {sh : Shared Unit} {r : Resumptions} (h : Rightful w)
    (hact : ∀ j ∈ sh.toWaiters.active, j ∈ w.cv.toWaiters.active)
    (hflag : ∀ j, (w.cv.waiter j).cancelled = true → (sh.waiter j).cancelled = true) :
    Rightful { w with cv := sh, toResumptions := r } :=
  rightful_of h (fun j hj => ⟨hact j hj, id⟩) (fun _ => .inl) hflag

theorem rightful_cancel {sh : Shared Unit} {r : Resumptions} (h : Rightful w) (hcv : CvBase w)
    (hi : (w.wait i).pc.pre = false) (hc : w.cv.cancel i = some sh) :
    Rightful { w with cv := sh, toResumptions := r } ∧ i ∉ sh.toWaiters.active := by
  have hpre : ¬ (w.wait i).pc.pre = true := by rw [hi]; exact Bool.false_ne_true
  obtain ⟨_, _, _, hrec, hoth, hact, _⟩ :=
    cancel_keeps (P := conditionVariable) (n := 0) hcv.coherent hc hpre (hcv.enqueued i hi)
  rw [hact]
  refine ⟨rightful_cv h ?_ ?_, ?_⟩
  · intro j hj
    rw [hact] at hj
    exact (List.mem_filter.mp hj).1
  · intro j hj
    by_cases he : j = i
    · rw [he, hrec]
      rfl
    · rw [hoth j he]
      exact hj
  · intro hmem
    simpa using (List.mem_filter.mp hmem).2

theorem heard_notify {sh : Shared Unit} {is : List OpId} (h : Rightful w) (hcv : CvBase w)
    (hr : w.cv.release conditionVariable .one = .ok (is, sh)) (hv : v.cv = sh) : Heard w v := by
  obtain ⟨_, _, htake, hpops, _⟩ := release_keeps (n := 0) hcv.coherent hr
  have hone : is = w.cv.toWaiters.active.take 1 := by
    rw [htake]
    show w.cv.toWaiters.active.take (min 1 w.cv.toWaiters.active.length) = _
    cases w.cv.toWaiters.active with
    | nil => rfl
    | cons i is =>
      rw [List.length_cons, Nat.min_eq_left (Nat.le_add_left 1 _)]
  have happ := hpops.active
  rw [hone] at happ
  rw [← hv] at hpops happ
  refine ⟨(List.append_cancel_left ((List.take_append_drop 1 _).trans happ)).symm, ?_⟩
  intro i hi
  have hact : i ∈ w.cv.toWaiters.active := List.mem_of_mem_take hi
  refine ⟨h.waits i hact, hcv.coherent.wellFormed.pending i hact, ?_⟩
  rw [hpops.completed i (hone ▸ hi)]
  rfl

theorem rightful_notify {sh : Shared Unit} {r : Resumptions} {k : Notify} {is : List OpId}
    (h : Rightful w) (hcv : CvBase w) (hr : w.cv.release conditionVariable k = .ok (is, sh)) :
    Rightful { w with cv := sh, toResumptions := r } ∧ ∀ i ∈ is, i ∉ sh.toWaiters.active := by
  obtain ⟨_, _, _, hpops, _⟩ := release_keeps (n := 0) hcv.coherent hr
  have hnodup := active_nodup hcv.coherent.wellFormed
  rw [hpops.active] at hnodup
  refine ⟨rightful_cv h ?_ ?_, ?_⟩
  · intro j hj
    rw [hpops.active]
    exact List.mem_append_right _ hj
  · intro j hj
    by_cases hm : j ∈ is
    · rw [hpops.completed j hm]
      exact hj
    · rw [hpops.others j hm]
      exact hj
  · intro i hi hact
    exact (List.nodup_append.mp hnodup).2.2 i hi i hact rfl

theorem rightful_suspend (h : Rightful w) :
    Rightful { w with cv := w.cv.set i Waiter.suspend } := by
  have hfl := suspend_flags w.cv.toWaiters i
  have hact : (w.cv.set i Waiter.suspend).toWaiters.active = w.cv.toWaiters.active :=
    active_suspend w.cv.toWaiters i
  refine rightful_cv (r := w.toResumptions) h ?_ ?_
  · intro j hj
    rwa [hact] at hj
  · intro j hj
    exact (hfl j).2.2.trans hj

theorem rightful_enqueue (h : Rightful w) (hcv : CvBase w) (hpc : (w.wait i).pc = .enqueue) :
    Rightful ({ w with cv := w.cv.enqueueWaiter i }.goto i .register) := by
  have hrec := hcv.coherent.record i (by rw [hpc]; rfl)
  have hact : (w.cv.enqueueWaiter i).toWaiters.active = w.cv.toWaiters.active ++ [i] :=
    active_pushBack (congrArg Waiter.active hrec)
  refine ⟨?_, ?_⟩
  · intro j hj
    by_cases he : j = i
    · rw [he, World.goto, setWait_self]
      rfl
    · rw [World.goto, setWait_of_ne _ _ he]
      refine h.waits j ?_
      have hj' : j ∈ w.cv.toWaiters.active ++ [i] := hact ▸ hj
      exact (List.mem_append.mp hj').resolve_right fun hm => he (List.mem_singleton.mp hm)
  · intro j hj
    by_cases he : j = i
    · rw [he, World.goto, setWait_self] at hj
      cases hj
    · rw [World.goto, setWait_of_ne _ _ he] at hj
      exact h.threw j hj

/-- Who is resumed does not wait any more. -/
theorem rightful_resumeCoroutine (h : Rightful w) (hi : i ∉ w.cv.toWaiters.active) :
    Rightful (w.resumeCoroutine i) := by
  have hb : Rightful { w with resumed := Function.update w.resumed i (w.resumed i + 1) } :=
    ⟨h.waits, h.threw⟩
  unfold World.resumeCoroutine
  dsimp only
  split
  · exact rightful_goto hb (.inr hi) (by simp)
  · exact rightful_goto hb (.inr hi) (by simp)
  · exact hb

theorem not_active_of_completed (hcv : CvBase w) (hc : (w.cv.waiter i).completed = true) :
    i ∉ w.cv.toWaiters.active := by
  intro hact
  rw [hcv.coherent.wellFormed.pending i hact] at hc
  cases hc

theorem not_active_of_pc {p : WaitPc} (h : Rightful w) (hpc : (w.wait i).pc = p)
    (hp : p.waiting = false) : i ∉ w.cv.toWaiters.active := by
  intro hact
  have hw := h.waits i hact
  rw [hpc, hp] at hw
  cases hw

/-- A cancelled waiter does not count in the queue. -/
theorem not_active_of_cancelled (hcv : CvBase w) (hi : (w.cv.waiter i).cancelled = true) :
    i ∉ w.cv.toWaiters.active := by
  intro hact
  obtain ⟨henq, hwith⟩ := hcv.sound.mem_fifo.mp (.inr hact)
  rcases (hcv.coherent.flag i).mp hi with hc | hr
  · exact hwith hc
  · exact (hcv.sound.refused i hr).2 henq

/-! ## The thread-safe condition variable -/

/-- What holds in runs without a trace of rejected calls: with the queue, that
whoever is to be resumed has left it. -/
structure Untouched (w : World) : Prop where
  cv : CvBase w
  rightful : Rightful w
  owed : ∀ i ∈ w.owed, i ∉ w.cv.toWaiters.active ∧ (w.wait i).pc.pre = false

theorem Untouched.frame (h : Untouched w) (hcv : v.cv = w.cv) (hw : v.wait = w.wait)
    (ho : ∀ i ∈ v.owed, i ∈ w.owed) : Untouched v := by
  refine ⟨h.cv.frame hcv hw, h.rightful.frame hcv hw, ?_⟩
  intro i hi
  rw [hcv, hw]
  exact h.owed i (ho i hi)

theorem untouched_setWait {o : Wait} (h : Untouched w) (hcv : CvBase (w.setWait i o))
    (hr : Rightful (w.setWait i o)) (hpre : o.pc.pre = (w.wait i).pc.pre) :
    Untouched (w.setWait i o) := by
  refine ⟨hcv, hr, ?_⟩
  intro j hj
  obtain ⟨hact, hj'⟩ := h.owed j hj
  refine ⟨hact, ?_⟩
  by_cases he : j = i
  · subst he
    rw [setWait_self, hpre]
    exact hj'
  · rwa [setWait_of_ne w o he]

theorem untouched_goto {p : WaitPc} (h : Untouched w) (hi : (w.wait i).pc.pre = false)
    (hp : p.pre = false) (hpc : p.waiting = true ∨ i ∉ w.cv.toWaiters.active)
    (hthrew : p ≠ .threw) : Untouched (w.goto i p) :=
  untouched_setWait h (cvBase_goto h.cv hi hp) (rightful_goto h.rightful hpc hthrew)
    (hp.trans hi.symm)

/-- Waiters leave the queue, and those who are to be resumed are among them. -/
theorem untouched_served {sh : Shared Unit} {is : List OpId} {onLoop : Bool} (h : Untouched w)
    (hcv : CvBase { w with cv := sh, toResumptions := w.toResumptions.start onLoop is })
    (hr : Rightful { w with cv := sh, toResumptions := w.toResumptions.start onLoop is })
    (hact : ∀ j ∈ sh.toWaiters.active, j ∈ w.cv.toWaiters.active)
    (his : ∀ j ∈ is, j ∉ sh.toWaiters.active ∧ (w.wait j).pc.pre = false) :
    Untouched { w with cv := sh, toResumptions := w.toResumptions.start onLoop is } := by
  refine ⟨hcv, hr, ?_⟩
  intro j hj
  have hperm := (owed_start w.toResumptions onLoop is).subset hj
  rcases List.mem_append.mp hperm with hm | hm
  · exact his j hm
  · obtain ⟨hn, hpre⟩ := h.owed j hm
    exact ⟨fun ha => hn (hact j ha), hpre⟩

theorem untouched_cancelWaiter (h : Untouched w) (hi : (w.wait i).pc.pre = false)
    (onLoop : Bool) : Untouched (w.cancelWaiter i onLoop) := by
  unfold World.cancelWaiter
  split
  · exact h
  · rename_i sh hc
    have hpre : ¬ (w.wait i).pc.pre = true := by rw [hi]; exact Bool.false_ne_true
    obtain ⟨_, _, _, _, _, hact, _⟩ :=
      cancel_keeps (P := conditionVariable) (n := 0) h.cv.coherent hc hpre (h.cv.enqueued i hi)
    obtain ⟨hr, hn⟩ := rightful_cancel (r := w.toResumptions.start onLoop
      (if (sh.waiter i).continuation then [i] else [])) h.rightful h.cv hi hc
    refine untouched_served h (cvBase_cancel h.cv hi hc) hr ?_ ?_
    · intro j hj
      rw [hact] at hj
      exact (List.mem_filter.mp hj).1
    · intro j hj
      split at hj
      · rw [List.mem_singleton.mp hj]
        exact ⟨hn, hi⟩
      · cases hj

theorem untouched_continueInline (h : Untouched w) (hi : (w.wait i).pc.pre = false)
    (hc : (w.cv.waiter i).completed = true) : Untouched (w.continueInline i) := by
  have hb : Untouched { w with
      continuedInline := Function.update w.continuedInline i (w.continuedInline i + 1) } :=
    h.frame rfl rfl fun _ => id
  exact untouched_goto hb hi rfl (.inr (not_active_of_completed hb.cv hc)) (by simp)

theorem untouched_suspend (h : Untouched w) (hi : (w.wait i).pc.pre = false) :
    Untouched { w with cv := w.cv.set i Waiter.suspend } := by
  refine ⟨cvBase_suspend h.cv hi, rightful_suspend h.rightful, ?_⟩
  intro j hj
  obtain ⟨hact, hpre⟩ := h.owed j hj
  refine ⟨?_, hpre⟩
  show j ∉ (w.cv.toWaiters.set i Waiter.suspend).active
  rwa [active_suspend]

theorem untouched_resumeCoroutine (h : Untouched w) (hi : i ∉ w.cv.toWaiters.active) :
    Untouched (w.resumeCoroutine i) := by
  refine ⟨cvBase_resumeCoroutine h.cv i, rightful_resumeCoroutine h.rightful hi, ?_⟩
  have hb : Untouched { w with resumed := Function.update w.resumed i (w.resumed i + 1) } :=
    h.frame rfl rfl fun _ => id
  unfold World.resumeCoroutine
  dsimp only
  split
  · rename_i hpc
    exact (untouched_goto hb (by rw [hpc]; rfl) rfl (.inr hi) (by simp)).owed
  · rename_i hpc
    exact (untouched_goto hb (by rw [hpc]; rfl) rfl (.inr hi) (by simp)).owed
  · exact hb.owed

theorem untouched_continueWith {r : Resumptions} {o : Option OpId} {refused : Bool}
    (h : Untouched w) (ho : Outcome w.toResumptions w.continuation refused r o) :
    Untouched (w.continueWith (r, o)) := by
  have hb : ∀ i ∈ r.owed, i ∈ w.owed := by
    intro i hi
    cases ho with
    | resumed j _ hp => exact hp.symm.subset (List.mem_cons_of_mem _ hi)
    | posted hp => exact hp.symm.subset hi
    | skipped j _ hp => exact hp.symm.subset (List.mem_cons_of_mem _ hi)
    | refused _ hs => exact hs hi
  have hkeep : Untouched { w with toResumptions := r } :=
    h.frame rfl rfl hb
  cases ho with
  | resumed i _ hp =>
    exact untouched_resumeCoroutine hkeep (h.owed i (hp.symm.subset List.mem_cons_self)).1
  | posted => exact hkeep
  | skipped => exact hkeep
  | refused => exact hkeep

theorem untouched_runWait (h : Untouched w) (hg : w.Withdrawn i) (hs : runWait w i = some v) :
    Untouched v := by
  have hcv := cvBase_runWait h.cv hs
  unfold runWait at hs
  cases hpc : (w.wait i).pc with
  | enqueue =>
    simp only [hpc, Option.some.injEq] at hs
    subst hs
    refine ⟨hcv, rightful_enqueue h.rightful h.cv hpc, ?_⟩
    intro j hj
    obtain ⟨hact, hpre⟩ := h.owed j hj
    have hne : j ≠ i := by
      intro he
      rw [he, hpc] at hpre
      cases hpre
    have hrec := h.cv.coherent.record i (by rw [hpc]; rfl)
    have happ : (w.cv.enqueueWaiter i).toWaiters.active = w.cv.toWaiters.active ++ [i] :=
      active_pushBack (congrArg Waiter.active hrec)
    refine ⟨?_, ?_⟩
    · show j ∉ (w.cv.enqueueWaiter i).toWaiters.active
      rw [happ]
      intro hm
      exact (List.mem_append.mp hm).elim hact fun hm => hne (List.mem_singleton.mp hm)
    · rw [World.goto, setWait_of_ne _ _ hne]
      exact hpre
  | register =>
    have hi : (w.wait i).pc.pre = false := by rw [hpc]; rfl
    simp only [hpc, Option.some.injEq] at hs
    split at hs
    · subst hs
      exact untouched_goto h hi rfl (.inl rfl) (by simp)
    · split at hs <;> subst hs
      · have hb := untouched_cancelWaiter h hi (w.wait i).onLoop
        refine untouched_goto hb ?_ rfl (.inl rfl) (by simp)
        rw [cancelWaiter_wait]
        exact hi
      · exact untouched_setWait h hcv (rightful_setWait h.rightful (.inl rfl) (by simp)) hi.symm
  | unlock =>
    have hi : (w.wait i).pc.pre = false := by rw [hpc]; rfl
    simp only [hpc, World.unlockWait] at hs
    split at hs
    · rename_i e he
      cases hs
      -- the mutex is not locked
      have hfree : w.mutex.shared.resource = false := by
        cases hr : w.mutex.shared.resource with
        | false => rfl
        | true =>
          obtain ⟨is, sh, hrel, _⟩ := release_locked "async_mutex is not locked" hr
          rw [show w.mutex.shared.release asyncMutex () = .ok (is, sh) from hrel] at he
          cases he
      have hc := hg hpc hfree
      exact untouched_setWait h hcv (rightful_setWait h.rightful
        (.inr (not_active_of_cancelled h.cv hc)) fun _ => .inr hc) hi.symm
    · obtain ⟨m, _, rfl⟩ := Option.map_eq_some_iff.mp hs
      have hb : Untouched { w with
          mutex := m, unlocked := w.unlocked ++ [(w.wait i).caller],
          released := w.released ++ [i] } :=
        h.frame rfl rfl fun _ => id
      exact untouched_goto hb hi rfl (.inl rfl) (by simp)
  | ready =>
    have hi : (w.wait i).pc.pre = false := by rw [hpc]; rfl
    simp only [hpc, Option.some.injEq] at hs
    split at hs <;> subst hs <;> rename_i hc
    · exact untouched_continueInline h hi hc
    · exact untouched_goto h hi rfl (.inl rfl) (by simp)
  | suspend =>
    have hi : (w.wait i).pc.pre = false := by rw [hpc]; rfl
    simp only [hpc, Option.some.injEq] at hs
    subst hs
    exact untouched_goto (untouched_suspend h hi) hi rfl (.inl rfl) (by simp)
  | recheck =>
    have hi : (w.wait i).pc.pre = false := by rw [hpc]; rfl
    simp only [hpc, Option.some.injEq] at hs
    split at hs <;> subst hs <;> rename_i hc
    · exact untouched_continueInline h hi hc
    · exact untouched_goto h hi rfl (.inl rfl) (by simp)
  | resumed =>
    have hi : (w.wait i).pc.pre = false := by rw [hpc]; rfl
    simp only [hpc] at hs
    obtain ⟨m, _, rfl⟩ := Option.map_eq_some_iff.mp hs
    have hn : i ∉ w.cv.toWaiters.active := not_active_of_pc h.rightful hpc rfl
    have hb : Untouched { w with mutex := m } := h.frame rfl rfl fun _ => id
    exact untouched_setWait hb hcv (rightful_setWait hb.rightful (.inr hn) (by simp)) hi.symm
  | relock =>
    have hi : (w.wait i).pc.pre = false := by rw [hpc]; rfl
    have hn : i ∉ w.cv.toWaiters.active := not_active_of_pc h.rightful hpc rfl
    simp only [hpc] at hs
    split at hs <;> cases hs
    · exact untouched_goto h hi rfl (.inr hn) (by simp)
    · exact untouched_goto h hi rfl (.inr hn) (by simp)
  | idle | suspended | done _ | threw => simp [hpc] at hs

/-- The steps of the others leave the calls of `wait` alone, or begin one. -/
theorem untouched_step {l : WorldLabel} (h : Untouched w) (hg : w.Untraced (.checked l))
    (hs : w.step l = some v) : Untouched v := by
  have hcv := cvBase_step h.cv hs
  cases l with
  | mutex l =>
    simp only [World.step] at hs
    split at hs
    · obtain ⟨m, _, rfl⟩ := Option.map_eq_some_iff.mp hs
      exact h.frame rfl rfl fun _ => id
    · cases hs
  | unlock j onLoop =>
    simp only [World.step] at hs
    split at hs
    · obtain ⟨m, _, rfl⟩ := Option.map_eq_some_iff.mp hs
      exact h.frame rfl rfl fun _ => id
    · cases hs
  | wait i j onLoop stopPossible =>
    simp only [World.step] at hs
    split at hs
    · rename_i hpc _
      split at hs
      · cases hs
        have hb : Untouched { w with left := w.left ++ [j] } := h.frame rfl rfl fun _ => id
        exact untouched_setWait hb hcv (rightful_setWait hb.rightful
          (.inr (not_active_of_pc hb.rightful hpc rfl)) (by simp)) (by rw [hpc]; rfl)
      · cases hs
    · cases hs
  | run i => exact untouched_runWait h hg hs
  | notify k onLoop =>
    simp only [World.step] at hs
    split at hs
    · rename_i is sh hr
      cases hs
      obtain ⟨_, _, htake, hpops, _⟩ := release_keeps (n := 0) h.cv.coherent hr
      obtain ⟨hright, hn⟩ :=
        rightful_notify (r := w.toResumptions.start onLoop is) h.rightful h.cv hr
      refine untouched_served h hcv hright ?_ ?_
      · intro j hj
        rw [hpops.active]
        exact List.mem_append_right _ hj
      · intro j hj
        refine ⟨hn j hj, ?_⟩
        have hw := h.rightful.waits j (List.mem_of_mem_take (htake ▸ hj))
        cases hpc : (w.wait j).pc <;> rw [hpc] at hw <;> first | rfl | cases hw
    · cases hs
  | requestStop i =>
    simp only [World.step] at hs
    split at hs <;> cases hs
    refine untouched_setWait h hcv (rightful_setWait h.rightful ?_ .inl) rfl
    by_cases hact : i ∈ w.cv.toWaiters.active
    · exact .inl (h.rightful.waits i hact)
    · exact .inr hact
  | stopCallback i onLoop =>
    simp only [World.step, Bool.and_eq_true] at hs
    split at hs
    · rename_i hc
      cases hs
      have hb := untouched_cancelWaiter h (h.cv.registered i hc.2) onLoop
      have hwait : (w.cancelWaiter i onLoop).wait i = w.wait i := by rw [cancelWaiter_wait]
      refine untouched_setWait hb hcv (rightful_setWait hb.rightful ?_ ?_) (by rw [hwait])
      · by_cases hact : i ∈ (w.cancelWaiter i onLoop).cv.toWaiters.active
        · exact .inl (hwait ▸ hb.rightful.waits i hact)
        · exact .inr hact
      · intro hpc
        exact .inl (hwait.symm ▸ hpc)
    · cases hs
  | resume c =>
    obtain ⟨⟨r, o⟩, hr, rfl⟩ := Option.map_eq_some_iff.mp hs
    exact untouched_continueWith h (next_outcome hr).1
  | runPosted =>
    obtain ⟨⟨r, o⟩, hr, rfl⟩ := Option.map_eq_some_iff.mp hs
    exact untouched_continueWith h (runPosted_outcome hr).1
  | shutdown =>
    cases hs
    exact h.frame rfl rfl fun _ => id

theorem waitAnyway_some {onLoop stopPossible : Bool}
    (h : w.waitAnyway i onLoop stopPossible = some v) :
    (w.wait i).pc = .idle ∧ v = w.setWait i
      { w.wait i with pc := .enqueue, onLoop := onLoop, stopPossible := stopPossible } := by
  unfold World.waitAnyway at h
  split at h
  · rename_i hpc _
    split at h
    · cases h
    · cases h
      exact ⟨hpc, rfl⟩
  · cases h

theorem cvBase_waitAnyway {onLoop stopPossible : Bool} (h : CvBase w)
    (hs : w.waitAnyway i onLoop stopPossible = some v) : CvBase v := by
  obtain ⟨hpc, rfl⟩ := waitAnyway_some hs
  exact cvBase_setWait h (by rw [hpc]; rfl) .inl

theorem untouched_waitAnyway {onLoop stopPossible : Bool} (h : Untouched w)
    (hs : w.waitAnyway i onLoop stopPossible = some v) : Untouched v := by
  have hcv := cvBase_waitAnyway h.cv hs
  obtain ⟨hpc, rfl⟩ := waitAnyway_some hs
  exact untouched_setWait h hcv (rightful_setWait h.rightful
    (.inr (not_active_of_pc h.rightful hpc rfl)) (by simp)) (by rw [hpc]; rfl)

theorem reachable_untouched (h : ReachableBy World.anySystem World.Untraced w) :
    Untouched w := by
  refine h.invariant ?_ ?_
  · intro w h0
    cases h0
    exact ⟨cvBase_new, ⟨nofun, nofun⟩, nofun⟩
  · intro w l v _ hI hg hs
    cases l with
    | checked l => exact untouched_step hI hg hs
    | wait i onLoop stopPossible => exact untouched_waitAnyway hI hs

/-! ## One call -/

/-- The waiter has just been made. -/
def New (cv : Shared Unit) (i : OpId) : Prop := cv.waiter i = {} ∧ i ∉ cv.waiters

theorem active_enqueueWaiter {cv : Shared Unit} (h : New cv i) :
    (cv.enqueueWaiter i).toWaiters.active = cv.toWaiters.active ++ [i] :=
  active_pushBack (congrArg Waiter.active h.1)

theorem unlockWait_free (hfree : w.mutex.shared.resource = false) :
    w.unlockWait i = some (w.goto i .threw) := by
  have he : ∃ e, w.mutex.shared.release asyncMutex () = .error e := by
    unfold Shared.release asyncMutex mutex mutexUnlock
    simp [hfree]
  obtain ⟨e, he⟩ := he
  simp only [World.unlockWait, he]

theorem cancelWaiter_mutex (w : World) (i : OpId) (onLoop : Bool) :
    (w.cancelWaiter i onLoop).mutex = w.mutex := by
  unfold World.cancelWaiter
  split <;> rfl

/-- The stop callback of a waiter that nobody has completed. -/
theorem active_cancelWaiter (onLoop : Bool) (h : w.cv.waiter i = {}) :
    (w.cancelWaiter i onLoop).cv.toWaiters.active = w.cv.toWaiters.active.filter (· ≠ i) := by
  have hc : w.cv.cancel i = some { w.cv with
      toWaiters := w.cv.toWaiters.set i Waiter.cancel, history := w.cv.history.cancel i } := by
    unfold Shared.cancel Waiters.cancelWaiter
    simp [h]
  simp only [World.cancelWaiter, hc]
  exact active_cancel w.cv.toWaiters i

/-- `stop_callback.emplace`. -/
theorem register_active (hpc : (w.wait i).pc = .register) (h : w.cv.waiter i = {}) :
    ∃ u, runWait w i = some u ∧ (u.wait i).pc = .unlock ∧ u.mutex = w.mutex ∧
      u.cv.toWaiters.active =
        if (w.wait i).stopPossible && (w.wait i).stopRequested then
          w.cv.toWaiters.active.filter (· ≠ i)
        else w.cv.toWaiters.active := by
  unfold runWait
  simp only [hpc]
  refine ⟨_, rfl, ?_⟩
  cases hp : (w.wait i).stopPossible with
  | false =>
    refine ⟨?_, rfl, rfl⟩
    show ((w.goto i .unlock).wait i).pc = _
    rw [World.goto, setWait_self]
  | true =>
    cases hr : (w.wait i).stopRequested with
    | false =>
      refine ⟨?_, rfl, rfl⟩
      show ((w.setWait i _).wait i).pc = _
      rw [setWait_self]
    | true =>
      refine ⟨?_, cancelWaiter_mutex w i (w.wait i).onLoop, ?_⟩
      · show (((w.cancelWaiter i (w.wait i).onLoop).goto i .unlock).wait i).pc = _
        rw [World.goto, setWait_self]
      · exact active_cancelWaiter (w.wait i).onLoop h

/-- A call that nobody interrupts, of a mutex that is not locked. -/
theorem rejected_call {onLoop stopPossible : Bool} (hnew : New w.cv i)
    (hfree : w.mutex.shared.resource = false)
    (hs : w.waitAnyway i onLoop stopPossible = some v) :
    ∃ u, run World.anySystem v [.checked (.run i), .checked (.run i), .checked (.run i)] = some u ∧
      (u.wait i).pc = .threw ∧
      u.cv.toWaiters.active = w.cv.toWaiters.active ++
        (if stopPossible && (w.wait i).stopRequested then [] else [i]) := by
  obtain ⟨hpc, rfl⟩ := waitAnyway_some hs
  have hout : i ∉ w.cv.toWaiters.active := fun hact => hnew.2 (mem_active.mp hact).1
  generalize ho : ({ w.wait i with
    pc := .enqueue, onLoop := onLoop, stopPossible := stopPossible } : Wait) = o
  have henq : ((w.setWait i o).wait i).pc = .enqueue := by rw [setWait_self, ← ho]
  have hrun : runWait (w.setWait i o) i =
      some ({ w.setWait i o with cv := w.cv.enqueueWaiter i }.goto i .register) := by
    unfold runWait
    simp only [henq]
    rfl
  have hact : ({ w.setWait i o with
      cv := w.cv.enqueueWaiter i }.goto i .register).cv.toWaiters.active =
      w.cv.toWaiters.active ++ [i] := active_enqueueWaiter hnew
  have hreg : (({ w.setWait i o with
      cv := w.cv.enqueueWaiter i }.goto i .register).wait i) = { o with pc := .register } := by
    rw [World.goto, setWait_self]
    exact congrArg (fun x : Wait => { x with pc := .register }) (setWait_self w i o)
  obtain ⟨u, hu, hupc, hum, hua⟩ := register_active (w := { w.setWait i o with
    cv := w.cv.enqueueWaiter i }.goto i .register) (by rw [hreg]) hnew.1
  have hufree : u.mutex.shared.resource = false := by rw [hum]; exact hfree
  refine ⟨u.goto i .threw, ?_, by rw [World.goto, setWait_self], ?_⟩
  · have hlast : runWait u i = some (u.goto i .threw) := by
      unfold runWait
      simp only [hupc]
      exact unlockWait_free hufree
    simp only [run, World.anySystem, World.anyStep, World.step, hrun, hu, hlast, Option.bind_some]
  · show u.cv.toWaiters.active = _
    rw [hua, hact, hreg, ← ho]
    dsimp only
    split
    · rw [List.filter_append, List.filter_eq_self.mpr]
      · simp
      · intro j hj
        have hne : j ≠ i := fun he => hout (he ▸ hj)
        simpa using hne
    · rfl

end

end LuvCoro.Sync

namespace LuvCoro.Sync.Local

open Transition PermitQueue Resumptions

inductive AnyLocalLabel where
  | checked (l : LocalWorldLabel)
  /-- A call of `wait` by anyone. -/
  | wait (i : OpId) (stopPossible : Bool)

namespace LocalWorld

def anyStep (w : LocalWorld) : AnyLocalLabel → Option LocalWorld
  | .checked l => w.step l
  | .wait i stopPossible =>
    (w.toWorld.waitAnyway i true stopPossible).map fun v => { w with toWorld := v }

def anySystem : System LocalWorld AnyLocalLabel where
  init w := w = {}
  step := anyStep

def Untraced (w : LocalWorld) : AnyLocalLabel → Prop
  | .checked (.run i) => w.Withdrawn i
  | _ => True

end LocalWorld

/-- What holds in runs without a trace of rejected calls. -/
structure Untouched (w : World) : Prop where
  cv : CvBase w
  rightful : Rightful w
  posted : ∀ i ∈ w.posted, (w.wait i).pc.pre = false

section
variable {w v : World} {i j : OpId}

theorem Untouched.frame (h : Untouched w) (hcv : v.cv = w.cv) (hw : v.wait = w.wait)
    (ho : ∀ i ∈ v.posted, i ∈ w.posted) : Untouched v := by
  refine ⟨h.cv.frame hcv hw, h.rightful.frame hcv hw, ?_⟩
  intro i hi
  rw [hw]
  exact h.posted i (ho i hi)

theorem untouched_setWait {o : Wait} (h : Untouched w) (hcv : CvBase (w.setWait i o))
    (hr : Rightful (w.setWait i o)) (hpre : o.pc.pre = (w.wait i).pc.pre) :
    Untouched (w.setWait i o) := by
  refine ⟨hcv, hr, ?_⟩
  intro j hj
  by_cases he : j = i
  · subst he
    rw [setWait_self, hpre]
    exact h.posted j hj
  · rw [setWait_of_ne w o he]
    exact h.posted j hj

theorem untouched_goto {p : WaitPc} (h : Untouched w) (hi : (w.wait i).pc.pre = false)
    (hp : p.pre = false) (hpc : p.waiting = true ∨ i ∉ w.cv.toWaiters.active)
    (hthrew : p ≠ .threw) : Untouched (w.goto i p) :=
  untouched_setWait h (cvBase_goto h.cv hi hp) (rightful_goto h.rightful hpc hthrew)
    (hp.trans hi.symm)

theorem untouched_continueInline (h : Untouched w) (hi : (w.wait i).pc.pre = false)
    (hc : (w.cv.waiter i).completed = true) : Untouched (w.continueInline i) := by
  have hb : Untouched { w with
      continuedInline := Function.update w.continuedInline i (w.continuedInline i + 1) } :=
    h.frame rfl rfl fun _ => id
  exact untouched_goto hb hi rfl (.inr (not_active_of_completed hb.cv hc)) (by simp)

theorem untouched_suspend (h : Untouched w) (hi : (w.wait i).pc.pre = false) :
    Untouched (Cv.suspend w i) := by
  have hb : Untouched { w with cv := w.cv.set i Waiter.suspend } :=
    ⟨cvBase_suspend h.cv hi, rightful_suspend h.rightful, h.posted⟩
  unfold Cv.suspend
  dsimp only
  split
  · rename_i hc
    exact untouched_continueInline hb hi hc
  · exact untouched_goto hb hi rfl (.inl rfl) (by simp)

theorem untouched_resumeWaiter (h : Untouched w) (hi : i ∉ w.cv.toWaiters.active) :
    Untouched (Cv.resumeWaiter w i) ∧ (Cv.resumeWaiter w i).cv = w.cv := by
  have hb : Untouched { w with resumed := Function.update w.resumed i (w.resumed i + 1) } :=
    h.frame rfl rfl fun _ => id
  unfold Cv.resumeWaiter World.resumeCoroutine
  dsimp only
  split
  · split
    · rename_i hpc
      exact ⟨untouched_goto hb (by rw [hpc]; rfl) rfl (.inr hi) (by simp), rfl⟩
    · rename_i hpc
      exact ⟨untouched_goto hb (by rw [hpc]; rfl) rfl (.inr hi) (by simp), rfl⟩
    · exact ⟨hb, rfl⟩
  · exact ⟨h, rfl⟩

/-- By induction on those who are resumed. -/
theorem untouched_resumeAll (is : List OpId) (h : Untouched w)
    (his : ∀ i ∈ is, i ∉ w.cv.toWaiters.active) :
    Untouched (is.foldl Cv.resumeWaiter w) ∧ (is.foldl Cv.resumeWaiter w).cv = w.cv := by
  induction is generalizing w with
  | nil => exact ⟨h, rfl⟩
  | cons i is ih =>
    obtain ⟨hr, hcv⟩ := untouched_resumeWaiter h (his i List.mem_cons_self)
    rw [← hcv]
    refine ih hr ?_
    intro j hj
    rw [hcv]
    exact his j (List.mem_cons_of_mem _ hj)

theorem untouched_notifyOne (h : Untouched w) : Untouched (Cv.notifyOne w).2 := by
  unfold Cv.notifyOne
  split
  · exact h
  · rename_i is sh hr
    obtain ⟨hright, hn⟩ := rightful_notify (r := w.toResumptions) h.rightful h.cv hr
    exact (untouched_resumeAll is ⟨cvBase_notify h.cv hr, hright, h.posted⟩ hn).1

theorem untouched_postCancel (h : Untouched w) (hi : (w.wait i).pc.pre = false) :
    Untouched (Cv.postCancel w i) := by
  unfold Cv.postCancel
  split
  · exact h
  · refine ⟨h.cv.frame rfl rfl, h.rightful.frame rfl rfl, ?_⟩
    intro j hj
    rcases List.mem_append.mp hj with hm | hm
    · exact h.posted j hm
    · rw [List.mem_singleton.mp hm]
      exact hi

theorem postCancel_wait (w : World) (i : OpId) : (Cv.postCancel w i).wait = w.wait := by
  unfold Cv.postCancel
  split <;> rfl

theorem untouched_runPosted (h : Untouched w) (hs : Cv.runPosted w = some v) : Untouched v := by
  unfold Cv.runPosted at hs
  split at hs
  · cases hs
  · rename_i i is hp
    have hi := h.posted i (by rw [hp]; exact List.mem_cons_self)
    have hb : Untouched { w with posted := is } := by
      refine h.frame rfl rfl ?_
      intro j hj
      rw [hp]
      exact List.mem_cons_of_mem _ hj
    dsimp only at hs
    split at hs
    · cases hs
      exact hb
    · rename_i sh hc
      cases hs
      obtain ⟨hr, hn⟩ := rightful_cancel (r := { w.toResumptions with posted := is })
        hb.rightful hb.cv hi hc
      exact (untouched_resumeWaiter ⟨cvBase_cancel hb.cv hi hc, hr, hb.posted⟩ hn).1

theorem untouched_runWait (h : Untouched w) (hg : w.Withdrawn i) (hs : Cv.runWait w i = some v) :
    Untouched v := by
  unfold Cv.runWait at hs
  cases hpc : (w.wait i).pc with
  | enqueue =>
    simp only [hpc, Option.some.injEq] at hs
    subst hs
    refine ⟨cvBase_enqueue h.cv hpc, rightful_enqueue h.rightful h.cv hpc, ?_⟩
    intro j hj
    have hpre := h.posted j hj
    have hne : j ≠ i := by
      intro he
      rw [he, hpc] at hpre
      cases hpre
    rw [World.goto, setWait_of_ne _ _ hne]
    exact hpre
  | register =>
    have hi : (w.wait i).pc.pre = false := by rw [hpc]; rfl
    simp only [hpc, Option.some.injEq] at hs
    subst hs
    unfold Cv.register
    dsimp only
    split
    · exact untouched_goto h hi rfl (.inl rfl) (by simp)
    · split
      · refine untouched_goto (untouched_postCancel h hi) ?_ rfl (.inl rfl) (by simp)
        rw [postCancel_wait]
        exact hi
      · have hb : Untouched (w.setWait i { w.wait i with registered := true }) :=
          untouched_setWait h (cvBase_setWait h.cv rfl fun _ => .inr hi)
            (rightful_setWait h.rightful (.inl (by rw [hpc]; rfl)) .inl) rfl
        refine untouched_goto hb ?_ rfl (.inl rfl) (by simp)
        rw [setWait_self]
        exact hi
  | unlock =>
    have hi : (w.wait i).pc.pre = false := by rw [hpc]; rfl
    simp only [hpc, Option.some.injEq] at hs
    subst hs
    unfold Cv.unlockWait
    dsimp only
    split
    · rename_i e he
      -- the mutex is not locked
      have hfree : w.mutex.shared.resource = false := by
        cases hr : w.mutex.shared.resource with
        | false => rfl
        | true =>
          obtain ⟨is, sh, hrel, _⟩ := release_locked "local_async_mutex is not locked" hr
          have hrel' : w.mutex.shared.release localMutex () = .ok (is, sh) := hrel
          simp only [serve, hrel'] at he
          cases he
      have hc := hg hpc hfree
      exact untouched_setWait h (cvBase_goto h.cv hi rfl) (rightful_setWait h.rightful
        (.inr (not_active_of_cancelled h.cv hc)) fun _ => .inr hc) hi.symm
    · rename_i r _
      have hb : Untouched { w with
          mutex := r.2, unlocked := w.unlocked ++ [(w.wait i).caller],
          released := w.released ++ [i] } :=
        h.frame rfl rfl fun _ => id
      exact untouched_goto hb hi rfl (.inl rfl) (by simp)
  | ready =>
    have hi : (w.wait i).pc.pre = false := by rw [hpc]; rfl
    simp only [hpc, Option.some.injEq] at hs
    split at hs <;> subst hs <;> rename_i hc
    · exact untouched_continueInline h hi hc
    · exact untouched_suspend h hi
  | resumed =>
    have hi : (w.wait i).pc.pre = false := by rw [hpc]; rfl
    simp only [hpc] at hs
    obtain ⟨m, _, rfl⟩ := Option.map_eq_some_iff.mp hs
    have hb : Untouched { w with mutex := m } := h.frame rfl rfl fun _ => id
    exact untouched_setWait hb (cvBase_setWait hb.cv hi.symm (by simp))
      (rightful_setWait hb.rightful (.inr (not_active_of_pc hb.rightful hpc rfl)) (by simp))
      hi.symm
  | relock =>
    have hi : (w.wait i).pc.pre = false := by rw [hpc]; rfl
    have hn : i ∉ w.cv.toWaiters.active := not_active_of_pc h.rightful hpc rfl
    simp only [hpc] at hs
    split at hs <;> cases hs
    · exact untouched_goto h hi rfl (.inr hn) (by simp)
    · exact untouched_goto h hi rfl (.inr hn) (by simp)
  | idle | suspend | recheck | suspended | done _ | threw => simp [hpc] at hs

theorem heard_notifyOne (h : Untouched w) : Heard w (Cv.notifyOne w).2 := by
  obtain ⟨⟨is, sh⟩, hr⟩ : ∃ r, w.cv.release conditionVariable .one = .ok r := ⟨_, rfl⟩
  obtain ⟨hright, hn⟩ := rightful_notify (r := w.toResumptions) h.rightful h.cv hr
  refine heard_notify h.rightful h.cv hr ?_
  have hb : Untouched { w with cv := sh } := ⟨cvBase_notify h.cv hr, hright, h.posted⟩
  simp only [Cv.notifyOne, hr]
  exact (untouched_resumeAll is hb hn).2

/-- The cancellation is posted at most. -/
theorem register_frame (w : World) (i : OpId) :
    (Cv.register w i).cv = w.cv ∧ (Cv.register w i).mutex = w.mutex := by
  unfold Cv.register Cv.postCancel
  dsimp only
  split
  · exact ⟨rfl, rfl⟩
  · split
    · split <;> exact ⟨rfl, rfl⟩
    · exact ⟨rfl, rfl⟩

theorem unlockWait_free (hfree : w.mutex.shared.resource = false) :
    Cv.unlockWait w i = w.goto i .threw := by
  have he : ∃ e, serve localMutex w.mutex () = .error e := by
    unfold serve Shared.release localMutex mutex mutexUnlock
    simp [hfree]
  obtain ⟨e, he⟩ := he
  simp only [Cv.unlockWait, he]

/-- A call that nobody interrupts, of a mutex that is not locked: with or without
a stop token, its waiter stays. -/
theorem rejected_call {w v : LocalWorld} {stopPossible : Bool} (hnew : New w.cv i)
    (hfree : w.mutex.shared.resource = false)
    (hs : w.anyStep (.wait i stopPossible) = some v) :
    ∃ u, run LocalWorld.anySystem v
        [.checked (.run i), .checked (.run i), .checked (.run i)] = some u ∧
      (u.wait i).pc = .threw ∧
      u.cv.toWaiters.active = w.cv.toWaiters.active ++ [i] := by
  obtain ⟨v', hv, rfl⟩ := Option.map_eq_some_iff.mp hs
  obtain ⟨_, rfl⟩ := waitAnyway_some hv
  have hfirst : Cv.runWait (w.toWorld.setWait i { w.wait i with
      pc := .enqueue, onLoop := true, stopPossible := stopPossible }) i =
      some ({ w.toWorld.setWait i { w.wait i with
        pc := .enqueue, onLoop := true, stopPossible := stopPossible } with
          cv := w.cv.enqueueWaiter i }.goto i .register) := by
    unfold Cv.runWait
    simp only [setWait_self]
    rfl
  generalize hx : ({ w.toWorld.setWait i { w.wait i with
    pc := .enqueue, onLoop := true, stopPossible := stopPossible } with
      cv := w.cv.enqueueWaiter i }.goto i .register : World) = x at hfirst
  have hxpc : (x.wait i).pc = .register := by
    rw [← hx, World.goto, setWait_self]
  have hxcv : x.cv = w.cv.enqueueWaiter i := by rw [← hx]; rfl
  have hxm : x.mutex = w.mutex := by rw [← hx]; rfl
  have hsecond : Cv.runWait x i = some ((Cv.register x i).goto i .unlock) := by
    unfold Cv.runWait
    simp only [hxpc]
  obtain ⟨hkcv, hkm⟩ := register_frame x i
  generalize hy : (Cv.register x i).goto i .unlock = y at hsecond
  have hypc : (y.wait i).pc = .unlock := by rw [← hy, World.goto, setWait_self]
  have hycv : y.cv = w.cv.enqueueWaiter i := by
    rw [← hy]
    exact hkcv.trans hxcv
  have hym : y.mutex.shared.resource = false := by
    rw [← hy]
    show (Cv.register x i).mutex.shared.resource = false
    rw [hkm, hxm]
    exact hfree
  have hthird : Cv.runWait y i = some (y.goto i .threw) := by
    unfold Cv.runWait
    simp only [hypc, unlockWait_free hym]
  refine ⟨{ w with toWorld := y.goto i .threw }, ?_, ?_, ?_⟩
  · simp only [run, LocalWorld.anySystem, LocalWorld.anyStep, LocalWorld.step, hfirst, hsecond,
      hthird, Option.map_some, Option.bind_some]
  · show ((y.goto i .threw).wait i).pc = _
    rw [World.goto, setWait_self]
  · show y.cv.toWaiters.active = _
    rw [hycv]
    exact active_enqueueWaiter hnew

end

/-- The steps of the others leave the calls of `wait` alone, or begin one. -/
theorem untouched_step {w v : LocalWorld} {l : AnyLocalLabel} (h : Untouched w.toWorld)
    (hg : w.Untraced l) (hs : w.anyStep l = some v) : Untouched v.toWorld := by
  cases l with
  | wait i stopPossible =>
    obtain ⟨u, hu, rfl⟩ := Option.map_eq_some_iff.mp hs
    obtain ⟨hpc, rfl⟩ := waitAnyway_some hu
    exact untouched_setWait h (cvBase_waitAnyway h.cv hu) (rightful_setWait h.rightful
      (.inr (not_active_of_pc h.rightful hpc rfl)) (by simp)) (by rw [hpc]; rfl)
  | checked l =>
    cases l with
    | mutex l =>
      simp only [LocalWorld.anyStep, LocalWorld.step] at hs
      split at hs
      · obtain ⟨m, _, rfl⟩ := Option.map_eq_some_iff.mp hs
        exact h.frame rfl rfl fun _ => id
      · cases hs
    | unlock j =>
      simp only [LocalWorld.anyStep, LocalWorld.step] at hs
      split at hs
      · obtain ⟨m, _, rfl⟩ := Option.map_eq_some_iff.mp hs
        exact h.frame rfl rfl fun _ => id
      · cases hs
    | wait i j stopPossible =>
      simp only [LocalWorld.anyStep, LocalWorld.step] at hs
      split at hs
      · rename_i hpc _
        split at hs
        · cases hs
          have hb : Untouched { w.toWorld with left := w.left ++ [j] } :=
            h.frame rfl rfl fun _ => id
          exact untouched_setWait hb (cvBase_setWait hb.cv (by rw [hpc]; rfl) .inl)
            (rightful_setWait hb.rightful (.inr (not_active_of_pc hb.rightful hpc rfl)) (by simp))
            (by rw [hpc]; rfl)
        · cases hs
      · cases hs
    | run i =>
      obtain ⟨u, hu, rfl⟩ := Option.map_eq_some_iff.mp hs
      exact untouched_runWait h hg hu
    | notifyOne =>
      cases hs
      exact untouched_notifyOne h
    | notifyAll =>
      cases hs
      exact h
    | turn =>
      simp only [LocalWorld.anyStep, LocalWorld.step] at hs
      split at hs
      · cases hs
      · cases hs
        exact untouched_notifyOne h
    | requestStop i =>
      simp only [LocalWorld.anyStep, LocalWorld.step] at hs
      split at hs <;> cases hs
      refine untouched_setWait h (cvBase_setWait h.cv rfl .inl)
        (rightful_setWait h.rightful ?_ .inl) rfl
      by_cases hact : i ∈ w.cv.toWaiters.active
      · exact .inl (h.rightful.waits i hact)
      · exact .inr hact
    | stopCallback i =>
      simp only [LocalWorld.anyStep, LocalWorld.step, Bool.and_eq_true] at hs
      split at hs
      · rename_i hc
        cases hs
        have hb := untouched_postCancel h (h.cv.registered i hc.2)
        have hwait : (Cv.postCancel w.toWorld i).wait i = w.wait i := by rw [postCancel_wait]
        refine untouched_setWait hb (cvBase_setWait hb.cv (by rw [hwait]) (by simp))
          (rightful_setWait hb.rightful ?_ ?_) (by rw [hwait])
        · by_cases hact : i ∈ (Cv.postCancel w.toWorld i).cv.toWaiters.active
          · exact .inl (hwait ▸ hb.rightful.waits i hact)
          · exact .inr hact
        · intro hpc
          exact .inl (hwait.symm ▸ hpc)
      · cases hs
    | runPosted =>
      obtain ⟨u, hu, rfl⟩ := Option.map_eq_some_iff.mp hs
      exact untouched_runPosted h hu
    | shutdown =>
      cases hs
      exact h.frame rfl rfl fun _ => id

theorem reachable_untouched {w : LocalWorld}
    (h : ReachableBy LocalWorld.anySystem LocalWorld.Untraced w) : Untouched w.toWorld := by
  refine h.invariant (I := fun w => Untouched w.toWorld) ?_ ?_
  · intro w h0
    cases h0
    exact ⟨cvBase_new, ⟨nofun, nofun⟩, nofun⟩
  · intro w l v _ hI hg hs
    exact untouched_step hI hg hs

end LuvCoro.Sync.Local

namespace LuvCoro.Sync

open Transition PermitQueue Local

theorem rejected_wait_leaves (w : World) (m : LocalWorld) :
    (∀ (v : World) (i : OpId) (onLoop stopPossible : Bool), New w.cv i →
      w.mutex.shared.resource = false → w.anyStep (.wait i onLoop stopPossible) = some v →
      ∃ u, run World.anySystem v
          [.checked (.run i), .checked (.run i), .checked (.run i)] = some u ∧
        (u.wait i).pc = .threw ∧
        (u.cv.toWaiters.active = w.cv.toWaiters.active ↔
          stopPossible = true ∧ (w.wait i).stopRequested = true)) ∧
    (∀ (v : LocalWorld) (i : OpId) (stopPossible : Bool), New m.cv i →
      m.mutex.shared.resource = false → m.anyStep (.wait i stopPossible) = some v →
      ∃ u, run LocalWorld.anySystem v
          [.checked (.run i), .checked (.run i), .checked (.run i)] = some u ∧
        (u.wait i).pc = .threw ∧ u.cv.toWaiters.active ≠ m.cv.toWaiters.active) ∧
    (ReachableBy World.anySystem World.Untraced w → Rightful w ∧
      ∀ onLoop v, w.anyStep (.checked (.notify .one onLoop)) = some v → Heard w v) ∧
    (ReachableBy LocalWorld.anySystem LocalWorld.Untraced m → Rightful m.toWorld ∧
      ∀ v, m.anyStep (.checked .notifyOne) = some v → Heard m.toWorld v.toWorld) := by
  refine ⟨?_, ?_, ?_, ?_⟩
  · intro v i onLoop stopPossible hnew hfree hs
    obtain ⟨u, hu, hpc, hact⟩ := Sync.rejected_call hnew hfree hs
    refine ⟨u, hu, hpc, ?_⟩
    rw [hact]
    by_cases hstop : (stopPossible && (w.wait i).stopRequested) = true
    · rw [if_pos hstop, List.append_nil]
      exact ⟨fun _ => by simpa using hstop, fun _ => rfl⟩
    · rw [if_neg hstop]
      constructor
      · intro he
        simp at he
      · intro hb
        exact absurd (by simpa using hb) hstop
  · intro v i stopPossible hnew hfree hs
    obtain ⟨u, hu, hpc, hact⟩ := Local.rejected_call hnew hfree hs
    refine ⟨u, hu, hpc, ?_⟩
    rw [hact]
    simp
  · intro h
    have hk := Sync.reachable_untouched h
    refine ⟨hk.rightful, ?_⟩
    intro onLoop v hs
    simp only [World.anyStep, World.step] at hs
    split at hs
    · rename_i hr
      cases hs
      exact heard_notify hk.rightful hk.cv hr rfl
    · cases hs
  · intro h
    have hk := Local.reachable_untouched h
    refine ⟨hk.rightful, ?_⟩
    intro v hs
    cases hs
    exact Local.heard_notifyOne hk

theorem rejected_wait_leaves_stopped : ∃ w u : World, w.mutex.shared.resource = false ∧
    (u.wait 1).pc = .threw ∧ u.cv.toWaiters.active = w.cv.toWaiters.active := by
  obtain ⟨hcall, _⟩ := rejected_wait_leaves (({} : World).setWait 1 { stopRequested := true }) {}
  obtain ⟨u, _, hpc, hact⟩ := hcall _ 1 true true ⟨rfl, List.not_mem_nil⟩ rfl rfl
  exact ⟨_, u, rfl, hpc, hact.mpr ⟨rfl, rfl⟩⟩

/-- Call 1 throws, and the notification is for it: call 2 stays suspended. -/
theorem rejected_wait_is_notified :
    (∃ w v : World, Reachable World.anySystem w ∧
      w.anyStep (.checked (.notify .one true)) = some v ∧
      (w.wait 1).pc = .threw ∧ (w.wait 2).pc = .suspended ∧
      (w.cv.waiter 1).completed = false ∧ (v.cv.waiter 1).completed = true ∧
      (v.cv.waiter 2).completed = false) ∧
    ∃ w v : LocalWorld, Reachable LocalWorld.anySystem w ∧
      w.anyStep (.checked .notifyOne) = some v ∧
      (w.wait 1).pc = .threw ∧ (w.wait 2).pc = .suspended ∧
      (w.cv.waiter 1).completed = false ∧ (v.cv.waiter 1).completed = true ∧
      (v.cv.waiter 2).completed = false := by
  refine ⟨?_, ?_⟩
  · have h₀ : Reachable World.anySystem {} := .init rfl
    have h := h₀.run (show run World.anySystem _ [.wait 1 true false, .checked (.run 1),
      .checked (.run 1), .checked (.run 1), .checked (.mutex (.call 0 true false)),
      .checked (.mutex (.run 0)), .checked (.mutex (.run 0)), .checked (.wait 2 0 true false),
      .checked (.run 2), .checked (.run 2), .checked (.run 2), .checked (.run 2),
      .checked (.run 2), .checked (.run 2)] = some _ from rfl)
    exact ⟨_, _, h, rfl, by decide, by decide, by decide, by decide, by decide⟩
  · have h₀ : Reachable LocalWorld.anySystem {} := .init rfl
    have h := h₀.run (show run LocalWorld.anySystem _ [.wait 1 false, .checked (.run 1),
      .checked (.run 1), .checked (.run 1), .checked (.mutex (.call 0 true false)),
      .checked (.mutex (.run 0)), .checked (.mutex (.run 0)), .checked (.wait 2 0 false),
      .checked (.run 2), .checked (.run 2), .checked (.run 2), .checked (.run 2)] =
        some _ from rfl)
    exact ⟨_, _, h, rfl, by decide, by decide, by decide, by decide, by decide⟩

end LuvCoro.Sync
