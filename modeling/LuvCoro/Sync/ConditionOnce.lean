import LuvCoro.Sync.Condition

/-! # Who continues a coroutine that waits

As in `Once`, for `async_condition_variable::wait`, whose waiter is in the queue
before it has a continuation; with that, what is known of all three primitives. -/
namespace LuvCoro.Sync

open Transition PermitQueue Resumptions

namespace World

def continuations (w : World) : Continuations where
  inline := w.continuedInline
  resumed := w.resumed
  suspended i := (w.wait i).pc = .suspended
  returned i := (w.wait i).pc = .resumed
  completed i := (w.cv.waiter i).completed = true
  owed := w.owed

def continued (w : World) (i : OpId) : Nat := w.continuedInline i + w.resumed i

/-- Nobody is completed between the store of its continuation and the last look
of its `await_suspend`, the continuation is not stored while its resumption is
under way, and no post of a resumption is refused. -/
def Clean (w : World) : WorldLabel → Prop
  | .notify k _ =>
    ∀ i ∈ w.cv.toWaiters.active.take (notifyUnits k w.cv.toWaiters), (w.wait i).pc ≠ .recheck
  | .run i => (w.wait i).pc = .suspend → i ∉ w.owed
  | .stopCallback i _ => i ∈ w.cv.toWaiters.active → (w.wait i).pc ≠ .recheck
  | .resume c => w.refuses w.continuation c = false
  | _ => True

end World

/-- What is to come for a call of `wait`, at each of its points. -/
def WaitAt (w : World) (i : OpId) : Prop :=
  match (w.wait i).pc with
  | .idle | .enqueue => w.continued i = 0 ∧ i ∉ w.owed
  | .register | .unlock | .ready | .suspend | .threw =>
    w.continued i = 0 ∧ w.continuation i = false
  | .recheck => w.continued i = 0 ∧ w.continuation i = true ∧ i ∉ w.owed
  | .suspended =>
    w.continued i = 0 ∧ w.continuation i = true ∧
      w.owed.count i = if (w.cv.waiter i).completed then 1 else 0
  | .resumed | .relock | .done _ =>
    w.continued i = 1 ∧ (w.cv.waiter i).completed = true ∧
      (i ∈ w.owed → w.continuation i = false)

section
variable {w v : World} {i j : OpId}

/-- A call is left alone. -/
theorem waitAt_congr (h : WaitAt w j) (hpc : (v.wait j).pc = (w.wait j).pc)
    (hc : v.continued j = w.continued j) (ho : v.owed.count j = w.owed.count j)
    (hw : v.cv.waiter j = w.cv.waiter j) : WaitAt v j := by
  have hm : j ∈ v.owed ↔ j ∈ w.owed := by
    rw [← List.count_pos_iff, ← List.count_pos_iff, ho]
  unfold WaitAt World.continuation at *
  rw [hpc, hc, ho, hm, hw]
  exact h

theorem waitAt_setWait {o : Wait} (hat : ∀ j, WaitAt w j) (hi : WaitAt (w.setWait i o) i)
    (j : OpId) : WaitAt (w.setWait i o) j := by
  by_cases hj : j = i
  · rw [hj]
    exact hi
  · exact waitAt_congr (hat j) (congrArg Wait.pc (setWait_of_ne w o hj)) rfl rfl rfl

/-- The call does not move, whatever else changes of it. -/
theorem waitAt_same {o : Wait} (hat : ∀ j, WaitAt w j) (ho : o.pc = (w.wait i).pc) (j : OpId) :
    WaitAt (w.setWait i o) j := by
  refine waitAt_setWait hat ?_ j
  refine waitAt_congr (hat i) ?_ rfl rfl rfl
  rw [setWait_self, ho]

/-- The coroutine of a call that is not yet suspended goes on by itself. -/
theorem waitAt_continueInline (hat : ∀ j, WaitAt w j) (hc : w.continued i = 0)
    (hcompl : (w.cv.waiter i).completed = true) (ho : i ∈ w.owed → w.continuation i = false)
    (j : OpId) : WaitAt (w.continueInline i) j := by
  by_cases hj : j = i
  · subst hj
    unfold WaitAt
    simp only [World.continueInline, World.goto, setWait_self]
    refine ⟨?_, hcompl, ho⟩
    unfold World.continued at hc ⊢
    simp only [World.setWait, Function.update_self]
    omega
  · refine waitAt_congr (hat j) ?_ ?_ rfl rfl
    · simp only [World.continueInline, World.goto, setWait_of_ne _ _ hj]
    · simp only [World.continued, World.continueInline, World.goto, World.setWait,
        Function.update_of_ne hj]

/-- A waiter is completed, with the resumption that leaves, before its last look. -/
theorem waitAt_complete {sh : Shared Unit} {r : Resumptions} (h : WaitAt w j)
    (hpc : (w.wait j).pc ≠ .recheck) (hpre : (w.wait j).pc.pre = false)
    (hn : (w.cv.waiter j).completed = false) (hcompl : (sh.waiter j).completed = true)
    (hcont : (sh.waiter j).continuation = (w.cv.waiter j).continuation)
    (ho : w.continuation j = true → r.owed.count j = w.owed.count j + 1) :
    WaitAt { w with cv := sh, toResumptions := r } j := by
  unfold WaitAt at h ⊢
  dsimp only
  cases hp : (w.wait j).pc with
  | idle | enqueue => simp [hp, WaitPc.pre] at hpre
  | register | unlock | ready | suspend | threw =>
    simp only [hp] at h ⊢
    exact ⟨h.1, hcont.trans h.2⟩
  | recheck => exact absurd hp hpc
  | suspended =>
    simp only [hp] at h ⊢
    refine ⟨h.1, hcont.trans h.2.1, ?_⟩
    rw [hcompl, if_pos rfl]
    have hcnt := h.2.2
    rw [hn, if_neg Bool.false_ne_true] at hcnt
    exact (ho h.2.1).trans (by rw [hcnt])
  | resumed | relock | done _ =>
    simp only [hp] at h
    cases hn.symm.trans h.2.1

theorem waitAt_cancelWaiter (h : CvBase w) (hat : ∀ j, WaitAt w j)
    (hi : (w.wait i).pc.pre = false)
    (hg : i ∈ w.cv.toWaiters.active → (w.wait i).pc ≠ .recheck) (onLoop : Bool) (j : OpId) :
    WaitAt (w.cancelWaiter i onLoop) j := by
  unfold World.cancelWaiter
  split
  · exact hat j
  · rename_i sh hc
    have hpre : ¬ (w.wait i).pc.pre = true := by rw [hi]; exact Bool.false_ne_true
    obtain ⟨_, _, hact, hrec, hoth, _, _⟩ :=
      cancel_keeps (P := conditionVariable) (n := 0) h.coherent hc hpre (h.enqueued i hi)
    have hcont : (sh.waiter i).continuation = (w.cv.waiter i).continuation := by
      rw [hrec]
      rfl
    have howed := owed_start w.toResumptions onLoop
      (if (sh.waiter i).continuation then [i] else [])
    by_cases hj : j = i
    · subst hj
      refine waitAt_complete (hat j) (hg hact) hi (h.coherent.wellFormed.pending j hact)
        (congrArg Waiter.completed hrec) hcont fun hx => ?_
      have hx' : (sh.waiter j).continuation = true := hcont.trans hx
      rw [howed.count_eq, hx', if_pos rfl, List.count_append, List.count_singleton_self,
        Nat.add_comm]
    · refine waitAt_congr (hat j) rfl rfl ?_ (hoth j hj)
      have h0 : (if (sh.waiter i).continuation then [i] else []).count j = 0 := by
        split
        · exact count_others (List.Subset.refl _) hj
        · rfl
      exact (howed.count_eq j).trans (by rw [List.count_append, h0, Nat.zero_add])

theorem waitAt_notify {sh : Shared Unit} {k : Notify} {is : List OpId} (h : CvBase w)
    (hat : ∀ j, WaitAt w j) (hr : w.cv.release conditionVariable k = .ok (is, sh))
    (hg : ∀ i ∈ w.cv.toWaiters.active.take (notifyUnits k w.cv.toWaiters),
      (w.wait i).pc ≠ .recheck) (onLoop : Bool) (j : OpId) :
    WaitAt { w with cv := sh, toResumptions := w.toResumptions.start onLoop is } j := by
  obtain ⟨_, _, htake, hpops, _⟩ := release_keeps (n := 0) h.coherent hr
  have howed := owed_start w.toResumptions onLoop is
  by_cases hj : j ∈ is
  · have hact : j ∈ w.cv.toWaiters.active := List.mem_of_mem_take (htake ▸ hj)
    have hpre : (w.wait j).pc.pre = false := by
      by_contra hp
      exact h.coherent.queue j (by simpa using hp) (mem_active.mp hact).1
    have hone : is.count j = 1 := by
      refine List.count_eq_one_of_mem ?_ hj
      rw [htake]
      exact (active_nodup h.coherent.wellFormed).sublist (List.take_sublist _ _)
    refine waitAt_complete (hat j) (hg j (htake ▸ hj)) hpre
      (h.coherent.wellFormed.pending j hact) (congrArg Waiter.completed (hpops.completed j hj))
      (by rw [hpops.completed j hj]; rfl) fun _ => ?_
    rw [howed.count_eq, List.count_append, hone, Nat.add_comm]
  · refine waitAt_congr (hat j) rfl rfl ?_ (hpops.others j hj)
    exact (howed.count_eq j).trans
      (by rw [List.count_append, List.count_eq_zero.mpr hj, Nat.zero_add])

theorem waitAt_runWait (h : CvBase w) (hat : ∀ j, WaitAt w j) (hg : w.Clean (.run i))
    (hs : runWait w i = some v) (j : OpId) : WaitAt v j := by
  have hi := hat i
  unfold runWait at hs
  cases hpc : (w.wait i).pc with
  | enqueue =>
    simp only [hpc, Option.some.injEq] at hs
    subst hs
    have hrec := h.coherent.record i (by rw [hpc]; rfl)
    have hi' : w.continued i = 0 ∧ i ∉ w.owed := by
      unfold WaitAt at hi
      rwa [hpc] at hi
    have hb : ∀ k, WaitAt { w with cv := w.cv.enqueueWaiter i } k := hat
    refine waitAt_setWait hb ?_ j
    unfold WaitAt
    rw [setWait_self]
    exact ⟨hi'.1, congrArg Waiter.continuation hrec⟩
  | register =>
    have hpre : (w.wait i).pc.pre = false := by rw [hpc]; rfl
    have hi' : w.continued i = 0 ∧ w.continuation i = false := by
      unfold WaitAt at hi
      rwa [hpc] at hi
    simp only [hpc, Option.some.injEq] at hs
    have hnext : ∀ o : Wait, o.pc = .unlock → ∀ k, WaitAt (w.setWait i o) k := by
      intro o ho k
      refine waitAt_setWait hat ?_ k
      unfold WaitAt
      rw [setWait_self, ho]
      exact hi'
    split at hs
    · subst hs
      exact hnext _ rfl j
    · split at hs <;> subst hs
      · have hcw := waitAt_cancelWaiter h hat hpre (fun _ => by rw [hpc]; exact nofun)
          (w.wait i).onLoop
        refine waitAt_setWait hcw ?_ j
        have hci := hcw i
        unfold WaitAt at hci ⊢
        rw [cancelWaiter_wait, hpc] at hci
        rw [setWait_self]
        exact hci
      · exact hnext _ rfl j
  | unlock =>
    have hi' : w.continued i = 0 ∧ w.continuation i = false := by
      unfold WaitAt at hi
      rwa [hpc] at hi
    simp only [hpc, World.unlockWait] at hs
    split at hs
    · cases hs
      refine waitAt_setWait hat ?_ j
      unfold WaitAt
      rw [setWait_self]
      exact hi'
    · obtain ⟨m, _, rfl⟩ := Option.map_eq_some_iff.mp hs
      have hb : ∀ k, WaitAt { w with
          mutex := m, unlocked := w.unlocked ++ [(w.wait i).caller],
          released := w.released ++ [i] } k := hat
      refine waitAt_setWait hb ?_ j
      unfold WaitAt
      rw [setWait_self]
      exact hi'
  | ready =>
    have hi' : w.continued i = 0 ∧ w.continuation i = false := by
      unfold WaitAt at hi
      rwa [hpc] at hi
    simp only [hpc, Option.some.injEq] at hs
    split at hs <;> subst hs
    · rename_i hc
      exact waitAt_continueInline hat hi'.1 hc (fun _ => hi'.2) j
    · refine waitAt_setWait hat ?_ j
      unfold WaitAt
      rw [setWait_self]
      exact hi'
  | suspend =>
    have hno := hg hpc
    have hi' : w.continued i = 0 ∧ w.continuation i = false := by
      unfold WaitAt at hi
      rwa [hpc] at hi
    simp only [hpc, Option.some.injEq] at hs
    subst hs
    by_cases hj : j = i
    · subst hj
      unfold WaitAt
      rw [World.goto, setWait_self]
      exact ⟨hi'.1, congrArg Waiter.continuation (set_self ..), hno⟩
    · refine waitAt_congr (hat j) ?_ rfl rfl (set_of_ne _ _ hj)
      exact congrArg Wait.pc (setWait_of_ne _ _ hj)
  | recheck =>
    have hi' : w.continued i = 0 ∧ w.continuation i = true ∧ i ∉ w.owed := by
      unfold WaitAt at hi
      rwa [hpc] at hi
    obtain ⟨hc, hcont, hno⟩ := hi'
    simp only [hpc, Option.some.injEq] at hs
    split at hs <;> subst hs
    · rename_i hcompl
      exact waitAt_continueInline hat hc hcompl (fun hm => absurd hm hno) j
    · rename_i hcompl
      refine waitAt_setWait hat ?_ j
      unfold WaitAt
      rw [setWait_self]
      have hcnt : w.owed.count i = if (w.cv.waiter i).completed then 1 else 0 := by
        rw [if_neg hcompl]
        exact List.count_eq_zero.mpr hno
      exact ⟨hc, hcont, hcnt⟩
  | resumed =>
    simp only [hpc] at hs
    obtain ⟨m, _, rfl⟩ := Option.map_eq_some_iff.mp hs
    have hb : ∀ k, WaitAt { w with mutex := m } k := hat
    refine waitAt_setWait hb ?_ j
    unfold WaitAt at hi ⊢
    rw [hpc] at hi
    rw [setWait_self]
    exact hi
  | relock =>
    simp only [hpc] at hs
    have hnext : ∀ c, WaitAt (w.goto i (.done c)) j := by
      intro c
      refine waitAt_setWait hat ?_ j
      unfold WaitAt at hi ⊢
      rw [hpc] at hi
      rw [setWait_self]
      exact hi
    split at hs <;> cases hs
    · exact hnext _
    · exact hnext _
  | idle | suspended | done _ | threw => simp [hpc] at hs

/-- Whoever has a continuation and is to be resumed is suspended. -/
theorem suspended_of_resumption (h : WaitAt w i) (hc : w.continuation i = true)
    (ho : i ∈ w.owed) : (w.wait i).pc = .suspended := by
  unfold WaitAt at h
  cases hpc : (w.wait i).pc with
  | suspended => rfl
  | idle | enqueue =>
    simp only [hpc] at h
    exact absurd ho h.2
  | register | unlock | ready | suspend | threw =>
    simp only [hpc] at h
    cases h.2.symm.trans hc
  | recheck =>
    simp only [hpc] at h
    exact absurd ho h.2.2
  | resumed | relock | done _ =>
    simp only [hpc] at h
    cases (h.2.2 ho).symm.trans hc

theorem waitAt_continueWith {r : Resumptions} {o : Option OpId} (hat : ∀ j, WaitAt w j)
    (ho : Outcome w.toResumptions w.continuation false r o) (j : OpId) :
    WaitAt (w.continueWith (r, o)) j := by
  cases ho with
  | resumed i hc hp =>
    have hmem : i ∈ w.owed := hp.symm.subset List.mem_cons_self
    have hpc := suspended_of_resumption (hat i) hc hmem
    have heq : w.continueWith (r, some i) =
        ({ w with
          toResumptions := r
          resumed := Function.update w.resumed i (w.resumed i + 1) } : World).goto i
            .resumed := by
      simp only [World.continueWith, World.resumeCoroutine, hpc]
    rw [heq]
    by_cases hj : j = i
    · subst hj
      have hi := hat j
      unfold WaitAt at hi
      rw [hpc] at hi
      obtain ⟨hcont, _, hcnt⟩ := hi
      have hcnt' : w.owed.count j = r.owed.count j + 1 := by
        rw [hp.count_eq, List.count_cons_self]
      have hcompl : (w.cv.waiter j).completed = true := by
        by_contra hn
        rw [if_neg hn] at hcnt
        omega
      rw [if_pos hcompl] at hcnt
      have hgone : j ∉ r.owed := List.count_eq_zero.mp (by omega)
      unfold WaitAt
      simp only [World.goto, setWait_self]
      refine ⟨?_, hcompl, fun hm => absurd hm hgone⟩
      unfold World.continued at hcont ⊢
      simp only [World.setWait, Function.update_self]
      omega
    · refine waitAt_congr (hat j) ?_ ?_ ?_ rfl
      · exact congrArg Wait.pc (setWait_of_ne _ _ hj)
      · simp only [World.continued, World.goto, World.setWait, Function.update_of_ne hj]
      · show r.owed.count j = w.owed.count j
        rw [hp.count_eq, List.count_cons_of_ne (Ne.symm hj)]
  | posted hp => exact waitAt_congr (hat j) rfl rfl (hp.count_eq j).symm rfl
  | skipped i hc hp =>
    by_cases hj : j = i
    · -- without a continuation a call is not past its last look
      subst hj
      have hsub : j ∈ r.owed → j ∈ w.owed := fun hm => hp.symm.subset (List.mem_cons_of_mem _ hm)
      have hi := hat j
      unfold WaitAt at hi ⊢
      simp only [World.continueWith]
      cases hpc : (w.wait j).pc with
      | idle | enqueue =>
        simp only [hpc] at hi ⊢
        exact ⟨hi.1, fun hm => hi.2 (hsub hm)⟩
      | register | unlock | ready | suspend | threw =>
        simp only [hpc] at hi ⊢
        exact hi
      | recheck =>
        simp only [hpc] at hi
        cases hc.symm.trans hi.2.1
      | suspended =>
        simp only [hpc] at hi
        cases hc.symm.trans hi.2.1
      | resumed | relock | done _ =>
        simp only [hpc] at hi ⊢
        exact ⟨hi.1, hi.2.1, fun _ => hc⟩
    · refine waitAt_congr (hat j) rfl rfl ?_ rfl
      show r.owed.count j = w.owed.count j
      rw [hp.count_eq, List.count_cons_of_ne (Ne.symm hj)]
  | refused hr _ => cases hr

/-- The step lemma. -/
theorem waitAt_step {l : WorldLabel} (h : CvBase w) (hat : ∀ j, WaitAt w j) (hg : w.Clean l)
    (hs : w.step l = some v) (j : OpId) : WaitAt v j := by
  cases l with
  | mutex l =>
    simp only [World.step] at hs
    split at hs
    · obtain ⟨m, _, rfl⟩ := Option.map_eq_some_iff.mp hs
      exact hat j
    · cases hs
  | unlock k onLoop =>
    simp only [World.step] at hs
    split at hs
    · obtain ⟨m, _, rfl⟩ := Option.map_eq_some_iff.mp hs
      exact hat j
    · cases hs
  | wait i k onLoop stopPossible =>
    simp only [World.step] at hs
    split at hs
    · rename_i hpc _
      split at hs
      · cases hs
        have hb : ∀ x, WaitAt { w with left := w.left ++ [k] } x := hat
        refine waitAt_setWait hb ?_ j
        have hi := hat i
        unfold WaitAt at hi ⊢
        rw [hpc] at hi
        rw [setWait_self]
        exact hi
      · cases hs
    · cases hs
  | run i => exact waitAt_runWait h hat hg hs j
  | notify k onLoop =>
    simp only [World.step] at hs
    split at hs
    · rename_i hr
      cases hs
      exact waitAt_notify h hat hr hg onLoop j
    · cases hs
  | requestStop i =>
    simp only [World.step] at hs
    split at hs <;> cases hs
    exact waitAt_same (i := i) (o := { w.wait i with stopRequested := true }) hat rfl j
  | stopCallback i onLoop =>
    simp only [World.step, Bool.and_eq_true] at hs
    split at hs
    · rename_i hc
      cases hs
      have hcw := waitAt_cancelWaiter h hat (h.registered i hc.2) hg onLoop
      exact waitAt_same hcw (by rw [cancelWaiter_wait]) j
    · cases hs
  | resume c =>
    obtain ⟨⟨r, o⟩, hr, rfl⟩ := Option.map_eq_some_iff.mp hs
    have ho := (next_outcome hr).1
    rw [show w.refuses w.continuation c = false from hg] at ho
    exact waitAt_continueWith hat ho j
  | runPosted =>
    obtain ⟨⟨r, o⟩, hr, rfl⟩ := Option.map_eq_some_iff.mp hs
    exact waitAt_continueWith hat (runPosted_outcome hr).1 j
  | shutdown =>
    cases hs
    exact waitAt_congr (hat j) rfl rfl rfl rfl

theorem reachable_waitAt (h : ReachableBy World.system World.Clean w) : ∀ j, WaitAt w j := by
  refine h.invariant (I := fun w => ∀ j, WaitAt w j) ?_ ?_
  · intro w h0
    cases h0
    exact fun j => ⟨rfl, nofun⟩
  · intro w l v hreach hat hg hs
    exact waitAt_step (reachable_cvBase hreach.reachable) hat hg hs

theorem wait_continuedOnce (h : ReachableBy World.system World.Clean w) :
    ContinuedOnce w.continuations := by
  have hat := reachable_waitAt h
  refine ⟨fun i => ?_, fun i hpc => ?_, fun i hpc hc => ?_, fun i hpc => ?_⟩
  · have hi := hat i
    unfold WaitAt at hi
    show w.continued i ≤ 1
    cases hpc : (w.wait i).pc <;> simp only [hpc] at hi <;> omega
  · have hi := hat i
    unfold WaitAt at hi
    rw [hpc] at hi
    exact hi.1
  · have hi := hat i
    unfold WaitAt at hi
    rw [hpc] at hi
    have hcnt := hi.2.2
    rw [if_pos (show (w.cv.waiter i).completed = true from hc)] at hcnt
    have hpos : 0 < w.owed.count i := by omega
    exact List.count_pos_iff.mp hpos
  · have hi := hat i
    unfold WaitAt at hi
    rw [hpc] at hi
    exact hi.1

end

/-! ## All three primitives -/

/-- In runs whose steps are all clean, every coroutine that waits for an
`async_mutex`, an `async_semaphore` or an `async_condition_variable` is continued
exactly once. -/
theorem continued_once {initial : Int} {m : Sys Bool} {s : Sys Int} {w : World}
    (hi : 0 ≤ initial) (hm : ReachableBy (system asyncMutex false) (Clean asyncMutex) m)
    (hs : ReachableBy (system asyncSemaphore initial) (Clean asyncSemaphore) s)
    (hw : ReachableBy World.system World.Clean w) :
    ContinuedOnce m.continuations ∧ ContinuedOnce s.continuations ∧
      ContinuedOnce w.continuations := by
  refine ⟨?_, ?_, wait_continuedOnce hw⟩
  · exact continuedOnce_clean (P := asyncMutex) (by decide) hm
  · exact continuedOnce_clean (P := asyncSemaphore) hi hs

theorem continued_once_notified : ∃ w : World, (w.wait 1).pc = .suspended ∧
    (w.cv.waiter 1).completed = true ∧ 1 ∈ w.owed := by
  have h₀ : ReachableBy World.system World.Clean {} := .init rfl
  have h₁ := h₀.step (l := .mutex (.call 0 true false)) (by exact trivial) rfl
  have h₂ := h₁.step (l := .mutex (.run 0)) (by exact trivial) rfl
  have h₃ := h₂.step (l := .mutex (.run 0)) (by exact trivial) rfl
  have h₄ := h₃.step (l := .wait 1 0 true false) (by exact trivial) rfl
  have h₅ := h₄.step (l := .run 1) (by exact nofun) rfl
  have h₆ := h₅.step (l := .run 1) (by exact nofun) rfl
  have h₇ := h₆.step (l := .run 1) (by exact nofun) rfl
  have h₈ := h₇.step (l := .run 1) (by exact nofun) rfl
  have h₉ := h₈.step (l := .run 1) (by exact fun _ => nofun) rfl
  have h₁₀ := h₉.step (l := .run 1) (by exact nofun) rfl
  have h₁₁ := h₁₀.step (l := .notify .one false) (by unfold World.Clean; decide) rfl
  have h := continued_once (Int.le_refl 0) (.init rfl) (.init rfl) h₁₁
  exact ⟨_, rfl, rfl, h.2.2.due 1 rfl rfl⟩

/-- A waiter that is served before its last look goes on by itself and is resumed. -/
theorem continued_twice :
    (¬ ∀ s, Reachable (system asyncMutex false) s → ContinuedOnce s.continuations) ∧
    (¬ ∀ s, Reachable (system asyncSemaphore 0) s → ContinuedOnce s.continuations) ∧
    ¬ ∀ w, Reachable World.system w → ContinuedOnce w.continuations := by
  refine ⟨fun hall => ?_, fun hall => ?_, fun hall => ?_⟩
  · have h₀ : Reachable (system asyncMutex false) (Sys.new false) := .init rfl
    have h := h₀.run (show run (system asyncMutex false) _ [.call 0 true false, .run 0, .run 0,
      .call 1 true false, .run 1, .run 1, .run 1, .run 1, .release () false, .resume 0, .run 1,
      .runPosted] = some _ from rfl)
    exact absurd ((hall _ h).once 1) (by decide)
  · have h₀ : Reachable (system asyncSemaphore 0) (Sys.new 0) := .init rfl
    have h := h₀.run (show run (system asyncSemaphore 0) _ [.call 1 true false, .run 1, .run 1,
      .run 1, .run 1, .release 1 false, .resume 0, .run 1, .runPosted] = some _ from rfl)
    exact absurd ((hall _ h).once 1) (by decide)
  · have h₀ : Reachable World.system {} := .init rfl
    have h := h₀.run (show run World.system _ [.mutex (.call 0 true false), .mutex (.run 0),
      .mutex (.run 0), .wait 1 0 true false, .run 1, .run 1, .run 1, .run 1, .run 1,
      .notify .one false, .resume 0, .run 1, .runPosted] = some _ from rfl)
    exact absurd ((hall _ h).once 1) (by decide)

end LuvCoro.Sync
