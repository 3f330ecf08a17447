import LuvCoro.Sync.Ownership

/-! # What a condition variable promises

A notification goes to the earliest call that has unlocked the mutex, and a call
ends with the mutex locked again. -/
namespace LuvCoro.Sync

open Transition PermitQueue Resumptions

/-! ## What the calls know -/

/-- What holds of a call at each of its points; `due` is that it is about to be
resumed. -/
def Stage (due : Prop) (w : World) (i : OpId) : Prop :=
  match (w.wait i).pc with
  | .recheck => w.continuation i = true
  | .suspended =>
    w.continuation i = true ∧ ((w.cv.waiter i).completed = true → due)
  | .resumed => (w.cv.waiter i).completed = true
  | .relock =>
    (w.cv.waiter i).completed = true ∧ (w.wait i).cancelled = (w.cv.waiter i).cancelled
  | .done c =>
    (w.cv.waiter i).completed = true ∧ c = (w.cv.waiter i).cancelled ∧
      (w.mutex.op i).pc = .done .acquired
  | _ => True

namespace World

/-- Nobody is resumed who is not suspended where the resumption is for, and no
post of a resumption is refused. -/
def Undisturbed (w : World) : WorldLabel → Prop
  | .resume c =>
    w.refuses w.continuation c = false ∧
      ∀ r i, w.toResumptions.next w.continuation c = some (r, some i) →
        (w.wait i).pc = .suspended
  | .runPosted =>
    ∀ r i, w.toResumptions.runPosted w.continuation = some (r, some i) →
      (w.wait i).pc = .suspended
  | .mutex (.resume c) =>
    w.mutex.refuses w.mutex.continuation c = false ∧
      ∀ r i, w.mutex.toResumptions.next w.mutex.continuation c = some (r, some i) →
        (w.mutex.op i).pc = .suspended
  | .mutex .runPosted =>
    ∀ r i, w.mutex.toResumptions.runPosted w.mutex.continuation = some (r, some i) →
      (w.mutex.op i).pc = .suspended
  | _ => True

end World

/-- What holds in every state of an undisturbed run. -/
structure Kept (w : World) : Prop where
  mutex : Reachable (system asyncMutex false) w.mutex
  cv : CvBase w
  own : Own w
  owed : ∀ i ∈ w.owed, (w.cv.waiter i).completed = true
  stage : ∀ i, Stage (i ∈ w.owed) w i

section
variable {w v : World} {m : Sys Bool} {i j : OpId} {due : OpId → Prop}

/-- A call is left alone. -/
theorem stage_later {p q : Prop} (h : Stage p w j) (hpc : (v.wait j).pc = (w.wait j).pc)
    (hc : (v.wait j).cancelled = (w.wait j).cancelled) (hw : v.cv.waiter j = w.cv.waiter j)
    (ho : p → q) (hd : ∀ r, (w.mutex.op j).pc = .done r → (v.mutex.op j).pc = .done r) :
    Stage q v j := by
  unfold Stage World.continuation at *
  rw [hpc, hw, hc]
  split at h
  · exact h
  · exact ⟨h.1, fun hx => ho (h.2 hx)⟩
  · exact h
  · exact h
  · exact ⟨h.1, h.2.1, hd _ h.2.2⟩
  · trivial

theorem stage_setWait {o : Wait} (hst : ∀ j, Stage (due j) w j)
    (hi : Stage (due i) (w.setWait i o) i) (j : OpId) : Stage (due j) (w.setWait i o) j := by
  by_cases hj : j = i
  · rw [hj]
    exact hi
  · have hw := setWait_of_ne w o hj
    exact stage_later (hst j) (congrArg Wait.pc hw) (congrArg Wait.cancelled hw) rfl id
      fun _ => id

/-- A call moves to a point of which nothing is known. -/
theorem stage_free {o : Wait} (hst : ∀ j, Stage (due j) w j)
    (ho : o.pc = .enqueue ∨ o.pc = .register ∨ o.pc = .unlock ∨ o.pc = .ready ∨ o.pc = .suspend)
    (j : OpId) : Stage (due j) (w.setWait i o) j := by
  refine stage_setWait hst ?_ j
  unfold Stage
  rw [setWait_self]
  rcases ho with ho | ho | ho | ho | ho <;> rw [ho] <;> trivial

theorem stage_same {o : Wait} (hst : ∀ j, Stage (due j) w j) (hpc : o.pc = (w.wait i).pc)
    (hc : o.cancelled = (w.wait i).cancelled) (j : OpId) : Stage (due j) (w.setWait i o) j := by
  refine stage_setWait hst ?_ j
  refine stage_later (hst i) ?_ ?_ rfl id fun _ => id
  · rw [setWait_self, hpc]
  · rw [setWait_self, hc]

/-- A waiter that was not completed is completed. -/
theorem stage_complete {p q : Prop} {sh : Shared Unit} {r : Resumptions} (h : Stage p w j)
    (hn : (w.cv.waiter j).completed = false)
    (hcont : (sh.waiter j).continuation = (w.cv.waiter j).continuation)
    (ho : w.continuation j = true → q) : Stage q { w with cv := sh, toResumptions := r } j := by
  unfold Stage at h ⊢
  dsimp only
  cases hp : (w.wait j).pc with
  | recheck =>
    simp only [hp] at h ⊢
    exact hcont.trans h
  | suspended =>
    simp only [hp] at h ⊢
    exact ⟨hcont.trans h.1, fun _ => ho h.1⟩
  | resumed =>
    simp only [hp] at h
    cases hn.symm.trans h
  | relock | done _ =>
    simp only [hp] at h
    cases hn.symm.trans h.1
  | idle | enqueue | register | unlock | ready | suspend | threw => trivial

theorem kept_cancelWaiter (h : Kept w) (hi : (w.wait i).pc.pre = false) (onLoop : Bool) :
    Kept (w.cancelWaiter i onLoop) := by
  have hcv := cvBase_cancelWaiter h.cv hi onLoop
  cases hc : w.cv.cancel i with
  | none =>
    have heq : w.cancelWaiter i onLoop = w := by simp only [World.cancelWaiter, hc]
    rw [heq]
    exact h
  | some sh =>
    have hpre : ¬ (w.wait i).pc.pre = true := by rw [hi]; exact Bool.false_ne_true
    obtain ⟨_, _, hact, hrec, hoth, _, henq⟩ :=
      cancel_keeps (P := conditionVariable) (n := 0) h.cv.coherent hc hpre (h.cv.enqueued i hi)
    have hcont : (sh.waiter i).continuation = (w.cv.waiter i).continuation := by
      rw [hrec]
      rfl
    have heq : w.cancelWaiter i onLoop = { w with
        cv := sh
        toResumptions := w.toResumptions.start onLoop
          (if (sh.waiter i).continuation then [i] else []) } := by
      simp only [World.cancelWaiter, hc]
    have howed := owed_start w.toResumptions onLoop
      (if (sh.waiter i).continuation then [i] else [])
    rw [heq] at hcv ⊢
    refine ⟨h.mutex, hcv, own_cv h.own henq, fun j hj => ?_, fun j => ?_⟩
    · have hlater := (cancel_later hc).completed j
      rcases List.mem_append.mp (howed.subset hj) with hm | hm
      · have hji : j = i := by
          split at hm
          · exact List.mem_singleton.mp hm
          · cases hm
        rw [hji]
        exact congrArg Waiter.completed hrec
      · exact hlater (h.owed j hm)
    · by_cases hj : j = i
      · subst hj
        refine stage_complete (h.stage j) (h.cv.coherent.wellFormed.pending j hact) hcont
          fun hx => howed.symm.subset (List.mem_append_left _ ?_)
        rw [if_pos (hcont.trans hx)]
        exact List.mem_singleton.mpr rfl
      · exact stage_later (h.stage j) rfl rfl (hoth j hj)
          (fun hm => howed.symm.subset (List.mem_append_right _ hm)) fun _ => id

theorem kept_notify {sh : Shared Unit} {k : Notify} {is : List OpId} (h : Kept w)
    (hr : w.cv.release conditionVariable k = .ok (is, sh)) (onLoop : Bool) :
    Kept { w with cv := sh, toResumptions := w.toResumptions.start onLoop is } := by
  obtain ⟨_, _, htake, hpops, henq⟩ := release_keeps (n := 0) h.cv.coherent hr
  have howed := owed_start w.toResumptions onLoop is
  refine ⟨h.mutex, cvBase_notify h.cv hr, own_cv h.own henq, fun j hj => ?_, fun j => ?_⟩
  · rcases List.mem_append.mp (howed.subset hj) with hm | hm
    · exact congrArg Waiter.completed (hpops.completed j hm)
    · exact (release_later h.cv.coherent hr).completed j (h.owed j hm)
  · by_cases hj : j ∈ is
    · have hact : j ∈ w.cv.toWaiters.active := List.mem_of_mem_take (htake ▸ hj)
      refine stage_complete (h.stage j) (h.cv.coherent.wellFormed.pending j hact) ?_
        fun _ => howed.symm.subset (List.mem_append_left _ hj)
      rw [hpops.completed j hj]
      rfl
    · exact stage_later (h.stage j) rfl rfl (hpops.others j hj)
        (fun hm => howed.symm.subset (List.mem_append_right _ hm)) fun _ => id

/-- A resumption meets a coroutine that is suspended for it. -/
theorem kept_continueWith {r : Resumptions} {o : Option OpId} (h : Kept w)
    (ho : Outcome w.toResumptions w.continuation false r o)
    (hg : ∀ i, o = some i → (w.wait i).pc = .suspended) : Kept (w.continueWith (r, o)) := by
  have hcv := cvBase_continueWith h.cv (r, o)
  cases ho with
  | resumed i hc hp =>
    have hpc := hg i rfl
    have heq : w.continueWith (r, some i) =
        ({ w with
          toResumptions := r
          resumed := Function.update w.resumed i (w.resumed i + 1) } : World).goto i
            .resumed := by
      simp only [World.continueWith, World.resumeCoroutine, hpc]
    rw [heq] at hcv ⊢
    have hown : Own { w with
        toResumptions := r, resumed := Function.update w.resumed i (w.resumed i + 1) } :=
      ⟨h.own.nodup, h.own.granted, h.own.count, h.own.left, h.own.unlockedLeft, h.own.early,
        h.own.unique, h.own.quiet, h.own.order, h.own.settled, h.own.sane⟩
    have hcompl := h.owed i (hp.symm.subset List.mem_cons_self)
    refine ⟨h.mutex, hcv, ?_, fun j hj => ?_, fun j => ?_⟩
    · refine own_setWait hown ?_ rfl nofun
      show (w.wait i).pc.past = true
      rw [hpc]
      rfl
    · exact h.owed j (hp.symm.subset (List.mem_cons_of_mem _ hj))
    · by_cases hj : j = i
      · subst hj
        unfold Stage
        rw [World.goto, setWait_self]
        exact hcompl
      · have hw := setWait_of_ne ({ w with
          toResumptions := r, resumed := Function.update w.resumed i (w.resumed i + 1) } : World)
          { w.wait i with pc := .resumed } hj
        refine stage_later (h.stage j) (congrArg Wait.pc hw) (congrArg Wait.cancelled hw) rfl
          (fun hm => ?_) fun _ => id
        exact (List.mem_cons.mp (hp.subset hm)).resolve_left hj
  | posted hp =>
    refine ⟨h.mutex, hcv, own_cv h.own rfl, fun j hj => h.owed j (hp.symm.subset hj), fun j => ?_⟩
    exact stage_later (h.stage j) rfl rfl rfl (fun hm => hp.subset hm) fun _ => id
  | skipped i hc hp =>
    refine ⟨h.mutex, hcv, own_cv h.own rfl,
      fun j hj => h.owed j (hp.symm.subset (List.mem_cons_of_mem _ hj)), fun j => ?_⟩
    by_cases hj : j = i
    · -- without a continuation it is not suspended
      subst hj
      have hst := h.stage j
      unfold Stage at hst ⊢
      cases hpc : (w.wait j).pc with
      | suspended =>
        simp only [hpc] at hst
        cases hc.symm.trans hst.1
      | _ =>
        simp only [World.continueWith, hpc] at hst ⊢
        try exact hst
    · exact stage_later (h.stage j) rfl rfl rfl
        (fun hm => (List.mem_cons.mp (hp.subset hm)).resolve_left hj) fun _ => id
  | refused hr _ => cases hr

theorem kept_runWait (h : Kept w) (hs : runWait w i = some v) : Kept v := by
  have hcv := cvBase_runWait h.cv hs
  have hok := mutexOk_async h.mutex
  have hst := h.stage i
  unfold runWait at hs
  unfold Stage at hst
  cases hpc : (w.wait i).pc with
  | enqueue =>
    simp only [hpc, Option.some.injEq] at hs
    subst hs
    have hb : ∀ k, Stage (k ∈ w.owed) { w with cv := w.cv.enqueueWaiter i } k := h.stage
    exact ⟨h.mutex, hcv, own_enqueue hok h.own hpc, h.owed, stage_free hb (.inr (.inl rfl))⟩
  | register =>
    have hpre : (w.wait i).pc.pre = false := by rw [hpc]; rfl
    simp only [hpc, Option.some.injEq] at hs
    split at hs
    · subst hs
      exact ⟨h.mutex, hcv, own_register h.own hpc rfl rfl, h.owed,
        stage_free h.stage (.inr (.inr (.inl rfl)))⟩
    · split at hs <;> subst hs
      · have hc := kept_cancelWaiter h hpre (w.wait i).onLoop
        have hwait := cancelWaiter_wait w i (w.wait i).onLoop
        refine ⟨hc.mutex, hcv, own_register hc.own ?_ rfl rfl, hc.owed,
          stage_free hc.stage (.inr (.inr (.inl rfl)))⟩
        rw [hwait]
        exact hpc
      · exact ⟨h.mutex, hcv, own_register h.own hpc rfl rfl, h.owed,
          stage_free h.stage (.inr (.inr (.inl rfl)))⟩
  | unlock =>
    have hlocked := (holds_of_early hok h.own (i := i) (by rw [hpc]; rfl)).1
    obtain ⟨is, sh, hrel, _⟩ := release_locked "async_mutex is not locked" hlocked
    have hrel' : w.mutex.shared.release asyncMutex () = .ok (is, sh) := hrel
    simp only [hpc, World.unlockWait, hrel'] at hs
    obtain ⟨m, hm, rfl⟩ := Option.map_eq_some_iff.mp hs
    obtain ⟨hms, hq⟩ := mutexStep_unlock h.mutex hlocked hm
    have hnext : Reachable (system asyncMutex false) m :=
      h.mutex.next (l := .release () (w.wait i).onLoop) hm
    have hb : ∀ k, Stage (k ∈ w.owed) { w with
        mutex := m, unlocked := w.unlocked ++ [(w.wait i).caller],
        released := w.released ++ [i] } k :=
      fun k => stage_later (h.stage k) rfl rfl rfl id (hms.done k)
    exact ⟨hnext, hcv, own_unlockWait hok h.own hpc hms (fun k => hq k (by simp)) rfl, h.owed,
      stage_free hb (.inr (.inr (.inr (.inl rfl))))⟩
  | ready =>
    have hpast : (w.wait i).pc.past = true := by rw [hpc]; rfl
    simp only [hpc, Option.some.injEq] at hs
    split at hs <;> subst hs
    · rename_i hc
      have hown : Own { w with
          continuedInline :=
            Function.update w.continuedInline i (w.continuedInline i + 1) } :=
        ⟨h.own.nodup, h.own.granted, h.own.count, h.own.left, h.own.unlockedLeft, h.own.early,
          h.own.unique, h.own.quiet, h.own.order, h.own.settled, h.own.sane⟩
      have hb : ∀ k, Stage (k ∈ w.owed) { w with
          continuedInline :=
            Function.update w.continuedInline i (w.continuedInline i + 1) } k := h.stage
      refine ⟨h.mutex, hcv, own_setWait hown hpast rfl (by simp), h.owed,
        stage_setWait hb ?_⟩
      unfold Stage
      rw [setWait_self]
      exact hc
    · exact ⟨h.mutex, hcv, own_setWait h.own hpast rfl (by simp), h.owed,
        stage_free h.stage (.inr (.inr (.inr (.inr rfl))))⟩
  | suspend =>
    have hpast : (w.wait i).pc.past = true := by rw [hpc]; rfl
    simp only [hpc, Option.some.injEq] at hs
    subst hs
    have hfl := suspend_flags w.cv.toWaiters i
    have hown : Own { w with cv := w.cv.set i Waiter.suspend } := own_cv h.own rfl
    refine ⟨h.mutex, hcv, own_setWait hown hpast rfl (by simp), fun j hj => ?_,
      fun j => ?_⟩
    · exact (hfl j).2.1.trans (h.owed j hj)
    · by_cases hj : j = i
      · subst hj
        unfold Stage
        rw [World.goto, setWait_self]
        exact congrArg Waiter.continuation (set_self ..)
      · have hw := setWait_of_ne ({ w with cv := w.cv.set i Waiter.suspend } : World)
          { w.wait i with pc := .recheck } hj
        exact stage_later (h.stage j) (congrArg Wait.pc hw) (congrArg Wait.cancelled hw)
          (set_of_ne _ _ hj) id fun _ => id
  | recheck =>
    have hpast : (w.wait i).pc.past = true := by rw [hpc]; rfl
    simp only [hpc] at hst
    simp only [hpc, Option.some.injEq] at hs
    split at hs <;> subst hs <;> rename_i hc
    · have hown : Own { w with
          continuedInline :=
            Function.update w.continuedInline i (w.continuedInline i + 1) } :=
        ⟨h.own.nodup, h.own.granted, h.own.count, h.own.left, h.own.unlockedLeft, h.own.early,
          h.own.unique, h.own.quiet, h.own.order, h.own.settled, h.own.sane⟩
      have hb : ∀ k, Stage (k ∈ w.owed) { w with
          continuedInline :=
            Function.update w.continuedInline i (w.continuedInline i + 1) } k := h.stage
      refine ⟨h.mutex, hcv, own_setWait hown hpast rfl (by simp), h.owed,
        stage_setWait hb ?_⟩
      unfold Stage
      rw [setWait_self]
      exact hc
    · refine ⟨h.mutex, hcv, own_setWait h.own hpast rfl (by simp), h.owed,
        stage_setWait h.stage ?_⟩
      unfold Stage
      rw [setWait_self]
      exact ⟨hst, fun hx => absurd hx hc⟩
  | resumed =>
    have hpast : (w.wait i).pc.past = true := by rw [hpc]; rfl
    simp only [hpc] at hst
    simp only [hpc] at hs
    obtain ⟨m, hm, rfl⟩ := Option.map_eq_some_iff.mp hs
    obtain ⟨hms, hq⟩ := mutexStep_async h.mutex hm (by simp)
    have hnext : Reachable (system asyncMutex false) m :=
      h.mutex.next (l := .call i (w.wait i).onLoop false) hm
    have hown := own_mutex h.own hms fun k _ => hq k (by simp)
    have hb : ∀ k, Stage (k ∈ w.owed) { w with mutex := m } k :=
      fun k => stage_later (h.stage k) rfl rfl rfl id (hms.done k)
    refine ⟨hnext, hcv, own_setWait hown hpast rfl (by simp), h.owed,
      stage_setWait hb ?_⟩
    unfold Stage
    rw [setWait_self]
    exact ⟨hst, rfl⟩
  | relock =>
    have hpast : (w.wait i).pc.past = true := by rw [hpc]; rfl
    simp only [hpc] at hst
    simp only [hpc] at hs
    split at hs <;> cases hs
    · rename_i hd
      refine ⟨h.mutex, hcv, own_setWait h.own hpast rfl (by simp), h.owed,
        stage_setWait h.stage ?_⟩
      unfold Stage
      rw [setWait_self]
      exact ⟨hst.1, hst.2, hd⟩
    · rename_i hd
      exact absurd rfl (acquired_of_done hok h.own (by rw [hpc]; simp) hd)
  | idle | suspended | done _ | threw => simp [hpc] at hs

/-- The step lemma. -/
theorem kept_step {l : WorldLabel} (h : Kept w) (hg : w.Undisturbed l)
    (hs : w.step l = some v) : Kept v := by
  have hcv := cvBase_step h.cv hs
  have hok := mutexOk_async h.mutex
  cases l with
  | mutex l =>
    simp only [World.step] at hs
    split at hs
    · rename_i hfree
      obtain ⟨m, hm, rfl⟩ := Option.map_eq_some_iff.mp hs
      have hrel : ∀ k onLoop, l ≠ .release k onLoop := by
        intro k onLoop he
        rw [he] at hfree
        cases hfree
      obtain ⟨hms, hq⟩ := mutexStep_async h.mutex hm hrel
      have hnext : Reachable (system asyncMutex false) m := h.mutex.next hm
      have hquiet : ∀ i, (w.wait i).pc ≠ .idle →
          (m.op i).stopRequested = (w.mutex.op i).stopRequested := by
        intro i hi
        refine hq i fun he => ?_
        rw [he] at hfree
        exact hi (by simpa [World.mutexFree] using hfree)
      exact ⟨hnext, hcv, own_mutex h.own hms hquiet, h.owed,
        fun j => stage_later (h.stage j) rfl rfl rfl id (hms.done j)⟩
    · cases hs
  | unlock k onLoop =>
    simp only [World.step] at hs
    split at hs
    · rename_i hin
      obtain ⟨m, hm, rfl⟩ := Option.map_eq_some_iff.mp hs
      have hlocked := (holds_of_inside hok h.own hin).1
      obtain ⟨hms, hq⟩ := mutexStep_unlock h.mutex hlocked hm
      have hnext : Reachable (system asyncMutex false) m :=
        h.mutex.next (l := .release () onLoop) hm
      exact ⟨hnext, hcv, own_unlock hok h.own hin hms fun j => hq j (by simp), h.owed,
        fun j => stage_later (h.stage j) rfl rfl rfl id (hms.done j)⟩
    · cases hs
  | wait i k onLoop stopPossible =>
    simp only [World.step] at hs
    split at hs
    · rename_i hpc hm
      split at hs
      · rename_i hc
        rw [Bool.and_eq_true] at hc
        cases hs
        have hb : ∀ x, Stage (x ∈ w.owed) { w with left := w.left ++ [k] } x := h.stage
        exact ⟨h.mutex, hcv, own_wait hok h.own hc.1 hpc hm (by simpa using hc.2) rfl rfl, h.owed,
          stage_free hb (.inl rfl)⟩
      · cases hs
    · cases hs
  | run i => exact kept_runWait h hs
  | notify k onLoop =>
    simp only [World.step] at hs
    split at hs
    · rename_i hr
      cases hs
      exact kept_notify h hr onLoop
    · cases hs
  | requestStop i =>
    simp only [World.step] at hs
    split at hs <;> cases hs
    exact ⟨h.mutex, hcv, own_same h.own rfl rfl, h.owed,
      stage_same (i := i) (o := { w.wait i with stopRequested := true }) h.stage rfl rfl⟩
  | stopCallback i onLoop =>
    simp only [World.step, Bool.and_eq_true] at hs
    split at hs
    · rename_i hc
      cases hs
      have hk := kept_cancelWaiter h (h.cv.registered i hc.2) onLoop
      have hwait := cancelWaiter_wait w i onLoop
      refine ⟨hk.mutex, hcv, own_same hk.own ?_ ?_, hk.owed, stage_same hk.stage ?_ ?_⟩
      · rw [hwait]
      · rw [hwait]
      · rw [hwait]
      · rw [hwait]
    · cases hs
  | resume c =>
    obtain ⟨⟨r, o⟩, hr, rfl⟩ := Option.map_eq_some_iff.mp hs
    have ho := (next_outcome hr).1
    rw [hg.1] at ho
    refine kept_continueWith h ho fun i hi => ?_
    subst hi
    exact hg.2 r i hr
  | runPosted =>
    obtain ⟨⟨r, o⟩, hr, rfl⟩ := Option.map_eq_some_iff.mp hs
    refine kept_continueWith h (runPosted_outcome hr).1 fun i hi => ?_
    subst hi
    exact hg r i hr
  | shutdown =>
    obtain ⟨hms, hq⟩ := mutexStep_async (l := .shutdown) h.mutex rfl (by simp)
    have hnext : Reachable (system asyncMutex false) { w.mutex with shuttingDown := true } :=
      h.mutex.next (l := .shutdown) rfl
    cases hs
    have hown := own_mutex h.own hms fun j _ => hq j (by simp)
    exact ⟨hnext, hcv, own_cv hown rfl, h.owed,
      fun j => stage_later (h.stage j) rfl rfl rfl id (hms.done j)⟩

theorem kept_new : Kept {} := by
  refine ⟨.init rfl, cvBase_new, ?_, nofun, fun _ => trivial⟩
  exact ⟨List.nodup_nil, nofun, rfl, nofun, nofun, nofun, nofun, nofun, nofun, fun _ => rfl, nofun⟩

theorem reachable_kept (h : ReachableBy World.system World.Undisturbed w) : Kept w := by
  refine h.invariant ?_ ?_
  · intro w h0
    cases h0
    exact kept_new
  · intro w l v _ hI hg hs
    exact kept_step hI hg hs

end

/-! ## The contract -/

namespace World

/-- The call of `wait` that unlocked the mutex first among those neither notified
nor cancelled. -/
def earliest (w : World) : Option OpId :=
  w.released.find? fun i =>
    decide (i ∉ w.cv.history.handedOff) && decide (i ∉ w.cv.history.cancelled)

end World

/-- A notified call is not cancelled and ends normally, a cancelled call is not
notified and ends with `operation_cancelled`, and whoever has come to the end of
`wait` holds the mutex, until it leaves its critical section. -/
structure Contract (w : World) : Prop where
  notified : ∀ i ∈ w.cv.history.handedOff, (w.cv.waiter i).cancelled = false ∧
    ∀ c, (w.wait i).pc = .done c → c = false
  cancelled : ∀ i, (w.cv.waiter i).cancelled = true → i ∉ w.cv.history.handedOff ∧
    ∀ c, (w.wait i).pc = .done c → c = true
  holds : ∀ i c, (w.wait i).pc = .done c → i ∉ w.left → Holds w i

/-- `v` is left by a notification of the call `i`. -/
structure Notified (w v : World) (i : OpId) : Prop where
  handedOff : v.cv.history.handedOff = w.cv.history.handedOff ++ [i]
  completed : (v.cv.waiter i).completed = true
  cancelled : (v.cv.waiter i).cancelled = false

section
variable {w v : World} {i : OpId}

theorem contract_of_own {due : OpId → Prop} (hok : MutexOk w.mutex) (hcv : CvBase w) (h : Own w)
    (hst : ∀ i, Stage (due i) w i) : Contract w := by
  have hex : ∀ i ∈ w.cv.history.handedOff, (w.cv.waiter i).cancelled = false := by
    intro i hi
    have hn := hcv.sound.exclusive (i := i) (List.mem_append_right _ hi)
    by_contra hc
    exact hn (List.mem_append.mpr ((hcv.coherent.flag i).mp (by simpa using hc)))
  have hend : ∀ i c, (w.wait i).pc = .done c → c = (w.cv.waiter i).cancelled ∧
      (w.mutex.op i).pc = .done .acquired := by
    intro i c hc
    have hs := hst i
    unfold Stage at hs
    rw [hc] at hs
    exact hs.2
  refine ⟨fun i hi => ⟨hex i hi, fun c hc => ?_⟩, fun i hi => ⟨fun hm => ?_, fun c hc => ?_⟩,
    fun i c hc hleft => ?_⟩
  · rw [(hend i c hc).1, hex i hi]
  · cases (hex i hm).symm.trans hi
  · rw [(hend i c hc).1, hi]
  · exact holds_of_granted hok h (granted_of_acquired hok (hend i c hc).2)
      fun hm => hleft (h.unlockedLeft hm)

/-- The calls that have unlocked come first in the queue. -/
theorem earliest_active (hcv : CvBase w) (h : Own w) (hi : w.earliest = some i) :
    ∃ is, w.cv.toWaiters.active = i :: is := by
  have hq : w.cv.history.enqueued = w.released ∨ ∃ e, w.cv.history.enqueued = w.released ++ [e] := by
    by_cases he : ∃ e, (w.wait e).pc = .register ∨ (w.wait e).pc = .unlock
    · obtain ⟨e, he⟩ := he
      exact .inr ⟨e, h.order e he⟩
    · refine .inl (h.settled fun e => ⟨fun hc => he ⟨e, .inl hc⟩, fun hc => he ⟨e, .inr hc⟩⟩)
  have hact : w.cv.toWaiters.active = w.cv.history.enqueued.filter fun i =>
      decide (i ∉ w.cv.history.handedOff) && decide (i ∉ w.cv.history.cancelled) := by
    have hfifo : w.cv.history.enqueued.filter (· ∉ w.cv.history.cancelled) =
        w.cv.history.handedOff ++ w.cv.toWaiters.active := hcv.sound.fifo
    have hnd : (w.cv.history.handedOff ++ w.cv.toWaiters.active).Nodup := hcv.sound.queue_nodup
    rw [← List.filter_filter, hfifo, List.filter_append]
    have hnil : w.cv.history.handedOff.filter (fun i => decide (i ∉ w.cv.history.handedOff)) =
        [] := by
      refine List.filter_eq_nil_iff.mpr fun j hj => ?_
      simpa using hj
    have hall : w.cv.toWaiters.active.filter (fun i => decide (i ∉ w.cv.history.handedOff)) =
        w.cv.toWaiters.active := by
      refine List.filter_eq_self.mpr fun j hj => ?_
      rw [decide_eq_true_eq]
      exact fun hm => (List.nodup_append.mp hnd).2.2 j hm j hj rfl
    rw [hnil, hall, List.nil_append]
  unfold World.earliest at hi
  rw [← List.head?_filter] at hi
  have hcons : ∃ l, w.released.filter (fun i =>
      decide (i ∉ w.cv.history.handedOff) && decide (i ∉ w.cv.history.cancelled)) = i :: l :=
    List.head?_eq_some_iff.mp hi
  obtain ⟨l, hl⟩ := hcons
  rcases hq with hq | ⟨e, hq⟩
  · rw [hact, hq]
    exact ⟨l, hl⟩
  · rw [hact, hq, List.filter_append, hl]
    exact ⟨_, rfl⟩

/-- The section of `notify_one` serves the earliest call. -/
theorem notifyOne_earliest (hcv : CvBase w) (h : Own w) (hi : w.earliest = some i) :
    ∃ sh, w.cv.release conditionVariable .one = .ok ([i], sh) ∧
      sh.history.handedOff = w.cv.history.handedOff ++ [i] ∧
      (sh.waiter i).completed = true ∧ (sh.waiter i).cancelled = false := by
  obtain ⟨is, hact⟩ := earliest_active hcv h hi
  have hpops := (notify_pops .one hcv.coherent.wellFormed).2
  have htake := (notify_pops .one hcv.coherent.wellFormed).1
  have hone : (notify .one w.cv.toWaiters).1 = [i] := by
    rw [htake, notifyUnits, hact, List.length_cons, Nat.min_eq_left (Nat.le_add_left 1 _)]
    rfl
  refine ⟨{ w.cv with
    toWaiters := (notify .one w.cv.toWaiters).2
    history := w.cv.history.handOff (notifyUnits .one w.cv.toWaiters) [i] }, ?_, rfl, ?_, ?_⟩
  · unfold Shared.release
    rw [← hone]
    rfl
  · rw [hone] at hpops
    exact congrArg Waiter.completed (hpops.completed i (List.mem_singleton.mpr rfl))
  · have hmem : i ∈ w.cv.toWaiters.active := by
      rw [hact]
      exact List.mem_cons_self
    have hfifo := hcv.sound.mem_fifo.mp (.inr hmem)
    rw [hone] at hpops
    have hrec := congrArg Waiter.cancelled (hpops.completed i (List.mem_singleton.mpr rfl))
    refine hrec.trans ?_
    by_contra hc
    have hflag := (hcv.coherent.flag i).mp (by simpa [Waiter.complete] using hc)
    rcases hflag with hw | hr
    · exact hfifo.2 hw
    · exact (hcv.sound.refused i hr).2 hfifo.1

/-- `async_condition_variable` in an undisturbed run. -/
theorem async_contract (h : ReachableBy World.system World.Undisturbed w) :
    Contract w ∧
      (∀ i, (w.wait i).pc = .suspended → (w.cv.waiter i).completed = true → i ∈ w.owed) ∧
      ∀ i onLoop, w.earliest = some i →
        ∃ v, w.step (.notify .one onLoop) = some v ∧ Notified w v i := by
  have hk := reachable_kept h
  have hok := mutexOk_async hk.mutex
  refine ⟨contract_of_own hok hk.cv hk.own hk.stage, fun i hpc hc => ?_, fun i onLoop hi => ?_⟩
  · have hst := hk.stage i
    unfold Stage at hst
    rw [hpc] at hst
    exact hst.2 hc
  · obtain ⟨sh, hrel, hh, hc, hn⟩ := notifyOne_earliest hk.cv hk.own hi
    refine ⟨{ w with cv := sh, toResumptions := w.toResumptions.start onLoop [i] }, ?_, hh, hc, hn⟩
    simp only [World.step, hrel]

end

end LuvCoro.Sync
