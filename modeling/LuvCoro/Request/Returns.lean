import LuvCoro.Request.Answer

/-! # A request comes back

Whatever the kind of the request: while its coroutine is suspended, the closure that
starts it is in the queue of the loop or libuv has it, and it returns without an error
only what libuv has done. -/
namespace LuvCoro.Request

open Transition

section
variable {k : Kind} {stopPossible : Bool} {s t : Sys} {l : Label}

/-- What is known of the outcome. -/
structure Honest (s : Sys) : Prop where
  entered : s.pc = .entering → s.outcome = none ∧ s.op.continuation = false
  resumed : s.outcome ≠ none → s.op.continuation = false
  paired : s.op.continuation = s.op.keepAlive
  gone : s.op.completed = true → s.outcome ≠ none
  done : s.pc = .done → s.outcome ≠ none
  worked : ∀ r, s.flight = .worked r → s.produced = if 0 ≤ r then some r else none
  value : ∀ v, s.outcome = some (.ok v) → s.flight = .delivered ∧ s.produced ≠ none

/-- Whom a suspended coroutine waits for. -/
def Awaited (s : Sys) : Prop :=
  s.pc = .suspended → s.op.completed = false ∧ (Closure.start ∈ s.posted ∨ s.InFlight)

theorem complete_gone (hg : s.op.completed = true → s.outcome ≠ none)
    (hk : s.op.completed = false → s.op.continuation = true) : s.complete.outcome ≠ none := by
  unfold Sys.complete
  split
  · rename_i hc
    exact hg hc
  · rename_i hc
    dsimp only
    rw [if_pos (hk (Bool.eq_false_iff.mpr hc))]
    simp

theorem honest_complete (h : Honest s) (hpc : s.pc ≠ .entering) (hk : s.op.completed = false → s.op.continuation = true)
    (hv : ∀ v, s.op.awaitResume = .ok v → s.flight = .delivered ∧ s.produced ≠ none) :
    Honest s.complete where
  entered he := absurd (entering_of_complete he) hpc
  resumed ho := by
    unfold Sys.complete at ho ⊢
    split
    · rename_i hc
      rw [if_pos hc] at ho
      exact h.resumed ho
    · rfl
  paired := complete_paired h.paired
  gone _ := complete_gone h.gone hk
  done _ := complete_gone h.gone hk
  worked r hr := by
    rw [complete_flight] at hr
    rw [complete_produced]
    exact h.worked r hr
  value v ho := by
    rw [complete_flight, complete_produced]
    rcases complete_outcome s with hs | ⟨-, hs⟩
    · exact h.value v (hs ▸ ho)
    · rw [hs] at ho
      exact hv v (Option.some.inj ho)

/-- Nobody waits for a request that is completed. -/
theorem awaited_complete (h : s.pc = .suspended → s.op.completed = false) :
    Awaited s.complete := by
  intro hp
  unfold Sys.complete at hp
  split at hp
  · rename_i hc
    rw [h hp] at hc
    cases hc
  · dsimp only at hp
    split at hp
    · cases hp
    · contradiction

theorem honest_failed (h : Honest s) (hpc : s.pc ≠ .entering)
    (hk : s.op.completed = false → s.op.continuation = true)
    {status : Int} (hs : status < 0) : Honest (s.setStatus status).complete := by
  have hset : Honest (s.setStatus status) := ⟨h.entered, h.resumed, h.paired, h.gone, h.done, h.worked, h.value⟩
  refine honest_complete hset hpc hk fun v hv => ?_
  exact absurd hv (awaitResume_neg hs v)

theorem honest_start {parseRc rc : Int} (h : Honest s) (hpc : s.pc ≠ .entering)
    (hk : s.op.completed = false → s.op.continuation = true) (hidle : s.flight = .idle)
    (hsusp : s.pc = .suspended → s.op.completed = false) :
    Honest (s.start k parseRc rc) ∧ Awaited (s.start k parseRc rc) := by
  unfold Sys.start
  split
  · rename_i hc
    refine ⟨h, fun hp => ?_⟩
    rw [hsusp hp] at hc
    cases hc
  · rename_i hc
    split
    · rename_i hparse
      have hneg : parseRc < 0 := of_decide_eq_true (Bool.and_eq_true _ _ ▸ hparse).2
      exact ⟨honest_failed h hpc hk hneg, awaited_complete hsusp⟩
    · dsimp only
      have hstarted : Honest { s with
          op := { s.op with started := true, cleanupRequired := k.stores } } :=
        ⟨h.entered, h.resumed, h.paired, h.gone, h.done, h.worked, h.value⟩
      split
      · rename_i hrc
        have hneg : rc < 0 := of_decide_eq_true (Bool.and_eq_true _ _ ▸ hrc).2
        exact ⟨honest_failed hstarted hpc hk hneg, awaited_complete hsusp⟩
      · refine ⟨⟨h.entered, h.resumed, h.paired, h.gone, h.done, by simp, fun v ho => ?_⟩, fun hp => ⟨hsusp hp, ?_⟩⟩
        · have hd := (h.value v ho).1
          rw [hidle] at hd
          cases hd
        · exact .inr ⟨by simp, by simp⟩

theorem honest_uvCancel {rc : Int} (h : Honest s) : Honest (s.uvCancel rc) := by
  unfold Sys.uvCancel
  split
  · rename_i hq
    refine ⟨h.entered, h.resumed, h.paired, h.gone, h.done, by simp, fun v ho => ?_⟩
    have hd := (h.value v ho).1
    rw [hq.2] at hd
    cases hd
  · exact h

theorem honest_cancel {rc : Int} (h : Honest s) (hpc : s.pc ≠ .entering)
    (hk : s.op.completed = false → s.op.continuation = true) (hw : Awaited s) :
    Honest (s.cancel rc) ∧ Awaited (s.cancel rc) := by
  unfold Sys.cancel
  split
  · exact ⟨h, hw⟩
  · have hreq : Honest s.requestCancel := ⟨h.entered, h.resumed, h.paired, h.gone, h.done, h.worked, h.value⟩
    have hsusp : s.pc = .suspended → s.op.completed = false := fun hp => (hw hp).1
    have hneg : UV_ECANCELED < 0 := by decide
    dsimp only
    split
    · exact ⟨honest_failed hreq hpc hk hneg, awaited_complete hsusp⟩
    · have hasked : Honest (s.requestCancel.uvCancel rc) := honest_uvCancel hreq
      have hkeep : (s.requestCancel.uvCancel rc).op.completed = false →
          (s.requestCancel.uvCancel rc).op.continuation = true := by
        rw [uvCancel_op]
        exact hk
      have hpc' : (s.requestCancel.uvCancel rc).pc ≠ .entering := by
        rw [uvCancel_pc]
        exact hpc
      split
      · refine ⟨honest_failed hasked hpc' hkeep hneg, awaited_complete ?_⟩
        rw [setStatus_pc, uvCancel_pc]
        show s.pc = .suspended → (s.requestCancel.uvCancel rc).op.completed = false
        rw [uvCancel_op]
        exact hsusp
      · refine ⟨hasked, fun hp => ?_⟩
        rw [uvCancel_pc] at hp
        obtain ⟨hc, hplace⟩ := hw hp
        rw [uvCancel_op, uvCancel_posted]
        exact ⟨hc, hplace.imp id (uvCancel_inFlight s.requestCancel rc).mpr⟩

theorem honest_finish {result : Int} (h : Honest s) (hpc : s.pc ≠ .entering)
    (hk : s.op.completed = false → s.op.continuation = true)
    (hsusp : s.pc = .suspended → s.op.completed = false)
    (hproduced : 0 ≤ result → s.produced ≠ none) :
    Honest (s.finish k result) ∧ Awaited (s.finish k result) := by
  have hdelivered : Honest { s with flight := .delivered } :=
    ⟨h.entered, h.resumed, h.paired, h.gone, h.done, by simp, fun v ho => ⟨rfl, (h.value v ho).2⟩⟩
  unfold Sys.finish
  dsimp only
  split
  · rename_i hr
    have hpos : 0 ≤ result := of_decide_eq_true (Bool.and_eq_true _ _ ▸ hr).2
    have hresult : Honest { s with
        flight := .delivered, op := { s.op with result := result } } :=
      ⟨h.entered, h.resumed, h.paired, h.gone, h.done, by simp, hdelivered.value⟩
    exact ⟨honest_complete hresult hpc hk fun _ _ => ⟨rfl, hproduced hpos⟩, awaited_complete hsusp⟩
  · by_cases hneg : result < 0
    · exact ⟨honest_failed hdelivered hpc hk hneg, awaited_complete hsusp⟩
    · have hset : Honest (({ s with flight := .delivered } : Sys).setStatus result) :=
        ⟨h.entered, h.resumed, h.paired, h.gone, h.done, by simp [Sys.setStatus], hdelivered.value⟩
      refine ⟨honest_complete hset hpc hk fun _ _ => ⟨rfl, hproduced (by omega)⟩, ?_⟩
      exact awaited_complete hsusp

theorem honest_run (h : Honest s) (hr : run stopPossible s = some t) :
    Honest t ∧ Awaited t := by
  unfold run at hr
  split at hr
  · rename_i hpc
    obtain ⟨hnone, hcont⟩ := h.entered hpc
    split at hr
    · cases hr
      refine ⟨⟨by simp, fun _ => hcont, h.paired, by simp, by simp, h.worked, fun v ho => ?_⟩,
        by simp [Awaited]⟩
      have hneg : UV_ECANCELED < 0 := by decide
      exact absurd (Option.some.inj ho) (awaitResume_neg hneg v)
    · cases hr
      refine ⟨⟨?_, fun ho => absurd hnone ho, rfl, h.gone, ?_, h.worked, h.value⟩, ?_⟩
      · cases stopPossible <;> simp
      · cases stopPossible <;> simp
      · cases stopPossible <;> simp [Awaited]
  · split at hr <;> cases hr
    · exact ⟨⟨by simp, h.resumed, h.paired, h.gone, by simp, h.worked, h.value⟩, by simp [Awaited]⟩
    · exact ⟨⟨by simp, h.resumed, h.paired, h.gone, by simp, h.worked, h.value⟩, by simp [Awaited]⟩
  · split at hr <;> cases hr
    · rename_i hc
      exact ⟨⟨by simp, h.resumed, h.paired, h.gone, fun _ => h.gone hc, h.worked, h.value⟩,
        by simp [Awaited]⟩
    · rename_i hc
      have hc' : s.op.completed = false := Bool.eq_false_iff.mpr hc
      exact ⟨⟨by simp, h.resumed, h.paired, h.gone, by simp, h.worked, h.value⟩,
        fun _ => ⟨hc', .inl (by simp [Sys.post])⟩⟩
  · cases hr

/-- The closures and the callback find a request that its coroutine waits for. -/
theorem continuation_of (h : Honest s) (hb : Base s)
    (hlive : s.posted ≠ [] ∨ s.op.stopCallback = true ∨ s.InFlight) :
    s.op.completed = false → s.op.continuation = true := by
  intro hc
  rw [h.paired]
  exact hb.keeps (.inr (.inr hlive)) hc

theorem step_honest (h : Honest s) (hw : Awaited s) (hb : Base s)
    (hs : step k stopPossible s l = some t) : Honest t ∧ Awaited t := by
  have hsusp : s.pc = .suspended → s.op.completed = false := fun hp => (hw hp).1
  cases l with
  | run => exact honest_run h hs
  | requestStop =>
    simp only [step] at hs
    split at hs <;> cases hs
    exact ⟨⟨h.entered, h.resumed, h.paired, h.gone, h.done, h.worked, h.value⟩, hw⟩
  | stopCallback =>
    simp only [step] at hs
    split at hs <;> cases hs
    refine ⟨⟨h.entered, h.resumed, h.paired, h.gone, h.done, h.worked, h.value⟩, fun hp => ?_⟩
    obtain ⟨hc, hplace⟩ := hw hp
    exact ⟨hc, hplace.imp (List.mem_append_left _) id⟩
  | runPosted parseRc rc =>
    simp only [step] at hs
    split at hs
    · cases hs
    · rename_i cs hp
      cases hs
      have hpc := (base_pop hb hp).1
      have hk := continuation_of h hb (.inl (by rw [hp]; simp))
      have hidle := hb.fresh (.inr (hp ▸ List.mem_cons_self))
      exact honest_start (s := { s with posted := cs })
        ⟨h.entered, h.resumed, h.paired, h.gone, h.done, h.worked, h.value⟩ hpc hk hidle hsusp
    · rename_i cs hp
      cases hs
      have hpc := (base_pop hb hp).1
      have hk := continuation_of h hb (.inl (by rw [hp]; simp))
      refine honest_cancel (s := { s with posted := cs })
        ⟨h.entered, h.resumed, h.paired, h.gone, h.done, h.worked, h.value⟩ hpc hk fun hpc => ?_
      obtain ⟨hc, hplace⟩ := hw hpc
      rw [hp] at hplace
      exact ⟨hc, hplace.imp (by simp) id⟩
  | begin =>
    simp only [step] at hs
    split at hs <;> cases hs
    rename_i hq
    refine ⟨⟨h.entered, h.resumed, h.paired, h.gone, h.done, by simp, fun v ho => ?_⟩, fun hp => ⟨hsusp hp, ?_⟩⟩
    · have hd := (h.value v ho).1
      rw [hq] at hd
      cases hd
    · exact .inr ⟨by simp, by simp⟩
  | work r =>
    simp only [step] at hs
    split at hs <;> cases hs
    rename_i hq
    refine ⟨⟨h.entered, h.resumed, h.paired, h.gone, h.done, fun q hr => ?_, fun v ho => ?_⟩,
      fun hp => ⟨hsusp hp, .inr ⟨by simp, by simp⟩⟩⟩
    · cases hr
      rfl
    · have hd := (h.value v ho).1
      rw [hq] at hd
      cases hd
  | callback =>
    simp only [step] at hs
    have hin : s.InFlight → s.pc ≠ .entering := by
      intro hf he
      exact hf.1 (hb.fresh (.inl (by rw [he]; rfl)))
    split at hs
    · rename_i r hq
      cases hs
      have hflight : s.InFlight := ⟨by rw [hq]; simp, by rw [hq]; simp⟩
      have hpc := hin hflight
      have hk := continuation_of h hb (.inr (.inr hflight))
      refine honest_finish h hpc hk hsusp fun hr => ?_
      rw [h.worked r hq, if_pos hr]
      simp
    · rename_i hq
      cases hs
      have hflight : s.InFlight := ⟨by rw [hq]; simp, by rw [hq]; simp⟩
      have hpc := hin hflight
      have hk := continuation_of h hb (.inr (.inr hflight))
      refine honest_finish h hpc hk hsusp fun hr => ?_
      exact absurd hr (by decide)
    · cases hs

theorem reachable_honest {good : Sys → Label → Prop}
    (h : ReachableBy (system k stopPossible) good s) : Honest s ∧ Awaited s := by
  refine h.invariant (I := fun s => Honest s ∧ Awaited s) ?_ ?_
  · rintro s ⟨stopped, -, rfl⟩
    exact ⟨⟨fun _ => ⟨rfl, rfl⟩, by simp, rfl, by simp, by simp, by simp, by simp⟩, by simp [Awaited]⟩
  · intro s l t hr hI _ hs
    exact step_honest hI.1 hI.2 (reachable_base hr) hs

/-! ## What a step leaves as it is -/

/-- A coroutine goes on once. -/
theorem step_outcome (h : Honest s) (hs : step k stopPossible s l = some t)
    (ho : s.outcome ≠ none) : t.outcome = s.outcome := by
  have hcomplete : ∀ u : Sys, u.outcome = s.outcome → u.op.continuation = s.op.continuation →
      u.complete.outcome = s.outcome := by
    intro u hu hc
    rw [← hu] at ho ⊢
    refine (later_complete fun hne => ?_).outcome ho
    rw [hc]
    exact h.resumed (hu ▸ hne)
  cases l with
  | run =>
    simp only [step, run] at hs
    split at hs
    · rename_i hpc
      exact absurd (h.entered hpc).1 ho
    · split at hs <;> cases hs <;> rfl
    · split at hs <;> cases hs <;> rfl
    · cases hs
  | requestStop =>
    simp only [step] at hs
    split at hs <;> cases hs
    rfl
  | stopCallback =>
    simp only [step] at hs
    split at hs <;> cases hs
    rfl
  | runPosted parseRc rc =>
    simp only [step] at hs
    split at hs
    · cases hs
    · cases hs
      unfold Sys.start
      split
      · rfl
      · split
        · exact hcomplete _ rfl rfl
        · dsimp only
          split
          · exact hcomplete _ rfl rfl
          · rfl
    · cases hs
      unfold Sys.cancel
      split
      · rfl
      · dsimp only
        split
        · exact hcomplete _ rfl rfl
        · split
          · refine hcomplete _ ?_ ?_
            · unfold Sys.uvCancel
              split <;> rfl
            · show (Sys.uvCancel _ rc).op.continuation = _
              rw [uvCancel_op]
              rfl
          · unfold Sys.uvCancel
            split <;> rfl
  | begin =>
    simp only [step] at hs
    split at hs <;> cases hs
    rfl
  | work r =>
    simp only [step] at hs
    split at hs <;> cases hs
    rfl
  | callback =>
    have hfinish : ∀ r, (s.finish k r).outcome = s.outcome := by
      intro r
      unfold Sys.finish
      dsimp only
      split
      · exact hcomplete _ rfl rfl
      · exact hcomplete _ rfl rfl
    simp only [step] at hs
    split at hs <;> cases hs
    · exact hfinish _
    · exact hfinish _

/-- The coroutine and its stop token post closures, and do nothing to the request. -/
structure Posts (s t : Sys) : Prop where
  posted : ∃ cs, t.posted = s.posted ++ cs
  flight : t.flight = s.flight
  produced : t.produced = s.produced

theorem run_posts (hs : step k stopPossible s .run = some t) : Posts s t := by
  simp only [step, run] at hs
  split at hs
  · split at hs <;> cases hs
    · exact ⟨⟨[], by simp⟩, rfl, rfl⟩
    · exact ⟨⟨[], by simp⟩, rfl, rfl⟩
  · split at hs <;> cases hs
    · exact ⟨⟨[.cancel], rfl⟩, rfl, rfl⟩
    · exact ⟨⟨[], by simp⟩, rfl, rfl⟩
  · split at hs <;> cases hs
    · exact ⟨⟨[], by simp⟩, rfl, rfl⟩
    · exact ⟨⟨[.start], rfl⟩, rfl, rfl⟩
  · cases hs

theorem requestStop_posts (hs : step k stopPossible s .requestStop = some t) : Posts s t := by
  simp only [step] at hs
  split at hs <;> cases hs
  exact ⟨⟨[], by simp⟩, rfl, rfl⟩

theorem stopCallback_posts (hs : step k stopPossible s .stopCallback = some t) : Posts s t := by
  simp only [step] at hs
  split at hs <;> cases hs
  exact ⟨⟨[.cancel], rfl⟩, rfl, rfl⟩

theorem start_flight (s : Sys) (parseRc rc : Int) : (s.start k parseRc rc).posted = s.posted ∧
    (s.start k parseRc rc).produced = s.produced ∧
    ((s.start k parseRc rc).flight = s.flight ∨ (s.start k parseRc rc).flight = .queued) := by
  unfold Sys.start
  split
  · exact ⟨rfl, rfl, .inl rfl⟩
  · split
    · exact ⟨complete_posted _, complete_produced _, .inl (complete_flight _)⟩
    · dsimp only
      split
      · exact ⟨complete_posted _, complete_produced _, .inl (complete_flight _)⟩
      · exact ⟨rfl, rfl, .inr rfl⟩

/-- A request that cannot be cancelled stays where it is. -/
theorem cancel_flight (s : Sys) {rc : Int} (hrc : rc ≠ 0) : (s.cancel rc).posted = s.posted ∧
    (s.cancel rc).produced = s.produced ∧ (s.cancel rc).flight = s.flight := by
  have huv : s.requestCancel.uvCancel rc = s.requestCancel := if_neg fun h => hrc h.1
  unfold Sys.cancel
  split
  · exact ⟨rfl, rfl, rfl⟩
  · dsimp only
    rw [huv]
    split
    · exact ⟨complete_posted _, complete_produced _, complete_flight _⟩
    · split
      · exact ⟨complete_posted _, complete_produced _, complete_flight _⟩
      · exact ⟨rfl, rfl, rfl⟩

theorem cancel_posted (s : Sys) (rc : Int) : (s.cancel rc).posted = s.posted := by
  unfold Sys.cancel
  split
  · rfl
  · dsimp only
    split
    · exact complete_posted _
    · split
      · exact (complete_posted _).trans (uvCancel_posted ..)
      · exact uvCancel_posted ..

/-- The closure at the head of the queue is taken. -/
theorem runPosted_posted {parseRc rc : Int}
    (hs : step k stopPossible s (.runPosted parseRc rc) = some t) :
    ∃ c, s.posted = c :: t.posted := by
  simp only [step] at hs
  split at hs
  · cases hs
  · rename_i cs hp
    cases hs
    refine ⟨.start, ?_⟩
    rw [hp, (start_flight _ _ _).1]
  · rename_i cs hp
    cases hs
    refine ⟨.cancel, ?_⟩
    rw [hp, cancel_posted]

theorem finish_keeps (s : Sys) (r : Int) : (s.finish k r).posted = s.posted ∧
    (s.finish k r).produced = s.produced := by
  unfold Sys.finish
  dsimp only
  split
  · exact ⟨complete_posted _, complete_produced _⟩
  · exact ⟨complete_posted _, complete_produced _⟩

end

end LuvCoro.Request
