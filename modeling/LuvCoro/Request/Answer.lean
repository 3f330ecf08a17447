import LuvCoro.Request.Outcome

/-! # What the outcome of a file system request says

Whether the work has been done when the coroutine goes on, with which result, and that
it goes on with one outcome. -/
namespace LuvCoro.Request

open Transition

section
variable {stopPossible : Bool} {s t : Sys} {l : Label} {acted : Bool}

/-- `acted` is whether the work has been done. -/
structure Answered (s : Sys) (acted : Bool) : Prop where
  entered : s.pc = .entering → s.outcome = none ∧ s.op.continuation = false
  resumed : s.outcome ≠ none → s.op.continuation = false
  worked : acted = true → s.flight = .delivered ∨ ∃ r, s.flight = .worked r
  unworked : acted = false →
    (∀ r, s.flight ≠ .worked r) ∧ (s.flight = .delivered → s.op.cancelRequested = true)
  cancelled : s.flight = .cancelled → s.op.cancelRequested = true
  value : ∀ v, s.outcome = some (.ok v) → s.produced = some v

/-- What a step leaves as it is once the coroutine has gone on or been told to give up. -/
structure Later (s t : Sys) : Prop where
  outcome : s.outcome ≠ none → t.outcome = s.outcome
  cancelRequested : s.op.cancelRequested = true → t.op.cancelRequested = true

theorem Later.refl (s : Sys) : Later s s := ⟨fun _ => rfl, id⟩

theorem Later.trans {u : Sys} (h : Later s t) (h' : Later t u) : Later s u where
  outcome ho := by
    have ht := h.outcome ho
    rw [h'.outcome (ht ▸ ho), ht]
  cancelRequested hc := h'.cancelRequested (h.cancelRequested hc)

theorem Later.of_eq {u : Sys} (h : Later u t) (ho : u.outcome = s.outcome)
    (hc : u.op.cancelRequested = s.op.cancelRequested) : Later s t where
  outcome hs := (h.outcome (ho ▸ hs)).trans ho
  cancelRequested hs := h.cancelRequested (hc.trans hs)

theorem complete_outcome (s : Sys) : s.complete.outcome = s.outcome ∨
    s.op.continuation = true ∧ s.complete.outcome = some s.op.awaitResume := by
  unfold Sys.complete
  split
  · exact .inl rfl
  · cases hc : s.op.continuation with
    | true => exact .inr ⟨rfl, rfl⟩
    | false => exact .inl rfl

theorem later_complete (h : s.outcome ≠ none → s.op.continuation = false) :
    Later s s.complete where
  outcome ho := by
    rcases complete_outcome s with hs | ⟨hc, _⟩
    · exact hs
    · rw [h ho] at hc
      cases hc
  cancelRequested hc := (complete_cancelRequested s).trans hc

/-- `complete` with a status whose outcome is right. -/
theorem answered_complete (h : Answered s acted) (hpc : s.pc ≠ .entering)
    (hv : ∀ v, s.op.awaitResume = .ok v → s.produced = some v) : Answered s.complete acted where
  entered he := absurd (entering_of_complete he) hpc
  resumed ho := by
    unfold Sys.complete at ho ⊢
    split
    · rename_i hc
      rw [if_pos hc] at ho
      exact h.resumed ho
    · rfl
  worked ha := by
    rw [complete_flight]
    exact h.worked ha
  unworked ha := by
    rw [complete_flight, complete_cancelRequested]
    exact h.unworked ha
  cancelled hc := by
    rw [complete_flight] at hc
    rw [complete_cancelRequested]
    exact h.cancelled hc
  value v hs := by
    rw [complete_produced]
    rcases complete_outcome s with ho | ⟨_, ho⟩
    · exact h.value v (ho ▸ hs)
    · rw [ho] at hs
      exact hv v (Option.some.inj hs)

theorem answered_setStatus (h : Answered s acted) (status : Int) :
    Answered (s.setStatus status) acted :=
  ⟨h.entered, h.resumed, h.worked, h.unworked, h.cancelled, h.value⟩

/-- A negative status is no value. -/
theorem awaitResume_neg {o : Op} (h : o.status < 0) (v : Int) : o.awaitResume ≠ .ok v := by
  unfold Op.awaitResume
  split
  · simp
  · simp

theorem answered_failed (h : Answered s acted) (hpc : s.pc ≠ .entering) {status : Int}
    (hs : status < 0) :
    Answered (s.setStatus status).complete acted ∧ Later s (s.setStatus status).complete := by
  refine ⟨answered_complete (answered_setStatus h status) hpc ?_,
    Later.of_eq (later_complete (answered_setStatus h status).resumed) rfl rfl⟩
  intro v hv
  exact absurd hv (awaitResume_neg hs v)

theorem answered_start (parseRc rc : Int) (h : Answered s acted) (hpc : s.pc ≠ .entering)
    (hidle : s.op.completed = false → s.flight = .idle) :
    Answered (s.start runFsRequest parseRc rc) acted ∧
      Later s (s.start runFsRequest parseRc rc) := by
  unfold Sys.start
  split
  · exact ⟨h, .refl s⟩
  · rename_i hc
    rw [if_neg (by simp [runFsRequest])]
    dsimp only
    have hstarted : Answered { s with
        op := { s.op with started := true, cleanupRequired := runFsRequest.stores } } acted :=
      ⟨h.entered, h.resumed, h.worked, h.unworked, h.cancelled, h.value⟩
    split
    · rename_i hrc
      obtain ⟨ha, hl⟩ := answered_failed hstarted hpc (by simpa [runFsRequest] using hrc)
      exact ⟨ha, hl.of_eq rfl rfl⟩
    · have hfl := hidle (Bool.eq_false_iff.mpr hc)
      refine ⟨⟨h.entered, h.resumed, ?_, ?_, by simp, h.value⟩, ⟨fun _ => rfl, id⟩⟩
      · intro ha
        rcases h.worked ha with hd | ⟨r, hw⟩
        · rw [hfl] at hd
          cases hd
        · rw [hfl] at hw
          cases hw
      · intro _
        simp

theorem answered_cancel (rc : Int) (h : Answered s acted) (hpc : s.pc ≠ .entering) :
    Answered (s.cancel rc) acted ∧ Later s (s.cancel rc) := by
  unfold Sys.cancel
  split
  · exact ⟨h, .refl s⟩
  · have hrequest : Answered s.requestCancel acted :=
      ⟨h.entered, h.resumed, h.worked, fun ha => ⟨(h.unworked ha).1, fun _ => rfl⟩, fun _ => rfl, h.value⟩
    have hlater : Later s s.requestCancel := ⟨fun _ => rfl, fun _ => rfl⟩
    dsimp only
    split
    · obtain ⟨ha, hl⟩ := answered_failed hrequest hpc (show UV_ECANCELED < 0 by decide)
      exact ⟨ha, hlater.trans hl⟩
    · have hasked : Answered (s.requestCancel.uvCancel rc) acted ∧
          Later s.requestCancel (s.requestCancel.uvCancel rc) := by
        unfold Sys.uvCancel
        split
        · rename_i hq
          refine ⟨⟨hrequest.entered, hrequest.resumed, ?_, fun _ => ?_, fun _ => rfl,
            hrequest.value⟩, ⟨fun _ => rfl, id⟩⟩
          · intro ha
            rcases hrequest.worked ha with hd | ⟨r, hw⟩
            · rw [hq.2] at hd
              cases hd
            · rw [hq.2] at hw
              cases hw
          · simp
        · exact ⟨hrequest, .refl _⟩
      have hpc' : (s.requestCancel.uvCancel rc).pc ≠ .entering := by
        unfold Sys.uvCancel
        split <;> exact hpc
      split
      · obtain ⟨ha, hl⟩ := answered_failed hasked.1 hpc' (show UV_ECANCELED < 0 by decide)
        exact ⟨ha, (hlater.trans hasked.2).trans hl⟩
      · exact ⟨hasked.1, hlater.trans hasked.2⟩

theorem answered_finish {result : Int} (h : Answered s acted) (hpc : s.pc ≠ .entering)
    (hact : acted = true ∨ s.op.cancelRequested = true)
    (hproduced : 0 ≤ result → s.produced = some result) :
    Answered (s.finish runFsRequest result) acted ∧ Later s (s.finish runFsRequest result) := by
  have hdelivered : Answered { s with flight := .delivered } acted := by
    refine ⟨h.entered, h.resumed, fun _ => .inl rfl, ?_, by simp, h.value⟩
    intro ha
    refine ⟨by simp, fun _ => hact.resolve_left ?_⟩
    rw [ha]
    simp
  unfold Sys.finish
  dsimp only
  split
  · rename_i hr
    have hr : 0 ≤ result := by simpa [runFsRequest] using hr
    have hresult : Answered { s with
        flight := .delivered, op := { s.op with result := result } } acted :=
      ⟨h.entered, h.resumed, hdelivered.worked, hdelivered.unworked, by simp, h.value⟩
    refine ⟨answered_complete hresult hpc ?_, Later.of_eq (later_complete hresult.resumed) rfl rfl⟩
    intro v hv
    unfold Op.awaitResume at hv
    split at hv
    · cases hv
    · split at hv <;> cases hv
      exact hproduced hr
  · rename_i hr
    have hr : result < 0 := by simpa [runFsRequest] using hr
    obtain ⟨ha, hl⟩ := answered_failed hdelivered hpc hr
    exact ⟨ha, hl.of_eq rfl rfl⟩

theorem answered_run (h : Answered s acted) (hr : run stopPossible s = some t) :
    Answered t acted ∧ Later s t := by
  unfold run at hr
  split at hr
  · rename_i hpc
    obtain ⟨hnone, hcontinuation⟩ := h.entered hpc
    split at hr
    · cases hr
      refine ⟨⟨by simp, fun _ => hcontinuation, h.worked, ?_, fun _ => rfl, ?_⟩,
        ⟨fun ho => absurd hnone ho, fun _ => rfl⟩⟩
      · exact fun ha => ⟨(h.unworked ha).1, fun _ => rfl⟩
      · intro v hv
        exact absurd (Option.some.inj hv) (awaitResume_neg (show UV_ECANCELED < 0 by decide) v)
    · cases hr
      refine ⟨⟨?_, fun ho => absurd hnone ho, h.worked, h.unworked, h.cancelled, h.value⟩,
        ⟨fun _ => rfl, id⟩⟩
      cases stopPossible <;> simp
  · rename_i hpc
    split at hr <;> cases hr
    · exact ⟨⟨by simp, h.resumed, h.worked, h.unworked, h.cancelled, h.value⟩, ⟨fun _ => rfl, id⟩⟩
    · exact ⟨⟨by simp, h.resumed, h.worked, h.unworked, h.cancelled, h.value⟩, ⟨fun _ => rfl, id⟩⟩
  · split at hr <;> cases hr
    · exact ⟨⟨by simp, h.resumed, h.worked, h.unworked, h.cancelled, h.value⟩, ⟨fun _ => rfl, id⟩⟩
    · exact ⟨⟨by simp, h.resumed, h.worked, h.unworked, h.cancelled, h.value⟩, ⟨fun _ => rfl, id⟩⟩
  · cases hr

def Label.isWork : Label → Bool
  | .work _ => true
  | _ => false

/-- The work is done by one step, and nobody else changes what is known of it. -/
theorem step_answered (h : Answered s acted) (hb : Base s) (hc : Carried s)
    (hs : step runFsRequest stopPossible s l = some t) :
    Answered t (acted || l.isWork) ∧ Later s t := by
  cases l with
  | run =>
    simpa [Label.isWork] using answered_run h hs
  | requestStop =>
    simp only [step] at hs
    split at hs <;> cases hs
    exact ⟨by simpa [Label.isWork] using ⟨h.entered, h.resumed, h.worked, h.unworked, h.cancelled,
      h.value⟩, ⟨fun _ => rfl, id⟩⟩
  | stopCallback =>
    simp only [step] at hs
    split at hs <;> cases hs
    exact ⟨by simpa [Label.isWork] using ⟨h.entered, h.resumed, h.worked, h.unworked, h.cancelled,
      h.value⟩, ⟨fun _ => rfl, id⟩⟩
  | runPosted parseRc rc =>
    simp only [Label.isWork, Bool.or_false]
    simp only [step] at hs
    split at hs
    · cases hs
    · rename_i cs hp
      cases hs
      have hpc := (base_pop hb hp).1
      have hidle := hb.fresh (.inr (hp ▸ List.mem_cons_self))
      have hrest : Answered { s with posted := cs } acted :=
        ⟨h.entered, h.resumed, h.worked, h.unworked, h.cancelled, h.value⟩
      obtain ⟨ha, hl⟩ := answered_start parseRc rc hrest hpc fun _ => hidle
      exact ⟨ha, Later.of_eq hl rfl rfl⟩
    · rename_i cs hp
      cases hs
      have hpc := (base_pop hb hp).1
      have hrest : Answered { s with posted := cs } acted :=
        ⟨h.entered, h.resumed, h.worked, h.unworked, h.cancelled, h.value⟩
      obtain ⟨ha, hl⟩ := answered_cancel rc hrest hpc
      exact ⟨ha, Later.of_eq hl rfl rfl⟩
  | begin =>
    simp only [step] at hs
    split at hs <;> cases hs
    rename_i hq
    refine ⟨⟨h.entered, h.resumed, ?_, by simp [Label.isWork], by simp, h.value⟩,
      ⟨fun _ => rfl, id⟩⟩
    intro ha
    rcases h.worked (by simpa [Label.isWork] using ha) with hd | ⟨r, hw⟩
    · rw [hq] at hd
      cases hd
    · rw [hq] at hw
      cases hw
  | work r =>
    simp only [step] at hs
    split at hs <;> cases hs
    rename_i hq
    have hp : s.produced = none := by
      refine hc.none_of_ne (fun r => ?_) ?_
      · rw [hq]
        simp
      · rw [hq]
        simp
    refine ⟨⟨h.entered, h.resumed, fun _ => .inr ⟨r, rfl⟩, by simp [Label.isWork], by simp, ?_⟩,
      ⟨fun _ => rfl, id⟩⟩
    intro v hv
    have := h.value v hv
    rw [hp] at this
    cases this
  | callback =>
    simp only [Label.isWork, Bool.or_false]
    simp only [step] at hs
    have hin : s.InFlight → s.pc ≠ .entering := by
      intro hf he
      exact hf.1 (hb.fresh (.inl (by rw [he]; rfl)))
    split at hs
    · rename_i r hq
      cases hs
      refine answered_finish h (hin ⟨by simp [hq], by simp [hq]⟩) (.inl ?_) ?_
      · cases acted with
        | true => rfl
        | false => exact absurd hq ((h.unworked rfl).1 r)
      · intro hr
        rw [hc.worked r hq, if_pos hr]
    · rename_i hq
      cases hs
      refine answered_finish h (hin ⟨by simp [hq], by simp [hq]⟩) (.inr (h.cancelled hq)) ?_
      intro hr
      exact absurd hr (by decide)
    · cases hs

theorem answered_init (stopped : Bool) : Answered { stopRequested := stopped } false :=
  ⟨fun _ => ⟨rfl, rfl⟩, by simp, by simp, by simp, by simp, by simp⟩

/-- The coroutine goes on before the work is done only if libuv has refused the request,
or somebody has asked to cancel. -/
theorem outcome_unworked (h : Answered s false) (hc : Carried s) (ho : s.outcome ≠ none) :
    s.op.cancelRequested = true ∨ s.flight = .idle := by
  by_cases hcancel : s.op.cancelRequested = true
  · exact .inl hcancel
  · have hdone := (hc.pending.resolve_left ho).resolve_right hcancel
    by_cases hidle : s.flight = .idle
    · exact .inr hidle
    · by_cases hdelivered : s.flight = .delivered
      · exact .inl ((h.unworked rfl).2 hdelivered)
      · rcases hc.opened ⟨hidle, hdelivered⟩ with hopen | hask
        · rw [hdone] at hopen
          cases hopen
        · exact .inl hask

end

end LuvCoro.Request
