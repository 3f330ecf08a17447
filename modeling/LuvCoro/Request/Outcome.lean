import LuvCoro.Request.InFlight

/-! # What a file system request leaves behind

The result of the work reaches the coroutine unless a cancelling closure has
found the request uncompleted; and what is started at all depends on which of
the two posted closures comes first. -/
namespace LuvCoro.Request

open Transition

section
variable {stopPossible : Bool} {s t : Sys} {l : Label}

/-- The way of the result, as long as nobody has asked to cancel. -/
structure Carried (s : Sys) : Prop where
  paired : s.op.continuation = s.op.keepAlive
  opened : s.InFlight → s.op.completed = false ∨ s.op.cancelRequested = true
  status : s.op.status = 0 ∨ s.op.completed = true ∨ s.op.cancelRequested = true
  pending : s.outcome = none ∨ s.op.completed = true ∨ s.op.cancelRequested = true
  worked : ∀ r, s.flight = .worked r → s.produced = if 0 ≤ r then some r else none
  produced : ∀ fd, s.produced = some fd → s.flight = .worked fd ∨
    s.flight = .delivered ∧ (s.op.cancelRequested = true ∨ s.outcome = some (.ok fd))

@[simp] theorem complete_cancelRequested (s : Sys) :
    s.complete.op.cancelRequested = s.op.cancelRequested := by
  unfold Sys.complete
  split <;> rfl

theorem complete_paired (h : s.op.continuation = s.op.keepAlive) :
    s.complete.op.continuation = s.complete.op.keepAlive := by
  unfold Sys.complete
  split
  · exact h
  · rfl

/-- A request that is not in flight is completed. -/
theorem carried_complete (hpair : s.op.continuation = s.op.keepAlive) (hidle : ¬ s.InFlight)
    (hnone : s.produced = none) : Carried s.complete where
  paired := complete_paired hpair
  opened h := absurd ((complete_inFlight s).mp h) hidle
  status := .inr (.inl (complete_completed s))
  pending := .inr (.inl (complete_completed s))
  worked r h := by
    rw [complete_flight] at h
    exact absurd ⟨by rw [h]; nofun, by rw [h]; nofun⟩ hidle
  produced fd h := by
    rw [complete_produced, hnone] at h
    cases h

/-- Nothing is promised about the result once somebody has asked to cancel. -/
theorem carried_cancelled (hpair : s.op.continuation = s.op.keepAlive)
    (hc : s.op.cancelRequested = true)
    (hworked : ∀ r, s.flight = .worked r → s.produced = if 0 ≤ r then some r else none)
    (hproduced : ∀ fd, s.produced = some fd → s.flight = .worked fd ∨ s.flight = .delivered) :
    Carried s where
  paired := hpair
  opened _ := .inr hc
  status := .inr (.inr hc)
  pending := .inr (.inr hc)
  worked := hworked
  produced fd h := (hproduced fd h).imp id fun hd => ⟨hd, .inl hc⟩

theorem Carried.weaken (h : Carried s) {fd : Int} (hp : s.produced = some fd) :
    s.flight = .worked fd ∨ s.flight = .delivered := (h.produced fd hp).imp id And.left

theorem Carried.none_of_ne (h : Carried s) (hw : ∀ r, s.flight ≠ .worked r)
    (hd : s.flight ≠ .delivered) : s.produced = none := by
  cases hp : s.produced with
  | none => rfl
  | some fd =>
    rcases h.weaken hp with hf | hf
    · exact absurd hf (hw fd)
    · exact absurd hf hd

theorem carried_start {parseRc rc : Int} {cs : List Closure} (h : Carried s) (hb : Base s)
    (hp : s.posted = .start :: cs) :
    Carried ({ s with posted := cs }.start runFsRequest parseRc rc) := by
  have hidle : s.flight = .idle := hb.fresh (.inr (hp ▸ List.mem_cons_self))
  have hnone : s.produced = none :=
    h.none_of_ne (fun r => by rw [hidle]; nofun) (by rw [hidle]; nofun)
  unfold Sys.start
  split
  · exact { h with }
  · rename_i hc
    rw [if_neg (by simp [runFsRequest])]
    dsimp only
    split
    · exact carried_complete h.paired (fun hf => hf.1 hidle) hnone
    · refine ⟨h.paired, fun _ => .inl (Bool.eq_false_iff.mpr hc), h.status, h.pending, nofun,
        fun fd hfd => ?_⟩
      rw [hnone] at hfd
      cases hfd

theorem carried_requestCancel (h : Carried s) : Carried s.requestCancel :=
  carried_cancelled h.paired rfl h.worked fun _ hp => h.weaken hp

theorem carried_uvCancel {rc : Int} (h : Carried s) (hc : s.op.cancelRequested = true) :
    Carried (s.uvCancel rc) := by
  unfold Sys.uvCancel
  split
  · rename_i hq
    have hnone : s.produced = none :=
      h.none_of_ne (fun r => by rw [hq.2]; nofun) (by rw [hq.2]; nofun)
    refine carried_cancelled h.paired hc nofun fun fd hp => ?_
    exact absurd (hnone.symm.trans hp) nofun
  · exact h

theorem carried_givenUp {status : Int} (h : Carried s) (hc : s.op.cancelRequested = true) :
    Carried (s.setStatus status).complete := by
  refine carried_cancelled (complete_paired h.paired) ?_ ?_ ?_
  · rw [complete_cancelRequested]
    exact hc
  · rw [complete_flight, complete_produced]
    exact h.worked
  · rw [complete_flight, complete_produced]
    exact fun _ hp => h.weaken hp

theorem carried_cancel {rc : Int} (h : Carried s) : Carried (s.cancel rc) := by
  unfold Sys.cancel
  split
  · exact h
  · have hreq := carried_requestCancel h
    have hcancel : Carried (s.requestCancel.uvCancel rc) := carried_uvCancel hreq rfl
    dsimp only
    split
    · exact carried_givenUp hreq rfl
    · split
      · exact carried_givenUp hcancel (by rw [uvCancel_op]; rfl)
      · exact hcancel

/-- The callback hands the result on if nobody has asked to cancel. -/
theorem carried_finish {r : Int} (h : Carried s) (hb : Base s) (hf : s.flight = .worked r) :
    Carried (s.finish runFsRequest r) := by
  have hfl : s.InFlight := ⟨by rw [hf]; nofun, by rw [hf]; nofun⟩
  have hp := h.worked r hf
  unfold Sys.finish
  dsimp only
  split
  · rename_i hr
    have h0 : 0 ≤ r := by simpa [runFsRequest] using hr
    rw [if_pos h0] at hp
    refine ⟨complete_paired h.paired, fun hi => ?_, .inr (.inl (complete_completed _)),
      .inr (.inl (complete_completed _)), fun q hq => ?_, fun fd hfd => .inr ⟨?_, ?_⟩⟩
    · exact absurd rfl ((complete_inFlight _).mp hi).2
    · rw [complete_flight] at hq
      cases hq
    · rw [complete_flight]
    · rw [complete_produced] at hfd
      cases hp.symm.trans hfd
      cases hcr : s.op.cancelRequested with
      | true =>
        rw [complete_cancelRequested]
        exact .inl rfl
      | false =>
        have hopen : s.op.completed = false := (h.opened hfl).resolve_right (by rw [hcr]; nofun)
        have hstatus : s.op.status = 0 := by
          rcases h.status with hs | hs | hs
          · exact hs
          · exact absurd (hopen.symm.trans hs) nofun
          · exact absurd (hcr.symm.trans hs) nofun
        have hcont : s.op.continuation = true :=
          h.paired.trans (hb.keeps (.inr (.inr (.inr (.inr hfl)))) hopen)
        refine .inr ?_
        unfold Sys.complete
        simp [hopen, hcont, Op.awaitResume, hstatus, UV_ECANCELED]
  · rename_i hr
    have hneg : ¬ 0 ≤ r := by simpa [runFsRequest] using hr
    rw [if_neg hneg] at hp
    exact carried_complete h.paired (fun hi => hi.2 rfl) hp

theorem carried_run (h : Carried s) (hb : Base s) (hr : run stopPossible s = some t) :
    Carried t := by
  unfold run at hr
  split at hr
  · rename_i hpc
    have hidle := hb.fresh (.inl (by rw [hpc]; rfl))
    have hnone : s.produced = none :=
      h.none_of_ne (fun r => by rw [hidle]; nofun) (by rw [hidle]; nofun)
    split at hr <;> cases hr
    · refine carried_cancelled h.paired rfl h.worked fun fd hp => ?_
      exact absurd (hnone.symm.trans hp) nofun
    · exact { h with paired := rfl }
  · split at hr <;> cases hr
    · exact { h with }
    · exact { h with }
  · split at hr <;> cases hr
    · exact { h with }
    · exact { h with }
  · cases hr

theorem step_carried (h : Carried s) (hb : Base s)
    (hs : step runFsRequest stopPossible s l = some t) : Carried t := by
  cases l with
  | run => exact carried_run h hb hs
  | requestStop =>
    simp only [step] at hs
    split at hs <;> cases hs
    exact { h with }
  | stopCallback =>
    simp only [step] at hs
    split at hs <;> cases hs
    exact { h with }
  | runPosted parseRc rc =>
    simp only [step] at hs
    split at hs
    · cases hs
    · rename_i hp
      cases hs
      exact carried_start h hb hp
    · cases hs
      exact carried_cancel { h with }
  | begin =>
    simp only [step] at hs
    split at hs <;> cases hs
    rename_i hq
    have hnone : s.produced = none :=
      h.none_of_ne (fun r => by rw [hq]; simp) (by rw [hq]; simp)
    refine { h with opened := fun _ => h.opened ⟨by rw [hq]; simp, by rw [hq]; simp⟩
                    worked := (by simp), produced := fun fd hp => ?_ }
    exact absurd (hnone.symm.trans hp) (by simp)
  | work r =>
    simp only [step] at hs
    split at hs <;> cases hs
    rename_i hq
    refine { h with opened := fun _ => h.opened ⟨by rw [hq]; simp, by rw [hq]; simp⟩
                    worked := fun q hw => ?_, produced := fun fd hp => ?_ }
    · cases hw
      rfl
    · dsimp only at hp
      split at hp <;> cases hp
      exact .inl rfl
  | callback =>
    simp only [step] at hs
    split at hs
    · rename_i r hq
      cases hs
      exact carried_finish h hb hq
    · rename_i hq
      cases hs
      have hnone : s.produced = none :=
        h.none_of_ne (fun r => by rw [hq]; simp) (by rw [hq]; simp)
      exact carried_complete h.paired (fun hi => hi.2 rfl) hnone
    · cases hs

theorem reachable_carried {good : Sys → Label → Prop}
    (h : ReachableBy (system runFsRequest stopPossible) good s) : Carried s := by
  refine h.invariant (fun s hs => ?_) fun s l t hr hc _ hs => step_carried hc (reachable_base hr) hs
  obtain ⟨_, _, rfl⟩ := hs
  exact ⟨rfl, fun h => absurd rfl h.1, .inl rfl, .inl rfl, nofun, nofun⟩

/-- What work has produced is what the coroutine goes on with, if nobody has
asked to cancel. -/
theorem outcome_eq_produced {good : Sys → Label → Prop}
    (h : ReachableBy (system runFsRequest stopPossible) good s)
    (hc : s.op.cancelRequested = false) {fd : Int} (hp : s.produced = some fd)
    {o : Except Error Int} (ho : s.outcome = some o) : o = .ok fd := by
  have hcarried := reachable_carried h
  rcases hcarried.produced fd hp with hf | ⟨_, hcr | hout⟩
  · have hopen : s.op.completed = false :=
      (hcarried.opened ⟨by rw [hf]; nofun, by rw [hf]; nofun⟩).resolve_right (by rw [hc]; nofun)
    rcases hcarried.pending with hn | hn | hn
    · rw [hn] at ho
      cases ho
    · exact absurd (hopen.symm.trans hn) nofun
    · exact absurd (hc.symm.trans hn) nofun
  · exact absurd (hc.symm.trans hcr) nofun
  · exact Option.some.inj (ho.symm.trans hout)

theorem start_produced {parseRc rc : Int} (s : Sys) :
    (s.start runFsRequest parseRc rc).produced = s.produced := by
  unfold Sys.start
  split
  · rfl
  · split
    · exact complete_produced _
    · dsimp only
      split
      · exact complete_produced _
      · rfl

theorem uvCancel_produced (s : Sys) (rc : Int) : (s.uvCancel rc).produced = s.produced := by
  unfold Sys.uvCancel
  split <;> rfl

theorem cancel_produced (s : Sys) (rc : Int) : (s.cancel rc).produced = s.produced := by
  unfold Sys.cancel
  split
  · rfl
  · dsimp only
    split
    · exact complete_produced _
    · split
      · exact (complete_produced _).trans (uvCancel_produced ..)
      · exact uvCancel_produced ..

theorem finish_produced {r : Int} (s : Sys) :
    (s.finish runFsRequest r).produced = s.produced := by
  unfold Sys.finish
  dsimp only
  split
  · exact complete_produced _
  · exact complete_produced _

/-- Only the work produces anything. -/
theorem step_produced (h : step runFsRequest stopPossible s l = some t) :
    t.produced = s.produced ∨ ∃ r, l = .work r ∧ t.op = s.op ∧
      t.produced = if 0 ≤ r then some r else none := by
  cases l with
  | run =>
    simp only [step, run] at h
    split at h
    · split at h <;> cases h <;> exact .inl rfl
    · split at h <;> cases h <;> exact .inl rfl
    · split at h <;> cases h <;> exact .inl rfl
    · cases h
  | runPosted parseRc rc =>
    simp only [step] at h
    split at h
    · cases h
    · cases h
      exact .inl (start_produced _)
    · cases h
      exact .inl (cancel_produced ..)
  | work r =>
    simp only [step] at h
    split at h <;> cases h
    exact .inr ⟨r, rfl, rfl, rfl⟩
  | callback =>
    simp only [step] at h
    split at h
    · cases h
      exact .inl (finish_produced _)
    · cases h
      exact .inl (finish_produced _)
    · cases h
  | _ =>
    simp only [step] at h
    split at h <;> cases h
    exact .inl rfl

theorem produced_nonneg {good : Sys → Label → Prop}
    (h : ReachableBy (system runFsRequest stopPossible) good s) :
    ∀ fd, s.produced = some fd → 0 ≤ fd := by
  refine h.invariant (I := fun s => ∀ fd, s.produced = some fd → 0 ≤ fd) (fun s hs fd hp => ?_) ?_
  · obtain ⟨_, _, rfl⟩ := hs
    cases hp
  · intro s l t _ hI _ hs fd hp
    rcases step_produced hs with he | ⟨r, _, _, he⟩
    · exact hI fd (he ▸ hp)
    · rw [he] at hp
      split at hp <;> cases hp
      assumption

/-! ## Conditions on a run -/

/-- Work does not succeed for a request that somebody has asked to cancel, and
nobody asks after it has succeeded. -/
def DeliversResult (s : Sys) : Label → Prop
  | .runPosted _ _ => ∀ cs, s.posted = .cancel :: cs → s.op.completed = true ∨ s.produced = none
  | .work r => 0 ≤ r → s.op.cancelRequested = false
  | _ => True

theorem start_cancelRequested {parseRc rc : Int} (s : Sys) :
    (s.start runFsRequest parseRc rc).op.cancelRequested = s.op.cancelRequested := by
  unfold Sys.start
  split
  · rfl
  · split
    · exact complete_cancelRequested _
    · dsimp only
      split
      · exact complete_cancelRequested _
      · rfl

theorem finish_cancelRequested {r : Int} (s : Sys) :
    (s.finish runFsRequest r).op.cancelRequested = s.op.cancelRequested := by
  unfold Sys.finish
  dsimp only
  split
  · exact complete_cancelRequested _
  · exact complete_cancelRequested _

theorem not_cancelled_of_produced
    (h : ReachableBy (system runFsRequest stopPossible) DeliversResult s)
    (hp : s.produced ≠ none) : s.op.cancelRequested = false := by
  revert hp
  refine h.invariant (I := fun s => s.produced ≠ none → s.op.cancelRequested = false)
    (fun s hs _ => ?_) ?_
  · obtain ⟨_, _, rfl⟩ := hs
    rfl
  · intro s l t hr hI hg hs hp
    have hb := reachable_base hr
    have hcarried := reachable_carried hr
    cases l with
    | run =>
      simp only [system, step, run] at hs
      split at hs
      · rename_i hpc
        have hidle := hb.fresh (.inl (by rw [hpc]; rfl))
        have hnone : s.produced = none :=
          hcarried.none_of_ne (fun r => by rw [hidle]; simp) (by rw [hidle]; simp)
        split at hs <;> cases hs <;> exact absurd hnone hp
      · split at hs <;> cases hs <;> exact hI hp
      · split at hs <;> cases hs <;> exact hI hp
      · cases hs
    | requestStop =>
      simp only [system, step] at hs
      split at hs <;> cases hs
      exact hI hp
    | stopCallback =>
      simp only [system, step] at hs
      split at hs <;> cases hs
      exact hI hp
    | runPosted parseRc rc =>
      simp only [system, step] at hs
      split at hs
      · cases hs
      · cases hs
        rw [start_produced] at hp
        rw [start_cancelRequested]
        exact hI hp
      · rename_i cs hposted
        cases hs
        rw [cancel_produced] at hp
        rcases hg cs hposted with hc | hnone
        · unfold Sys.cancel
          rw [if_pos (by exact hc)]
          exact hI hp
        · exact absurd hnone hp
    | begin =>
      simp only [system, step] at hs
      split at hs <;> cases hs
      exact hI hp
    | work r =>
      simp only [system, step] at hs
      split at hs <;> cases hs
      by_cases hr : 0 ≤ r
      · exact hg hr
      · exact absurd (if_neg hr) hp
    | callback =>
      simp only [system, step] at hs
      split at hs
      · cases hs
        rw [finish_produced] at hp
        rw [finish_cancelRequested]
        exact hI hp
      · cases hs
        rw [finish_produced] at hp
        rw [finish_cancelRequested]
        exact hI hp
      · cases hs

/-- The stop request comes after the closure that starts the request, or not at
all. -/
def StartsFirst (s : Sys) : Label → Prop
  | .run => s.pc = .entering → s.stopRequested = false
  | .runPosted _ _ => ∀ cs, s.posted = .cancel :: cs → s.op.completed = true ∨ s.op.started = true
  | _ => True

theorem start_started {parseRc rc : Int} (s : Sys)
    (h : (s.start runFsRequest parseRc rc).outcome ≠ none)
    (hs : s.outcome ≠ none → s.op.started = true) :
    (s.start runFsRequest parseRc rc).op.started = true := by
  unfold Sys.start at h ⊢
  split
  · rename_i hc
    rw [if_pos hc] at h
    exact hs h
  · rw [if_neg (by simp [runFsRequest])]
    dsimp only
    split
    · rw [complete_started]
      rfl
    · rfl

theorem cancel_started {rc : Int} (s : Sys) (h : s.op.started = true) :
    (s.cancel rc).op.started = true := by
  unfold Sys.cancel
  split
  · exact h
  · dsimp only
    split
    · rw [complete_started]
      exact h
    · split
      · rw [complete_started, setStatus_started, uvCancel_op]
        exact h
      · rw [uvCancel_op]
        exact h

theorem finish_started {r : Int} (s : Sys) :
    (s.finish runFsRequest r).op.started = s.op.started := by
  unfold Sys.finish
  dsimp only
  split
  · rw [complete_started]
  · rw [complete_started]
    rfl

theorem started_of_outcome (h : ReachableBy (system runFsRequest stopPossible) StartsFirst s)
    (ho : s.outcome ≠ none) : s.op.started = true := by
  revert ho
  refine h.invariant (I := fun s => s.outcome ≠ none → s.op.started = true) (fun s hs ho => ?_) ?_
  · obtain ⟨_, _, rfl⟩ := hs
    exact absurd rfl ho
  · intro s l t hr hI hg hs ho
    have hb := reachable_base hr
    cases l with
    | run =>
      simp only [system, step, run] at hs
      split at hs
      · rename_i hpc
        rw [if_neg (by rw [hg hpc]; simp)] at hs
        cases hs
        exact hI ho
      · split at hs <;> cases hs <;> exact hI ho
      · split at hs <;> cases hs <;> exact hI ho
      · cases hs
    | requestStop =>
      simp only [system, step] at hs
      split at hs <;> cases hs
      exact hI ho
    | stopCallback =>
      simp only [system, step] at hs
      split at hs <;> cases hs
      exact hI ho
    | runPosted parseRc rc =>
      simp only [system, step] at hs
      split at hs
      · cases hs
      · cases hs
        exact start_started _ ho hI
      · rename_i cs hposted
        cases hs
        rcases hg cs hposted with hc | hst
        · unfold Sys.cancel at ho ⊢
          rw [if_pos (by exact hc)] at ho ⊢
          exact hI ho
        · exact cancel_started _ hst
    | begin =>
      simp only [system, step] at hs
      split at hs <;> cases hs
      exact hI ho
    | work r =>
      simp only [system, step] at hs
      split at hs <;> cases hs
      exact hI ho
    | callback =>
      simp only [system, step] at hs
      split at hs
      · rename_i hq
        cases hs
        rw [finish_started]
        exact hb.accepted ⟨by rw [hq]; simp, by rw [hq]; simp⟩
      · rename_i hq
        cases hs
        rw [finish_started]
        exact hb.accepted ⟨by rw [hq]; simp, by rw [hq]; simp⟩
      · cases hs

/-- libuv accepts the request, and a closure that cancels it comes when a worker has
taken it up, or not at all: `uv_cancel` then says so. -/
def WorkedOn (s : Sys) : Label → Prop
  | .run => s.pc = .entering → s.stopRequested = false
  | .runPosted _ rc =>
    (∀ cs, s.posted = .start :: cs → s.op.completed = true ∨ 0 ≤ rc) ∧
    ∀ cs, s.posted = .cancel :: cs →
      s.op.completed = true ∨ s.op.started = true ∧ s.flight ≠ .queued ∧ ¬ Sys.GivesUp rc
  | _ => True

/-- The coroutine goes on with a request that has been carried out. -/
structure Carries (s : Sys) : Prop where
  outcome : s.outcome ≠ none → s.acted = true
  worked : ∀ r, s.flight = .worked r → s.acted = true
  cancelled : s.flight ≠ .cancelled

@[simp] theorem complete_acted (s : Sys) : s.complete.acted = s.acted := by
  unfold Sys.complete
  split <;> rfl

theorem carries_complete (h : s.acted = true) (hf : s.flight ≠ .cancelled) :
    Carries s.complete where
  outcome _ := by rw [complete_acted, h]
  worked _ _ := by rw [complete_acted, h]
  cancelled := by rwa [complete_flight]

theorem carries_start {parseRc rc : Int} (h : Carries s)
    (hrc : s.op.completed = true ∨ 0 ≤ rc) : Carries (s.start runFsRequest parseRc rc) := by
  unfold Sys.start
  split
  · exact h
  · rename_i hopen
    have h0 : ¬ rc < 0 := Int.not_lt.mpr (hrc.resolve_left hopen)
    rw [if_neg (by simp [runFsRequest])]
    dsimp only
    rw [if_neg (by simp [h0])]
    exact ⟨h.outcome, by simp, by simp⟩

theorem carries_cancel {rc : Int} (h : Carries s) (hl : s.op.completed = true ∨
    s.op.started = true ∧ s.flight ≠ .queued ∧ ¬ Sys.GivesUp rc) : Carries (s.cancel rc) := by
  unfold Sys.cancel
  split
  · exact h
  · rename_i hopen
    obtain ⟨hst, hq, hkeeps⟩ := hl.resolve_left hopen
    have hstarted : s.requestCancel.op.started = true := hst
    have huv : s.requestCancel.uvCancel rc = s.requestCancel := if_neg fun hc => hq hc.2
    dsimp only
    rw [hstarted, huv, if_neg (by simp), if_neg hkeeps]
    exact ⟨h.outcome, h.worked, h.cancelled⟩

theorem carries_finish {r : Int} (h : s.acted = true) : Carries (s.finish runFsRequest r) := by
  unfold Sys.finish
  dsimp only
  split <;> exact carries_complete h (by simp [Sys.setStatus])

theorem step_carries (h : Carries s) (hl : WorkedOn s l)
    (hs : step runFsRequest stopPossible s l = some t) : Carries t := by
  cases l with
  | run =>
    simp only [step, run] at hs
    split at hs
    · rename_i hpc
      rw [if_neg (by rw [hl hpc]; simp)] at hs
      cases hs
      exact ⟨h.outcome, h.worked, h.cancelled⟩
    · split at hs <;> cases hs <;> exact ⟨h.outcome, h.worked, h.cancelled⟩
    · split at hs <;> cases hs <;> exact ⟨h.outcome, h.worked, h.cancelled⟩
    · cases hs
  | requestStop =>
    simp only [step] at hs
    split at hs <;> cases hs
    exact ⟨h.outcome, h.worked, h.cancelled⟩
  | stopCallback =>
    simp only [step] at hs
    split at hs <;> cases hs
    exact ⟨h.outcome, h.worked, h.cancelled⟩
  | runPosted parseRc rc =>
    simp only [step] at hs
    split at hs
    · cases hs
    · rename_i cs hposted
      cases hs
      exact carries_start ⟨h.outcome, h.worked, h.cancelled⟩ (hl.1 cs hposted)
    · rename_i cs hposted
      cases hs
      exact carries_cancel ⟨h.outcome, h.worked, h.cancelled⟩ (hl.2 cs hposted)
  | begin =>
    simp only [step] at hs
    split at hs <;> cases hs
    exact ⟨h.outcome, by simp, by simp⟩
  | work r =>
    simp only [step] at hs
    split at hs <;> cases hs
    exact ⟨fun _ => rfl, fun _ _ => rfl, by simp⟩
  | callback =>
    simp only [step] at hs
    split at hs
    · rename_i r hq
      cases hs
      exact carries_finish (h.worked r hq)
    · rename_i hq
      exact absurd hq h.cancelled
    · cases hs

/-- A coroutine whose request is worked on goes on when the work has been done. -/
theorem acted_of_outcome (h : ReachableBy (system runFsRequest stopPossible) WorkedOn s)
    (ho : s.outcome ≠ none) : s.acted = true := by
  have hI : Carries s := by
    refine h.invariant (fun s hs => ?_) fun s l t _ hI hl hs => step_carries hI hl hs
    obtain ⟨_, _, rfl⟩ := hs
    exact ⟨by simp, by simp, by simp⟩
  exact hI.outcome ho

end

end LuvCoro.Request
