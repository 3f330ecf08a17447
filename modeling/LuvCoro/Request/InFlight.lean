import Mathlib.Data.List.Count
import LuvCoro.Request.System

/-! # A request in flight keeps its state

`keep_alive` owns the shared state, and with it the `uv_write_t` (or other
request) and the buffers that libuv uses until the callback. -/
namespace LuvCoro.Request

open Transition

/-- `start` has not been posted. -/
def Pc.early : Pc → Bool
  | .entering | .registering | .posting => true
  | _ => false

structure Base (s : Sys) : Prop where
  entering : s.pc = .entering → s.posted = [] ∧ s.op.stopCallback = false
  once : s.posted.count .start ≤ if s.pc.early then 0 else 1
  fresh : s.pc.early = true ∨ Closure.start ∈ s.posted → s.flight = .idle
  keeps : s.pc = .registering ∨ s.pc = .posting ∨ s.posted ≠ [] ∨ s.op.stopCallback = true ∨
    s.InFlight → s.op.completed = false → s.op.keepAlive = true
  started : s.op.started = true → s.op.completed = true ∨ s.InFlight
  accepted : s.InFlight → s.op.started = true

section
variable {k : Kind} {stopPossible : Bool} {s t : Sys} {l : Label}

theorem complete_completed (s : Sys) : s.complete.op.completed = true := by
  unfold Sys.complete
  split
  · assumption
  · rfl

@[simp] theorem complete_posted (s : Sys) : s.complete.posted = s.posted := by
  unfold Sys.complete
  split <;> rfl

@[simp] theorem complete_flight (s : Sys) : s.complete.flight = s.flight := by
  unfold Sys.complete
  split <;> rfl

@[simp] theorem complete_produced (s : Sys) : s.complete.produced = s.produced := by
  unfold Sys.complete
  split <;> rfl

theorem complete_pc (s : Sys) : s.complete.pc = s.pc ∨
    s.pc = .suspended ∧ s.complete.pc = .done := by
  unfold Sys.complete
  split
  · exact .inl rfl
  · by_cases h : s.pc = .suspended
    · exact .inr ⟨h, if_pos h⟩
    · exact .inl (if_neg h)

@[simp] theorem complete_started (s : Sys) : s.complete.op.started = s.op.started := by
  unfold Sys.complete
  split <;> rfl

theorem complete_inFlight (s : Sys) : s.complete.InFlight ↔ s.InFlight := by
  unfold Sys.InFlight
  rw [complete_flight]

theorem complete_early (s : Sys) : s.complete.pc.early = s.pc.early := by
  rcases complete_pc s with h | ⟨h, h'⟩
  · rw [h]
  · rw [h, h']
    rfl

theorem entering_of_complete (h : s.complete.pc = .entering) : s.pc = .entering := by
  rcases complete_pc s with he | ⟨_, he⟩
  · exact he ▸ h
  · rw [he] at h
    cases h

/-- Completion asks nothing of the request but that its queue is in order. -/
theorem base_complete (hent : s.pc ≠ .entering)
    (honce : s.posted.count .start ≤ if s.pc.early then 0 else 1)
    (hfresh : s.pc.early = true ∨ Closure.start ∈ s.posted → s.flight = .idle)
    (haccepted : s.InFlight → s.op.started = true) : Base s.complete := by
  refine ⟨fun h => absurd (entering_of_complete h) hent, ?_, ?_, fun _ hc => ?_, fun _ => ?_, ?_⟩
  · rw [complete_posted, complete_early]
    exact honce
  · rw [complete_posted, complete_early, complete_flight]
    exact hfresh
  · rw [complete_completed] at hc
    cases hc
  · exact .inl (complete_completed s)
  · rw [complete_inFlight, complete_started]
    exact haccepted

/-- What is left when a closure is taken from the queue. -/
theorem base_pop (hb : Base s) {c : Closure} {cs : List Closure} (hp : s.posted = c :: cs) :
    s.pc ≠ .entering ∧ cs.count .start ≤ (if s.pc.early then 0 else 1) ∧
      (s.pc.early = true ∨ Closure.start ∈ cs → s.flight = .idle) := by
  have ho := hb.once
  rw [hp] at ho
  refine ⟨fun he => ?_, ?_, fun h => ?_⟩
  · have hnil := (hb.entering he).1
    rw [hp] at hnil
    cases hnil
  · exact Nat.le_trans (List.count_le_count_cons ..) ho
  · refine hb.fresh (h.imp id fun hm => ?_)
    rw [hp]
    exact List.mem_cons_of_mem _ hm

theorem base_start {parseRc rc : Int} {cs : List Closure} (hb : Base s)
    (hp : s.posted = .start :: cs) : Base ({ s with posted := cs }.start k parseRc rc) := by
  obtain ⟨hent, honce, hfresh⟩ := base_pop hb hp
  have hnone : Closure.start ∉ cs ∧ s.pc.early = false := by
    have ho := hb.once
    rw [hp, List.count_cons_self] at ho
    cases he : s.pc.early with
    | true =>
      rw [he] at ho
      exact absurd ho (Nat.not_succ_le_zero _)
    | false =>
      rw [he] at ho
      exact ⟨List.count_eq_zero.mp (Nat.le_zero.mp (Nat.le_of_succ_le_succ ho)), rfl⟩
  have hkeep : s.op.completed = false → s.op.keepAlive = true :=
    hb.keeps (.inr (.inr (.inl (by rw [hp]; nofun))))
  unfold Sys.start
  split
  · rename_i hc
    exact ⟨fun he => absurd he hent, honce, hfresh, fun _ hf => absurd (hc.symm.trans hf) nofun,
      fun _ => .inl hc, hb.accepted⟩
  · split
    · exact base_complete hent honce hfresh hb.accepted
    · dsimp only
      split
      · exact base_complete hent honce hfresh fun _ => rfl
      · refine ⟨fun he => absurd he hent, honce, fun h => ?_, fun _ hc => hkeep hc,
          fun _ => .inr ⟨nofun, nofun⟩, fun _ => rfl⟩
        rcases h with h | h
        · exact absurd (h.symm.trans hnone.2) nofun
        · exact absurd h hnone.1

@[simp] theorem setStatus_pc (s : Sys) (r : Int) : (s.setStatus r).pc = s.pc := rfl

@[simp] theorem setStatus_posted (s : Sys) (r : Int) : (s.setStatus r).posted = s.posted := rfl

@[simp] theorem setStatus_started (s : Sys) (r : Int) :
    (s.setStatus r).op.started = s.op.started := rfl

@[simp] theorem uvCancel_pc (s : Sys) (rc : Int) : (s.uvCancel rc).pc = s.pc := by
  unfold Sys.uvCancel
  split <;> rfl

@[simp] theorem uvCancel_posted (s : Sys) (rc : Int) : (s.uvCancel rc).posted = s.posted := by
  unfold Sys.uvCancel
  split <;> rfl

@[simp] theorem uvCancel_op (s : Sys) (rc : Int) : (s.uvCancel rc).op = s.op := by
  unfold Sys.uvCancel
  split <;> rfl

theorem uvCancel_inFlight (s : Sys) (rc : Int) : (s.uvCancel rc).InFlight ↔ s.InFlight := by
  unfold Sys.uvCancel
  split
  · rename_i h
    exact ⟨fun _ => ⟨by rw [h.2]; nofun, by rw [h.2]; nofun⟩, fun _ => ⟨nofun, nofun⟩⟩
  · exact Iff.rfl

theorem uvCancel_idle (s : Sys) (rc : Int) (h : s.flight = .idle) :
    (s.uvCancel rc).flight = .idle := by
  unfold Sys.uvCancel
  split
  · rename_i hq
    rw [h] at hq
    cases hq.2
  · exact h

theorem base_cancel {rc : Int} {cs : List Closure} (hb : Base s)
    (hp : s.posted = .cancel :: cs) : Base ({ s with posted := cs }.cancel rc) := by
  obtain ⟨hent, honce, hfresh⟩ := base_pop hb hp
  have hkeep : s.op.completed = false → s.op.keepAlive = true :=
    hb.keeps (.inr (.inr (.inl (by rw [hp]; nofun))))
  unfold Sys.cancel
  split
  · rename_i hc
    exact ⟨fun he => absurd he hent, honce, hfresh, fun _ hf => absurd (hc.symm.trans hf) nofun,
      fun _ => .inl hc, hb.accepted⟩
  · dsimp only
    split
    · exact base_complete hent honce hfresh hb.accepted
    · rename_i hc hstarted
      rw [Bool.not_eq_true', Bool.not_eq_false] at hstarted
      have hfl : { s with posted := cs }.requestCancel.InFlight := by
        rcases hb.started hstarted with hd | hfl
        · exact absurd hd hc
        · exact hfl
      split
      · refine base_complete ?_ ?_ ?_ fun _ => by rw [setStatus_started, uvCancel_op]; exact hstarted
        · rw [setStatus_pc, uvCancel_pc]
          exact hent
        · rw [setStatus_pc, setStatus_posted, uvCancel_pc, uvCancel_posted]
          exact honce
        · rw [setStatus_pc, setStatus_posted, uvCancel_pc, uvCancel_posted]
          exact fun h => uvCancel_idle _ rc (hfresh h)
      · refine ⟨fun he => ?_, ?_, fun h => ?_, fun _ hc' => ?_, fun _ => ?_, fun _ => ?_⟩
        · rw [uvCancel_pc] at he
          exact absurd he hent
        · rw [uvCancel_pc, uvCancel_posted]
          exact honce
        · rw [uvCancel_pc, uvCancel_posted] at h
          exact uvCancel_idle _ rc (hfresh h)
        · rw [uvCancel_op] at hc' ⊢
          exact hkeep hc'
        · exact .inr ((uvCancel_inFlight _ rc).mpr hfl)
        · rw [uvCancel_op]
          exact hstarted

theorem finish_flight (k : Kind) (s : Sys) (r : Int) : (s.finish k r).flight = .delivered := by
  unfold Sys.finish
  dsimp only
  split
  · rw [complete_flight]
  · rw [complete_flight]
    rfl

theorem base_finish {r : Int} (hb : Base s) (hfl : s.InFlight) : Base (s.finish k r) := by
  have hearly : ¬ (s.pc.early = true ∨ Closure.start ∈ s.posted) := fun h => hfl.1 (hb.fresh h)
  have hent : s.pc ≠ .entering := fun h => hearly (.inl (by rw [h]; rfl))
  unfold Sys.finish
  dsimp only
  split
  · exact base_complete hent hb.once (fun h => absurd h hearly) fun h => absurd rfl h.2
  · exact base_complete hent hb.once (fun h => absurd h hearly) fun h => absurd rfl h.2

/-- libuv goes on with the request. -/
theorem base_flight {f : Flight} {a : Bool} {p : Option Int} (hb : Base s) (hfl : s.InFlight)
    (hf : f ≠ .idle) (hf' : f ≠ .delivered) :
    Base { s with flight := f, acted := a, produced := p } := by
  have hearly : ¬ (s.pc.early = true ∨ Closure.start ∈ s.posted) := fun h => hfl.1 (hb.fresh h)
  exact { hb with
    fresh := fun h => absurd h hearly
    keeps := fun _ => hb.keeps (.inr (.inr (.inr (.inr hfl))))
    started := fun _ => .inr ⟨hf, hf'⟩
    accepted := fun _ => hb.accepted hfl }

theorem base_run (hb : Base s) (h : run stopPossible s = some t) : Base t := by
  unfold run at h
  split at h
  · rename_i hpc
    obtain ⟨hposted, hcb⟩ := hb.entering hpc
    have hidle := hb.fresh (.inl (by rw [hpc]; rfl))
    have hnfl : ¬ s.InFlight := fun hfl => hfl.1 hidle
    have hst : s.op.started = true → s.op.completed = true ∨ s.InFlight := hb.started
    split at h <;> cases h
    · refine ⟨nofun, ?_, fun _ => hidle, fun h _ => ?_, hst, fun h => absurd h hnfl⟩
      · rw [hposted]
        exact Nat.zero_le _
      · rcases h with h | h | h | h | h
        · cases h
        · cases h
        · exact absurd hposted h
        · exact absurd (hcb.symm.trans h) nofun
        · exact absurd h hnfl
    · refine ⟨fun he => ?_, ?_, fun _ => hidle, fun _ _ => rfl, hst, fun h => absurd h hnfl⟩
      · cases stopPossible <;> cases he
      · rw [hposted]
        exact Nat.zero_le _
  · rename_i hpc
    have hkeep := hb.keeps (.inl hpc)
    have hidle := hb.fresh (.inl (by rw [hpc]; rfl))
    have honce := hb.once
    rw [hpc] at honce
    split at h <;> cases h
    · refine ⟨nofun, ?_, fun _ => hidle, fun _ => hkeep, hb.started, hb.accepted⟩
      show (s.posted ++ [Closure.cancel]).count Closure.start ≤ 0
      rw [List.count_append]
      exact honce
    · exact ⟨nofun, honce, fun _ => hidle, fun _ => hkeep, hb.started, hb.accepted⟩
  · rename_i hpc
    have hkeep := hb.keeps (.inr (.inl hpc))
    have hidle := hb.fresh (.inl (by rw [hpc]; rfl))
    have honce := hb.once
    rw [hpc] at honce
    have hzero : s.posted.count .start = 0 := Nat.le_zero.mp honce
    split at h <;> cases h
    · refine ⟨nofun, ?_, fun _ => hidle, fun _ => hkeep, hb.started, hb.accepted⟩
      rw [hzero]
      exact Nat.zero_le _
    · refine ⟨nofun, ?_, fun _ => hidle, fun _ => hkeep, hb.started, hb.accepted⟩
      show (s.posted ++ [Closure.start]).count Closure.start ≤ _
      rw [List.count_append, hzero]
      exact Nat.le_refl _
  · cases h

theorem step_base (hb : Base s) (h : step k stopPossible s l = some t) : Base t := by
  cases l with
  | run => exact base_run hb h
  | requestStop =>
    simp only [step] at h
    split at h <;> cases h
    exact { hb with }
  | stopCallback =>
    simp only [step] at h
    split at h <;> cases h
    rename_i hcb
    have hreg : s.op.stopCallback = true := (Bool.and_eq_true _ _ ▸ hcb).2
    refine ⟨fun he => ?_, ?_, fun h => ?_, fun _ hc => ?_, hb.started,
      hb.accepted⟩
    · exact absurd ((hb.entering he).2.symm.trans hreg) nofun
    · show (s.posted ++ [Closure.cancel]).count Closure.start ≤ _
      rw [List.count_append]
      exact hb.once
    · refine hb.fresh (h.imp id fun hm => ?_)
      simpa [Sys.post] using hm
    · exact hb.keeps (.inr (.inr (.inr (.inl hreg)))) hc
  | runPosted parseRc rc =>
    simp only [step] at h
    split at h
    · cases h
    · rename_i hp
      cases h
      exact base_start hb hp
    · rename_i hp
      cases h
      exact base_cancel hb hp
  | begin =>
    simp only [step] at h
    split at h <;> cases h
    rename_i hq
    exact base_flight hb ⟨by rw [hq]; nofun, by rw [hq]; nofun⟩ nofun nofun
  | work r =>
    simp only [step] at h
    split at h <;> cases h
    rename_i hq
    exact base_flight hb ⟨by rw [hq]; nofun, by rw [hq]; nofun⟩ nofun nofun
  | callback =>
    simp only [step] at h
    split at h
    · rename_i hq
      cases h
      exact base_finish hb ⟨by rw [hq]; nofun, by rw [hq]; nofun⟩
    · rename_i hq
      cases h
      exact base_finish hb ⟨by rw [hq]; nofun, by rw [hq]; nofun⟩
    · cases h

theorem reachable_base {good : Sys → Label → Prop}
    (h : ReachableBy (system k stopPossible) good s) : Base s := by
  refine h.invariant (fun s hs => ?_) fun s l t _ hb _ hs => step_base hb hs
  obtain ⟨_, _, rfl⟩ := hs
  refine ⟨fun _ => ⟨rfl, rfl⟩, Nat.zero_le _, fun _ => rfl, fun h => ?_, nofun,
    fun h => absurd rfl h.1⟩
  rcases h with h | h | h | h | h
  · cases h
  · cases h
  · exact absurd rfl h
  · cases h
  · exact absurd rfl h.1

/-! ## Giving up -/

/-- The answer of `uv_cancel` does not make the cancelling closure give up a
request which libuv still has. -/
def KeepsRequest (s : Sys) : Label → Prop
  | .runPosted _ rc => ∀ cs, s.posted = .cancel :: cs → s.InFlight → ¬ Sys.GivesUp rc
  | _ => True

theorem run_open (h : run stopPossible s = some t) :
    t.flight = s.flight ∧ t.op.completed = s.op.completed := by
  unfold run at h
  split at h
  · split at h <;> cases h <;> exact ⟨rfl, rfl⟩
  · split at h <;> cases h <;> exact ⟨rfl, rfl⟩
  · split at h <;> cases h <;> exact ⟨rfl, rfl⟩
  · cases h

theorem start_open {parseRc rc : Int} (hidle : s.flight = .idle)
    (hfl : (s.start k parseRc rc).InFlight) : (s.start k parseRc rc).op.completed = false := by
  unfold Sys.start at hfl ⊢
  split
  · rename_i hc
    rw [if_pos hc] at hfl
    exact absurd hidle hfl.1
  · rename_i hc
    rw [if_neg hc] at hfl
    split at hfl
    · rw [complete_inFlight] at hfl
      exact absurd hidle hfl.1
    · rename_i hp
      rw [if_neg hp]
      dsimp only at hfl ⊢
      split at hfl
      · rw [complete_inFlight] at hfl
        exact absurd hidle hfl.1
      · rename_i hr
        rw [if_neg hr]
        exact Bool.eq_false_iff.mpr hc

theorem cancel_open {rc : Int} (hopen : s.InFlight → s.op.completed = false)
    (hstarted : s.InFlight → s.op.started = true) (hkeeps : s.InFlight → ¬ Sys.GivesUp rc)
    (hfl : (s.cancel rc).InFlight) : (s.cancel rc).op.completed = false := by
  unfold Sys.cancel at hfl ⊢
  split
  · rename_i hc
    rw [if_pos hc] at hfl
    exact hopen hfl
  · rename_i hc
    rw [if_neg hc] at hfl
    dsimp only at hfl ⊢
    split at hfl
    · rename_i hn
      rw [complete_inFlight] at hfl
      have hs : s.requestCancel.op.started = true := hstarted hfl
      rw [hs] at hn
      cases hn
    · rename_i hn
      rw [if_neg hn]
      split at hfl
      · rename_i hg
        rw [complete_inFlight] at hfl
        have hs : s.InFlight := (uvCancel_inFlight s.requestCancel rc).mp hfl
        exact absurd hg (hkeeps hs)
      · rename_i hg
        rw [if_neg hg, uvCancel_op]
        exact Bool.eq_false_iff.mpr hc

/-- The request is completed by its callback only. -/
theorem open_of_inFlight (h : ReachableBy (system k stopPossible) KeepsRequest s)
    (hfl : s.InFlight) : s.op.completed = false := by
  revert hfl
  refine h.invariant (I := fun s => s.InFlight → s.op.completed = false) (fun s hs _ => ?_) ?_
  · obtain ⟨_, _, rfl⟩ := hs
    rfl
  · intro s l t hr hopen hg hs hfl
    have hb := reachable_base hr
    cases l with
    | run =>
      obtain ⟨hf, hc⟩ := run_open hs
      unfold Sys.InFlight at hfl
      rw [hf] at hfl
      exact hc.trans (hopen hfl)
    | requestStop =>
      simp only [system, step] at hs
      split at hs <;> cases hs
      exact hopen hfl
    | stopCallback =>
      simp only [system, step] at hs
      split at hs <;> cases hs
      exact hopen hfl
    | runPosted parseRc rc =>
      simp only [system, step] at hs
      split at hs
      · cases hs
      · rename_i cs hp
        cases hs
        exact start_open (hb.fresh (.inr (hp ▸ List.mem_cons_self))) hfl
      · rename_i cs hp
        cases hs
        exact cancel_open hopen hb.accepted (hg cs hp) hfl
    | begin =>
      simp only [system, step] at hs
      split at hs <;> cases hs
      rename_i hq
      exact hopen ⟨by rw [hq]; nofun, by rw [hq]; nofun⟩
    | work r =>
      simp only [system, step] at hs
      split at hs <;> cases hs
      rename_i hq
      exact hopen ⟨by rw [hq]; nofun, by rw [hq]; nofun⟩
    | callback =>
      have hdone : t.flight = .delivered := by
        simp only [system, step] at hs
        split at hs
        · cases hs
          exact finish_flight ..
        · cases hs
          exact finish_flight ..
        · cases hs
      exact absurd hdone hfl.2

/-- In every run in which the answers of `uv_cancel` do not make the cancelling
closure give up a request in flight, the state which owns the request is kept
until its callback. -/
theorem keeps_alive_in_flight (k : Kind) (stopPossible : Bool) (s : Sys)
    (h : ReachableBy (system k stopPossible) KeepsRequest s) (hfl : s.InFlight) :
    s.op.keepAlive = true :=
  (reachable_base h).keeps (.inr (.inr (.inr (.inr hfl)))) (open_of_inFlight h hfl)

/-- Without that, the cancelling closure releases the state of a request which
libuv still has. -/
theorem gives_up_releases {rc : Int} (hopen : s.op.completed = false)
    (hstarted : s.op.started = true) (hfl : s.InFlight) (hg : Sys.GivesUp rc) :
    (s.cancel rc).InFlight ∧ (s.cancel rc).op.keepAlive = false := by
  have hc : s.cancel rc = ((s.requestCancel.uvCancel rc).setStatus UV_ECANCELED).complete := by
    unfold Sys.cancel
    have hn : s.requestCancel.op.started = true := hstarted
    simp [hopen, hn, hg]
  have hop : ((s.requestCancel.uvCancel rc).setStatus UV_ECANCELED).op.completed = false := by
    show (s.requestCancel.uvCancel rc).op.completed = false
    rw [uvCancel_op]
    exact hopen
  rw [hc]
  refine ⟨(complete_inFlight _).mpr ((uvCancel_inFlight s.requestCancel rc).mpr hfl), ?_⟩
  unfold Sys.complete
  rw [hop]
  rfl

/-- A write is being worked on when it is cancelled. -/
theorem keeps_alive_in_flight_busy : ∃ s : Sys, s.op.cancelRequested = true ∧
    s.flight = .working ∧ s.op.keepAlive = true := by
  have h0 : ReachableBy (system streamWrite true) KeepsRequest {} := .init ⟨false, nofun, rfl⟩
  have h1 := h0.step (l := .run) (by exact trivial) rfl
  have h2 := h1.step (l := .run) (by exact trivial) rfl
  have h3 := h2.step (l := .run) (by exact trivial) rfl
  have h4 := h3.step (l := .runPosted 0 0) (by intro cs hp; cases hp) rfl
  have h5 := h4.step (l := .begin) (by exact trivial) rfl
  have h6 := h5.step (l := .requestStop) (by exact trivial) rfl
  have h7 := h6.step (l := .stopCallback) (by exact trivial) rfl
  have h8 := h7.step (l := .runPosted 0 UV_EBUSY) (by intro _ _ _; decide) rfl
  exact ⟨_, rfl, rfl, keeps_alive_in_flight streamWrite true _ h8 ⟨nofun, nofun⟩⟩

/-- libuv cannot cancel a write, which it has when the stop is requested. -/
theorem write_released_in_flight : ∃ s, Reachable (system streamWrite true) s ∧ s.InFlight ∧
    s.op.keepAlive = false := by
  have h0 : Reachable (system streamWrite true) {} := .init ⟨false, nofun, rfl⟩
  have h := h0.run (show Transition.run (system streamWrite true) {} [.run, .run, .run,
    .runPosted 0 0, .requestStop, .stopCallback, .runPosted 0 UV_EINVAL] = some _ from rfl)
  exact ⟨_, h, ⟨nofun, nofun⟩, rfl⟩

end

end LuvCoro.Request
