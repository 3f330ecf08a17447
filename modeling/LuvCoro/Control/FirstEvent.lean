import LuvCoro.Control.System

/-! # `run_controlled` reports the first contender to end

The helpers of the race end for two reasons: what they wait for has happened, or
`cancel_source` has been asked to stop. The second needs a winner, so the first
contender to end is never a helper that was told to give up. What a helper waits for
counts when its task ends: an operation that ends between the two comes first. -/
namespace LuvCoro.Control

open Transition LuvCoro.Runtime

/-! ## Why a wait ends -/

section Tokens
variable {w : Wait} {k : Nat}

@[simp] theorem stopRequested_resumeOnRuntime (w : Wait) :
    w.resumeOnRuntime.stopRequested = w.stopRequested := by
  unfold Wait.resumeOnRuntime
  split <;> rfl

@[simp] theorem stopRequested_load (w : Wait) : w.load.stopRequested = w.stopRequested := by
  unfold Wait.load
  split <;> rfl

@[simp] theorem stopRequested_resume (w : Wait) : w.resume.stopRequested = w.stopRequested := by
  unfold Wait.resume
  split <;> rfl

theorem requestStop_self : (w.requestStop k).stopRequested k = true :=
  Function.update_self _ _ _

theorem requestStop_ne {j : Nat} (h : j ≠ k) :
    (w.requestStop k).stopRequested j = w.stopRequested j := Function.update_of_ne h _ _

/-- A wait for tokens that goes on, or will, has been asked to stop. -/
def Heard (w : Wait) : Prop :=
  w.resumed = true ∨ w.posted ≠ [] ∨ w.continued ≠ 0 → ∃ k, w.stopRequested k = true

theorem heard_of (h : w.stopRequested k = true) : Heard w := fun _ => ⟨k, h⟩

/-- What a step keeps that neither resumes nor posts. -/
theorem Heard.keep {w' : Wait} (h : Heard w) (hr : w'.resumed = w.resumed)
    (hp : w'.posted = w.posted) (hc : w'.continued = w.continued)
    (hs : w'.stopRequested = w.stopRequested) : Heard w' := by
  unfold Heard
  rw [hr, hp, hc, hs]
  exact h

theorem Heard.load (h : Heard w) : Heard w.load := by
  unfold Wait.load
  split
  · rename_i hr
    exact fun _ => h (.inl hr)
  · exact h.keep rfl rfl rfl rfl

theorem run_heard {n : Nat} {s t : StopWait} (h : Heard s.toWait) (hs : s.run n = some t) :
    Heard t.toWait ∧ t.stopRequested = s.stopRequested := by
  unfold StopWait.run at hs
  split at hs
  · split at hs
    · rename_i hany
      cases hs
      obtain ⟨k, _, hk⟩ := List.any_eq_true.mp hany
      exact ⟨heard_of hk, rfl⟩
    · cases hs
      exact ⟨h.keep rfl rfl rfl rfl, rfl⟩
  · rename_i k _
    split at hs
    · cases hs
      exact ⟨h.keep rfl rfl rfl rfl, rfl⟩
    · split at hs
      · rename_i hk
        cases hs
        exact ⟨heard_of hk, rfl⟩
      · cases hs
        exact ⟨h.keep rfl rfl rfl rfl, rfl⟩
  · rename_i k _
    split at hs
    · cases hs
      exact ⟨h.keep rfl rfl rfl rfl, rfl⟩
    · cases hs
      split
      · rename_i hk
        have hsame : (s.callback k).stopRequested = s.stopRequested :=
          stopRequested_resumeOnRuntime s.toWait
        refine ⟨(heard_of (k := k) ?_).keep rfl rfl rfl rfl, hsame⟩
        exact (congrFun hsame k).trans hk
      · exact ⟨h.keep rfl rfl rfl rfl, rfl⟩
  · cases hs
    exact ⟨h.load, stopRequested_load _⟩
  · cases hs

theorem stopWait_heard {n : Nat} {s t : StopWait} {l : StopWait.Label} (h : Heard s.toWait)
    (hl : ∀ k, l ≠ .requestStop k) (hs : StopWait.step n s l = some t) :
    Heard t.toWait ∧ t.stopRequested = s.stopRequested := by
  cases l with
  | run => exact run_heard h hs
  | requestStop k => exact absurd rfl (hl k)
  | stopCallback k =>
    simp only [StopWait.step] at hs
    split at hs
    · rename_i hk
      cases hs
      have hsame : ({ s with toWait := s.toWait.unregister k }.callback k).stopRequested =
          s.stopRequested := stopRequested_resumeOnRuntime (s.toWait.unregister k)
      refine ⟨heard_of (k := k) ?_, hsame⟩
      exact (congrFun hsame k).trans (Bool.and_eq_true_iff.mp hk).1
    · cases hs
  | runPosted =>
    simp only [StopWait.step] at hs
    split at hs
    · cases hs
    · rename_i c cs hp
      cases hs
      refine ⟨fun _ => ?_, stopRequested_resume _⟩
      rw [stopRequested_resume]
      exact h (.inr (.inl (by rw [hp]; exact List.cons_ne_nil _ _)))

/-- A sleep that is cancelled, or will be, has been asked to stop. -/
def Asked (s : Sleep) : Prop :=
  s.cancelled = true ∨ .cancel ∈ s.posted → s.stopRequested 0 = true

theorem complete_asked {s : Sleep} {cancelled : Bool} {status : Int} (h : Asked s)
    (hc : cancelled = true → s.stopRequested 0 = true) :
    Asked (s.complete cancelled status) ∧
      (s.complete cancelled status).stopRequested = s.stopRequested := by
  unfold Sleep.complete
  split
  · exact ⟨h, rfl⟩
  have hclose : ∀ u : Sleep, u.closeTimer.toWait = u.toWait ∧
      u.closeTimer.cancelled = u.cancelled := by
    intro u
    unfold Sleep.closeTimer
    split <;> exact ⟨rfl, rfl⟩
  dsimp only
  rw [(hclose _).1]
  refine ⟨fun hor => ?_, stopRequested_resumeOnRuntime s.toWait⟩
  show s.toWait.resumeOnRuntime.stopRequested 0 = true
  rw [stopRequested_resumeOnRuntime]
  rcases hor with hx | hx
  · exact hc ((hclose _).2.symm.trans hx)
  · have hm : Closure.cancel ∈ s.toWait.resumeOnRuntime.posted := hx
    unfold Wait.resumeOnRuntime at hm
    split at hm
    · exact h (.inr hm)
    · refine h (.inr ?_)
      exact (List.mem_append.mp hm).resolve_right (by simp)

theorem Asked.keep {s t : Sleep} (h : Asked s) (hc : t.cancelled = s.cancelled)
    (hp : .cancel ∈ t.posted → .cancel ∈ s.posted) (hs : t.stopRequested = s.stopRequested) :
    Asked t := by
  intro hor
  rw [hs]
  rcases hor with hx | hx
  · exact h (.inl (hc.symm.trans hx))
  · exact h (.inr (hp hx))

theorem asked_of {s : Sleep} (h : s.stopRequested 0 = true) : Asked s := fun _ => h

theorem sleepRun_asked {delay : Int} {possible : Bool} {s t : Sleep} (h : Asked s)
    (hs : s.run delay possible = some t) : Asked t ∧ t.stopRequested = s.stopRequested := by
  unfold Sleep.run at hs
  split at hs
  · split at hs <;> cases hs
    · exact ⟨h.keep rfl id rfl, rfl⟩
    · exact ⟨h.keep rfl id rfl, rfl⟩
  · split at hs
    · rename_i h0
      cases hs
      exact ⟨asked_of h0, rfl⟩
    · cases hs
      exact ⟨h.keep rfl id rfl, rfl⟩
  · split at hs
    · rename_i h0
      cases hs
      exact ⟨asked_of h0, rfl⟩
    · cases hs
      exact ⟨h.keep rfl id rfl, rfl⟩
  · cases hs
    refine ⟨h.keep rfl (fun hm => ?_) rfl, rfl⟩
    exact (List.mem_append.mp hm).resolve_right (by simp)
  · cases hs
    refine ⟨h.keep rfl (fun hm => ?_) (stopRequested_load _), stopRequested_load _⟩
    have hm : Closure.cancel ∈ s.toWait.load.posted := hm
    unfold Wait.load at hm
    split at hm <;> exact hm
  · cases hs

theorem start_asked {s : Sleep} {initRc startRc : Int} (h : Asked s) :
    Asked (s.start initRc startRc) ∧ (s.start initRc startRc).stopRequested = s.stopRequested := by
  -- the timer says nothing about why the sleep ends
  have hfail : ∀ (timer : Timer) (rc : Int), Asked ({ s with timer := timer }.fail rc) ∧
      ({ s with timer := timer }.fail rc).stopRequested = s.stopRequested := fun timer rc =>
    complete_asked (s := { s with timer := timer }) (h.keep rfl id rfl) fun hc => h (.inl hc)
  unfold Sleep.start
  split
  · exact ⟨h, rfl⟩
  · split
    · exact hfail s.timer initRc
    · dsimp only
      split
      · exact hfail .closing startRc
      · exact ⟨h.keep rfl id rfl, rfl⟩

theorem sleep_asked {delay : Int} {possible : Bool} {s t : Sleep} {l : Sleep.Label}
    (h : Asked s) (hl : l ≠ .requestStop) (hs : Sleep.step delay possible s l = some t) :
    Asked t ∧ t.stopRequested = s.stopRequested := by
  cases l with
  | run => exact sleepRun_asked h hs
  | requestStop => exact absurd rfl hl
  | stopCallback =>
    simp only [Sleep.step] at hs
    split at hs
    · rename_i h0
      cases hs
      exact ⟨asked_of (Bool.and_eq_true_iff.mp h0).1, rfl⟩
    · cases hs
  | runPosted initRc startRc =>
    simp only [Sleep.step, Sleep.runPosted] at hs
    split at hs
    · cases hs
    · rename_i c cs hp
      have hpop : Asked { s with toWait := { s.toWait with posted := cs } } :=
        h.keep rfl (fun hm => hp ▸ List.mem_cons_of_mem c hm) rfl
      cases c <;> cases hs
      · exact start_asked hpop
      · refine complete_asked hpop fun _ => ?_
        exact h (.inr (hp ▸ List.mem_cons_self))
      · refine ⟨hpop.keep rfl (fun hm => ?_) (stopRequested_resume _), stopRequested_resume _⟩
        have hm : Closure.cancel ∈ ({ s.toWait with posted := cs } : Wait).resume.posted := hm
        unfold Wait.resume at hm
        split at hm <;> exact hm
  | fire =>
    simp only [Sleep.step] at hs
    split at hs
    · cases hs
      exact complete_asked h fun hc => h (.inl hc)
    · cases hs

end Tokens

/-! ## The events and the outcomes -/

universe u v
variable {T : Type u} {E : Type v}

/-- What the task of the contender returns. -/
def Event.outcome : Event T E → OperationOutcome T E
  | .operation c => wrapOperation c
  | .expired => makeTimeoutOutcome
  | .stopped | .timerCancelled | .waitCancelled => makeCancelledOutcome

/-- What `run_controlled` has to do when the contender that ended so is the first. -/
def Event.completion : Event T E → Completion T E
  | .operation c => c
  | .expired => .operationTimeout
  | .stopped | .timerCancelled | .waitCancelled => .operationCancelled

/-- Not the end of a helper that gave up, nor a stop nobody requested. -/
def Event.Genuine (external : Bool) : Event T E → Prop
  | .operation _ | .expired => True
  | .stopped => external = true
  | .timerCancelled | .waitCancelled => False

theorem resolve_outcome (e : Event T E) :
    resolveOperationOutcome e.outcome = some e.completion := by
  cases e with
  | operation c => cases c <;> rfl
  | expired | stopped | timerCancelled | waitCancelled => rfl

theorem Event.Genuine.requested {external : Bool} {e : Event T E} (h : e.Genuine external) :
    e.Genuine true := by
  cases e with
  | operation | expired => trivial
  | stopped => rfl
  | timerCancelled | waitCancelled => exact h

section Genuine
variable {external : Bool} {e : Event T E}

theorem completion_value (h : e.Genuine external) (x : T) :
    e.completion = .value x ↔ e = .operation (.value x) := by
  cases e with
  | operation c => exact ⟨congrArg _, Event.operation.inj⟩
  | expired | stopped => exact ⟨nofun, nofun⟩
  | timerCancelled | waitCancelled => exact h.elim

theorem completion_exception (h : e.Genuine external) (x : E) :
    e.completion = .exception x ↔ e = .operation (.exception x) := by
  cases e with
  | operation c => exact ⟨congrArg _, Event.operation.inj⟩
  | expired | stopped => exact ⟨nofun, nofun⟩
  | timerCancelled | waitCancelled => exact h.elim

theorem completion_timeout (h : e.Genuine external) :
    e.completion = .operationTimeout ↔ e = .expired ∨ e = .operation .operationTimeout := by
  cases e with
  | operation c => simp [Event.completion]
  | expired | stopped => simp [Event.completion]
  | timerCancelled | waitCancelled => exact h.elim

theorem completion_cancelled (h : e.Genuine external) :
    e.completion = .operationCancelled ↔ e = .stopped ∨ e = .operation .operationCancelled := by
  cases e with
  | operation c => simp [Event.completion]
  | expired | stopped => simp [Event.completion]
  | timerCancelled | waitCancelled => exact h.elim

end Genuine

/-! ## The race -/

/-- The first contender ended for a genuine reason, and it is what the call ends with. -/
structure Race.Sound (s : Race T E) : Prop where
  asked : Asked s.sleep
  heard : Heard s.wait.toWait
  sleepToken : s.sleep.stopRequested 0 = s.cancelRequested
  waitToken : s.wait.stopRequested 0 = s.external
  waitCancel : ∀ k, k ≠ 0 → s.wait.stopRequested k = true → s.cancelRequested = true
  winner : s.cancelRequested = true → s.finished ≠ []
  idle : s.started = false → s.finished = [] ∧ (∀ i, s.running i = false) ∧
    (s.result = none → s.events = [])
  outcomes : s.started = true → s.finished = s.events.map Event.outcome
  genuine : ∀ e, s.events.head? = some e → e.Genuine s.external
  result : ∀ r, s.result = some r → ∃ e, s.events.head? = some e ∧ r = e.completion

section Step
variable {W : WhenAny (OperationOutcome T E)} {c : Config} {s t : Race T E} {i : Contender}

theorem race_init : Race.Sound ({} : Race T E) where
  asked hor := by
    rcases hor with h | h <;> cases h
  heard hor := by
    rcases hor with h | h | h
    · cases h
    · exact absurd rfl h
    · exact absurd rfl h
  sleepToken := rfl
  waitToken := rfl
  waitCancel _ _ h := by cases h
  winner h := by cases h
  idle _ := ⟨rfl, fun _ => rfl, fun _ => rfl⟩
  outcomes h := by cases h
  genuine _ h := by cases h
  result _ h := by cases h

theorem Race.Sound.running (h : s.Sound) (hi : s.running i = true) : s.started = true := by
  cases hs : s.started with
  | true => rfl
  | false => exact absurd ((h.idle hs).2.1 i) (by simp [hi])

/-- The first contender to end decides, and only its reason matters. -/
theorem Race.Sound.finish {e : Event T E} (h : s.Sound) (hs : s.started = true)
    (he : s.finished = [] → e.Genuine s.external) :
    (s.finishContender i e.outcome e).Sound where
  asked := h.asked
  heard := h.heard
  sleepToken := h.sleepToken
  waitToken := h.waitToken
  waitCancel := h.waitCancel
  winner _ := List.append_ne_nil_of_right_ne_nil _ (List.cons_ne_nil _ _)
  idle hf := absurd (hs.symm.trans hf) (by simp)
  outcomes _ := by
    show s.finished ++ [e.outcome] = (s.events ++ [e]).map Event.outcome
    rw [List.map_append, ← h.outcomes hs]
    rfl
  genuine f hf := by
    have hf : (s.events ++ [e]).head? = some f := hf
    cases hev : s.events with
    | nil =>
      rw [hev] at hf
      cases hf
      refine he ?_
      rw [h.outcomes hs, hev]
      rfl
    | cons g gs =>
      rw [hev] at hf
      exact h.genuine f (by rw [hev]; exact hf)
  result r hr := by
    obtain ⟨f, hf, hrf⟩ := h.result r hr
    refine ⟨f, ?_, hrf⟩
    show (s.events ++ [e]).head? = some f
    rw [List.head?_append, hf]
    rfl

theorem start_sound (hc : ∀ d, c.timeout = some d → 1 ≤ d) (h : s.Sound)
    (hs : s.started = false) (hr : s.result = none) : (s.start c).Sound := by
  obtain ⟨hfin, hrun, hev⟩ := h.idle hs
  unfold Race.start
  split
  · rename_i hx
    refine ⟨h.asked, h.heard, h.sleepToken, h.waitToken, h.waitCancel, h.winner,
      fun _ => ⟨hfin, hrun, ?_⟩, fun ht => ?_, fun e he => ?_, fun r hr => ?_⟩
    · intro hn
      cases hn
    · exact absurd (hs.symm.trans ht) (by simp)
    · cases he
      exact hx
    · cases hr
      exact ⟨.stopped, rfl, rfl⟩
  · split
    · rename_i hd
      obtain ⟨d, hd, hle⟩ := (Option.any_eq_true _ _).mp hd
      have hpos := hc d hd
      have hneg := of_decide_eq_true hle
      omega
    · refine ⟨h.asked, h.heard, h.sleepToken, h.waitToken, h.waitCancel, h.winner,
        fun hf => ?_, fun _ => ?_, h.genuine, fun r hr' => ?_⟩
      · cases hf
      · show s.finished = s.events.map Event.outcome
        rw [hfin, hev hr]
        rfl
      · exact absurd (hr.symm.trans hr') (by simp)

theorem Race.Sound.sleep {sleep : Sleep} (h : s.Sound) (ha : Asked sleep)
    (hs : sleep.stopRequested = s.sleep.stopRequested) : Race.Sound { s with sleep := sleep } :=
  ⟨ha, h.heard, (congrFun hs 0).trans h.sleepToken, h.waitToken, h.waitCancel, h.winner, h.idle,
    h.outcomes, h.genuine, h.result⟩

theorem Race.Sound.wait {wait : StopWait} (h : s.Sound) (ha : Heard wait.toWait)
    (hs : wait.stopRequested = s.wait.stopRequested) : Race.Sound { s with wait := wait } :=
  ⟨h.asked, ha, h.sleepToken, (congrFun hs 0).trans h.waitToken, by rw [hs]; exact h.waitCancel,
    h.winner, h.idle, h.outcomes, h.genuine, h.result⟩

/-- Once `cancel_source` has been asked, someone else has ended. -/
theorem Race.Sound.late {e : Event T E} (h : s.Sound) (hc : s.cancelRequested = true)
    (hf : s.finished = []) : e.Genuine s.external := absurd hf (h.winner hc)

theorem runSleep_sound {sleep : Sleep} (h : Race.Sound { s with sleep := sleep })
    (hs : s.started = true) (ht : s.runSleep sleep = some t) : t.Sound := by
  unfold Race.runSleep at ht
  split at ht
  · cases ht
    exact h
  · obtain ⟨o, ho, rfl⟩ := Option.map_eq_some_iff.mp ht
    cases ha : sleep.awaitResume with
    | none =>
      rw [ha] at ho
      cases ho
      refine h.finish (e := .timerCancelled) hs (h.late ?_)
      -- the sleep found its token stopped
      refine h.sleepToken.symm.trans ?_
      unfold Sleep.awaitResume at ha
      split at ha
      · rename_i hor
        exact (Bool.or_eq_true_iff.mp hor).elim (fun hx => h.asked (.inl hx)) id
      · cases ha
    | some status =>
      rw [ha] at ho
      unfold timeoutOutcomeTask at ho
      dsimp only at ho
      split at ho <;> cases ho
      exact h.finish (e := .expired) hs fun _ => trivial

theorem runWait_sound {wait : StopWait} (h : Race.Sound { s with wait := wait })
    (hs : s.started = true) : (s.runWait wait).Sound := by
  unfold Race.runWait
  split
  · exact h
  · rename_i hc
    obtain ⟨k, hk⟩ := h.heard (.inr (.inr hc))
    -- a wait that goes on without the external stop has been given up
    have hother : wait.stopRequested 0 ≠ true → s.cancelRequested = true := fun h0 =>
      h.waitCancel k (fun hz => h0 (hz ▸ hk)) hk
    cases ha : wait.awaitResume with
    | requested =>
      refine h.finish (e := .stopped) hs fun hf => ?_
      by_cases h0 : wait.stopRequested 0 = true
      · exact h.waitToken.symm.trans h0
      · exact h.late (hother h0) hf
    | cancelled =>
      refine h.finish (e := .waitCancelled) hs (h.late (hother fun h0 => ?_))
      unfold StopWait.awaitResume at ha
      rw [if_pos h0] at ha
      cases ha

theorem cancel_sound (hf : s.finished ≠ []) (h : s.Sound) :
    Race.Sound { s with
      cancelRequested := true
      sleep := { s.sleep with toWait := s.sleep.toWait.requestStop 0 }
      wait := { s.wait with toWait := s.wait.toWait.requestStop 1 } } where
  asked := asked_of requestStop_self
  heard := heard_of (k := 1) requestStop_self
  sleepToken := requestStop_self
  waitToken := (requestStop_ne (by decide)).trans h.waitToken
  waitCancel _ _ _ := rfl
  winner _ := hf
  idle := h.idle
  outcomes := h.outcomes
  genuine := h.genuine
  result := h.result

theorem external_sound (h : s.Sound) :
    Race.Sound { s with
      external := true
      wait := { s.wait with toWait := s.wait.toWait.requestStop 0 } } where
  asked := h.asked
  heard := heard_of (k := 0) requestStop_self
  sleepToken := h.sleepToken
  waitToken := requestStop_self
  waitCancel k hk hr := h.waitCancel k hk ((requestStop_ne hk).symm.trans hr)
  winner := h.winner
  idle := h.idle
  outcomes := h.outcomes
  genuine e he := (h.genuine e he).requested
  result := h.result

/-- `when_any` returns what the first contender returned. -/
theorem first_result (hW : W.Meets) (h : s.Sound) (hs : s.started = true) :
    (W.result s.finished).bind resolveOperationOutcome = s.events.head?.map Event.completion := by
  rw [h.outcomes hs]
  cases s.events with
  | nil => exact congrArg (Option.bind · _) hW.waits
  | cons e es =>
    rw [List.map_cons, hW.first]
    exact resolve_outcome e

theorem finish_sound (hW : W.Meets) (h : s.Sound) (hs : s.started = true)
    (ht : step W c s .finish = some t) : t.Sound := by
  simp only [step] at ht
  split at ht
  · obtain ⟨r, hr, rfl⟩ := Option.map_eq_some_iff.mp ht
    rw [first_result hW h hs] at hr
    obtain ⟨e, he, rfl⟩ := Option.map_eq_some_iff.mp hr
    refine ⟨h.asked, h.heard, h.sleepToken, h.waitToken, h.waitCancel, h.winner, fun hf => ?_,
      h.outcomes, h.genuine, fun r hr => ?_⟩
    · exact absurd (hs.symm.trans hf) (by simp)
    · cases hr
      exact ⟨e, he, rfl⟩
  · cases ht

theorem sleepStep_sound {l : Sleep.Label} (h : s.Sound)
    (hs : step W c s (.sleep l) = some t) : t.Sound := by
  have hl : l ≠ .requestStop := by
    intro he
    rw [he] at hs
    cases hs
  have hs : (if s.running .timer then
      (Sleep.step (c.timeout.getD 0) true s.sleep l).bind s.runSleep else none) = some t := by
    cases l with
    | requestStop => exact absurd rfl hl
    | run | stopCallback | runPosted | fire => exact hs
  split at hs
  · rename_i hr
    obtain ⟨sleep, hstep, hs⟩ := Option.bind_eq_some_iff.mp hs
    obtain ⟨ha, hsame⟩ := sleep_asked h.asked hl hstep
    exact runSleep_sound (h.sleep ha hsame) (h.running hr) hs
  · cases hs

theorem waitStep_sound {l : StopWait.Label} (h : s.Sound)
    (hs : step W c s (.wait l) = some t) : t.Sound := by
  have hl : ∀ k, l ≠ .requestStop k := by
    intro k he
    rw [he] at hs
    cases hs
  have hs : (if s.running .stop then (StopWait.step 2 s.wait l).map s.runWait else none) =
      some t := by
    cases l with
    | requestStop k => exact absurd rfl (hl k)
    | run | stopCallback | runPosted => exact hs
  split at hs
  · rename_i hr
    obtain ⟨wait, hstep, rfl⟩ := Option.map_eq_some_iff.mp hs
    obtain ⟨ha, hsame⟩ := stopWait_heard h.heard hl hstep
    exact runWait_sound (h.wait ha hsame) (h.running hr)
  · cases hs

theorem race_step (hW : W.Meets) (hc : ∀ d, c.timeout = some d → 1 ≤ d) {l : Label T E}
    (h : s.Sound) (hs : step W c s l = some t) : t.Sound := by
  cases l with
  | requestStop =>
    simp only [step] at hs
    split at hs <;> cases hs
    exact external_sound h
  | start =>
    simp only [step] at hs
    split at hs
    · cases hs
    · rename_i hidle
      cases hs
      obtain ⟨h0, hr⟩ := not_or.mp (fun hor => hidle (Bool.or_eq_true_iff.mpr hor))
      exact start_sound hc h (Bool.eq_false_iff.mpr h0) (by simpa using hr)
  | operation o =>
    simp only [step] at hs
    split at hs
    · rename_i hr
      cases hs
      exact h.finish (e := .operation o) (h.running hr) fun _ => trivial
    · cases hs
  | sleep l => exact sleepStep_sound h hs
  | wait l => exact waitStep_sound h hs
  | cancel =>
    simp only [step] at hs
    split at hs
    · rename_i hmay
      cases hs
      refine cancel_sound (fun hf => ?_) h
      have hstop := (Bool.and_eq_true_iff.mp hmay).2
      rw [hf, hW.stop] at hstop
      cases hstop
    · cases hs
  | finish =>
    have hgo : s.started = true := by
      simp only [step] at hs
      split at hs
      · rename_i hgo
        exact (Bool.and_eq_true_iff.mp hgo).1
      · cases hs
    exact finish_sound hW h hgo hs

theorem race_sound (hW : W.Meets) (hc : ∀ d, c.timeout = some d → 1 ≤ d)
    (h : Reachable (system W c) s) : s.Sound :=
  h.invariant (fun _ h0 => h0 ▸ race_init) fun _ _ _ _ hI hs => race_step hW hc hI hs

/-- A call ends with what the first contender to end has ended with, and not before one has. -/
structure FirstToEnd (W : WhenAny (OperationOutcome T E)) (c : Config) (s : Race T E) : Prop where
  value : ∀ r, s.result = some r → ∀ x,
    (r = .value x ↔ s.events.head? = some (.operation (.value x)))
  exception : ∀ r, s.result = some r → ∀ x,
    (r = .exception x ↔ s.events.head? = some (.operation (.exception x)))
  timeout : ∀ r, s.result = some r →
    (r = .operationTimeout ↔ s.events.head? = some .expired ∨
      s.events.head? = some (.operation .operationTimeout))
  cancelled : ∀ r, s.result = some r →
    (r = .operationCancelled ↔ s.events.head? = some .stopped ∨
      s.events.head? = some (.operation .operationCancelled))
  stopped : s.events.head? = some .stopped → s.external = true
  unprovoked : s.cancelRequested = true → ∃ e, s.events.head? = some e
  spurious : s.events.head? ≠ some .timerCancelled ∧ s.events.head? ≠ some .waitCancelled
  ends : s.result = none → ∀ e, s.events.head? = some e →
    step W c s .finish = some { s with result := some e.completion }

theorem run_controlled_first (hW : W.Meets) (hc : ∀ d, c.timeout = some d → 1 ≤ d)
    (h : Reachable (system W c) s) : FirstToEnd W c s := by
  have hS := race_sound hW hc h
  have hhead : ∀ r, s.result = some r → ∃ e, s.events.head? = some e ∧
      e.Genuine s.external ∧ r = e.completion := by
    intro r hr
    obtain ⟨e, he, hre⟩ := hS.result r hr
    exact ⟨e, he, hS.genuine e he, hre⟩
  refine ⟨fun r hr x => ?_, fun r hr x => ?_, fun r hr => ?_, fun r hr => ?_, hS.genuine _,
    fun hcr => ?_, ⟨hS.genuine _, hS.genuine _⟩, fun hn e he => ?_⟩
  · obtain ⟨e, he, hg, rfl⟩ := hhead r hr
    rw [he, Option.some_inj]
    exact completion_value hg x
  · obtain ⟨e, he, hg, rfl⟩ := hhead r hr
    rw [he, Option.some_inj]
    exact completion_exception hg x
  · obtain ⟨e, he, hg, rfl⟩ := hhead r hr
    rw [he, Option.some_inj, Option.some_inj]
    exact completion_timeout hg
  · obtain ⟨e, he, hg, rfl⟩ := hhead r hr
    rw [he, Option.some_inj, Option.some_inj]
    exact completion_cancelled hg
  · have hf := hS.winner hcr
    cases hev : s.events with
    | cons e es => exact ⟨e, rfl⟩
    | nil =>
      cases hs : s.started with
      | true => exact absurd (by rw [hS.outcomes hs, hev]; rfl) hf
      | false => exact absurd (hS.idle hs).1 hf
  · have hs : s.started = true := by
      cases hs : s.started with
      | true => rfl
      | false =>
        rw [(hS.idle hs).2.2 hn] at he
        cases he
    simp only [step]
    rw [if_pos (by simp [hs, hn]), first_result hW hS hs, he]
    rfl

end Step

/-- A `when_any` that asks to stop as soon as it may. -/
def firstOf (R : Type u) : WhenAny R where
  result := List.head?
  mayStop rs := !rs.isEmpty

theorem firstOf_meets (R : Type u) : (firstOf R).Meets := ⟨fun _ _ => rfl, rfl, rfl⟩

/-- The timer of 25 ms expires, and the operation and the wait give up. -/
theorem run_controlled_first_timer : ∃ s : Race Nat Unit,
    FirstToEnd (firstOf _) { timeout := some 25, stopPossible := true } s ∧
      s.events = [.expired, .operation .operationCancelled, .waitCancelled] ∧
      s.result = some .operationTimeout := by
  have h0 : Reachable (system (T := Nat) (E := Unit) (firstOf _)
      { timeout := some 25, stopPossible := true }) {} := .init rfl
  have h := h0.run (show run (system _ _) _ [.start, .sleep .run, .sleep .run, .sleep .run,
    .sleep .run, .sleep .run, .wait .run, .sleep (.runPosted 0 0), .sleep .fire,
    .sleep (.runPosted 0 0), .cancel, .operation .operationCancelled, .wait .run, .finish,
    .wait .run] = some _ from rfl)
  exact ⟨_, run_controlled_first (firstOf_meets _) (fun d hd => by cases hd; decide) h, rfl, rfl⟩

/-- What happens at a step, whether or not the task that waits for it has ended. -/
def Label.event? : Label T E → Option (Event T E)
  | .requestStop => some .stopped
  | .operation c => some (.operation c)
  | .sleep .fire => some .expired
  | _ => none

/-- The external stop is requested first, or the timer expires first, and the operation
ends before the task that waits for it: the call returns the value all the same. -/
theorem run_controlled_overtakes : ∃ s t : Race Nat Unit, ∃ ls ms,
    run (system (firstOf _) { timeout := some 25, stopPossible := true }) {} (.start :: ls) =
        some s ∧
      (ls.filterMap Label.event?).head? = some .stopped ∧ s.result = some (.value 7) ∧
    run (system (firstOf _) { timeout := some 25, stopPossible := true }) {} (.start :: ms) =
        some t ∧
      (ms.filterMap Label.event?).head? = some .expired ∧ t.result = some (.value 7) := by
  refine ⟨_, _, [.requestStop, .operation (.value 7), .finish],
    [.sleep .run, .sleep .run, .sleep .run, .sleep .run, .sleep .run, .wait .run,
      .sleep (.runPosted 0 0), .sleep .fire, .operation (.value 7), .finish], rfl, rfl, rfl, rfl,
    rfl, rfl⟩

end LuvCoro.Control
