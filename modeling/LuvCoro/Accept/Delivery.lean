import LuvCoro.Accept.Steps

/-! # Every accepted connection is delivered once

A call that is about to look at the fields of the server, or waits, fits them: the
one that waits finds no connection and no error there, and the one that goes on
finds something. -/
namespace LuvCoro.Accept

open Transition WaiterSlot

variable {k : Kind} {s t u : Server} {l : Label} {i j : CallId}

namespace Server

/-- There is nothing that `accept` could take. -/
def Quiet (s : Server) : Prop := s.pendingClients = [] ∧ 0 ≤ s.acceptStatus

/-- What a call at a stage goes by: whether there is something to take, who waits,
its own `status`, and whether its token is stopped. -/
def FitsAt (quiet : Prop) (waiter : Option CallId) (status : Int) (stopped : Bool) : Stage → Prop
  | .idle | .ready => status = 0
  | .suspend | .parked => status = 0 ∧ quiet
  | .register | .park => status = 0 ∧ quiet ∧ waiter = none
  | .skipped => status = UV_ECANCELED ∨ status = UV_EBUSY ∨
      status = 0 ∧ (stopped = true ∨ ¬ quiet)
  | .resumed => status = 0 ∧ ¬ quiet
  | .ended => True

def Fits (s : Server) (i : CallId) : Prop :=
  FitsAt s.Quiet s.slot.waiter (s.status i) (s.call i).stopped (s.call i).stage

theorem Fits.at_stage {stage : Stage} (h : s.Fits i) (hs : (s.call i).stage = stage) :
    FitsAt s.Quiet s.slot.waiter (s.status i) (s.call i).stopped stage := hs ▸ h

theorem Fits.of_stage (stage : Stage) (hs : (s.call i).stage = stage)
    (h : FitsAt s.Quiet s.slot.waiter (s.status i) (s.call i).stopped stage) : s.Fits i := by
  rw [Fits, hs]
  exact h

end Server

open Server

/-- A call that does not run fits as long as it finds its own fields as they were,
and nothing to take where it waits. -/
theorem fits_of_same (h : s.Fits j) (hr : (s.call j).stage.runs = false)
    (hc : t.call j = s.call j) (hs : t.status j = s.status j)
    (hq : (s.call j).stage = .parked → s.Quiet → t.Quiet) : t.Fits j := by
  unfold Server.Fits at h ⊢
  rw [hc, hs]
  generalize (s.call j).stage = stage at h hr hq ⊢
  cases stage with
  | idle => exact h
  | parked => exact ⟨h.1, hq rfl h.2⟩
  | ended => trivial
  | _ => cases hr

/-- That a token is stopped takes nothing from a call. -/
theorem fits_of_stopped (h : s.Fits j) (hs : (t.call j).stage = (s.call j).stage)
    (hst : (s.call j).stopped = true → (t.call j).stopped = true) (hstatus : t.status j = s.status j)
    (hw : t.slot.waiter = s.slot.waiter) (hq : t.Quiet ↔ s.Quiet) : t.Fits j := by
  unfold Server.Fits at h ⊢
  rw [hs, hstatus, hw, propext hq]
  generalize (s.call j).stage = stage at h ⊢
  cases stage with
  | skipped => exact h.imp_right (Or.imp_right (And.imp_right (Or.imp_left hst)))
  | _ => exact h

/-- Only one call runs. -/
theorem runs_of_ne (hv : s.slot.Valid) (hi : (s.call i).stage.runs = true) (hj : j ≠ i) :
    (s.call j).stage.runs = false := by
  cases hr : (s.call j).stage.runs with
  | false => rfl
  | true =>
    have hrun := (hv.call i).running.mpr hi
    rw [(hv.call j).running.mpr hr] at hrun
    exact absurd (Option.some.inj hrun) hj

theorem runs_of_none (hv : s.slot.Valid) (hr : s.slot.running = none) (j : CallId) :
    (s.call j).stage.runs = false := by
  cases hj : (s.call j).stage.runs with
  | false => rfl
  | true =>
    rw [(hv.call j).running.mpr hj] at hr
    cases hr

/-- Whoever is resumed finds something. -/
theorem wake_fits {rc : Int} (hv : s.slot.Valid) (hr : s.slot.running = none)
    (hf : ∀ j, s.Fits j) (hcall : u.slot.call = s.slot.call)
    (hwaiter : u.slot.waiter = s.slot.waiter) (hstatus : u.status = s.status)
    (hq : ¬ (u.wake rc).Quiet) (j : CallId) : (u.wake rc).Fits j := by
  by_cases hw : s.slot.waiter = some j
  · have hs : (s.call j).stage = .parked := (hv.call j).waiter.mp hw
    have hc : (u.wake rc).call j = { u.call j with stage := .resumed } :=
      Slot.wake_call_self (hwaiter.trans hw)
    refine Fits.of_stage .resumed (by rw [hc]) ⟨?_, hq⟩
    exact (congrFun hstatus j).trans ((hf j).at_stage hs).1
  · have hc : (u.wake rc).call j = s.call j := by
      refine (Slot.wake_call_of_ne ?_).trans (congrFun hcall j)
      rwa [hwaiter]
    refine fits_of_same (hf j) (runs_of_none hv hr j) hc (congrFun hstatus j) ?_
    intro hs
    exact absurd ((hv.call j).waiter.mpr hs) hw

/-! ## What a step keeps -/

theorem Resumed.slot {r : Except Error Client} (h : Resumed k s i r u) : u.slot = s.slot := by
  cases h <;> rfl

theorem slot_step (hv : s.slot.Valid) (hf : ∀ i, s.Fits i) (h : Took k s l t) : t.slot.Valid := by
  cases h with
  | refused hr hs => exact hv.leave (.inr ⟨hr, hs⟩)
  | entered hr hs => exact hv.enter hr hs
  | passed hs =>
    rw [Server.call] at hs
    exact hv.moveTo (by rw [hs]; rfl) (by rw [hs]; rfl) rfl
  | suspending hs =>
    rw [Server.call] at hs
    exact hv.moveTo (by rw [hs]; rfl) (by rw [hs]; rfl) rfl
  | stopped hs =>
    rw [Server.call] at hs
    exact hv.moveTo (by rw [hs]; rfl) (by rw [hs]; rfl) rfl
  | busy hs =>
    rw [Server.call] at hs
    exact hv.moveTo (by rw [hs]; rfl) (by rw [hs]; rfl) rfl
  | registering hs =>
    rw [Server.call] at hs
    exact hv.moveTo (by rw [hs]; rfl) (by rw [hs]; rfl) rfl
  | registered hs => exact hv.register hs
  | @parked i hs =>
    exact hv.park hs ((hf i).at_stage hs).2.2
  | @resumed i r u hs hres =>
    refine Slot.Valid.leave (hres.slot ▸ hv) (.inl ?_)
    rw [hres.slot]
    rcases hs with hs | hs <;> rw [Server.call] at hs <;> rw [hs] <;> rfl
  | stopRequested => exact hv.requestStop
  | callback hreg hst => exact hv.callback hreg hst
  | drained => exact hv.pop
  | cancelled hr => exact hv.pop.wake hr
  | failed hr => exact hv.wake hr
  | connected hr => exact hv.wake hr
  | ignored => exact hv
  | closed hr => exact hv.wake hr
  | closedIdle => exact hv
  | closedRest => exact hv

/-- The call that runs moves to its next stage, and nothing else changes. -/
theorem fits_moveTo {stage : Stage} {status : CallId → Int} (hv : s.slot.Valid)
    (hf : ∀ j, s.Fits j) (hi : (s.call i).stage.runs = true)
    (hstatus : ∀ j, j ≠ i → status j = s.status j)
    (hfit : FitsAt s.Quiet s.slot.waiter (status i) (s.call i).stopped stage) (j : CallId) :
    Server.Fits { s with status := status, slot := s.slot.moveTo i stage } j := by
  by_cases hj : j = i
  · subst hj
    have hc : (s.slot.moveTo j stage).call j = { s.call j with stage := stage } :=
      Slot.moveTo_call_self
    unfold Server.Fits Server.call
    rw [hc]
    exact hfit
  · exact fits_of_same (hf j) (runs_of_ne hv hi hj) (Slot.set_call_of_ne hj) (hstatus j hj)
      fun _ hq => hq

theorem Resumed.quiet {r : Except Error Client} (h : Resumed k s i r u) (hq : s.Quiet) :
    u.Quiet := by
  cases h with
  | cancelled => exact hq
  | refused => exact hq
  | leaked => exact ⟨hq.1, Int.le_refl 0⟩
  | failed => exact ⟨hq.1, Int.le_refl 0⟩
  | empty => exact hq
  | accepted _ _ hp =>
    rw [hq.1] at hp
    cases hp

theorem Resumed.status {r : Except Error Client} (h : Resumed k s i r u) : u.status = s.status := by
  cases h <;> rfl

theorem leave_fits {r : Except Error Client} (hf : ∀ j, s.Fits j)
    (hother : ∀ j, j ≠ i → (s.call j).stage.runs = false) (hslot : u.slot = s.slot)
    (hstatus : u.status = s.status) (hq : s.Quiet → u.Quiet) (j : CallId) :
    (u.leave i r).Fits j := by
  by_cases hj : j = i
  · subst hj
    have hs : ((u.leave j r).call j).stage = .ended := by
      simp [Server.leave, Server.call, Slot.leave]
    unfold Server.Fits
    rw [hs]
    trivial
  · refine fits_of_same (hf j) (hother j hj) ?_ (congrFun hstatus j) fun _ => hq
    have hc : (u.leave i r).call j = u.call j := Slot.set_call_of_ne hj
    rw [hc, Server.call, hslot]
    rfl


theorem not_quiet {rc : Int} (h : rc < 0 ∨ s.pendingClients ≠ []) : ¬ (s.wake rc).Quiet := by
  intro hq
  rcases h with h | h
  · exact Int.not_lt.mpr hq.2 h
  · exact h hq.1

theorem fits_step (hv : s.slot.Valid) (hf : ∀ i, s.Fits i) (h : Took k s l t) (j : CallId) :
    t.Fits j := by
  cases h with
  | refused hr hs =>
    exact leave_fits hf (fun j _ => runs_of_none hv hr j) rfl rfl id j
  | @entered i p hr hs =>
    by_cases hj : j = i
    · subst hj
      refine Fits.of_stage .ready (by simp [Server.call, Slot.enter]) ?_
      exact (hf j).at_stage hs
    · exact fits_of_same (hf j) (runs_of_none hv hr j) (Slot.set_call_of_ne hj) rfl fun _ hq => hq
  | @passed i hs hready =>
    refine fits_moveTo hv hf (by rw [hs]; rfl) (fun _ _ => rfl) ?_ j
    refine .inr (.inr ⟨(hf i).at_stage hs, ?_⟩)
    simp only [Server.awaitReady, Bool.or_eq_true, decide_eq_true_eq] at hready
    rcases hready with (hst | hp) | ha
    · exact .inl hst
    · refine .inr fun hq => ?_
      rw [hq.1] at hp
      cases hp
    · exact .inr fun hq => Int.not_lt.mpr hq.2 ha
  | @suspending i hs hp ha =>
    refine fits_moveTo hv hf (by rw [hs]; rfl) (fun _ _ => rfl) ?_ j
    exact ⟨(hf i).at_stage hs, hp, ha⟩
  | stopped hs =>
    refine fits_moveTo hv hf (by rw [hs]; rfl) (fun j hj => Function.update_of_ne hj _ _) ?_ j
    exact .inl (Function.update_self ..)
  | busy hs =>
    refine fits_moveTo hv hf (by rw [hs]; rfl) (fun j hj => Function.update_of_ne hj _ _) ?_ j
    exact .inr (.inl (Function.update_self ..))
  | @registering i hs hw =>
    refine fits_moveTo hv hf (by rw [hs]; rfl) (fun _ _ => rfl) ?_ j
    obtain ⟨h0, hq⟩ := (hf i).at_stage hs
    exact ⟨h0, hq, hw⟩
  | @registered i hs =>
    by_cases hj : j = i
    · subst hj
      refine Fits.of_stage .park Slot.register_stage ?_
      obtain ⟨h0, hq, hw⟩ := (hf j).at_stage hs
      exact ⟨h0, hq, Slot.register_waiter.trans hw⟩
    · exact fits_of_same (hf j) (runs_of_ne hv (by rw [hs]; rfl) hj)
        (Slot.same_register hj).call rfl fun _ hq => hq
  | @parked i hs =>
    by_cases hj : j = i
    · subst hj
      refine Fits.of_stage .parked (by simp [Server.call, Slot.park]) ?_
      obtain ⟨h0, hq, _⟩ := (hf j).at_stage hs
      exact ⟨h0, hq⟩
    · exact fits_of_same (hf j) (runs_of_ne hv (by rw [hs]; rfl) hj) (Slot.set_call_of_ne hj) rfl
        fun _ hq => hq
  | @resumed i r u hs hres =>
    refine leave_fits hf (fun j hj => runs_of_ne hv ?_ hj) hres.slot hres.status hres.quiet j
    rcases hs with hs | hs <;> rw [hs] <;> rfl
  | stopRequested =>
    exact fits_of_stopped (hf j) Slot.requestStop_stage Slot.requestStop_stopped rfl rfl Iff.rfl
  | callback =>
    exact fits_of_stopped (hf j) Slot.callback_stage Slot.callback_stopped.trans rfl rfl Iff.rfl
  | drained => exact hf j
  | cancelled hr =>
    refine wake_fits hv hr hf ?_ ?_ ?_ (not_quiet (.inl (by decide))) j
    · rfl
    · rfl
    · rfl
  | failed hr _ hrc => exact wake_fits hv hr hf rfl rfl rfl (not_quiet (.inl hrc)) j
  | connected hr =>
    refine wake_fits hv hr hf ?_ ?_ ?_ (not_quiet (.inr (by simp))) j
    · rfl
    · rfl
    · rfl
  | ignored => exact hf j
  | closed hr =>
    refine wake_fits hv hr hf ?_ ?_ ?_ (not_quiet (.inl (by decide))) j
    · rfl
    · rfl
    · rfl
  | closedIdle => exact hf j
  | closedRest hr =>
    exact fits_of_same (hf j) (runs_of_none hv hr j) rfl rfl fun _ hq => ⟨rfl, hq.2⟩

/-- What `await_resume` does not find is an empty server. -/
theorem Resumed.not_empty {r : Except Error Client} (hf : s.Fits i)
    (hs : (s.call i).stage = .skipped ∨ (s.call i).stage = .resumed) (h : Resumed k s i r u) :
    r ≠ .error (.runtimeError k.withoutClient) := by
  cases h with
  | empty h0 hst ha hp =>
    exfalso
    rcases hs with hs | hs
    · rcases hf.at_stage hs with he | he | ⟨_, he⟩
      · rw [he] at h0
        exact absurd h0 (by decide)
      · rw [he] at h0
        exact absurd h0 (by decide)
      · rcases he with he | he
        · rw [hst] at he
          cases he
        · exact he ⟨hp, ha⟩
    · exact (hf.at_stage hs).2 ⟨hp, ha⟩
  | _ => simp

theorem notListening_ne : (Error.runtimeError k.notListening) ≠ .runtimeError k.withoutClient := by
  cases k <;> decide

/-! ## The history -/

/-- The connections come in order: those that were returned, those that were closed,
and those that still wait. -/
structure Ledger (s : Server) : Prop where
  order : s.history.arrived =
    s.history.returned.map Prod.snd ++ s.history.closed ++ s.pendingClients
  numbered : s.history.arrived = List.range s.history.arrived.length
  closed : s.handle = true → s.history.closed = [] ∧ s.closing = false
  shut : s.handle = false → s.closing = false → s.pendingClients = []
  emptied : s.history.closed ≠ [] → s.pendingClients = []

theorem Ledger.of_same (h : Ledger s) (hh : t.history = s.history)
    (hp : t.pendingClients = s.pendingClients) (ho : t.handle = s.handle)
    (hc : t.closing = s.closing) : Ledger t := by
  obtain ⟨order, numbered, closed, shut, emptied⟩ := h
  constructor
  · rw [hh, hp]
    exact order
  · rw [hh]
    exact numbered
  · rw [hh, ho, hc]
    exact closed
  · rw [ho, hc, hp]
    exact shut
  · rw [hh, hp]
    exact emptied

theorem Resumed.ledger {r : Except Error Client} (h : Resumed k s i r u) (hl : Ledger s) :
    Ledger u := by
  cases h with
  | @accepted client rest _ _ hp =>
    have hclosed : s.history.closed = [] := by
      by_contra hne
      rw [hl.emptied hne] at hp
      cases hp
    refine ⟨?_, hl.numbered, hl.closed, ?_, ?_⟩
    · have ho := hl.order
      rw [hclosed, hp] at ho
      simp [ho, hclosed]
    · intro hh hc
      have hnil := hl.shut hh hc
      rw [hp] at hnil
      cases hnil
    · intro hne
      exact absurd hclosed hne
  | _ => exact hl.of_same rfl rfl rfl rfl

theorem ledger_step (hl : Ledger s) (h : Took k s l t) : Ledger t := by
  cases h with
  | resumed _ hres => exact (hres.ledger hl).of_same rfl rfl rfl rfl
  | connected _ hh =>
    obtain ⟨hclosed, hclosing⟩ := hl.closed hh
    refine ⟨?_, ?_, hl.closed, ?_, ?_⟩
    · simp only [Server.wake]
      rw [← List.append_assoc, ← hl.order]
    · simp only [Server.wake, List.length_append, List.length_singleton, List.range_succ]
      rw [← hl.numbered]
    · intro hf
      rw [show s.handle = false from hf] at hh
      cases hh
    · intro hne
      exact absurd hclosed hne
  | closed _ hh =>
    obtain ⟨hclosed, _⟩ := hl.closed hh
    refine ⟨hl.order, hl.numbered, fun hf => ?_, fun _ hf => ?_, hl.emptied⟩
    · cases hf
    · cases hf
  | closedIdle _ hh =>
    refine ⟨hl.order, hl.numbered, fun hf => ?_, fun _ hf => ?_, hl.emptied⟩
    · cases hf
    · cases hf
  | closedRest _ hc =>
    refine ⟨?_, hl.numbered, fun hh => ?_, fun _ _ => rfl, fun _ => rfl⟩
    · simp only [Server.closeRest, List.append_nil, ← List.append_assoc]
      exact hl.order
    · rw [(hl.closed hh).2] at hc
      cases hc
  | _ => exact hl.of_same rfl rfl rfl rfl

/-- How each call was left. -/
structure Outcomes (k : Kind) (s : Server) : Prop where
  ended : ∀ i, s.outcome i ≠ none → (s.call i).stage = .ended
  returned : ∀ i client, (i, client) ∈ s.history.returned ↔ s.outcome i = some (.ok client)
  client : ∀ i, s.outcome i ≠ some (.error (.runtimeError k.withoutClient))

/-- A call that is over stays as it was left; its token may still be stopped. -/
theorem ended_step (hv : s.slot.Valid) (h : Took k s l t) (hs : (s.call i).stage = .ended) :
    (t.call i).stage = .ended ∧ t.outcome i = s.outcome i ∧
      ((s.call i).stopped = true → (t.call i).stopped = true) := by
  have hsame : t.call i = s.call i → t.outcome i = s.outcome i →
      (t.call i).stage = .ended ∧ t.outcome i = s.outcome i ∧
        ((s.call i).stopped = true → (t.call i).stopped = true) := by
    intro hc ho
    rw [hc]
    exact ⟨hs, ho, id⟩
  have hne : ∀ {j stage}, (s.call j).stage = stage → stage ≠ .ended → i ≠ j := by
    rintro j stage rfl hj rfl
    exact hj hs
  have hwake : ∀ {u : Server} {rc : Int}, u.slot.call = s.slot.call →
      u.slot.waiter = s.slot.waiter → (u.wake rc).call i = s.call i := by
    intro u rc hc hw
    refine (Slot.wake_call_of_ne ?_).trans (congrFun hc i)
    rw [hw]
    intro hwait
    rw [Server.call, (hv.call i).waiter.mp hwait] at hs
    cases hs
  cases h with
  | refused _ hj =>
    have hij := hne hj (by decide)
    exact hsame (Slot.set_call_of_ne hij) (Function.update_of_ne hij _ _)
  | entered _ hj => exact hsame (Slot.set_call_of_ne (hne hj (by decide))) rfl
  | passed hj => exact hsame (Slot.set_call_of_ne (hne hj (by decide))) rfl
  | suspending hj => exact hsame (Slot.set_call_of_ne (hne hj (by decide))) rfl
  | stopped hj => exact hsame (Slot.set_call_of_ne (hne hj (by decide))) rfl
  | busy hj => exact hsame (Slot.set_call_of_ne (hne hj (by decide))) rfl
  | registering hj => exact hsame (Slot.set_call_of_ne (hne hj (by decide))) rfl
  | registered hj => exact hsame (Slot.same_register (hne hj (by decide))).call rfl
  | parked hj => exact hsame (Slot.set_call_of_ne (hne hj (by decide))) rfl
  | @resumed j r u hj hres =>
    have hij : i ≠ j := by rcases hj with hj | hj <;> exact hne hj (by decide)
    refine hsame ?_ ((Function.update_of_ne hij _ _).trans ?_)
    · refine (Slot.set_call_of_ne hij).trans ?_
      rw [hres.slot]
      rfl
    · cases hres <;> rfl
  | stopRequested => exact ⟨Slot.requestStop_stage.trans hs, rfl, Slot.requestStop_stopped⟩
  | callback => exact ⟨Slot.callback_stage.trans hs, rfl, Slot.callback_stopped.trans⟩
  | drained => exact hsame rfl rfl
  | cancelled => exact hsame (hwake rfl rfl) rfl
  | failed => exact hsame (hwake rfl rfl) rfl
  | connected => exact hsame (hwake rfl rfl) rfl
  | ignored => exact hsame rfl rfl
  | closed => exact hsame (hwake rfl rfl) rfl
  | closedIdle => exact hsame rfl rfl
  | closedRest => exact hsame rfl rfl

theorem Outcomes.of_same (h : Outcomes k s) (hv : s.slot.Valid) (ht : Took k s l t)
    (ho : t.outcome = s.outcome) (hh : t.history.returned = s.history.returned) :
    Outcomes k t := by
  refine ⟨?_, ?_, ?_⟩
  · intro i hi
    rw [ho] at hi
    exact (ended_step hv ht (h.ended i hi)).1
  · intro i client
    rw [hh, ho]
    exact h.returned i client
  · intro i
    rw [ho]
    exact h.client i

/-- A call that runs is left with `r`. -/
theorem Outcomes.leave {r : Except Error Client} (h : Outcomes k s) (hv : s.slot.Valid)
    (ht : Took k s l (u.leave i r)) (hi : (s.call i).stage ≠ .ended)
    (ho : u.outcome = s.outcome)
    (hreturned : ∀ j client, (j, client) ∈ u.history.returned ↔
      (j, client) ∈ s.history.returned ∨ j = i ∧ r = .ok client)
    (hclient : r ≠ .error (.runtimeError k.withoutClient)) : Outcomes k (u.leave i r) := by
  have hnone : s.outcome i = none := by
    by_contra hne
    exact hi (h.ended i hne)
  have hother : ∀ j, j ≠ i → (u.leave i r).outcome j = s.outcome j := by
    intro j hj
    exact (Function.update_of_ne hj _ _).trans (congrFun ho j)
  have hself : (u.leave i r).outcome i = some r := Function.update_self ..
  refine ⟨?_, ?_, ?_⟩
  · intro j hj
    rcases eq_or_ne j i with rfl | hne
    · simp [Server.leave, Server.call, Slot.leave]
    · rw [hother j hne] at hj
      exact (ended_step hv ht (h.ended j hj)).1
  · intro j client
    refine (hreturned j client).trans ?_
    rcases eq_or_ne j i with rfl | hne
    · rw [hself, h.returned j client, hnone]
      simp
    · rw [hother j hne, h.returned j client]
      exact or_iff_left fun he => hne he.1
  · intro j
    rcases eq_or_ne j i with rfl | hne
    · rw [hself]
      exact fun he => hclient (Option.some.inj he)
    · rw [hother j hne]
      exact h.client j

theorem outcomes_step (hv : s.slot.Valid) (hf : ∀ i, s.Fits i) (ho : Outcomes k s)
    (h : Took k s l t) : Outcomes k t := by
  have hstep := h
  cases h with
  | @refused i p hr hs =>
    refine ho.leave hv hstep (by rw [hs]; decide) rfl (by simp) ?_
    exact fun he => notListening_ne (Except.error.inj he)
  | @resumed i r u hs hres =>
    refine ho.leave hv hstep ?_ ?_ ?_ (hres.not_empty (hf i) hs)
    · rcases hs with hs | hs <;> rw [hs] <;> decide
    · cases hres <;> rfl
    · cases hres <;> simp [eq_comm]
  | _ => exact ho.of_same hv hstep rfl rfl

/-! ## A call that finds another one waiting -/

/-- Whoever asks has found the server open. -/
structure Opened (s : Server) : Prop where
  listening : s.listening = s.handle
  asks : ∀ i, (s.call i).stage ∈ [.ready, .suspend, .register, .park, .parked] → s.handle = true

theorem Opened.of_call (h : Opened s) (hl : t.listening = s.listening) (hh : t.handle = s.handle)
    (hc : ∀ j, (t.call j).stage ∈ [.ready, .suspend, .register, .park, .parked] →
      s.handle = true ∨ (t.call j).stage = (s.call j).stage) : Opened t := by
  refine ⟨by rw [hl, hh, h.listening], fun j hj => ?_⟩
  rw [hh]
  rcases hc j hj with ho | hs
  · exact ho
  · exact h.asks j (hs ▸ hj)

/-- While no call runs, only the one that waits has asked. -/
theorem waits_of_asks (hv : s.slot.Valid) (hr : s.slot.running = none)
    (hj : (s.call j).stage ∈ [.ready, .suspend, .register, .park, .parked]) :
    s.slot.waiter = some j := by
  refine (hv.call j).waiter.mpr ?_
  have hruns := runs_of_none hv hr j
  rw [← Server.call]
  generalize (s.call j).stage = stage at hj hruns
  cases stage with
  | parked => rfl
  | _ => simp [Stage.runs] at hj hruns

/-- Whoever is taken out of the slot asks no more; the others stay where they are. -/
theorem asks_of_wake {rc : Int} (hcall : u.slot.call = s.slot.call)
    (hwaiter : u.slot.waiter = s.slot.waiter)
    (hj : ((u.wake rc).call j).stage ∈ [.ready, .suspend, .register, .park, .parked]) :
    s.slot.waiter ≠ some j ∧ ((u.wake rc).call j).stage = (s.call j).stage := by
  by_cases hwait : u.slot.waiter = some j
  · have hc : (u.wake rc).call j = { u.call j with stage := .resumed } :=
      Slot.wake_call_self hwait
    rw [hc] at hj
    simp at hj
  · have hc : (u.wake rc).call j = s.call j :=
      (Slot.wake_call_of_ne hwait).trans (congrFun hcall j)
    exact ⟨hwaiter ▸ hwait, congrArg Call.stage hc⟩

theorem opened_step (hv : s.slot.Valid) (h : Opened s) (ht : Took k s l t) : Opened t := by
  have hmove : ∀ {i stage} {status : CallId → Int},
      (s.call i).stage ∈ [.ready, .suspend, .register, .park, .parked] →
      Opened { s with status := status, slot := s.slot.moveTo i stage } :=
    fun hi => h.of_call rfl rfl fun _ _ => .inl (h.asks _ hi)
  have hwake : ∀ {u : Server} {rc : Int}, u.slot.call = s.slot.call →
      u.slot.waiter = s.slot.waiter → u.listening = s.listening → u.handle = s.handle →
      Opened (u.wake rc) :=
    fun hcall hw hl hh => h.of_call hl hh fun _ hj => .inr (asks_of_wake hcall hw hj).2
  cases ht with
  | @refused i p hr hs =>
    refine h.of_call rfl rfl fun j hj => ?_
    by_cases hji : j = i
    · subst hji
      simp [Server.leave, Server.call, Slot.leave] at hj
    · exact .inr (congrArg Call.stage (Slot.set_call_of_ne hji))
  | entered _ _ hh => exact h.of_call rfl rfl fun _ _ => .inl hh
  | passed hs => exact hmove (by rw [hs]; decide)
  | suspending hs => exact hmove (by rw [hs]; decide)
  | stopped hs => exact hmove (by rw [hs]; decide)
  | busy hs => exact hmove (by rw [hs]; decide)
  | registering hs => exact hmove (by rw [hs]; decide)
  | @registered i hs =>
    exact h.of_call rfl rfl fun _ _ => .inl (h.asks i (by rw [hs]; decide))
  | @parked i hs =>
    exact h.of_call rfl rfl fun _ _ => .inl (h.asks i (by rw [hs]; decide))
  | @resumed i r u hs hres =>
    refine h.of_call ?_ ?_ fun j hj => ?_
    · cases hres <;> rfl
    · cases hres <;> rfl
    · by_cases hji : j = i
      · subst hji
        simp [Server.leave, Server.call, Slot.leave] at hj
      · refine .inr (congrArg Call.stage ((Slot.set_call_of_ne hji).trans ?_))
        rw [hres.slot]
        rfl
  | stopRequested => exact h.of_call rfl rfl fun _ _ => .inr Slot.requestStop_stage
  | callback => exact h.of_call rfl rfl fun _ _ => .inr Slot.callback_stage
  | drained => exact ⟨h.listening, h.asks⟩
  | cancelled => exact hwake rfl rfl rfl rfl
  | failed => exact hwake rfl rfl rfl rfl
  | connected => exact hwake rfl rfl rfl rfl
  | ignored => exact h
  | closed hr =>
    refine ⟨rfl, fun j hj => ?_⟩
    obtain ⟨hne, hstage⟩ := asks_of_wake (s := s)
      (u := { s with handle := false, listening := false, closing := true }) rfl rfl hj
    rw [hstage] at hj
    exact absurd (waits_of_asks hv hr hj) hne
  | closedIdle hr _ hw =>
    refine ⟨rfl, fun j hj => ?_⟩
    rw [waits_of_asks hv hr hj] at hw
    cases hw
  | closedRest => exact ⟨h.listening, h.asks⟩

/-- While a call runs, nothing happens to it but that its token is stopped. -/
theorem running_step (hv : s.slot.Valid) (h : Took k s l t) (hi : (s.call i).stage.runs = true)
    (hl : l ≠ .run i) : t.slot.waiter = s.slot.waiter ∧ (t.call i).stage = (s.call i).stage ∧
      t.status = s.status ∧ t.outcome = s.outcome ∧
      ((s.call i).stopped = true → (t.call i).stopped = true) := by
  have hidle : s.slot.running ≠ none := by
    rw [(hv.call i).running.mpr hi]
    simp
  have hrun : ∀ {a : CallId} {stage : Stage}, l = .run a → (s.call a).stage = stage →
      stage.runs = false := by
    intro a stage ha hs
    subst ha hs
    exact runs_of_ne hv hi fun he => hl (he ▸ rfl)
  cases h with
  | refused hr => exact absurd hr hidle
  | entered hr => exact absurd hr hidle
  | passed hs => cases hrun rfl hs
  | suspending hs => cases hrun rfl hs
  | stopped hs => cases hrun rfl hs
  | busy hs => cases hrun rfl hs
  | registering hs => cases hrun rfl hs
  | registered hs => cases hrun rfl hs
  | parked hs => cases hrun rfl hs
  | resumed hs =>
    rcases hs with hs | hs
    · cases hrun rfl hs
    · cases hrun rfl hs
  | stopRequested => exact ⟨rfl, Slot.requestStop_stage, rfl, rfl, Slot.requestStop_stopped⟩
  | callback => exact ⟨rfl, Slot.callback_stage, rfl, rfl, Slot.callback_stopped.trans⟩
  | drained hr => exact absurd hr hidle
  | cancelled hr => exact absurd hr hidle
  | failed hr => exact absurd hr hidle
  | connected hr => exact absurd hr hidle
  | ignored => exact ⟨rfl, rfl, rfl, rfl, id⟩
  | closed hr => exact absurd hr hidle
  | closedIdle hr => exact absurd hr hidle
  | closedRest hr => exact absurd hr hidle

/-- The token of a call that finds another one waiting decides between these two. -/
def Turned (k : Kind) (s : Server) (i : CallId) : Prop :=
  s.outcome i = some (.error (.uvError UV_EBUSY k.accept)) ∨
    s.outcome i = some (.error .operationCancelled) ∧ (s.call i).stopped = true

/-- Where a call stands that was made while `j` waits. -/
inductive Second (k : Kind) (s : Server) (i j : CallId) : Prop
  | asks : s.slot.waiter = some j → s.outcome i = none →
      (s.call i).stage = .ready ∨ (s.call i).stage = .suspend → Second k s i j
  | answered : s.slot.waiter = some j → s.outcome i = none → (s.call i).stage = .skipped →
      s.status i = UV_EBUSY ∨ (s.call i).stopped = true → Second k s i j
  | ended : (s.call i).stage = .ended → Turned k s i → Second k s i j

structure Inv (k : Kind) (s : Server) : Prop where
  slot : s.slot.Valid
  fits : ∀ i, s.Fits i
  ledger : Ledger s
  outcomes : Outcomes k s
  opened : Opened s

theorem Inv.init : Inv k {} where
  slot := Slot.Valid.init
  fits i := rfl
  ledger := ⟨rfl, rfl, fun _ => ⟨rfl, rfl⟩, fun h => absurd h (by simp), fun h => absurd rfl h⟩
  outcomes := ⟨fun i h => absurd rfl h, by simp, by simp⟩
  opened := ⟨rfl, by simp⟩

theorem inv_of_reachable (h : Reachable (system k) s) : Inv k s := by
  refine h.invariant (I := Inv k) ?_ ?_
  · rintro s rfl
    exact Inv.init
  · intro s l t _ hi hs
    have ht := step_took hs
    exact ⟨slot_step hi.slot hi.fits ht, fits_step hi.slot hi.fits ht, ledger_step hi.ledger ht,
      outcomes_step hi.slot hi.fits hi.outcomes ht, opened_step hi.slot hi.opened ht⟩

/-- Nothing is left for a call while another one waits. -/
theorem Inv.quiet (h : Inv k s) (hw : s.slot.waiter = some j) : s.Quiet :=
  ((h.fits j).at_stage ((h.slot.call j).waiter.mp hw)).2

theorem second_start {p : Bool} (h : Inv k s) (hw : s.slot.waiter = some j)
    (ht : Took k s (.accept i p) t) : Second k t i j := by
  have hopen : s.handle = true :=
    h.opened.asks j (by simp [show (s.call j).stage = .parked from (h.slot.call j).waiter.mp hw])
  cases ht with
  | refused _ _ hl =>
    rw [h.opened.listening, hopen] at hl
    simp at hl
  | entered _ hs =>
    refine .asks hw ?_ (.inl (by simp [Server.call, Slot.enter]))
    by_contra hne
    rw [h.outcomes.ended i hne] at hs
    cases hs
  | ignored hh =>
    rw [hopen] at hh
    cases hh

/-- The call goes on as its own token and `accept_waiter_` decide. -/
theorem second_run (h : Inv k s) (h2 : Second k s i j) (ht : Took k s (.run i) t) :
    Second k t i j := by
  cases h2 with
  | asks hw ho hs =>
    cases ht with
    | passed hs' hready =>
      have hq := h.quiet hw
      have hst : (s.call i).stopped = true := by
        simpa [Server.awaitReady, hq.1, Int.not_lt.mpr hq.2] using hready
      exact .answered hw ho (by simp [Server.call]) (.inr (by simpa [Server.call] using hst))
    | suspending => exact .asks hw ho (.inr (by simp [Server.call]))
    | stopped _ hst =>
      exact .answered hw ho (by simp [Server.call]) (.inr (by simpa [Server.call] using hst))
    | busy => exact .answered hw ho (by simp [Server.call]) (.inl (Function.update_self ..))
    | registering _ hnone =>
      rw [hw] at hnone
      cases hnone
    | registered hs' | parked hs' => rw [hs'] at hs; simp at hs
    | resumed hs' => rcases hs' with hs' | hs' <;> rw [hs'] at hs <;> simp at hs
    | ignored => exact .asks hw ho hs
  | answered hw ho hs hwhy =>
    cases ht with
    | @resumed _ r u _ hres =>
      have hq := h.quiet hw
      have hover : ∀ {r}, r = .error (.uvError UV_EBUSY k.accept) ∨
          r = .error .operationCancelled ∧ (s.call i).stopped = true →
          Second k (u.leave i r) i j := by
        intro r hr
        refine .ended (by simp [Server.leave, Server.call, Slot.leave]) ?_
        have hself : (u.leave i r).outcome i = some r := Function.update_self ..
        have hst : ((u.leave i r).call i).stopped = (s.call i).stopped := by
          simp [Server.leave, Server.call, Slot.leave, hres.slot]
        unfold Turned
        rw [hself, hst]
        exact hr.imp (congrArg some) (And.imp_left (congrArg some))
      cases hres with
      | cancelled hc =>
        refine hover (.inr ⟨rfl, ?_⟩)
        rcases hc with hc | hc
        · refine hwhy.resolve_left fun hb => ?_
          rw [hc] at hb
          exact absurd hb (by decide)
        · exact hc
      | refused hne hneg =>
        refine hover (.inl ?_)
        rcases (h.fits i).at_stage hs with he | he | he
        · exact absurd he hne
        · rw [he]
        · rw [he.1] at hneg
          exact absurd hneg (by decide)
      | leaked h0 hst =>
        rcases hwhy with hb | hb
        · exact absurd (hb ▸ h0) (by decide)
        · rw [hst] at hb
          cases hb
      | failed _ ha => exact absurd ha (Int.not_lt.mpr hq.2)
      | empty h0 hst =>
        rcases hwhy with hb | hb
        · exact absurd (hb ▸ h0) (by decide)
        · rw [hst] at hb
          cases hb
      | accepted _ _ hp =>
        rw [hq.1] at hp
        cases hp
    | passed hs' | suspending hs' | stopped hs' | busy hs' | registering hs' | registered hs'
    | parked hs' => rw [hs'] at hs; cases hs
    | ignored => exact .answered hw ho hs hwhy
  | ended hs hturned =>
    obtain ⟨hs', ho, hst⟩ := ended_step h.slot ht hs
    refine .ended hs' ?_
    unfold Turned
    rw [ho]
    exact hturned.imp_right (And.imp_right hst)

theorem second_step (h : Inv k s) (h2 : Second k s i j) (ht : Took k s l t) :
    Second k t i j := by
  by_cases hl : l = .run i
  · subst hl
    exact second_run h h2 ht
  · cases h2 with
    | asks hw ho hs =>
      have hruns : (s.call i).stage.runs = true := by rcases hs with hs | hs <;> rw [hs] <;> rfl
      obtain ⟨hw', hs', _, ho', _⟩ := running_step h.slot ht hruns hl
      exact .asks (hw'.trans hw) ((congrFun ho' i).trans ho) (hs' ▸ hs)
    | answered hw ho hs hwhy =>
      obtain ⟨hw', hs', hstatus, ho', hst⟩ := running_step h.slot ht (by rw [hs]; rfl) hl
      exact .answered (hw'.trans hw) ((congrFun ho' i).trans ho) (hs'.trans hs)
        (hwhy.imp (congrFun hstatus i).trans hst)
    | ended hs hturned =>
      obtain ⟨hs', ho, hst⟩ := ended_step h.slot ht hs
      refine .ended hs' ?_
      unfold Turned
      rw [ho]
      exact hturned.imp_right (And.imp_right hst)

/-! ## The contract -/

/-- The call `i`, made while `j` waits, is over, or it can go on and `j` still waits. -/
def Busy (k : Kind) (s : Server) (i j : CallId) : Prop :=
  Turned k s i ∨
    s.outcome i = none ∧ s.slot.waiter = some j ∧ (step k s (.run i)).isSome = true

theorem Second.busy (h : Inv k s) (h2 : Second k s i j) : Busy k s i j := by
  have hstep : (s.call i).stage = .ready ∨ (s.call i).stage = .suspend ∨
      (s.call i).stage = .skipped → (step k s (.run i)).isSome = true := by
    intro hs
    have hrun : s.slot.running = some i := by
      refine (h.slot.call i).running.mpr ?_
      rw [← Server.call]
      rcases hs with hs | hs | hs <;> rw [hs] <;> rfl
    simp only [step, if_pos hrun, Server.run]
    rcases hs with hs | hs | hs <;> rw [hs] <;> rfl
  cases h2 with
  | asks hw ho hs => exact .inr ⟨ho, hw, hstep (hs.imp_right .inl)⟩
  | answered hw ho hs _ => exact .inr ⟨ho, hw, hstep (.inr (.inr hs))⟩
  | ended _ hturned => exact .inl hturned

/-- What an accepting server promises about its connections and calls. -/
structure Delivery (k : Kind) (s : Server) : Prop where
  /-- Returned, closed by `close`, or still to be accepted, in order of arrival. -/
  order : s.history.arrived =
    s.history.returned.map Prod.snd ++ s.history.closed ++ s.pendingClients
  once : s.history.arrived.Nodup
  /-- The connection that a call returns is the one it has taken. -/
  returned : ∀ i client, (i, client) ∈ s.history.returned ↔ s.outcome i = some (.ok client)
  /-- Only `close` closes connections. -/
  untouched : s.handle = true → s.history.closed = []
  /-- The rest of `close` closes all that are left. -/
  closes : ∀ t, step k s .closeRest = some t →
    t.pendingClients = [] ∧ t.history.closed = s.history.closed ++ s.pendingClients
  /-- And it is still to come as long as a server that is closed has any. -/
  remains : s.handle = false → s.pendingClients ≠ [] → s.slot.running = none →
    (step k s .closeRest).isSome = true
  waiter : s.slot.waiter ≠ none → s.pendingClients = [] ∧ 0 ≤ s.acceptStatus
  client : ∀ i, s.outcome i ≠ some (.error (.runtimeError k.withoutClient))
  /-- A call that is made while another one waits fails with `UV_EBUSY`, unless its own token
  is stopped, and does not disturb the other one. -/
  busy : ∀ i j p ls t, s.slot.waiter = some j →
    Transition.run (system k) s (.accept i p :: ls) = some t → Busy k t i j

/-- A call that waits is stopped after a connection has resumed it; the connection
is left for the call that comes next. -/
def stoppedLate : List Label :=
  [.accept 0 true, .run 0, .run 0, .run 0, .run 0, .connection 0 0 0, .requestStop 0, .run 0,
    .accept 1 false, .run 1, .run 1]

end LuvCoro.Accept
