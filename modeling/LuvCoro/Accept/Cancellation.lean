import LuvCoro.Accept.Delivery

/-! # Whose cancellation an accept reports

A call that is cancelled while it waits throws for its own token, and leaves
`UV_ECANCELED` in `accept_status_`, where the next call finds it. -/
namespace LuvCoro.Accept

open Transition WaiterSlot

variable {k : Kind} {s t u : Server} {l : Label} {i j : CallId}

/-- The call has a reason of its own to report that it was cancelled. -/
def MayReport (s : Server) (i : CallId) : Prop := (s.call i).stopped = true ∨ s.handle = false

/-- No call is made on an open server, with a token that is not stopped, while
`accept_status_` still has the cancellation of an earlier one; libuv does not report
`UV_ECANCELED` with a connection while a call waits; and no closure whose awaiter is gone
compares equal while a call waits. -/
def NotLeaked (s : Server) : Label → Prop
  | .accept i _ => s.handle = true → (s.call i).stopped = false → s.acceptStatus ≠ UV_ECANCELED
  | .connection status initRc acceptRc => s.slot.waiter ≠ none →
      Server.connectionCode status initRc acceptRc ≠ UV_ECANCELED
  | .drain hit => ∀ i rest, s.slot.posted = some i :: rest → (s.call i).stage = .ended →
      hit = true → s.slot.waiter = none
  | _ => True

structure Owned (s : Server) : Prop where
  status : ∀ i, s.status i = UV_ECANCELED → (s.call i).stopped = true
  /-- What a call that runs may find in `accept_status_`. -/
  running : ∀ i, (s.call i).stage.runs = true → s.acceptStatus = UV_ECANCELED → MayReport s i
  outcome : ∀ i, s.outcome i = some (.error .operationCancelled) → MayReport s i

/-- A step of `i` alone, that neither resumes nor leaves it; when it makes the call, there is
no cancellation for it to find. -/
theorem Owned.of_other (h : Owned s) (hother : ∀ j, j ≠ i → t.call j = s.call j ∧
      t.status j = s.status j) (hi : (s.call i).stopped = true → (t.call i).stopped = true)
    (hstatus : t.status i = UV_ECANCELED → s.status i = UV_ECANCELED ∨ (s.call i).stopped = true)
    (hruns : (t.call i).stage.runs = true → s.acceptStatus = UV_ECANCELED →
      (s.call i).stage.runs = true ∨ (s.call i).stopped = true)
    (hh : t.handle = s.handle) (ha : t.acceptStatus = s.acceptStatus)
    (ho : t.outcome = s.outcome) : Owned t := by
  have hreport : ∀ j, MayReport s j → MayReport t j := by
    intro j hj
    rcases eq_or_ne j i with rfl | hne
    · exact hj.imp hi hh.trans
    · unfold MayReport
      rw [(hother j hne).1]
      exact hj.imp_right hh.trans
  refine ⟨?_, ?_, ?_⟩
  · intro j hj
    rcases eq_or_ne j i with rfl | hne
    · exact hi ((hstatus hj).elim (h.status j) id)
    · rw [(hother j hne).2] at hj
      rw [(hother j hne).1]
      exact h.status j hj
  · intro j hj hc
    rw [ha] at hc
    rcases eq_or_ne j i with rfl | hne
    · exact hreport j ((hruns hj hc).elim (h.running j · hc) .inl)
    · rw [(hother j hne).1] at hj
      exact hreport j (h.running j hj hc)
  · intro j hj
    rw [ho] at hj
    exact hreport j (h.outcome j hj)

theorem Owned.moveTo {stage : Stage} (h : Owned s) (hi : (s.call i).stage.runs = true) :
    Owned { s with slot := s.slot.moveTo i stage } := by
  refine h.of_other (i := i) (fun j hj => ⟨Slot.set_call_of_ne hj, rfl⟩) ?_ .inl
    (fun _ _ => .inl hi) rfl rfl rfl
  simp [Server.call]

/-- Whoever is resumed with a cancellation has to have a reason for it. -/
theorem Owned.wake {rc : Int} (h : Owned s) (hv : s.slot.Valid) (hr : s.slot.running = none)
    (hcall : u.slot.call = s.slot.call) (hwaiter : u.slot.waiter = s.slot.waiter)
    (hstatus : u.status = s.status) (ho : u.outcome = s.outcome)
    (hh : s.handle = false → u.handle = false)
    (hw : ∀ j, s.slot.waiter = some j → rc = UV_ECANCELED →
      (s.call j).stopped = true ∨ u.handle = false) : Owned (u.wake rc) := by
  have hstopped : ∀ j, ((u.wake rc).call j).stopped = (s.call j).stopped := by
    intro j
    have hc : (u.call j).stopped = (s.call j).stopped := by rw [Server.call, hcall]; rfl
    by_cases hj : u.slot.waiter = some j
    · exact (congrArg Call.stopped (Slot.wake_call_self hj)).trans hc
    · exact (congrArg Call.stopped (Slot.wake_call_of_ne hj)).trans hc
  refine ⟨?_, ?_, ?_⟩
  · intro j hj
    rw [hstopped j]
    exact h.status j ((congrFun hstatus j).symm.trans hj)
  · intro j hj hc
    have hwait : s.slot.waiter = some j := by
      by_contra hne
      have hsame : (u.wake rc).call j = s.call j := by
        refine (Slot.wake_call_of_ne ?_).trans (congrFun hcall j)
        rwa [hwaiter]
      have hruns := runs_of_none hv hr j
      rw [← hsame, hj] at hruns
      cases hruns
    unfold MayReport
    rw [hstopped j]
    exact hw j hwait hc
  · intro j hj
    unfold MayReport
    rw [hstopped j]
    exact (h.outcome j ((congrFun ho j).symm.trans hj)).imp_right hh

/-- A call that is left leaves the others as they were. -/
theorem Owned.leave {r : Except Error Client} (h : Owned s) (hslot : u.slot = s.slot)
    (hstatus : u.status = s.status) (ho : u.outcome = s.outcome) (hh : u.handle = s.handle)
    (hidle : ∀ j, j ≠ i → (s.call j).stage.runs = false)
    (hr : r = .error .operationCancelled → MayReport s i) : Owned (u.leave i r) := by
  have hstopped : ∀ j, ((u.leave i r).call j).stopped = (s.call j).stopped := by
    intro j
    have hc : u.call j = s.call j := by rw [Server.call, hslot]; rfl
    rcases eq_or_ne j i with rfl | hne
    · simp [Server.leave, Server.call, Slot.leave, hslot]
    · exact congrArg Call.stopped ((Slot.set_call_of_ne hne).trans hc)
  have hreport : ∀ j, MayReport s j → MayReport (u.leave i r) j := by
    intro j hj
    unfold MayReport
    rw [hstopped j]
    exact hj.imp_right hh.trans
  refine ⟨?_, ?_, ?_⟩
  · intro j hj
    rw [hstopped j]
    exact h.status j ((congrFun hstatus j).symm.trans hj)
  · intro j hj hc
    rcases eq_or_ne j i with rfl | hne
    · simp [Server.leave, Server.call, Slot.leave, Stage.runs] at hj
    · have hcall : (u.leave i r).call j = s.call j := by
        refine (Slot.set_call_of_ne hne).trans ?_
        rw [hslot]
        rfl
      rw [hcall, hidle j hne] at hj
      cases hj
  · intro j hj
    rcases eq_or_ne j i with rfl | hne
    · have hout : (u.leave j r).outcome j = some r := Function.update_self ..
      rw [hout] at hj
      exact hreport j (hr (Option.some.inj hj))
    · have hout : (u.leave i r).outcome j = s.outcome j :=
        (Function.update_of_ne hne _ _).trans (congrFun ho j)
      rw [hout] at hj
      exact hreport j (h.outcome j hj)

theorem owned_step (hi : Inv k s) (h : Owned s) (hgood : NotLeaked s l) (ht : Took k s l t) :
    Owned t := by
  have hv := hi.slot
  cases ht with
  | refused hr => exact h.leave rfl rfl rfl rfl (fun j _ => runs_of_none hv hr j) (by simp)
  | @entered i p _ _ hh =>
    refine h.of_other (i := i) (fun j hj => ⟨Slot.set_call_of_ne hj, rfl⟩) ?_ .inl ?_ rfl rfl rfl
    · simp [Server.call, Slot.enter]
    · intro _ ha
      cases hst : (s.call i).stopped with
      | true => exact .inr rfl
      | false => exact absurd ha (hgood hh hst)
  | passed hs => exact h.moveTo (by rw [hs]; rfl)
  | suspending hs => exact h.moveTo (by rw [hs]; rfl)
  | @stopped i hs hst =>
    refine h.of_other (i := i) ?_ ?_ (fun _ => .inr hst) (fun _ _ => .inr hst) rfl rfl rfl
    · intro j hj
      exact ⟨Slot.set_call_of_ne hj, Function.update_of_ne hj _ _⟩
    · simp [Server.call]
  | @busy i hs =>
    refine h.of_other (i := i) ?_ ?_ ?_ (fun _ _ => .inl (by rw [hs]; rfl)) rfl rfl rfl
    · intro j hj
      exact ⟨Slot.set_call_of_ne hj, Function.update_of_ne hj _ _⟩
    · simp [Server.call]
    · intro hst
      dsimp only at hst
      rw [Function.update_self] at hst
      exact absurd hst (by decide)
  | registering hs => exact h.moveTo (by rw [hs]; rfl)
  | @registered i hs =>
    refine h.of_other (i := i) (fun j hj => ⟨(Slot.same_register hj).call, rfl⟩) ?_ .inl
      (fun _ _ => .inl (by rw [hs]; rfl)) rfl rfl rfl
    simp [Server.call]
  | @parked i hs =>
    refine h.of_other (i := i) (fun j hj => ⟨Slot.set_call_of_ne hj, rfl⟩) ?_ .inl
      (fun _ _ => .inl (by rw [hs]; rfl)) rfl rfl rfl
    simp [Server.call, Slot.park]
  | @resumed i r u hs hres =>
    have hruns : (s.call i).stage.runs = true := by rcases hs with hs | hs <;> rw [hs] <;> rfl
    refine h.leave hres.slot hres.status ?_ ?_ (fun j hj => runs_of_ne hv hruns hj) ?_
    · cases hres <;> rfl
    · cases hres <;> rfl
    · intro hr
      cases hres with
      | cancelled hc => exact .inl (hc.elim (h.status i) id)
      | leaked _ _ ha => exact h.running i hruns ha
      | refused => cases hr
      | failed => cases hr
      | empty => cases hr
      | accepted => cases hr
  | @stopRequested i =>
    refine h.of_other (i := i) (fun j hj => ⟨Slot.set_call_of_ne hj, rfl⟩) ?_ .inl ?_ rfl rfl rfl
    · simp [Server.call, Slot.requestStop]
    · simpa [Server.call, Slot.requestStop] using fun hruns _ => .inl hruns
  | @callback i =>
    refine h.of_other (i := i) (fun j hj => ⟨Slot.set_call_of_ne hj, rfl⟩) ?_ .inl ?_ rfl rfl rfl
    · simp [Server.call, Slot.callback]
    · simpa [Server.call, Slot.callback] using fun hruns _ => .inl hruns
  | drained => exact ⟨h.status, h.running, h.outcome⟩
  | @cancelled i rest hit hr hp hover hlive =>
    refine h.wake hv hr ?_ ?_ ?_ ?_ id ?_
    · rfl
    · rfl
    · rfl
    · rfl
    · intro j hw _
      by_cases hs : (s.call i).stage = .ended
      · rw [hgood i rest hp hs (hover hs)] at hw
        cases hw
      · have he : i = j := Option.some.inj ((hlive hs).symm.trans hw)
        subst he
        exact .inl ((hv.call i).queued (by simp [Slot.cancels, hp])).2.1
  | failed hr _ _ hrc =>
    refine h.wake hv hr rfl rfl rfl rfl id ?_
    intro j hw hc
    exact absurd (hrc.symm.trans hc) (hgood (by rw [hw]; simp))
  | connected hr =>
    refine h.wake hv hr ?_ ?_ ?_ ?_ id ?_
    · rfl
    · rfl
    · rfl
    · rfl
    · intro j _ hc
      exact absurd hc (by decide)
  | ignored => exact h
  | closed hr =>
    refine h.wake hv hr ?_ ?_ ?_ ?_ (fun _ => rfl) fun _ _ _ => .inr rfl
    · rfl
    · rfl
    · rfl
    · rfl
  | closedIdle =>
    refine ⟨h.status, fun i _ _ => .inr rfl, fun i _ => .inr rfl⟩
  | closedRest => exact ⟨h.status, h.running, h.outcome⟩

/-- In a run in which no call is made while `accept_status_` has the cancellation of another,
one throws `operation_cancelled` only if its own token was stopped or the server was
closed. -/
theorem cancelled_for_own_stop (k : Kind) (s : Server)
    (h : ReachableBy (system k) NotLeaked s) (i : CallId)
    (hi : s.outcome i = some (.error .operationCancelled)) :
    (s.call i).stopped = true ∨ s.handle = false := by
  have ho : Owned s := by
    refine h.invariant (I := Owned) ?_ ?_
    · rintro s rfl
      refine ⟨fun i hi => ?_, fun i hi => ?_, fun i hi => ?_⟩
      · exact absurd (show (0 : Int) = UV_ECANCELED from hi) (by decide)
      · cases hi
      · cases hi
    · intro s l t hr ho hgood hs
      exact owned_step (inv_of_reachable hr.reachable) ho hgood (step_took hs)
  exact ho.outcome i hi

/-- A call waits, its token is stopped, and the closure cancels it. -/
theorem cancelled_for_own_stop_once : ∃ s : Server, s.outcome 0 = some (.error .operationCancelled) ∧
    ((s.call 0).stopped = true ∨ s.handle = false) := by
  have h0 : ReachableBy (system .tcpServer) NotLeaked {} := .init rfl
  have h1 := h0.step (l := .accept 0 true) (by intro _ _; decide) rfl
  have h2 := h1.step (l := .run 0) (by trivial) rfl
  have h3 := h2.step (l := .run 0) (by trivial) rfl
  have h4 := h3.step (l := .run 0) (by trivial) rfl
  have h5 := h4.step (l := .run 0) (by trivial) rfl
  have h6 := h5.step (l := .requestStop 0) (by trivial) rfl
  have h7 := h6.step (l := .stopCallback 0) (by trivial) rfl
  have h8 := h7.step (l := .drain false) (by intro _ _ _ _ hh; cases hh) rfl
  have h9 := h8.step (l := .run 0) (by trivial) rfl
  exact ⟨_, rfl, cancelled_for_own_stop .tcpServer _ h9 0 rfl⟩

/-- The next call, whose token cannot be stopped, takes the cancellation. -/
theorem cancelled_for_another : ¬ ∀ (k : Kind) (s : Server), Reachable (system k) s →
    ∀ i, s.outcome i = some (.error .operationCancelled) →
      (s.call i).stopped = true ∨ s.handle = false := by
  intro h
  have h0 : Reachable (system .tcpServer) {} := .init rfl
  have hs := h0.run (show Transition.run (system .tcpServer) {}
    [.accept 0 true, .run 0, .run 0, .run 0, .run 0, .requestStop 0, .stopCallback 0, .drain false,
      .run 0, .accept 1 false, .run 1, .run 1] = some _ from rfl)
  rcases h .tcpServer _ hs 1 rfl with hst | hh
  · cases hst
  · cases hh

end LuvCoro.Accept
