import LuvCoro.Channel.Streams

/-! # When a loop ends by itself

A receive reports the closed channel only when no message is left and no sender
waits, and then none will ever come. So a loop over `messages`, or of the blocking
iterator, does not end before it could have had everything. -/
namespace LuvCoro.Channel

open Transition WaiterPool ParkingQueue

universe u
variable {T : Type u} {s t : Sys T} {l : Label T} {i : OpId}

/-- The channel is closed and empty. -/
def Drained (s : Sys T) : Prop := s.chan.closed = true ∧ s.chan.messages = []

theorem Drained.step (hd : Drained s) (hr : Reachable (system T) s) (hs : step s l = some t) :
    Drained t := by
  have hi := reachable_inv hr
  obtain ⟨h₁, h₂⟩ := closed_waiters hi.ready.wellFormed hi.ready.valid hd.1
  have hnow : Draining s s := ⟨hd.1, h₁, h₂, rfl, [], rfl, (List.append_nil _).symm⟩
  obtain ⟨hc, _, _, _, xs, hxs, _⟩ := draining_step hr hnow hs
  rw [hd.2] at hxs
  exact ⟨hc, (List.append_eq_nil_iff.mp hxs.symm).2⟩

theorem Drained.of_queue {st : State T} (hm : s.chan.messages = []) (hc : s.chan.closed = true)
    (hq : st.toQueue = s.chan.toQueue) (ht : t.chan = st) : Drained t := by
  subst ht
  exact ⟨(congrArg Queue.closed hq).trans hc, (congrArg Queue.buffer hq).trans hm⟩

/-! ## What fails a receiver with the closed error -/

/-- `close` leaves the buffer as it is. -/
theorem close_messages {j : OpId} (hi : Inv s) (h : runOp s j = some t) (hpc : s.pc j = .close) :
    t.chan.messages = s.chan.messages := by
  simp only [runOp, hpc, Option.some.injEq] at h
  subst h
  obtain ⟨st', timers, he, _, _, hq, _⟩ := close_spec hi.ready.wellFormed
  rw [he]
  exact congrArg Queue.buffer hq

/-- Whoever does not look at the queue is failed by `close`, while it waits. -/
theorem exception_spared (hi : Inv s) (hs : step s l = some t) (htimes : ¬ l.Times i)
    (hown : l = .run i → (s.pc i).beforeReceive = false ∧ s.pc i ≠ .tryRecv)
    (hex : (t.chan.receiver i).exception = some .closedError) :
    (s.chan.receiver i).exception = some .closedError ∨ Drained t := by
  have h := step_spec hi.ready hs
  obtain ⟨vs, _, hfate, _⟩ := spared_step hi (fun _ => htimes) hown h
  cases hfate with
  | same hrec _ => exact .inl (by rw [← hrec]; exact hex)
  | handed _ _ _ he => exact .inl (by rw [← he]; exact hex)
  | closed hm _ _ _ hcl =>
    obtain ⟨hbuf, _, hopen⟩ := hi.ready.valid.takers (List.ne_nil_of_mem hm)
    obtain ⟨j, rfl, hj⟩ : ∃ j, l = .run j ∧ s.pc j = .close := by
      refine (closed_by h hcl).resolve_left fun hc => ?_
      have hc' : s.chan.toQueue.closed = true := hc
      rw [hopen] at hc'
      cases hc'
    exact .inr ⟨hcl, (close_messages hi hs hj).trans hbuf⟩

/-- A timer, and the post of its start, fail a receiver otherwise. -/
theorem exception_times (hs : step s l = some t) (htimes : l.Times i)
    (hex : (t.chan.receiver i).exception = some .closedError) :
    (s.chan.receiver i).exception = some .closedError := by
  have hexpel : ∀ {j : OpId} {f : ReceiverWaiter T → ReceiverWaiter T},
      (∀ r, (f r).exception = some .closedError → r.exception = some .closedError) →
      t.chan = (expelReceiverLocked s.chan j f).2 →
      (s.chan.receiver i).exception = some .closedError := by
    intro j f hf hc
    rw [hc] at hex
    by_cases hj : i = j
    · subst hj
      unfold expelReceiverLocked at hex
      dsimp only at hex
      split at hex
      · exact hf _ (by simpa [State.setReceiver] using hex)
      · exact hex
    · rwa [(expel_other hj).1] at hex
  have hfail : ∀ {j : OpId} {e : Error}, e ≠ .closedError → t.chan = (failLocked s.chan j e).2 →
      (s.chan.receiver i).exception = some .closedError := by
    intro j e hne hc
    exact hexpel (fun r he => absurd (Option.some.inj he) hne) hc
  cases l with
  | post j =>
    obtain ⟨_, ⟨_, rfl⟩ | ⟨_, hc, _, _⟩⟩ := runPosting_cases hs
    · exact hex
    · exact hfail (by simp [shuttingDownError]) hc
  | timerFire j =>
    have hfire : timerFire s j = some t := hs
    unfold timerFire at hfire
    split at hfire
    · cases hfire
      exact hexpel (f := fun r => { r with timedOut := true }) (fun r he => he) rfl
    · cases hfire
  | runPosted rcInit rcStart =>
    obtain ⟨_, _, hc | ⟨j, e, hne, hc⟩⟩ := runPosted_writes hs
    · rwa [hc] at hex
    · exact hfail hne hc
  | _ => exact htimes.elim

/-- Its own look fails it only when the channel is closed and empty. -/
theorem exception_own (hi : Inv s) (hk : Kept s i) (h : StepSpec s (.run i) t)
    (hex : (t.chan.receiver i).exception = some .closedError) :
    (s.chan.receiver i).exception = some .closedError ∨ Drained t := by
  have hsame : t.chan = s.chan → (s.chan.receiver i).exception = some .closedError := by
    intro hc
    rwa [hc] at hex
  have hrecord : t.chan.receiver i = s.chan.receiver i →
      (s.chan.receiver i).exception = some .closedError := by
    intro hr
    rwa [hr] at hex
  have hnone : (t.chan.receiver i).exception = none →
      (s.chan.receiver i).exception = some .closedError := by
    intro hn
    rw [hn] at hex
    cases hex
  have htake : ∀ {r : Option T × Locked T}, TakeSpec s.chan i r → t.chan = r.2.state →
      (∀ k, s.pc i ≠ .suspended k) → (s.chan.receiver i).exception = some .closedError := by
    intro r hs hc hsus
    refine hrecord ?_
    rw [hc]
    cases hs with
    | nothing _ hp => exact congrFun (congrArg State.receiver hp.rest :) i
    | value _ hs _ _ => exact (hs.receivers.idle id (hk.unqueued hsus)).1
  have hquiet : ∀ {p : Pc T}, s.pc i = p → p.beforeReceive = false → p ≠ .tryRecv →
      (∀ k, p ≠ .suspended k) → (s.chan.receiver i).exception = some .closedError ∨ Drained t := by
    intro p hpc hb htry hsus
    obtain ⟨vs, _, hfate, _⟩ := spared_step hi (fun _ => id)
      (fun _ => ⟨by rw [hpc]; exact hb, by rw [hpc]; exact htry⟩) h
    have hn := hk.unqueued (by rw [hpc]; exact hsus)
    cases hfate with
    | same hrec _ => exact .inl (hrecord hrec)
    | handed hh _ _ _ => exact absurd (List.mem_of_mem_head? hh) hn
    | closed hm _ _ _ _ => exact absurd hm hn
  cases h with
  | @recvReady _ k p q r hpc hq hfr hs =>
    cases hs with
    | @nothing st' _ _ hp =>
      exact .inl (hrecord (congrFun (congrArg State.receiver hp.rest :) i))
    | expired _ _ _ _ _ _ hrec _ => exact .inl (hnone (by rw [awaitReady_chan, hrec]))
    | found hf =>
      cases hf with
      | value _ _ _ _ hrec _ =>
        refine .inl (hnone ?_)
        rw [awaitReady_chan, hrec, hfr.record]
        rfl
      | closed hm hc _ hqu _ _ _ _ => exact .inr (.of_queue hm hc hqu rfl)
  | @recvSuspend _ k q posting r hpc hq hfr _ hs =>
    cases hs with
    | parked _ _ _ _ _ hrec => exact .inl (hnone hrec.2)
    | @value v l' _ _ _ _ hrec =>
      refine .inl (hnone ?_)
      show (l'.state.receiver i).exception = none
      rw [hrec]
      rfl
    | closed hm hc _ hqu _ _ _ => exact .inr (.of_queue hm hc hqu rfl)
    | @expired st' _ _ _ _ _ _ hrec _ =>
      refine .inl (hnone ?_)
      show (st'.receiver i).exception = none
      rw [hrec]
  | tryRecv hpc hs => exact .inl (htake hs rfl (by simp [hpc]))
  | next hpc _ hs => exact .inl (htake hs rfl (by simp [hpc]))
  | nextNothing _ _ hp _ => exact .inl (hrecord (congrFun (congrArg State.receiver hp.rest :) i))
  | send hpc _ _ =>
    rcases hpc with hpc | hpc | hpc
    all_goals exact hquiet hpc rfl (by simp) (by simp)
  | sendReady hpc _ _ => exact hquiet hpc rfl (by simp) (by simp)
  | sendSuspend hpc _ _ => exact hquiet hpc rfl (by simp) (by simp)
  | close hpc _ _ _ _ _ _ => exact hquiet hpc rfl (by simp) (by simp)
  | closeTimer _ => exact .inl (hsame (post_chan s _).1)
  | cancelTimer _ _ => exact .inl (hsame (post_chan s _).1)
  | notify _ => exact .inl (hsame (by rw [goto_chan]; split <;> rfl))
  | timer hlab _ => rcases hlab with h | ⟨_, _, h⟩ <;> cases h
  | _ => exact .inl (hsame rfl)

/-- The closed error is only ever written when nothing is left to receive. -/
theorem closed_error_drained (h : Reachable (system T) s) (i : OpId)
    (hex : (s.chan.receiver i).exception = some .closedError) : Drained s := by
  revert hex
  refine h.invariant
    (I := fun s => (s.chan.receiver i).exception = some .closedError → Drained s) ?_ ?_
  · rintro s ⟨capacity, rfl⟩ hex
    cases hex
  intro s l t hr hI hs hex
  have hi := reachable_inv hr
  have hor : (s.chan.receiver i).exception = some .closedError ∨ Drained t := by
    by_cases hrun : l = .run i
    · subst hrun
      exact exception_own hi (reachable_kept hr i) (step_spec hi.ready hs) hex
    by_cases htimes : l.Times i
    · exact .inl (exception_times hs htimes hex)
    · exact exception_spared hi hs htimes (fun he => absurd he hrun) hex
  exact hor.elim (fun he => (hI he).step hr hs) id

/-! ## The calls of `messages` and of the blocking iterator -/

/-- The points of `blocking_next` outside `recv_task`. -/
inductive DirectPc : Pc T → Prop
  | entry : DirectPc .blockingNext
  | notify {f : Flags} {k : After T} : (k = .recvTask ∨ ∃ v, k = .ret (.value (some v))) →
      DirectPc (.notify f k)
  | cancelTimers {f : Flags} {k : After T} :
      (k = .recvTask ∨ ∃ v, k = .ret (.value (some v))) → DirectPc (.cancelTimers f k)
  | wake {f : Flags} {k : After T} : (k = .recvTask ∨ ∃ v, k = .ret (.value (some v))) →
      DirectPc (.wake f k)

/-- A call of `next` or `blocking_next` that reports no message has found the
channel drained. -/
inductive Iterates (s : Sys T) (i : OpId) : Prop
  | direct : ¬ s.Timed i → DirectPc (s.pc i) → Iterates s i
  | task : Next s i → Iterates s i
  | done {r : Result T} : ¬ s.Timed i → s.pc i = .done r → (r = .value none → Drained s) →
      Iterates s i

theorem DirectPc.not_start {p : Pc T} (h : DirectPc p) : p ≠ .idle ∧ (∀ v, p ≠ .sendWait v) ∧
    (∀ k, p ≠ .suspended k) ∧ ∀ r, p ≠ .done r := by
  cases h <;> exact ⟨by simp, by simp, by simp, by simp⟩

theorem next_of_look (hr : Reachable (system T) s) (hpc : s.pc i = .recvReady true)
    (hu : ¬ s.Timed i) : Next s i := by
  obtain ⟨hsnd, h0⟩ := fresh_unowed hr (i := i) (by rw [hpc]; rfl)
  refine ⟨hu, hsnd, fun _ => h0, stage_of (.looking ?_) ?_⟩
  · rw [hpc]
    rfl
  · exact (reachable_kept hr i).nothing hpc rfl

/-- The step of `blocking_next` outside `recv_task`. -/
theorem direct_run (hr : Reachable (system T) t) (hu : ¬ s.Timed i) (hp : DirectPc (s.pc i))
    (h : StepSpec s (.run i) t) : Iterates t i := by
  have hspec := h
  generalize hpc : s.pc i = p at hp
  have hdirect : ∀ {q : Pc T}, t.pc i = q → DirectPc q → Iterates t i := by
    rintro q rfl hq
    exact .direct (untimed_step hspec hu (hq.not_start.2.2.1 _)) hq
  have hdone : ∀ {r : Result T}, t.pc i = .done r → (r = .value none → Drained t) →
      Iterates t i := by
    intro r he hd
    exact .done (untimed_step hspec hu (by rw [he]; simp)) he hd
  have hthrown : ∀ {e : Error}, t.pc i = .done (.thrown e) → Iterates t i :=
    fun he => hdone he (by simp)
  have hcont : ∀ {f : Flags} {k : After T}, s.pc i = .wake f k →
      t.pc i = k.continue s.chan i → Iterates t i := by
    intro f k hk ht
    rw [hpc] at hk
    subst hk
    cases hp with
    | wake hk =>
      rcases hk with rfl | ⟨v, rfl⟩
      · exact .task (next_of_look hr ht (untimed_step hspec hu (by
          rw [ht]
          simp [After.continue])))
      · exact hdone ht (by simp)
  cases h with
  | next hk _ hs =>
    cases hs with
    | value _ _ _ _ => exact hdirect (goto_self ..) (.notify (.inr ⟨_, rfl⟩))
  | @nextNothing _ st' q hk hm hpr hor =>
    rcases hor with ⟨hc, rfl⟩ | ⟨_, rfl⟩
    · exact hdone (goto_self ..) fun _ => .of_queue hm hc hpr.toQueue rfl
    · exact hdirect (goto_self ..) (.notify (.inl rfl))
  | nextOnLoop _ _ => exact hthrown (goto_self ..)
  | notify hk =>
    rw [hpc] at hk
    subst hk
    cases hp with
    | notify hk => exact hdirect (goto_self ..) (.cancelTimers hk)
  | cancelTimer hk _ =>
    rw [hpc] at hk
    subst hk
    cases hp with
    | cancelTimers hk => exact hdirect (goto_self ..) (.cancelTimers hk)
  | cancelTimersDone hk =>
    rw [hpc] at hk
    subst hk
    cases hp with
    | cancelTimers hk => exact hdirect (goto_self ..) (.wake hk)
  | wakeNothing hk _ => exact hcont hk (goto_self ..)
  | wakeFlush hk _ => exact hcont hk (goto_self ..)
  | wakeAsync hk _ _ => exact hcont hk (goto_self ..)
  | wakeClosing _ _ _ _ => exact hthrown (goto_self ..)
  | timer hlab _ => rcases hlab with h | ⟨_, _, h⟩ <;> cases h
  | send hk _ _ => rcases hk with hk | hk | hk <;> rw [hpc] at hk <;> subst hk <;> cases hp
  | recvReady hk hq _ _ => rw [hpc] at hk; subst hk; cases hq <;> cases hp
  | recvSuspend hk hq _ _ _ => rw [hpc] at hk; subst hk; cases hq <;> cases hp
  | sendReady hk _ _ | sendSuspend hk _ _ | tryRecv hk _ | close hk _ _ _ _ _ _ | closeNotify hk
  | closeTimer hk | closeTimersDone hk | closePost hk _ | closePostFailed hk _ =>
    rw [hpc] at hk
    subst hk
    cases hp

/-- The refused `uv_async_send` ends the call. -/
theorem cut_step (hs : step s l = some t) (hcut : Cut s l i) :
    t.pc i = .done (.thrown asyncClosingError) := by
  obtain ⟨rfl, hc, hl, f, hpc, hw⟩ := hcut
  have hrun : runOp s i = some t := hs
  simp only [runOp, hpc, hw, hc, hl, Bool.not_true, Bool.or_true, if_true, Bool.false_eq_true,
    if_false, Option.some.injEq] at hrun
  subst hrun
  exact goto_self ..

theorem Iterates.step (h : Iterates s i) (hr : Reachable (system T) s)
    (hs : step s l = some t) : Iterates t i := by
  have hi := reachable_inv hr
  have hspec := step_spec hi.ready hs
  have hr' : Reachable (system T) t := ReachableBy.step (l := l) hr trivial hs
  cases h with
  | direct hu hp =>
    obtain ⟨hidle, hwait, hsus, _⟩ := hp.not_start
    by_cases hrun : l = .run i
    · subst hrun
      exact direct_run hr' hu hp hspec
    · have hpc : t.pc i = s.pc i := by
        refine (pc_others hspec (untimed_post hspec hu) hrun ⟨hidle, hwait⟩).resolve_right ?_
        rintro ⟨_, k, hk, _⟩
        exact hsus k hk
      refine .direct (untimed_step hspec hu ?_) (hpc ▸ hp)
      rw [hpc]
      exact hsus _
  | task hn =>
    by_cases hcut : Cut s l i
    · have hpc := cut_step hs hcut
      exact .done (untimed_step hspec hn.untimed (by rw [hpc]; simp)) hpc (by simp)
    · exact .task (next_step hi hn hs hcut).1
  | @done r hu hpc hd =>
    have hrun : l ≠ .run i := by
      rintro rfl
      have hrun : runOp s i = some t := hs
      simp [runOp, hpc] at hrun
    have hpc' : t.pc i = .done r := by
      rcases pc_others hspec (untimed_post hspec hu) hrun ⟨by simp [hpc], by simp [hpc]⟩ with
        he | ⟨_, k, hk, _⟩
      · exact he.trans hpc
      · rw [hpc] at hk
        cases hk
    exact .done (untimed_step hspec hu (by rw [hpc']; simp)) hpc' fun he => (hd he).step hr hs

theorem start_pc {loop : Bool} {call : Call T} (hr : Reachable (system T) s)
    (hs : step s (.start i loop call) = some t) : s.pc i = .idle ∧ t.pc i = call.entry := by
  obtain ⟨hpc, rfl⟩ := start_spec (step_spec (reachable_inv hr).ready hs)
  exact ⟨hpc, Function.update_self ..⟩

theorem iterates_start {loop : Bool} {call : Call T} (hr : Reachable (system T) s)
    (hcall : call = .next ∨ call = .blockingNext) (hs : step s (.start i loop call) = some t) :
    Iterates t i := by
  rcases hcall with rfl | rfl
  · exact .task (next_start hr hs).1
  · obtain ⟨hpc, hpc'⟩ := start_pc hr hs
    have hu : ¬ s.Timed i := by
      intro ht
      have hb := ((reachable_inv hr).ready.op i).timed ht
      rw [hpc] at hb
      cases hb
    refine .direct (untimed_step (step_spec (reachable_inv hr).ready hs) hu ?_) ?_
    · rw [hpc']
      simp [Call.entry]
    · rw [hpc']
      exact .entry

theorem Iterates.none_drained (h : Iterates s i) (hr : Reachable (system T) s)
    (hpc : s.pc i = .done (.value none)) : Drained s := by
  cases h with
  | direct _ hp => exact absurd hpc (hp.not_start.2.2.2 _)
  | task hn =>
    have hstage := hn.stage
    generalize s.takenBy i = vs at hstage
    cases hstage with
    | looking hl => rw [hpc] at hl; cases hl
    | parked hp _ _ _ => rw [hpc] at hp; cases hp
    | @settled o hp _ hserved =>
      rw [hpc] at hp
      cases hp
      exact closed_error_drained hr i hserved.2
  | done _ hpc' hd =>
    rw [hpc] at hpc'
    exact hd (Pc.done.inj hpc').symm

/-! ## The calls of `messages_for` and `messages_until` -/

inductive TimedPc : Pc T → Prop
  | ready {timeout : Int} : TimedPc (.recvForReady timeout)
  | suspend {timeout : Int} : TimedPc (.recvForSuspend timeout)
  | suspended : TimedPc (.suspended .recvFor)
  | notify {f : Flags} : TimedPc (.notify f (.resume .recvFor))
  | cancelTimers {f : Flags} : TimedPc (.cancelTimers f (.resume .recvFor))
  | wake {f : Flags} : TimedPc (.wake f (.resume .recvFor))
  | done {r : Result T} : TimedPc (.done r)

/-- A `recv_for` throws the closed error only when the channel is drained. -/
structure Polls (s : Sys T) (i : OpId) : Prop where
  point : TimedPc (s.pc i)
  thrown : s.pc i = .done (.thrown .closedError) → Drained s

theorem result_recvFor {st : State T} (h : Resume.recvFor.result st i = .thrown .closedError) :
    (st.receiver i).exception = some .closedError := by
  unfold Resume.result at h
  cases hex : (st.receiver i).exception with
  | none =>
    simp only [hex] at h
    split at h <;> cases h
  | some e =>
    simp only [hex, Result.thrown.injEq] at h
    rw [h]

/-- The step of a `recv_for` itself. -/
theorem polls_run (hr : Reachable (system T) s) (hp : TimedPc (s.pc i))
    (hs : runOp s i = some t) : TimedPc (t.pc i) ∧
      (t.pc i = .done (.thrown .closedError) → Drained s) := by
  have hstay : ∀ {q : Pc T} {u : Sys T}, u.pc i = q → TimedPc q → (∀ r, q ≠ .done r) →
      TimedPc (u.pc i) ∧ (u.pc i = .done (.thrown .closedError) → Drained s) := by
    rintro q u rfl hq hne
    exact ⟨hq, fun he => absurd he (hne _)⟩
  have hdone : ∀ {u : Sys T}, u.pc i = .done (Resume.recvFor.result s.chan i) →
      TimedPc (u.pc i) ∧ (u.pc i = .done (.thrown .closedError) → Drained s) := by
    intro u hu
    rw [hu]
    exact ⟨.done, fun he => closed_error_drained hr i (result_recvFor (Pc.done.inj he))⟩
  generalize hpc : s.pc i = p at hp
  cases hp with
  | suspended | done => simp [runOp, hpc] at hs
  | ready =>
    simp only [runOp, hpc, Option.some.injEq] at hs
    subst hs
    refine hstay (goto_self ..) ?_ ?_
    · split
      · exact .notify
      · exact .suspend
    · split <;> simp
  | suspend =>
    simp only [runOp, hpc, Option.some.injEq] at hs
    subst hs
    unfold Sys.awaitSuspend
    split
    · exact hstay (goto_self ..) .suspended (by simp)
    · exact hstay (goto_self ..) .notify (by simp)
  | notify =>
    simp only [runOp, hpc, Option.some.injEq] at hs
    subst hs
    exact hstay (goto_self ..) .cancelTimers (by simp)
  | cancelTimers =>
    simp only [runOp, hpc] at hs
    split at hs <;> cases hs
    · exact hstay (goto_self ..) .cancelTimers (by simp)
    · exact hstay (goto_self ..) .wake (by simp)
  | wake =>
    simp only [runOp, hpc] at hs
    split at hs
    · cases hs
      exact hdone (goto_self ..)
    split at hs
    · cases hs
      exact hdone (goto_self ..)
    split at hs
    · cases hs
      rw [goto_self]
      exact ⟨.done, fun he => by simp [asyncClosingError] at he⟩
    · cases hs
      exact hdone (goto_self ..)

theorem Polls.step (h : Polls s i) (hr : Reachable (system T) s) (hs : step s l = some t) :
    Polls t i := by
  have hi := reachable_inv hr
  have hspec := step_spec hi.ready hs
  by_cases hrun : l = .run i
  · subst hrun
    obtain ⟨hp, hd⟩ := polls_run hr h.point hs
    exact ⟨hp, fun he => (hd he).step hr hs⟩
  by_cases hpost : l = .post i
  · subst hpost
    obtain ⟨_, ⟨_, rfl⟩ | ⟨_, _, _, hpc⟩⟩ := runPosting_cases hs
    · exact ⟨h.point, h.thrown⟩
    · refine ⟨hpc ▸ .notify, fun he => ?_⟩
      rw [hpc] at he
      cases he
  have hidle : s.pc i ≠ .idle ∧ ∀ v, s.pc i ≠ .sendWait v := by
    have hp := h.point
    generalize s.pc i = p at hp
    cases hp <;> exact ⟨by simp, by simp⟩
  rcases pc_others hspec hpost hrun hidle with he | ⟨_, k, hk, hk'⟩
  · exact ⟨he ▸ h.point, fun hd => (h.thrown (he ▸ hd)).step hr hs⟩
  · have hp := h.point
    rw [hk] at hp
    cases hp
    refine ⟨hk' ▸ .notify, fun he => ?_⟩
    rw [hk'] at he
    cases he

theorem polls_start {loop : Bool} {timeout : Int} (hr : Reachable (system T) s)
    (hs : step s (.start i loop (.recvFor timeout)) = some t) : Polls t i := by
  obtain ⟨_, hpc⟩ := start_pc hr hs
  refine ⟨?_, fun hd => ?_⟩
  · rw [hpc]
    exact .ready
  · rw [hpc] at hd
    cases hd

end LuvCoro.Channel
