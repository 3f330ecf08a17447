import LuvCoro.Channel.SendSpecs

/-! # Specifications of the timer outcomes and of `close` -/
namespace LuvCoro.Channel

open WaiterPool ParkingQueue

universe u
variable {T : Type u} {st : State T} {i : OpId}

/-! ## A waiter leaves the race -/

/-- `i` has been completed where it stands, possibly in the middle of the
queue, and is owed a resumption. -/
structure Expelled (st : State T) (i : OpId) (st' : State T) : Prop extends Keeps st st' where
  wellFormed : WellFormed st'
  receivers : Evolves (· = i) st.receivers st'.receivers
  queued : i ∈ st.receiverWaiters → Evolves (fun _ => False) st.receivers st'.receivers
  senders : st'.senders = st.senders
  toQueue : st'.toQueue = st.toQueue.dropTaker i
  ready : st'.readyReceivers = st.readyReceivers ++ [i]

theorem expel_spec (hw : WellFormed st) (i : OpId) (f : ReceiverWaiter T → ReceiverWaiter T) :
    expelReceiverLocked st i f = (false, st) ∨
      (st.receiver i).active = true ∧ (st.receiver i).completed = false ∧
        ∃ st', expelReceiverLocked st i f = (true, st') ∧ Expelled st i st' := by
  unfold expelReceiverLocked
  by_cases ha : (st.receiver i).active = true
  swap
  · exact .inl (by simp [ha])
  by_cases hc : (st.receiver i).completed = true
  · exact .inl (by simp [hc])
  have hc' : (st.receiver i).completed = false := by simpa using hc
  refine .inr ⟨ha, hc', _, by simp [ha, hc']; rfl, ?_⟩
  let g : ReceiverWaiter T → ReceiverWaiter T := fun r =>
    { f r with active := false, completed := true, timer := false }
  let st' : State T := { st.setReceiver i g with readyReceivers := st.readyReceivers ++ [i] }
  show Expelled st i st'
  have hne : ∀ j, j ≠ i → st'.receiver j = st.receiver j := fun j hj => by
    simp [st', State.setReceiver, hj]
  have hi : (st'.receiver i).active = false := by simp [st', g, State.setReceiver]
  have hact : st'.activeReceivers = st.activeReceivers.filter (· ≠ i) := by
    unfold State.activeReceivers
    rw [List.filter_filter]
    refine List.filter_congr fun j _ => ?_
    by_cases hj : j = i
    · subst hj
      simp [hi]
    · simp [hne j hj, hj]
  have hsub : ∀ j ∈ st'.activeReceivers, j ∈ st.activeReceivers ∧ st'.receiver j = st.receiver j :=
    fun j hj => by
      rw [hact, List.mem_filter] at hj
      exact ⟨hj.1, hne j (by simpa using hj.2)⟩
  have hcount : ∀ j, j ≠ i → st'.readyReceivers.count j = st.readyReceivers.count j :=
    fun j hj => by simp [st', Ne.symm hj]
  refine ⟨⟨rfl, rfl, rfl, rfl, rfl⟩, ⟨⟨⟨hw.receivers.nodup, fun j hj => ?_⟩, hw.senders,
    fun j hj => ?_, hw.senderResumable, hw.senderValue⟩, hw.closing⟩,
    ⟨fun j _ hq => hq, fun j hj => .same (hne j hj) (hcount j hj) fun h =>
      (Pool.mem_waiting.mp h).1⟩,
    fun hq => ⟨fun j _ hj => hj, fun j _ => ?_⟩, rfl, ?_, rfl⟩
  · obtain ⟨hold, hrec⟩ := hsub j hj
    exact (congrArg ReceiverWaiter.completed hrec).trans (hw.receivers.pending j hold)
  · obtain ⟨hold, hrec⟩ := hsub j hj
    rw [hrec]
    exact hw.receiverResumable j hold
  · by_cases hj : j = i
    · subst hj
      exact .completed (Pool.mem_waiting.mpr ⟨hq, ha⟩) hi
        (by simp [Pool.completed, State.receivers, st', g, State.setReceiver])
        (by simp [State.receivers, st'])
    · exact .same (hne j hj) (hcount j hj) fun h => (Pool.mem_waiting.mp h).1
  · show ({ st.toQueue with takers := st'.activeReceivers } : Queue OpId T) = _
    rw [hact]
    rfl

/-! ## Closing -/

/-- The loop over the receivers completes all that wait. -/
theorem closeReceivers_spec (fuel : Nat) (l : Locked T) (hw : Waiters l.state)
    (hfuel : l.state.receiverWaiters.length ≤ fuel) :
    ∃ st' timers, closeReceivers fuel l = { l with state := st', timersToCancel := timers } ∧
      Outcome noOne l.state st' ∧ Keeps l.state st' ∧ st'.messages = l.state.messages ∧
      st'.activeReceivers = [] ∧ st'.senders = l.state.senders ∧
      (∀ i ∈ l.state.activeReceivers, (st'.receiver i).exception = some .closedError ∧
        (st'.receiver i).value = (l.state.receiver i).value) := by
  induction fuel generalizing l with
  | zero =>
    have hq : l.state.receiverWaiters = [] :=
      List.length_eq_zero_iff.mp (Nat.le_zero.mp hfuel)
    have ha : l.state.activeReceivers = [] := by
      unfold State.activeReceivers
      rw [hq]
      rfl
    exact ⟨l.state, l.timersToCancel, rfl, .refl _ _, .refl _, rfl, ha, rfl, by simp [ha]⟩
  | succ fuel ih =>
    cases hr : l.state.activeReceivers with
    | nil =>
      obtain ⟨hpop, hp⟩ := popReceiver_nil hr
      refine ⟨{ l.state with receiverWaiters := [] }, l.timersToCancel, ?_, hp.outcome _,
        hp.keeps, rfl, rfl, rfl, by simp⟩
      rw [closeReceivers, hpop]
    | cons w ws =>
      obtain ⟨q, hpop, hsuf, hf⟩ := popReceiver_cons hr
      have hpq : Popped (fun w => (l.state.receiver w).active) l.state.receiverWaiters w q ws :=
        ⟨hsuf, hf⟩
      have hcont := hw.receiverResumable w (by simp [hr])
      let f : ReceiverWaiter T → ReceiverWaiter T := fun r =>
        { r with active := false, completed := true, exception := some .closedError,
                 timer := false }
      have hturn : completeReceiverExceptionLocked
          { l with state := { l.state with receiverWaiters := q } } w .closedError =
          { l with
            state := l.state.finishReceiver w q f
            timersToCancel := if (l.state.receiver w).timer then l.timersToCancel ++ [w]
              else l.timersToCancel } := by
        simp [completeReceiverExceptionLocked, State.finishReceiver, State.setReceiver, hcont, f]
      have hout : Outcome noOne l.state (l.state.finishReceiver w q f) :=
        outcome_finishReceiver hr hpq rfl rfl
      have hact := activeReceivers_finishReceiver (f := f) hw hpq
      have hlen : q.length ≤ fuel := by
        have := hsuf.sublist.length_le
        simp only [List.length_cons] at this
        omega
      obtain ⟨st', timers, he, hout', hk, hm, ha, hsnd, hex⟩ := ih
        { l with
          state := l.state.finishReceiver w q f
          timersToCancel := if (l.state.receiver w).timer then l.timersToCancel ++ [w]
            else l.timersToCancel } (hout.waiters hw (by simp) (by simp)) hlen
      have hk₀ : Keeps l.state (l.state.finishReceiver w q f) := ⟨rfl, rfl, rfl, rfl, rfl⟩
      refine ⟨st', timers, ?_, hout.trans hout', hk₀.trans hk, hm, ha, hsnd, fun j hj => ?_⟩
      · rw [closeReceivers, hpop]
        simp only [hturn]
        exact he
      · have hnw : w ∉ (l.state.finishReceiver w q f).receivers.waiting := by
          rw [State.waiting_receivers, hact, ← hf]
          exact fun h => (List.nodup_cons.mp (hw.receivers.nodup.sublist hsuf.sublist)).1
            (List.mem_of_mem_filter h)
        rcases List.mem_cons.mp hj with rfl | hj
        · rw [show st'.receiver j = (l.state.finishReceiver j q f).receiver j from
            (hout'.receivers.idle (j := j) id hnw).1]
          simp [State.finishReceiver, State.setReceiver, f]
        · obtain ⟨hexc, hval⟩ := hex j (hact ▸ hj)
          have hjw : j ≠ w := fun he => hnw (by rw [State.waiting_receivers, hact, ← he]; exact hj)
          exact ⟨hexc, hval.trans (by simp [State.finishReceiver, State.setReceiver, hjw])⟩

/-- The loop over the senders fails all that wait, in queue order. -/
theorem closeSenders_spec (fuel : Nat) (l : Locked T) (hw : Waiters l.state)
    (hfuel : l.state.senderWaiters.length ≤ fuel) :
    ∃ st', closeSenders fuel l = { l with
        state := st'
        events := l.events ++ l.state.parked.map fun g => .failed g.1 g.2 } ∧
      Outcome noOne l.state st' ∧ Keeps l.state st' ∧ st'.messages = l.state.messages ∧
      st'.activeSenders = [] ∧ st'.receivers = l.state.receivers := by
  induction fuel generalizing l with
  | zero =>
    have hq : l.state.senderWaiters = [] :=
      List.length_eq_zero_iff.mp (Nat.le_zero.mp hfuel)
    have ha : l.state.activeSenders = [] := by
      unfold State.activeSenders
      rw [hq]
      rfl
    refine ⟨l.state, ?_, .refl _ _, .refl _, rfl, ha, rfl⟩
    rw [hw.parked_eq_nil.mpr ha, List.map_nil, List.append_nil]
    rfl
  | succ fuel ih =>
    cases hs : l.state.activeSenders with
    | nil =>
      obtain ⟨hpop, hp⟩ := popSender_nil hs
      refine ⟨{ l.state with senderWaiters := [] }, ?_, hp.outcome _, hp.keeps, rfl, rfl, rfl⟩
      rw [closeSenders, hpop, hw.parked_eq_nil.mpr hs, List.map_nil, List.append_nil]
    | cons w ws =>
      obtain ⟨q, hpop, hsuf, hf⟩ := popSender_cons hs
      have hpq : Popped (fun w => (l.state.sender w).active) l.state.senderWaiters w q ws :=
        ⟨hsuf, hf⟩
      have hcont := hw.senderResumable w (by simp [hs])
      obtain ⟨v, gs, hval, hpark, hgs⟩ := hw.parked_cons hs
      let f : SenderWaiter T → SenderWaiter T := fun r =>
        { r with active := false, completed := true, exception := some .closedError }
      have hturn : completeSenderExceptionLocked
          { l with state := { l.state with senderWaiters := q } } w .closedError =
          { l with
            state := l.state.finishSender w q f
            events := l.events ++ [.failed w v] } := by
        simp [completeSenderExceptionLocked, State.finishSender, State.setSender, hcont, hval, f]
      have hout : Outcome noOne l.state (l.state.finishSender w q f) :=
        outcome_finishSender hs hpq rfl rfl
      have hlen : q.length ≤ fuel := by
        have := hsuf.sublist.length_le
        simp only [List.length_cons] at this
        omega
      obtain ⟨st', he, hout', hk, hm, ha, hrec⟩ := ih
        { l with state := l.state.finishSender w q f, events := l.events ++ [.failed w v] }
        (hout.waiters hw (by simp) (by simp)) hlen
      have hk₀ : Keeps l.state (l.state.finishSender w q f) := ⟨rfl, rfl, rfl, rfl, rfl⟩
      refine ⟨st', ?_, hout.trans hout', hk₀.trans hk, hm, ha, hrec⟩
      rw [closeSenders, hpop]
      simp only [hturn]
      rw [he, hpark, hgs]
      simp only [parked_finishSender hw hpq, List.append_assoc, List.map_cons, List.singleton_append]

theorem close_spec (hw : WellFormed st) :
    ∃ st' timers, closeLocked st = (!st.handleClosing,
        { state := st', timersToCancel := timers,
          events := st.parked.map fun g => .failed g.1 g.2 }) ∧
      WellFormed st' ∧ Outcome noOne st st' ∧ st'.toQueue = st.toQueue.close ∧
      st'.handleInitialized = st.handleInitialized ∧ st'.async = st.async ∧
      (∀ i ∈ st.activeReceivers, (st'.receiver i).exception = some .closedError ∧
        (st'.receiver i).value = (st.receiver i).value) := by
  let st₀ : State T := { st with closed := true }
  have hw₀ : Waiters st₀ :=
    ⟨hw.receivers, hw.senders, hw.receiverResumable, hw.senderResumable, hw.senderValue⟩
  obtain ⟨st₁, timers, he₁, hout₁, hk₁, hm₁, ha₁, hs₁, hex₁⟩ :=
    closeReceivers_spec st₀.receiverWaiters.length { state := st₀ } hw₀ (Nat.le_refl _)
  have hw₁ : Waiters st₁ := hout₁.waiters hw₀ nofun nofun
  obtain ⟨st₂, he₂, hout₂, hk₂, hm₂, ha₂, hr₂⟩ :=
    closeSenders_spec st₁.senderWaiters.length { state := st₁, timersToCancel := timers } hw₁ (Nat.le_refl _)
  have hw₂ : Waiters st₂ := hout₂.waiters hw₁ nofun nofun
  have hparked : st₁.parked = st.parked := by
    have hsr : st₁.sender = st.sender := congrArg Pool.record hs₁
    have hact : st₁.activeSenders = st.activeSenders := congrArg Pool.waiting hs₁
    unfold State.parked
    rw [hact, hsr]
  have hout : Outcome noOne st st₂ :=
    (Outcome.trans ⟨hout₁.receivers, hout₁.senders, hout₁.receiverWaiters, hout₁.senderWaiters⟩
      hout₂)
  have hra : st₂.activeReceivers = [] := (congrArg Pool.waiting hr₂).trans ha₁
  refine ⟨{ st₂ with handleClosing := true }, timers, ?_,
    ⟨⟨hw₂.receivers, hw₂.senders, hw₂.receiverResumable, hw₂.senderResumable, hw₂.senderValue⟩,
      (hk₂.closed.trans hk₁.closed).symm⟩,
    ⟨hout.receivers, hout.senders, hout.receiverWaiters, hout.senderWaiters⟩, ?_,
    hk₂.handleInitialized.trans hk₁.handleInitialized, hk₂.async.trans hk₁.async, fun i hi => ?_⟩
  · unfold closeLocked
    dsimp only
    rw [he₁]
    dsimp only
    rw [he₂]
    simp only [List.nil_append, hparked, hk₂.handleClosing, hk₁.handleClosing, st₀]
  · show (⟨st₂.capacity, st₂.messages, st₂.activeReceivers, st₂.parked, st₂.closed⟩ :
      Queue OpId T) = _
    rw [hra, hw₂.parked_eq_nil.mpr ha₂, hm₂, hm₁, hk₂.capacity, hk₁.capacity, hk₂.closed,
      hk₁.closed]
    rfl
  · show (st₂.receiver i).exception = _ ∧ (st₂.receiver i).value = _
    rw [show st₂.receiver i = st₁.receiver i from congrFun (congrArg Pool.record hr₂) i]
    exact hex₁ i hi

end LuvCoro.Channel
