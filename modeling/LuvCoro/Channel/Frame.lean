import LuvCoro.Lib.WaiterPool
import LuvCoro.Lib.ParkingQueue
import LuvCoro.Channel.Sections

/-! # The channel state as a queue and two waiter pools

Reading the live waiters only, a channel state is a `ParkingQueue`; its two
kinds of waiters are `WaiterPool`s whose tokens are the ready queues. The
operations the critical sections are made of are described here in these two
terms: popping and pruning, completing a queued waiter (`finishReceiver`,
`finishSender`) and completing one's own waiter (`settle`). -/
namespace LuvCoro.Channel

open WaiterPool ParkingQueue

universe u
variable {T : Type u}

instance : Waiter (ReceiverWaiter T) := ⟨ReceiverWaiter.active, ReceiverWaiter.completed⟩

instance : Waiter (SenderWaiter T) := ⟨SenderWaiter.active, SenderWaiter.completed⟩

@[simp] theorem active_receiver (r : ReceiverWaiter T) : Waiter.active r = r.active := rfl
@[simp] theorem completed_receiver (r : ReceiverWaiter T) : Waiter.completed r = r.completed := rfl
@[simp] theorem active_sender (w : SenderWaiter T) : Waiter.active w = w.active := rfl
@[simp] theorem completed_sender (w : SenderWaiter T) : Waiter.completed w = w.completed := rfl

namespace State

def receivers (st : State T) : Pool OpId (ReceiverWaiter T) :=
  ⟨st.receiver, st.receiverWaiters, st.readyReceivers⟩

def senders (st : State T) : Pool OpId (SenderWaiter T) :=
  ⟨st.sender, st.senderWaiters, st.readySenders⟩

theorem waiting_receivers (st : State T) : st.receivers.waiting = st.activeReceivers := rfl

theorem waiting_senders (st : State T) : st.senders.waiting = st.activeSenders := rfl

/-- The parked senders with their values. -/
def parked (st : State T) : List (OpId × T) :=
  st.activeSenders.filterMap fun w => (st.sender w).value.map (w, ·)

/-- What the state is for. -/
def toQueue (st : State T) : Queue OpId T where
  capacity := st.capacity
  buffer := st.messages
  takers := st.activeReceivers
  givers := st.parked
  closed := st.closed

end State

/-- What holds of the waiters of a state, also inside a section. -/
structure Waiters (st : State T) : Prop where
  receivers : st.receivers.WellFormed
  senders : st.senders.WellFormed
  receiverResumable : ∀ w ∈ st.activeReceivers, (st.receiver w).continuation = true
  senderResumable : ∀ w ∈ st.activeSenders, (st.sender w).continuation = true
  senderValue : ∀ w ∈ st.activeSenders, ∃ v, (st.sender w).value = some v

/-- What holds of a state whenever the lock is free. -/
structure WellFormed (st : State T) : Prop extends Waiters st where
  closing : st.handleClosing = st.closed

theorem Waiters.parked_eq_nil {st : State T} (h : Waiters st) :
    st.parked = [] ↔ st.activeSenders = [] := by
  constructor
  · intro hp
    cases hs : st.activeSenders with
    | nil => rfl
    | cons s ss =>
      obtain ⟨v, hv⟩ := h.senderValue s (by simp [hs])
      simp [State.parked, hs, hv] at hp
  · intro hs
    simp [State.parked, hs]

theorem Waiters.parked_cons {st : State T} (h : Waiters st) {s : OpId} {ss : List OpId}
    (hs : st.activeSenders = s :: ss) : ∃ v gs, (st.sender s).value = some v ∧
      st.parked = (s, v) :: gs ∧ gs = ss.filterMap fun w => (st.sender w).value.map (w, ·) := by
  obtain ⟨v, hv⟩ := h.senderValue s (by simp [hs])
  exact ⟨v, _, hv, by simp [State.parked, hs, hv], rfl⟩

theorem not_active_of {st : State T} {i : OpId} {r : ReceiverWaiter T} (h : st.receiver i = r)
    (ha : r.active = false) : i ∉ st.activeReceivers := by
  intro hm
  have := (List.mem_filter.mp hm).2
  rw [h, ha] at this
  cases this

/-! ## What a section may do to the waiters -/

/-- A waiter of either kind. -/
inductive Party where
  | receiver (i : OpId)
  | sender (i : OpId)

/-- Nobody's waiter. -/
abbrev noOne : Party → Prop := fun _ => False

/-- The waiters outside `own` advance, and the queues only lose elements. -/
structure Outcome (own : Party → Prop) (st st' : State T) : Prop where
  receivers : Evolves (fun j => own (.receiver j)) st.receivers st'.receivers
  senders : Evolves (fun j => own (.sender j)) st.senders st'.senders
  receiverWaiters : st'.receiverWaiters.Sublist st.receiverWaiters
  senderWaiters : st'.senderWaiters.Sublist st.senderWaiters

theorem Outcome.refl (own : Party → Prop) (st : State T) : Outcome own st st :=
  ⟨.refl _ _, .refl _ _, List.Sublist.refl _, List.Sublist.refl _⟩

theorem Outcome.trans {own : Party → Prop} {a b c : State T} (h : Outcome own a b)
    (h' : Outcome own b c) : Outcome own a c :=
  ⟨h.receivers.trans h'.receivers, h.senders.trans h'.senders,
    h'.receiverWaiters.trans h.receiverWaiters, h'.senderWaiters.trans h.senderWaiters⟩

theorem Outcome.mono {own own' : Party → Prop} {a b : State T} (h : Outcome own a b)
    (ho : ∀ j, own j → own' j) : Outcome own' a b :=
  ⟨h.receivers.mono fun j => ho (.receiver j), h.senders.mono fun j => ho (.sender j),
    h.receiverWaiters, h.senderWaiters⟩

/-- An outcome that leaves no waiter of its own in the queues keeps the waiters
in order. -/
theorem Outcome.waiters {own : Party → Prop} {st st' : State T} (h : Outcome own st st')
    (hw : Waiters st) (hr : ∀ j, own (.receiver j) → j ∉ st.receiverWaiters)
    (hs : ∀ j, own (.sender j) → j ∉ st.senderWaiters) : Waiters st' := by
  have hr' : ∀ j ∈ st'.activeReceivers, ¬ own (.receiver j) := fun j hj ho =>
    hr j ho (h.receiverWaiters.subset (List.mem_of_mem_filter hj))
  have hs' : ∀ j ∈ st'.activeSenders, ¬ own (.sender j) := fun j hj ho =>
    hs j ho (h.senderWaiters.subset (List.mem_of_mem_filter hj))
  refine ⟨?_, ?_, ?_, ?_, ?_⟩
  · exact h.receivers.wellFormed hw.receivers (hw.receivers.nodup.sublist h.receiverWaiters)
      fun j hj ho => absurd ho (hr' j hj)
  · exact h.senders.wellFormed hw.senders (hw.senders.nodup.sublist h.senderWaiters)
      fun j hj ho => absurd ho (hs' j hj)
  · intro w hwait
    obtain ⟨hold, hrec⟩ := h.receivers.waiting_of (hr' w hwait) hwait
    have hrec' : st'.receiver w = st.receiver w := hrec
    rw [hrec']
    exact hw.receiverResumable w hold
  · intro w hwait
    obtain ⟨hold, hrec⟩ := h.senders.waiting_of (hs' w hwait) hwait
    have hrec' : st'.sender w = st.sender w := hrec
    rw [hrec']
    exact hw.senderResumable w hold
  · intro w hwait
    obtain ⟨hold, hrec⟩ := h.senders.waiting_of (hs' w hwait) hwait
    have hrec' : st'.sender w = st.sender w := hrec
    rw [hrec']
    exact hw.senderValue w hold

theorem Outcome.wellFormed {own : Party → Prop} {st st' : State T} (h : Outcome own st st')
    (hw : WellFormed st) (hclosing : st'.handleClosing = st'.closed)
    (hr : ∀ j, own (.receiver j) → j ∉ st.receiverWaiters)
    (hs : ∀ j, own (.sender j) → j ∉ st.senderWaiters) : WellFormed st' :=
  ⟨h.waiters hw.toWaiters hr hs, hclosing⟩

/-! ## Pruning and popping -/

/-- Only dead waiters have left the fronts of the queues. -/
structure Pruned (st st' : State T) : Prop where
  receiverWaiters : st'.receiverWaiters.Sublist st.receiverWaiters
  senderWaiters : st'.senderWaiters.Sublist st.senderWaiters
  receivers : st'.activeReceivers = st.activeReceivers
  senders : st'.activeSenders = st.activeSenders
  rest : st' = { st with
    receiverWaiters := st'.receiverWaiters, senderWaiters := st'.senderWaiters }

theorem Pruned.refl (st : State T) : Pruned st st :=
  ⟨List.Sublist.refl _, List.Sublist.refl _, rfl, rfl, rfl⟩

theorem Pruned.trans {a b c : State T} (h : Pruned a b) (h' : Pruned b c) : Pruned a c :=
  ⟨h'.receiverWaiters.trans h.receiverWaiters, h'.senderWaiters.trans h.senderWaiters,
    h'.receivers.trans h.receivers, h'.senders.trans h.senders, by rw [h'.rest, h.rest]⟩

theorem Pruned.outcome {st st' : State T} (h : Pruned st st') (own : Party → Prop) :
    Outcome own st st' :=
  ⟨evolves_prune _ (congrArg State.receiver h.rest :) (congrArg State.readyReceivers h.rest :)
      h.receiverWaiters h.receivers,
    evolves_prune _ (congrArg State.sender h.rest :) (congrArg State.readySenders h.rest :)
      h.senderWaiters h.senders,
    h.receiverWaiters, h.senderWaiters⟩

theorem Pruned.toQueue {st st' : State T} (h : Pruned st st') : st'.toQueue = st.toQueue := by
  have hp : st'.parked = st.parked := by
    unfold State.parked
    rw [h.senders, congrArg State.sender h.rest]
  unfold State.toQueue
  rw [hp, h.receivers, congrArg State.capacity h.rest, congrArg State.messages h.rest,
    congrArg State.closed h.rest]

theorem Pruned.wellFormed {st st' : State T} (h : Pruned st st') (hw : WellFormed st) :
    WellFormed st' :=
  (h.outcome noOne).wellFormed hw
    (by rw [congrArg State.handleClosing h.rest, congrArg State.closed h.rest]; exact hw.closing)
    (fun _ h => h.elim) (fun _ h => h.elim)

theorem pruned_receivers (st : State T) {q : List OpId} (hs : q.Sublist st.receiverWaiters)
    (hf : (q.filter fun w => (st.receiver w).active) = st.activeReceivers) :
    Pruned st { st with receiverWaiters := q } :=
  ⟨hs, List.Sublist.refl _, hf, rfl, rfl⟩

theorem pruned_senders (st : State T) {q : List OpId} (hs : q.Sublist st.senderWaiters)
    (hf : (q.filter fun w => (st.sender w).active) = st.activeSenders) :
    Pruned st { st with senderWaiters := q } :=
  ⟨List.Sublist.refl _, hs, rfl, hf, rfl⟩

theorem popReceiver_nil {st : State T} (h : st.activeReceivers = []) :
    popReceiverWaiterLocked st = (none, { st with receiverWaiters := [] }) ∧
      Pruned st { st with receiverWaiters := [] } := by
  refine ⟨?_, pruned_receivers st (List.nil_sublist _) h.symm⟩
  unfold popReceiverWaiterLocked pruneWaiters
  rw [dropWhile_eq_nil h]

theorem popReceiver_cons {st : State T} {w : OpId} {ws : List OpId}
    (h : st.activeReceivers = w :: ws) :
    ∃ q, popReceiverWaiterLocked st = (some w, { st with receiverWaiters := q }) ∧
      (w :: q) <:+ st.receiverWaiters ∧ (q.filter fun w => (st.receiver w).active) = ws := by
  obtain ⟨q, hq, hf, hs⟩ := dropWhile_eq_cons h
  refine ⟨q, ?_, hs, hf⟩
  unfold popReceiverWaiterLocked pruneWaiters
  rw [hq]

theorem popSender_nil {st : State T} (h : st.activeSenders = []) :
    popSenderWaiterLocked st = (none, { st with senderWaiters := [] }) ∧
      Pruned st { st with senderWaiters := [] } := by
  refine ⟨?_, pruned_senders st (List.nil_sublist _) h.symm⟩
  unfold popSenderWaiterLocked pruneWaiters
  rw [dropWhile_eq_nil h]

theorem popSender_cons {st : State T} {w : OpId} {ws : List OpId}
    (h : st.activeSenders = w :: ws) :
    ∃ q, popSenderWaiterLocked st = (some w, { st with senderWaiters := q }) ∧
      (w :: q) <:+ st.senderWaiters ∧ (q.filter fun w => (st.sender w).active) = ws := by
  obtain ⟨q, hq, hf, hs⟩ := dropWhile_eq_cons h
  refine ⟨q, ?_, hs, hf⟩
  unfold popSenderWaiterLocked pruneWaiters
  rw [hq]

theorem prune_isEmpty {live : OpId → Bool} (l : List OpId) :
    (pruneWaiters live l).isEmpty = (l.filter live).isEmpty := by
  unfold pruneWaiters
  cases h : l.filter live with
  | nil => rw [dropWhile_eq_nil h]
  | cons w ws =>
    obtain ⟨q, hq, _⟩ := dropWhile_eq_cons h
    rw [hq]
    rfl

theorem prune_sublist (live : OpId → Bool) (l : List OpId) : (pruneWaiters live l).Sublist l :=
  List.dropWhile_sublist _

theorem hasBufferCapacity_iff (st : State T) :
    hasBufferCapacityLocked st = true ↔ ¬ st.toQueue.Full := by
  simp only [hasBufferCapacityLocked, Queue.Full, State.toQueue, Bool.or_eq_true, beq_iff_eq,
    decide_eq_true_eq]
  omega

/-- `can_send_now_locked` asks whether the queue accepts a value. -/
theorem canSendNow_spec {st : State T} (hw : WellFormed st) :
    ∃ st', canSendNowLocked st = (decide st.toQueue.Accepts, st') ∧ Pruned st st' := by
  unfold canSendNowLocked
  by_cases hc : st.closed = true
  · refine ⟨st, ?_, .refl st⟩
    have : ¬ st.toQueue.Accepts := fun ha => by
      have h := ha.1
      simp [State.toQueue, hc] at h
    simp [hc, this]
  have hcl : st.closed = false := by simpa using hc
  have hps : Pruned st (hasWaitingSendersLocked st).2 :=
    pruned_senders st (prune_sublist _ _) (filter_dropWhile _ _)
  have hes : (hasWaitingSendersLocked st).1 = !st.activeSenders.isEmpty := by
    simp [hasWaitingSendersLocked, prune_isEmpty, State.activeSenders]
  by_cases hs : st.activeSenders = []
  · generalize hst : (hasWaitingSendersLocked st).2 = sp at hps
    have hpr : Pruned sp (hasWaitingReceiversLocked sp).2 :=
      pruned_receivers sp (prune_sublist _ _) (filter_dropWhile _ _)
    have her : (hasWaitingReceiversLocked sp).1 = !st.activeReceivers.isEmpty := by
      have : (hasWaitingReceiversLocked sp).1 = !sp.activeReceivers.isEmpty := by
        simp [hasWaitingReceiversLocked, prune_isEmpty, State.activeReceivers]
      rw [this, hps.receivers]
    have hp := hps.trans hpr
    refine ⟨(hasWaitingReceiversLocked sp).2, ?_, hp⟩
    have hroom : hasBufferCapacityLocked (hasWaitingReceiversLocked sp).2 =
        decide (¬ st.toQueue.Full) := by
      rw [Bool.eq_iff_iff, hasBufferCapacity_iff, hp.toQueue]
      simp
    have hacc : st.toQueue.Accepts ↔ st.activeReceivers ≠ [] ∨ ¬ st.toQueue.Full := by
      simp only [Queue.Accepts]
      have hg := hw.parked_eq_nil.mpr hs
      simp [State.toQueue, hcl, hg]
    simp only [hw.closing, hcl, hes, hs, hst, her, hroom, Bool.or_self, Bool.false_eq_true,
      if_false, List.isEmpty_nil, Bool.not_true, hacc, Bool.decide_or, Prod.mk.injEq, and_true]
    cases st.activeReceivers <;> simp
  · refine ⟨(hasWaitingSendersLocked st).2, ?_, hps⟩
    have hn : ¬ st.toQueue.Accepts := fun ha => hs (hw.parked_eq_nil.mp ha.2.1)
    have he : st.activeSenders.isEmpty = false := by simpa using hs
    simp [hw.closing, hcl, hes, he, hn]

end LuvCoro.Channel
