import LuvCoro.Channel.Frame

/-! # One specification for each critical section

A well-formed state whose queue is valid goes in. What comes out is described by
the queue operation it amounts to, by what happened to the waiters (`Section`)
and by the history it adds. Callers use these statements and never unfold a
section. -/
namespace LuvCoro.Channel

open WaiterPool ParkingQueue

universe u
variable {T : Type u}

/-- Being well formed does not depend on the buffer. -/
theorem WellFormed.messages {st : State T} (h : WellFormed st) {ms : List T} :
    WellFormed { st with messages := ms } :=
  ⟨⟨h.receivers, h.senders, h.receiverResumable, h.senderResumable, h.senderValue⟩, h.closing⟩

/-! ## Completing waiters -/

namespace State

/-- A queued receiver is popped and completed; its continuation is set, so it
becomes ready. -/
def finishReceiver (st : State T) (w : OpId) (q : List OpId)
    (f : ReceiverWaiter T → ReceiverWaiter T) : State T :=
  { st.setReceiver w f with receiverWaiters := q, readyReceivers := st.readyReceivers ++ [w] }

def finishSender (st : State T) (w : OpId) (q : List OpId)
    (f : SenderWaiter T → SenderWaiter T) : State T :=
  { st.setSender w f with senderWaiters := q, readySenders := st.readySenders ++ [w] }

/-- A receiver completes the waiter it owns, which is not queued. -/
def settle (st : State T) (w : OpId) (f : ReceiverWaiter T → ReceiverWaiter T) : State T :=
  if (st.receiver w).continuation then
    { st.setReceiver w f with readyReceivers := st.readyReceivers ++ [w] }
  else st.setReceiver w f

end State

/-- The queue `w :: q` is what is left of the waiters `l` after pruning, and `ws`
are the live ones behind `w`. -/
structure Popped (live : OpId → Bool) (l : List OpId) (w : OpId) (q ws : List OpId) : Prop where
  suffix : (w :: q) <:+ l
  live : q.filter live = ws

section Finish
variable {st : State T} {w : OpId} {ws q : List OpId}

theorem outcome_finishReceiver {f : ReceiverWaiter T → ReceiverWaiter T}
    (h : st.activeReceivers = w :: ws)
    (hq : Popped (fun w => (st.receiver w).active) st.receiverWaiters w q ws)
    (ha : (f (st.receiver w)).active = false) (hc : (f (st.receiver w)).completed = true) :
    Outcome noOne st (st.finishReceiver w q f) := by
  refine ⟨?_, .refl _ _, ?_, List.Sublist.refl _⟩
  · refine evolves_complete (p := st.receivers) (r := (st.finishReceiver w q f).receivers)
      h rfl hq.suffix hq.live ?_ ?_ ?_ rfl
    · intro j hj
      simp [State.receivers, State.finishReceiver, State.setReceiver, hj]
    · simpa [Pool.active, State.receivers, State.finishReceiver, State.setReceiver] using ha
    · simpa [Pool.completed, State.receivers, State.finishReceiver, State.setReceiver] using hc
  · exact (List.sublist_cons_self w q).trans hq.suffix.sublist

theorem outcome_finishSender {f : SenderWaiter T → SenderWaiter T}
    (h : st.activeSenders = w :: ws)
    (hq : Popped (fun w => (st.sender w).active) st.senderWaiters w q ws)
    (ha : (f (st.sender w)).active = false) (hc : (f (st.sender w)).completed = true) :
    Outcome noOne st (st.finishSender w q f) := by
  refine ⟨.refl _ _, ?_, List.Sublist.refl _, ?_⟩
  · refine evolves_complete (p := st.senders) (r := (st.finishSender w q f).senders)
      h rfl hq.suffix hq.live ?_ ?_ ?_ rfl
    · intro j hj
      simp [State.senders, State.finishSender, State.setSender, hj]
    · simpa [Pool.active, State.senders, State.finishSender, State.setSender] using ha
    · simpa [Pool.completed, State.senders, State.finishSender, State.setSender] using hc
  · exact (List.sublist_cons_self w q).trans hq.suffix.sublist

theorem activeReceivers_finishReceiver {f : ReceiverWaiter T → ReceiverWaiter T}
    (hw : Waiters st)
    (hq : Popped (fun w => (st.receiver w).active) st.receiverWaiters w q ws) :
    (st.finishReceiver w q f).activeReceivers = ws :=
  waiting_complete (p := st.receivers) (r := (st.finishReceiver w q f).receivers)
    hw.receivers rfl hq.suffix hq.live fun j hj => by
      simp [State.receivers, State.finishReceiver, State.setReceiver, hj]

theorem toQueue_finishReceiver {f : ReceiverWaiter T → ReceiverWaiter T} (hw : Waiters st)
    (hq : Popped (fun w => (st.receiver w).active) st.receiverWaiters w q ws) :
    (st.finishReceiver w q f).toQueue = { st.toQueue with takers := ws } := by
  rw [← activeReceivers_finishReceiver (f := f) hw hq]
  rfl

theorem activeSenders_finishSender {f : SenderWaiter T → SenderWaiter T} (hw : Waiters st)
    (hq : Popped (fun w => (st.sender w).active) st.senderWaiters w q ws) :
    (st.finishSender w q f).activeSenders = ws :=
  waiting_complete (p := st.senders) (r := (st.finishSender w q f).senders)
    hw.senders rfl hq.suffix hq.live fun j hj => by
      simp [State.senders, State.finishSender, State.setSender, hj]

theorem parked_finishSender {f : SenderWaiter T → SenderWaiter T} (hw : Waiters st)
    (hq : Popped (fun w => (st.sender w).active) st.senderWaiters w q ws) :
    (st.finishSender w q f).parked =
      ws.filterMap fun w => (st.sender w).value.map (w, ·) := by
  unfold State.parked
  rw [activeSenders_finishSender hw hq]
  refine List.filterMap_congr fun j hj => ?_
  have hnd : (w :: q).Nodup := hw.senders.nodup.sublist hq.suffix.sublist
  have hjq : j ∈ q := by
    rw [← hq.live] at hj
    exact List.mem_of_mem_filter hj
  have hne : j ≠ w := fun he => (List.nodup_cons.mp hnd).1 (he ▸ hjq)
  simp [State.finishSender, State.setSender, hne]

theorem toQueue_finishSender {f : SenderWaiter T → SenderWaiter T} (hw : Waiters st)
    (hq : Popped (fun w => (st.sender w).active) st.senderWaiters w q ws) :
    (st.finishSender w q f).toQueue = { st.toQueue with
      givers := ws.filterMap fun w => (st.sender w).value.map (w, ·) } := by
  rw [← parked_finishSender (f := f) hw hq]
  rfl

theorem outcome_settle (st : State T) (w : OpId) (f : ReceiverWaiter T → ReceiverWaiter T) :
    Outcome (· = .receiver w) st (st.settle w f) := by
  have hadv : ∀ j, j ≠ w → Advance st.receivers (st.settle w f).receivers j := by
    intro j hj
    have hw' : ∀ b : Bool, (if b then [w] else []).count j = 0 := fun b => by
      cases b <;> simp [Ne.symm hj]
    refine .same ?_ ?_ fun hq => ?_
    · unfold State.settle
      split <;> simp [State.receivers, State.setReceiver, hj]
    · unfold State.settle
      split <;> simp [State.receivers, State.setReceiver, Ne.symm hj]
    · unfold State.settle
      split <;> exact (Pool.mem_waiting.mp hq).1
  refine ⟨⟨fun j _ hq => ?_, fun j hj => hadv j fun he => hj (he ▸ rfl)⟩, ?_, ?_, ?_⟩
  · unfold State.settle at hq
    split at hq <;> exact hq
  all_goals unfold State.settle
  · split <;> exact .refl _ _
  all_goals split <;> exact List.Sublist.refl _

theorem activeReceivers_settle {st : State T} {w : OpId} (hw : w ∉ st.receiverWaiters)
    (f : ReceiverWaiter T → ReceiverWaiter T) :
    (st.settle w f).activeReceivers = st.activeReceivers := by
  have h : ∀ st' : State T, st'.receiverWaiters = st.receiverWaiters →
      (∀ j, j ≠ w → st'.receiver j = st.receiver j) →
      st'.activeReceivers = st.activeReceivers := by
    intro st' hq hr
    unfold State.activeReceivers
    rw [hq]
    refine List.filter_congr fun j hj => ?_
    rw [hr j fun he => hw (he ▸ hj)]
  unfold State.settle
  split <;> exact h _ rfl fun j hj => by simp [State.setReceiver, hj]

theorem toQueue_settle {st : State T} {w : OpId} (hw : w ∉ st.receiverWaiters)
    (f : ReceiverWaiter T → ReceiverWaiter T) : (st.settle w f).toQueue = st.toQueue := by
  unfold State.toQueue
  rw [activeReceivers_settle hw f]
  unfold State.settle
  split <;> rfl

end Finish

/-! ## The sections -/

/-- The fields only `close` and the flushes write. -/
structure Keeps (st st' : State T) : Prop where
  capacity : st'.capacity = st.capacity
  closed : st'.closed = st.closed
  handleClosing : st'.handleClosing = st.handleClosing
  handleInitialized : st'.handleInitialized = st.handleInitialized
  async : st'.async = st.async

theorem Keeps.refl (st : State T) : Keeps st st := ⟨rfl, rfl, rfl, rfl, rfl⟩

theorem Keeps.trans {a b c : State T} (h : Keeps a b) (h' : Keeps b c) : Keeps a c :=
  ⟨h'.capacity.trans h.capacity, h'.closed.trans h.closed,
    h'.handleClosing.trans h.handleClosing, h'.handleInitialized.trans h.handleInitialized,
    h'.async.trans h.async⟩

theorem Pruned.keeps {st st' : State T} (h : Pruned st st') : Keeps st st' :=
  ⟨(congrArg State.capacity h.rest :), (congrArg State.closed h.rest :),
    (congrArg State.handleClosing h.rest :), (congrArg State.handleInitialized h.rest :),
    (congrArg State.async h.rest :)⟩

theorem keeps_settle (st : State T) (w : OpId) (f : ReceiverWaiter T → ReceiverWaiter T) :
    Keeps st (st.settle w f) := by
  unfold State.settle
  split <;> exact ⟨rfl, rfl, rfl, rfl, rfl⟩

/-- What a section does to the waiters of everybody outside `own`. A section
that tells nobody to wake the loop makes none of them ready. -/
structure Section (own : Party → Prop) (st : State T) (l : Locked T) : Prop extends
    Keeps st l.state where
  wellFormed : WellFormed l.state
  receivers : Evolves (fun j => own (.receiver j)) st.receivers l.state.receivers
  senders : Evolves (fun j => own (.sender j)) st.senders l.state.senders
  quietReceivers : l.wakeLoop = false → ∀ j, ¬ own (.receiver j) →
    l.state.readyReceivers.count j = st.readyReceivers.count j
  quietSenders : l.wakeLoop = false → ∀ j, ¬ own (.sender j) →
    l.state.readySenders.count j = st.readySenders.count j

/-- A section whose own waiters are not queued leaves a well-formed state. -/
theorem Outcome.section {own : Party → Prop} {st : State T} {l : Locked T}
    (h : Outcome own st l.state) (hk : Keeps st l.state) (hw : WellFormed st)
    (hr : ∀ j, own (.receiver j) → j ∉ st.receiverWaiters)
    (hs : ∀ j, own (.sender j) → j ∉ st.senderWaiters)
    (hqr : l.wakeLoop = false → ∀ j, ¬ own (.receiver j) →
      l.state.readyReceivers.count j = st.readyReceivers.count j)
    (hqs : l.wakeLoop = false → ∀ j, ¬ own (.sender j) →
      l.state.readySenders.count j = st.readySenders.count j) : Section own st l :=
  ⟨hk, h.wellFormed hw (by rw [hk.handleClosing, hk.closed, hw.closing]) hr hs,
    h.receivers, h.senders, hqr, hqs⟩

theorem Pruned.readyReceivers {st st' : State T} (h : Pruned st st') :
    st'.readyReceivers = st.readyReceivers := (congrArg State.readyReceivers h.rest :)

theorem Pruned.readySenders {st st' : State T} (h : Pruned st st') :
    st'.readySenders = st.readySenders := (congrArg State.readySenders h.rest :)

theorem Pruned.section {st st' : State T} (h : Pruned st st') (hw : WellFormed st)
    (own : Party → Prop) {l : Locked T} (hl : l.state = st') : Section own st l := by
  subst hl
  exact ⟨h.keeps, h.wellFormed hw, (h.outcome own).receivers, (h.outcome own).senders,
    fun _ j _ => by rw [h.readyReceivers], fun _ j _ => by rw [h.readySenders]⟩

/-- `complete_receiver_value_locked` on a popped waiter whose continuation is
set. -/
theorem completeReceiverValue_popped {l : Locked T} {w : OpId} {q : List OpId} {value : T}
    (hc : (l.state.receiver w).continuation = true) :
    completeReceiverValueLocked
        { l with state := { l.state with receiverWaiters := q } } w value =
      { l with
        state := l.state.finishReceiver w q fun r =>
          { r with active := false, completed := true, timedOut := false, value := some value,
                   timer := false }
        timersToCancel := if (l.state.receiver w).timer then l.timersToCancel ++ [w]
          else l.timersToCancel
        events := l.events ++ [.taken w value] } := by
  simp [completeReceiverValueLocked, State.finishReceiver, State.setReceiver, hc]

/-- A value goes to the oldest receiver waiting, if there is one. -/
def Handed (st st' : State T) (value : T) : Prop :=
  ∀ w ws, st.activeReceivers = w :: ws → (st'.receiver w).value = some value ∧
    (st'.receiver w).exception = (st.receiver w).exception

/-- `place_send_locked` is `give`. -/
theorem placeSend_spec {st : State T} (hw : WellFormed st) (i : OpId) (value : T) :
    Section noOne st (placeSendLocked { state := st } i value) ∧
      (placeSendLocked { state := st } i value).state.toQueue = st.toQueue.give value ∧
      (placeSendLocked { state := st } i value).events =
        .accepted i value :: st.activeReceivers.head?.toList.map (.taken · value) ∧
      Handed st (placeSendLocked { state := st } i value).state value := by
  unfold placeSendLocked
  cases hr : st.activeReceivers with
  | nil =>
    obtain ⟨hpop, hp⟩ := popReceiver_nil hr
    simp only [hpop, List.nil_append]
    have hq := hp.toQueue
    have hout := hp.outcome noOne
    refine ⟨Outcome.section ⟨hout.receivers, hout.senders, hp.receiverWaiters, hp.senderWaiters⟩
      ⟨rfl, rfl, rfl, rfl, rfl⟩ hw (by simp) (by simp) (fun _ _ _ => rfl) (fun _ _ _ => rfl), ?_,
      rfl, fun w ws hw => by rw [hr] at hw; cases hw⟩
    have ht : st.toQueue.takers = [] := hr
    rw [Queue.give, ht, ← hq]
    rfl
  | cons w ws =>
    obtain ⟨q, hpop, hsuf, hf⟩ := popReceiver_cons hr
    have hcont := hw.receiverResumable w (by simp [hr])
    have hpq : Popped (fun w => (st.receiver w).active) st.receiverWaiters w q ws := ⟨hsuf, hf⟩
    simp only [hpop, List.nil_append]
    rw [completeReceiverValue_popped
      (l := { state := st, events := [.accepted i value] }) hcont]
    refine ⟨(outcome_finishReceiver hr hpq rfl rfl).section ⟨rfl, rfl, rfl, rfl, rfl⟩ hw
      (by simp) (by simp) (by simp) (by simp), ?_, rfl, fun x xs hx => ?_⟩
    · have ht : st.toQueue.takers = w :: ws := hr
      simp only [Queue.give, ht]
      exact toQueue_finishReceiver hw.toWaiters hpq
    · rw [hr] at hx
      cases hx
      simp [State.finishReceiver, State.setReceiver]

/-- Without live receivers the first loop of `pump_locked` only prunes. -/
theorem pumpReceivers_nil {l : Locked T} (h : l.state.activeReceivers = []) :
    pumpReceivers l.state.receiverWaiters.length l =
      { l with state := { l.state with receiverWaiters := [] } } := by
  cases hq : l.state.receiverWaiters with
  | nil =>
    show l = _
    rw [← hq]
  | cons w ws =>
    show pumpReceivers (ws.length + 1) l = _
    rw [pumpReceivers, (popReceiver_nil h).1]

/-- Without live senders the second loop only prunes. -/
theorem pumpSenders_nil {l : Locked T} (h : l.state.activeSenders = []) :
    ∃ st', pumpSenders l.state.senderWaiters.length l = { l with state := st' } ∧
      Pruned l.state st' := by
  cases hq : l.state.senderWaiters with
  | nil => exact ⟨l.state, rfl, .refl _⟩
  | cons w ws =>
    show ∃ st', pumpSenders (ws.length + 1) l = _ ∧ _
    rw [pumpSenders]
    split
    · rw [(popSender_nil h).1]
      exact ⟨_, rfl, (popSender_nil h).2⟩
    · exact ⟨l.state, rfl, .refl _⟩

/-- A buffer without room ends the second loop. -/
theorem pumpSenders_full {l : Locked T} (h : l.state.toQueue.Full) (fuel : Nat) :
    pumpSenders fuel l = l := by
  cases fuel with
  | zero => rfl
  | succ fuel =>
    have : hasBufferCapacityLocked l.state = false := by
      rw [← Bool.not_eq_true, hasBufferCapacity_iff]
      exact fun hn => hn h
    rw [pumpSenders, this]
    simp

theorem releaseSender_popped {l : Locked T} {w : OpId} {q : List OpId}
    (hc : (l.state.sender w).continuation = true) :
    releaseSenderLocked { l with state := { l.state with senderWaiters := q } } w =
      { l with state := l.state.finishSender w q fun s =>
        { s with value := none, active := false, completed := true } } := by
  simp [releaseSenderLocked, completeSenderLocked, State.finishSender, State.setSender, hc]

/-- `pump_locked` after a value was taken: the oldest parked sender, if there is
one, fills the buffer again and is woken. The blocked senders are not told. -/
theorem pump_nil {l : Locked T} (hr : l.state.activeReceivers = [])
    (hs : l.state.activeSenders = []) :
    ∃ st', pumpLocked l = { l with state := st' } ∧ Pruned l.state st' := by
  have hp := (popReceiver_nil hr).2
  unfold pumpLocked
  rw [pumpReceivers_nil hr]
  obtain ⟨st', he, hp'⟩ := pumpSenders_nil
    (l := { l with state := { l.state with receiverWaiters := [] } }) hs
  exact ⟨st', he, hp.trans hp'⟩

theorem pump_cons {l : Locked T} (hw : WellFormed l.state)
    (hr : l.state.activeReceivers = []) {s : OpId} {ss : List OpId}
    (hs : l.state.activeSenders = s :: ss) {v : T} (hval : (l.state.sender s).value = some v)
    (hroom : l.state.messages.length + 1 = l.state.capacity) :
    ∃ st', pumpLocked l = { l with state := st', wakeLoop := true } ∧
      Outcome noOne l.state st' ∧ Keeps l.state st' ∧
      st'.toQueue = { l.state.toQueue with
        buffer := l.state.messages ++ [v]
        givers := ss.filterMap fun w => (l.state.sender w).value.map (w, ·) } := by
  have hp := (popReceiver_nil hr).2
  unfold pumpLocked
  rw [pumpReceivers_nil hr]
  generalize hst : ({ l.state with receiverWaiters := [] } : State T) = st at hp
  have hsnd : st.sender = l.state.sender := by rw [← hst]
  have hmsg : st.messages = l.state.messages := by rw [← hst]
  have hcap : st.capacity = l.state.capacity := by rw [← hst]
  rw [← hmsg, ← hcap] at hroom
  have hs' : st.activeSenders = s :: ss := hp.senders.trans hs
  obtain ⟨q, hpop, hsuf, hf⟩ := popSender_cons hs'
  have hpq : Popped (fun w => (st.sender w).active) st.senderWaiters s q ss := ⟨hsuf, hf⟩
  have hval' : (st.sender s).value = some v := by rw [hsnd]; exact hval
  have hwst : WellFormed st := hp.wellFormed hw
  have hcont : (st.sender s).continuation = true := hwst.senderResumable s (by simp [hs'])
  obtain ⟨x, xs, hx⟩ : ∃ x xs, st.senderWaiters = x :: xs := by
    obtain ⟨pre, hpre⟩ := hsuf
    cases pre with
    | nil => exact ⟨s, q, hpre.symm⟩
    | cons y ys => exact ⟨y, ys ++ s :: q, hpre.symm⟩
  have hcapacity : hasBufferCapacityLocked st = true := by
    rw [hasBufferCapacity_iff]
    rintro ⟨_, hfull⟩
    have : st.capacity ≤ st.messages.length := hfull
    omega
  -- one turn of the loop, after which the buffer is full
  let st₁ : State T := { st with messages := st.messages ++ [v] }
  have hpq₁ : Popped (fun w => (st₁.sender w).active) st₁.senderWaiters s q ss := hpq
  let st₂ : State T := st₁.finishSender s q fun w =>
    { w with value := none, active := false, completed := true }
  have hq₂ : st₂.toQueue = { st₁.toQueue with
      givers := ss.filterMap fun w => (st.sender w).value.map (w, ·) } :=
    toQueue_finishSender hwst.messages.toWaiters hpq₁
  have hfull : st₂.toQueue.Full := by
    rw [hq₂]
    show 0 < st.capacity ∧ st.capacity ≤ (st.messages ++ [v]).length
    rw [List.length_append, List.length_singleton]
    omega
  have hturn : pumpSenders st.senderWaiters.length { l with state := st } =
      { l with wakeLoop := true, state := st₂ } := by
    rw [hx, List.length_cons, pumpSenders]
    simp only [hcapacity, if_true, hpop, hval']
    rw [releaseSender_popped (l := { l with state := st₁ }) hcont]
    exact pumpSenders_full (l := { l with wakeLoop := true, state := st₂ }) hfull xs.length
  have hout : Outcome noOne st₁ st₂ := outcome_finishSender
    (f := fun w => { w with value := none, active := false, completed := true }) hs' hpq rfl rfl
  have hout' : Outcome noOne st st₂ :=
    ⟨hout.receivers, hout.senders, hout.receiverWaiters, hout.senderWaiters⟩
  refine ⟨st₂, hturn, (hp.outcome _).trans hout', hp.keeps.trans ⟨rfl, rfl, rfl, rfl, rfl⟩, ?_⟩
  rw [hq₂, ← hp.toQueue]
  show ({ st.toQueue with buffer := st.messages ++ [v], givers := _ } : Queue OpId T) = _
  rw [hmsg, hsnd]

/-- Both cases at once: seen as a queue that had one more value in front, this
is `take`. -/
theorem pump_spec {l : Locked T} (hw : WellFormed l.state) (hr : l.state.activeReceivers = [])
    (hroom : l.state.activeSenders ≠ [] → l.state.messages.length + 1 = l.state.capacity) :
    ∃ st' wake, pumpLocked l = { l with state := st', wakeLoop := wake } ∧
      Outcome noOne l.state st' ∧ Keeps l.state st' ∧
      (wake = false → st'.readyReceivers = l.state.readyReceivers ∧
        st'.readySenders = l.state.readySenders) ∧
      ∀ v, Queue.take { l.state.toQueue with buffer := v :: l.state.messages } =
        some (v, st'.toQueue) := by
  cases hs : l.state.activeSenders with
  | nil =>
    obtain ⟨st', he, hp⟩ := pump_nil hr hs
    refine ⟨st', l.wakeLoop, he, hp.outcome _, hp.keeps,
      fun _ => ⟨hp.readyReceivers, hp.readySenders⟩, fun v => ?_⟩
    have hg : l.state.toQueue.givers = [] := hw.parked_eq_nil.mpr hs
    have he' : ({ l.state.toQueue with givers := [] } : Queue OpId T) = l.state.toQueue := by
      rw [← hg]
    rw [hp.toQueue]
    simp only [Queue.take, hg]
    exact congrArg (fun q => some (v, q)) he'
  | cons s ss =>
    obtain ⟨x, gs, hx, hpark, hgs⟩ := hw.parked_cons hs
    obtain ⟨st', he, hout, hk, hq⟩ := pump_cons hw hr hs hx (hroom (by simp [hs]))
    refine ⟨st', true, he, hout, hk, (fun h => by cases h), fun v => ?_⟩
    have hg : l.state.toQueue.givers = (s, x) :: gs := hpark
    rw [hq, ← hgs]
    simp only [Queue.take, hg]

end LuvCoro.Channel
