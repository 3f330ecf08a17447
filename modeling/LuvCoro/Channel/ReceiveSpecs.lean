import LuvCoro.Channel.SectionSpecs

/-! # Specifications of the receiving sections

Each receive is the abstract `take`, or finds nothing, or finds the channel
closed. -/
namespace LuvCoro.Channel

open WaiterPool ParkingQueue

universe u
variable {T : Type u} {st : State T} {i : OpId}

/-! ## Values without a waiter -/

/-- What `try_recv` and `blocking_next` do. The blocked senders are not told
when the value came from the buffer. -/
inductive TakeSpec (st : State T) (i : OpId) : Option T × Locked T → Prop
  | nothing {st' : State T} : st.messages = [] → Pruned st st' →
      TakeSpec st i (none, { state := st' })
  | value {v : T} {l : Locked T} : st.toQueue.take = some (v, l.state.toQueue) →
      Section noOne st l → l.events = [.taken i v] → l.notifyBlockedSenders = false → TakeSpec st i (some v, l)

theorem takers_eq_nil (hv : st.toQueue.Valid) (h : st.messages ≠ []) :
    st.activeReceivers = [] := by
  by_contra hr
  exact h (hv.takers hr).1

theorem activeSenders_eq_nil (hw : WellFormed st) (hv : st.toQueue.Valid)
    (h : st.messages = []) : st.activeSenders = [] := by
  refine hw.parked_eq_nil.mp ?_
  by_contra hg
  obtain ⟨h0, hlen, _⟩ := hv.givers hg
  have hb : st.toQueue.buffer = [] := h
  rw [hb] at hlen
  simp only [List.length_nil] at hlen
  omega

/-- A parked sender means that the buffer was full before its front went. -/
theorem room_after_pop (hw : WellFormed st) (hv : st.toQueue.Valid) {v : T} {ms : List T}
    (h : st.messages = v :: ms) (hs : st.activeSenders ≠ []) :
    ms.length + 1 = st.capacity := by
  have hg : st.toQueue.givers ≠ [] := fun hg => hs (hw.parked_eq_nil.mp hg)
  obtain ⟨_, hlen, _⟩ := hv.givers hg
  have hb : st.toQueue.buffer = v :: ms := h
  rw [hb] at hlen
  exact hlen

theorem take_spec (hw : WellFormed st) (hv : st.toQueue.Valid) (i : OpId) :
    TakeSpec st i (takeLocked st i) := by
  unfold takeLocked
  cases hm : st.messages with
  | nil =>
    obtain ⟨hpop, hp⟩ := popSender_nil (activeSenders_eq_nil hw hv hm)
    simp only [hpop]
    exact .nothing hm hp
  | cons v ms =>
    have hr := takers_eq_nil hv (by simp [hm])
    obtain ⟨st', wake, he, hout, hk, hready, htake⟩ :=
      pump_spec (l := { state := { st with messages := ms }, events := [.taken i v] })
        hw.messages hr (room_after_pop hw hv hm)
    simp only [he]
    refine .value ?_ (Outcome.section
      ⟨hout.receivers, hout.senders, hout.receiverWaiters, hout.senderWaiters⟩
      ⟨hk.capacity, hk.closed, hk.handleClosing, hk.handleInitialized, hk.async⟩ hw nofun nofun
      (fun hwake j _ => by rw [(hready hwake).1])
      (fun hwake j _ => by rw [(hready hwake).2])) rfl rfl
    rw [← htake v]
    show st.toQueue.take = Queue.take { st.toQueue with buffer := v :: ms }
    rw [← hm]
    rfl

/-! ## Values for a waiter -/

/-- What happens to the waiter of the receive itself. -/
def received (r : ReceiverWaiter T) (v : T) : ReceiverWaiter T :=
  { r with active := false, completed := true, timedOut := false, value := some v,
           timer := false }

def receivedException (r : ReceiverWaiter T) (e : Error) : ReceiverWaiter T :=
  { r with active := false, completed := true, exception := some e, timer := false }

/-- What `try_recv_locked` does for a waiter that is not queued. A completed
waiter with a continuation has been queued for resumption. -/
inductive TryRecvSpec (st : State T) (i : OpId) : Bool × Locked T → Prop
  | nothing {st' : State T} : st.messages = [] → st.closed = false → Pruned st st' →
      TryRecvSpec st i (false, { state := st' })
  | value {v : T} {l : Locked T} : st.toQueue.take = some (v, l.state.toQueue) →
      Section (· = .receiver i) st l → l.events = [.taken i v] → l.notifyBlockedSenders = true →
      l.state.receiver i = received (st.receiver i) v →
      l.state.readyReceivers.count i = st.readyReceivers.count i +
        (if (st.receiver i).continuation then 1 else 0) →
      TryRecvSpec st i (true, l)
  | closed {l : Locked T} : st.messages = [] → st.closed = true →
      Section (· = .receiver i) st l → l.state.toQueue = st.toQueue → l.events = [] →
      l.notifyBlockedSenders = false →
      l.state.receiver i = receivedException (st.receiver i) .closedError →
      l.state.readyReceivers.count i = st.readyReceivers.count i +
        (if (st.receiver i).continuation then 1 else 0) →
      TryRecvSpec st i (true, l)

@[simp] theorem receiver_settle (st : State T) (i : OpId)
    (f : ReceiverWaiter T → ReceiverWaiter T) : (st.settle i f).receiver i = f (st.receiver i) := by
  unfold State.settle
  split <;> simp [State.setReceiver]

theorem count_settle (st : State T) (i : OpId) (f : ReceiverWaiter T → ReceiverWaiter T) :
    (st.settle i f).readyReceivers.count i = st.readyReceivers.count i +
      (if (st.receiver i).continuation then 1 else 0) := by
  unfold State.settle
  split <;> simp [State.setReceiver]

theorem count_settle_of_ne (st : State T) {i j : OpId} (h : j ≠ i)
    (f : ReceiverWaiter T → ReceiverWaiter T) :
    (st.settle i f).readyReceivers.count j = st.readyReceivers.count j := by
  unfold State.settle
  split <;> simp [State.setReceiver, Ne.symm h]

theorem senders_settle (st : State T) (i : OpId) (f : ReceiverWaiter T → ReceiverWaiter T) :
    (st.settle i f).senders = st.senders := by
  unfold State.settle
  split <;> rfl

theorem completeReceiverValue_own {l : Locked T} (h : (l.state.receiver i).timer = false)
    (v : T) : completeReceiverValueLocked l i v =
      { l with state := l.state.settle i (received · v), events := l.events ++ [.taken i v] } := by
  unfold completeReceiverValueLocked State.settle
  simp only [h]
  rfl

theorem completeReceiverException_own {l : Locked T} (h : (l.state.receiver i).timer = false)
    (e : Error) : completeReceiverExceptionLocked l i e =
      { l with state := l.state.settle i (receivedException · e) } := by
  unfold completeReceiverExceptionLocked State.settle
  simp only [h]
  rfl

theorem tryRecv_spec (hw : WellFormed st) (hv : st.toQueue.Valid)
    (hi : i ∉ st.receiverWaiters) (ht : (st.receiver i).timer = false) :
    TryRecvSpec st i (tryRecvLocked { state := st } i) := by
  unfold tryRecvLocked
  cases hm : st.messages with
  | nil =>
    obtain ⟨hpop, hp⟩ := popSender_nil (activeSenders_eq_nil hw hv hm)
    simp only [hpop]
    generalize ({ st with senderWaiters := [] } : State T) = sp at hp ⊢
    have hrec : sp.receiver = st.receiver := (congrArg State.receiver hp.rest :)
    by_cases hc : st.closed = true
    · simp only [hc, Bool.true_or, if_true]
      rw [completeReceiverException_own (by rw [hrec]; exact ht)]
      have hni : i ∉ sp.receiverWaiters := fun h => hi (hp.receiverWaiters.subset h)
      refine .closed hm hc (((hp.outcome _).trans (outcome_settle sp i _)).section
        (hp.keeps.trans (keeps_settle sp i _)) hw (fun j hj => by cases hj; exact hi) nofun
        (fun _ j hj => ?_) (fun _ j _ => ?_))
        ((toQueue_settle hni _).trans hp.toQueue) rfl rfl ?_ ?_
      · have hne : j ≠ i := fun he => hj (he ▸ rfl)
        rw [count_settle_of_ne sp hne, hp.readyReceivers]
      · rw [show (sp.settle i _).readySenders = sp.readySenders from
          congrArg Pool.tokens (senders_settle sp i _), hp.readySenders]
      · rw [receiver_settle, hrec]
      · rw [count_settle, hp.readyReceivers, hrec]
    · have hcl : st.closed = false := by simpa using hc
      have hh : st.handleClosing = false := hw.closing.trans hcl
      simp only [hcl, hh, Bool.or_self, Bool.false_eq_true, if_false]
      exact .nothing hm hcl hp
  | cons v ms =>
    have hr := takers_eq_nil hv (by simp [hm])
    simp only []
    rw [completeReceiverValue_own (by exact ht)]
    -- the state with the own waiter completed, which is what is pumped
    let sm : State T := { st with messages := ms }
    have hs : Outcome (· = .receiver i) sm (sm.settle i (received · v)) := outcome_settle sm i _
    have hk := keeps_settle sm i (received · v)
    have him : i ∉ sm.receiverWaiters := hi
    have hq : (sm.settle i (received · v)).toQueue = sm.toQueue := toQueue_settle him _
    have hsnd := senders_settle sm i (received · v)
    have hown := receiver_settle sm i (received · v)
    have hcount := count_settle sm i (received · v)
    have hother := fun j hj => count_settle_of_ne sm (j := j) (i := i) hj (received · v)
    show TryRecvSpec st i (true, { pumpLocked
      { state := sm.settle i (received · v), events := [.taken i v] } with
        notifyBlockedSenders := true })
    generalize sm.settle i (received · v) = s₁ at hs hk hq hsnd hown hcount hother
    have hw₁ : WellFormed s₁ := hs.wellFormed hw.messages
      (by rw [hk.handleClosing, hk.closed]; exact hw.closing)
      (fun j hj => by cases hj; exact hi) nofun
    have hr₁ : s₁.activeReceivers = [] := (congrArg Queue.takers hq).trans hr
    have hmsg : s₁.messages = ms := congrArg Queue.buffer hq
    have hact : s₁.activeSenders = st.activeSenders := congrArg Pool.waiting hsnd
    have hcap : s₁.capacity = st.capacity := hk.capacity
    obtain ⟨st', wake, he, hout, hk', hready, htake⟩ := pump_spec
      (l := { state := s₁, events := [.taken i v] }) hw₁ hr₁
      (by rw [hact, hmsg, hcap]; exact room_after_pop hw hv hm)
    rw [he]
    have hidle := hout.receivers.idle (j := i) (fun h => h)
      (by rw [State.waiting_receivers, hr₁]; exact List.not_mem_nil)
    have hs' : Outcome (· = .receiver i) st s₁ :=
      ⟨hs.receivers, hs.senders, hs.receiverWaiters, hs.senderWaiters⟩
    have hk'' : Keeps st s₁ :=
      ⟨hk.capacity, hk.closed, hk.handleClosing, hk.handleInitialized, hk.async⟩
    refine .value (v := v) ?_ ((hs'.trans (hout.mono nofun)).section (hk''.trans hk') hw
      (fun j hj => by cases hj; exact hi) nofun (fun hwake j hj => ?_) (fun hwake j _ => ?_))
      rfl rfl ?_ ?_
    · rw [← htake v, hq, hmsg]
      show st.toQueue.take = Queue.take { st.toQueue with buffer := v :: ms }
      rw [← hm]
      rfl
    · rw [show st'.readyReceivers = s₁.readyReceivers from (hready hwake).1]
      exact hother j fun h => hj (h ▸ rfl)
    · rw [show st'.readySenders = s₁.readySenders from (hready hwake).2,
        show s₁.readySenders = st.readySenders from congrArg Pool.tokens hsnd]
    · exact (show st'.receiver i = s₁.receiver i from hidle.1).trans hown
    · exact (show st'.readyReceivers.count i = s₁.readyReceivers.count i from hidle.2).trans hcount

/-! ## The awaiter of a receive -/

theorem outcome_setReceiver (st : State T) (i : OpId)
    (f : ReceiverWaiter T → ReceiverWaiter T) :
    Outcome (· = .receiver i) st (st.setReceiver i f) := by
  refine ⟨⟨fun j _ hq => hq, fun j hj => ?_⟩, .refl _ _, List.Sublist.refl _, List.Sublist.refl _⟩
  have hne : j ≠ i := fun he => hj (he ▸ rfl)
  refine .same ?_ rfl fun hw => (Pool.mem_waiting.mp hw).1
  simp [State.receivers, State.setReceiver, hne]

theorem wellFormed_setReceiver (hw : WellFormed st) (hi : i ∉ st.receiverWaiters)
    (f : ReceiverWaiter T → ReceiverWaiter T) : WellFormed (st.setReceiver i f) :=
  (outcome_setReceiver st i f).wellFormed hw hw.closing (fun j hj => by cases hj; exact hi) nofun

theorem toQueue_setReceiver (hi : i ∉ st.receiverWaiters)
    (f : ReceiverWaiter T → ReceiverWaiter T) : (st.setReceiver i f).toQueue = st.toQueue := by
  have ha : (st.setReceiver i f).activeReceivers = st.activeReceivers := by
    refine List.filter_congr fun j hj => ?_
    have hne : j ≠ i := fun he => hi (he ▸ hj)
    simp [State.setReceiver, hne]
  unfold State.toQueue
  rw [ha]
  rfl

/-- The own record does not count in what a section does to the others. -/
theorem Section.of_setReceiver {f : ReceiverWaiter T → ReceiverWaiter T} {l : Locked T}
    (h : Section (· = .receiver i) (st.setReceiver i f) l) : Section (· = .receiver i) st l :=
  ⟨⟨h.capacity, h.closed, h.handleClosing, h.handleInitialized, h.async⟩, h.wellFormed,
    (outcome_setReceiver st i f).receivers.trans h.receivers, h.senders,
    h.quietReceivers, h.quietSenders⟩

/-- A receiver joins the queue. -/
theorem pushReceiver_spec (hw : WellFormed st) (hi : i ∉ st.receiverWaiters)
    (ha : (st.receiver i).active = true) (hc : (st.receiver i).completed = false)
    (hk : (st.receiver i).continuation = true) :
    Section (· = .receiver i) st
        { state := { st with receiverWaiters := st.receiverWaiters ++ [i] } } ∧
      State.toQueue { st with receiverWaiters := st.receiverWaiters ++ [i] } =
        st.toQueue.parkTaker i := by
  have hact : State.activeReceivers { st with receiverWaiters := st.receiverWaiters ++ [i] } =
      st.activeReceivers ++ [i] := by
    simp [State.activeReceivers, ha]
  refine ⟨⟨⟨rfl, rfl, rfl, rfl, rfl⟩, ⟨⟨⟨?_, fun j hj => ?_⟩, hw.senders, fun j hj => ?_,
    hw.senderResumable, hw.senderValue⟩, hw.closing⟩, ⟨fun j hj hq => ?_, fun j hj => ?_⟩,
    .refl _ _, fun _ _ _ => rfl, fun _ _ _ => rfl⟩, ?_⟩
  · exact List.nodup_append.mpr ⟨hw.receivers.nodup, List.nodup_singleton i, fun a ha' b hb => by
      rw [List.mem_singleton.mp hb]
      exact fun he => hi (he ▸ ha')⟩
  · rw [State.waiting_receivers, hact, List.mem_append, List.mem_singleton] at hj
    rcases hj with hj | rfl
    · exact hw.receivers.pending j hj
    · exact hc
  · rw [hact, List.mem_append, List.mem_singleton] at hj
    rcases hj with hj | rfl
    · exact hw.receiverResumable j hj
    · exact hk
  · have hq' : j ∈ st.receiverWaiters ++ [i] := hq
    rw [List.mem_append, List.mem_singleton] at hq'
    exact hq'.resolve_right fun he => hj (he ▸ rfl)
  · refine .same rfl rfl fun hwait => ?_
    exact List.mem_append_left [i] (Pool.mem_waiting.mp hwait).1
  · unfold State.toQueue
    rw [hact]
    rfl

/-- A waiter that is neither queued nor touched. -/
structure FreshReceiver (st : State T) (i : OpId) : Prop where
  record : st.receiver i = {}
  queue : i ∉ st.receiverWaiters

/-- What `await_suspend` of a receive does, with its result. Only a `timed`
receive expires. -/
inductive SuspendSpec (st : State T) (i : OpId) (timed : Prop) : Bool × Locked T → Prop
  | parked {st' : State T} : st.messages = [] → st.closed = false →
      st'.toQueue = st.toQueue.parkTaker i → Section (· = .receiver i) st { state := st' } →
      st'.readyReceivers.count i = st.readyReceivers.count i →
      (st'.receiver i).value = none ∧ (st'.receiver i).exception = none →
      SuspendSpec st i timed (true, { state := st' })
  | value {v : T} {l : Locked T} : st.toQueue.take = some (v, l.state.toQueue) →
      Section (· = .receiver i) st l → l.events = [.taken i v] → l.notifyBlockedSenders = true →
      l.state.receiver i = received { continuation := true } v →
      SuspendSpec st i timed (false, l)
  | closed {l : Locked T} : st.messages = [] → st.closed = true →
      Section (· = .receiver i) st l → l.state.toQueue = st.toQueue → l.events = [] →
      l.notifyBlockedSenders = false →
      l.state.receiver i = receivedException { continuation := true } .closedError →
      SuspendSpec st i timed (false, l)
  | expired {st' : State T} : st.messages = [] → st.closed = false →
      Section (· = .receiver i) st { state := st' } → st'.toQueue = st.toQueue →
      i ∉ st'.receiverWaiters → st'.readyReceivers.count i = st.readyReceivers.count i →
      st'.receiver i = { continuation := true, completed := true, timedOut := true } → timed →
      SuspendSpec st i timed (false, { state := st' })

/-- The re-check of `await_suspend`, and what is left to do when it finds
nothing. -/
theorem resume_spec {timed : Prop} (hw : WellFormed st) (hv : st.toQueue.Valid) (hf : FreshReceiver st i) :
    let r := tryRecvLocked { state := st.setReceiver i fun r => { r with continuation := true } } i
    (r.1 = true ∧ SuspendSpec st i timed (false, r.2)) ∨
      ∃ st', r = (false, { state := st' }) ∧ st.messages = [] ∧ st.closed = false ∧
        Section (· = .receiver i) st { state := st' } ∧ st'.toQueue = st.toQueue ∧
        i ∉ st'.receiverWaiters ∧ st'.receiver i = { continuation := true } ∧
        st'.readyReceivers.count i = st.readyReceivers.count i := by
  intro r
  have hi := hf.queue
  let cont : ReceiverWaiter T → ReceiverWaiter T := fun r => { r with continuation := true }
  have hw₁ : WellFormed (st.setReceiver i cont) := wellFormed_setReceiver hw hi cont
  have hq₁ : (st.setReceiver i cont).toQueue = st.toQueue := toQueue_setReceiver hi cont
  have hrec : (st.setReceiver i cont).receiver i = { continuation := true } := by
    simp [State.setReceiver, cont, hf.record]
  have hspec : TryRecvSpec (st.setReceiver i cont) i r :=
    tryRecv_spec hw₁ (by rw [hq₁]; exact hv) hi (by rw [hrec])
  generalize r = r' at hspec
  cases hspec with
  | nothing hm hc hp =>
    rename_i st'
    have hs := (hp.section hw₁ (· = .receiver i) (l := { state := st' }) rfl).of_setReceiver
    refine .inr ⟨st', rfl, hm, hc, hs, hp.toQueue.trans hq₁,
      fun h => hi (hp.receiverWaiters.subset h), ?_, ?_⟩
    · rw [show st'.receiver = (st.setReceiver i cont).receiver from
        (congrArg State.receiver hp.rest :), hrec]
    · rw [hp.readyReceivers]
      rfl
  | value htake hs hev hn hrec' _ =>
    rw [hq₁] at htake
    rw [hrec] at hrec'
    exact .inl ⟨rfl, .value htake hs.of_setReceiver hev hn hrec'⟩
  | closed hm hc hs hq hev hn hrec' _ =>
    rw [hrec] at hrec'
    exact .inl ⟨rfl, .closed hm hc hs.of_setReceiver (hq.trans hq₁) hev hn hrec'⟩

/-- A section that touches only its own waiters before another one. -/
theorem Section.trans {own : Party → Prop} {st' : State T} {l : Locked T}
    (h : Section own st { state := st' }) (h' : Section own st' l) : Section own st l :=
  ⟨h.toKeeps.trans h'.toKeeps, h'.wellFormed, h.receivers.trans h'.receivers,
    h.senders.trans h'.senders,
    fun hwake j hj => (h'.quietReceivers hwake j hj).trans (h.quietReceivers rfl j hj),
    fun hwake j hj => (h'.quietSenders hwake j hj).trans (h.quietSenders rfl j hj)⟩

theorem recvSuspend_spec {timed : Prop} (hw : WellFormed st) (hv : st.toQueue.Valid) (hf : FreshReceiver st i) :
    SuspendSpec st i timed (recvSuspendLocked st i) := by
  have h := @resume_spec _ _ _ timed hw hv hf
  simp only [recvSuspendLocked]
  generalize tryRecvLocked { state := st.setReceiver i fun r => { r with continuation := true } } i
    = r at h
  obtain ⟨ok, l⟩ := r
  rcases h with ⟨hok, hs⟩ | ⟨st', he, hm, hc, hs, hq, hi', hrec, hcount⟩
  · obtain rfl : ok = true := hok
    exact hs
  · cases he
    obtain ⟨hpush, hpq⟩ := pushReceiver_spec hs.wellFormed hi' (by simp [hrec]) (by simp [hrec])
      (by simp [hrec])
    exact .parked hm hc (hpq.trans (by rw [hq])) (hs.trans hpush) hcount (by simp [hrec])

theorem recvForSuspend_spec {timed : Prop} (htimed : timed) (hw : WellFormed st)
    (hv : st.toQueue.Valid) (hf : FreshReceiver st i) (timeout : Int) :
    SuspendSpec st i timed (recvForSuspendLocked st i timeout) := by
  have h := @resume_spec _ _ _ timed hw hv hf
  simp only [recvForSuspendLocked]
  generalize tryRecvLocked { state := st.setReceiver i fun r => { r with continuation := true } } i
    = r at h
  obtain ⟨ok, l⟩ := r
  rcases h with ⟨hok, hs⟩ | ⟨st', he, hm, hc, hs, hq, hi', hrec, hcount⟩
  · obtain rfl : ok = true := hok
    exact hs
  · cases he
    by_cases ht : timeout ≤ 0
    · simp only [ht, if_true]
      have hset := (outcome_setReceiver st' i fun r =>
        { r with completed := true, timedOut := true }).section
        (l := { state := st'.setReceiver i fun r => { r with completed := true, timedOut := true } })
        ⟨rfl, rfl, rfl, rfl, rfl⟩ hs.wellFormed (fun j hj => by cases hj; exact hi') nofun
        (fun _ _ _ => rfl) (fun _ _ _ => rfl)
      exact .expired hm hc (hs.trans hset) ((toQueue_setReceiver hi' _).trans hq) hi' hcount
        (by simp [State.setReceiver, hrec]) htimed
    · simp only [ht, if_false]
      have hset := (outcome_setReceiver st' i fun r => { r with timer := true }).section
        (l := { state := st'.setReceiver i fun r => { r with timer := true } })
        ⟨rfl, rfl, rfl, rfl, rfl⟩ hs.wellFormed (fun j hj => by cases hj; exact hi') nofun
        (fun _ _ _ => rfl) (fun _ _ _ => rfl)
      obtain ⟨hpush, hpq⟩ := pushReceiver_spec hset.wellFormed hi'
        (by simp [State.setReceiver, hrec]) (by simp [State.setReceiver, hrec])
        (by simp [State.setReceiver, hrec])
      refine .parked hm hc (hpq.trans ?_) ((hs.trans hset).trans hpush) hcount
        (by simp [State.setReceiver, hrec])
      rw [toQueue_setReceiver hi', hq]

/-- What `await_ready` of a receive does. -/
inductive ReadySpec (st : State T) (i : OpId) (timed : Prop) : Bool × Locked T → Prop
  | nothing {st' : State T} : st.messages = [] → st.closed = false → Pruned st st' →
      ReadySpec st i timed (false, { state := st' })
  | found {l : Locked T} : TryRecvSpec st i (true, l) → ReadySpec st i timed (true, l)
  | expired {st' : State T} : st.messages = [] → st.closed = false →
      Section (· = .receiver i) st { state := st' } → st'.toQueue = st.toQueue →
      i ∉ st'.receiverWaiters → st'.readyReceivers.count i = st.readyReceivers.count i →
      st'.receiver i = { completed := true, timedOut := true } → timed →
      ReadySpec st i timed (true, { state := st' })

theorem recvReady_spec {timed : Prop} (hw : WellFormed st) (hv : st.toQueue.Valid) (hf : FreshReceiver st i) :
    ReadySpec st i timed (recvReadyLocked st i) := by
  have h := tryRecv_spec hw hv hf.queue (by rw [hf.record])
  unfold recvReadyLocked
  generalize tryRecvLocked { state := st } i = r at h
  cases h with
  | nothing hm hc hp => exact .nothing hm hc hp
  | value htake hs hev hn hrec hcount => exact .found (.value htake hs hev hn hrec hcount)
  | closed hm hc hs hq hev hn hrec hcount => exact .found (.closed hm hc hs hq hev hn hrec hcount)

theorem recvForReady_spec {timed : Prop} (htimed : timed) (hw : WellFormed st)
    (hv : st.toQueue.Valid) (hf : FreshReceiver st i) (timeout : Int) :
    ReadySpec st i timed (recvForReadyLocked st i timeout) := by
  have h := tryRecv_spec hw hv hf.queue (by rw [hf.record])
  unfold recvForReadyLocked
  generalize tryRecvLocked { state := st } i = r at h
  cases h with
  | nothing hm hc hp =>
    rename_i st'
    by_cases ht : timeout ≤ 0
    · simp only [ht, if_true]
      have hs := hp.section hw (· = .receiver i) (l := { state := st' }) rfl
      have hi' : i ∉ st'.receiverWaiters := fun h => hf.queue (hp.receiverWaiters.subset h)
      have hset := (outcome_setReceiver st' i fun r =>
        { r with completed := true, timedOut := true }).section
        (l := { state := st'.setReceiver i fun r => { r with completed := true, timedOut := true } })
        ⟨rfl, rfl, rfl, rfl, rfl⟩ hs.wellFormed (fun j hj => by cases hj; exact hi') nofun
        (fun _ _ _ => rfl) (fun _ _ _ => rfl)
      have hrec : st'.receiver i = {} := by
        rw [show st'.receiver = st.receiver from (congrArg State.receiver hp.rest :), hf.record]
      refine .expired hm hc (hs.trans hset) ((toQueue_setReceiver hi' _).trans hp.toQueue) hi' ?_
        (by simp [State.setReceiver, hrec]) htimed
      rw [← hp.readyReceivers]
      rfl
    · simp only [ht, if_false]
      exact .nothing hm hc hp
  | value htake hs hev hn hrec hcount => exact .found (.value htake hs hev hn hrec hcount)
  | closed hm hc hs hq hev hn hrec hcount => exact .found (.closed hm hc hs hq hev hn hrec hcount)

end LuvCoro.Channel
