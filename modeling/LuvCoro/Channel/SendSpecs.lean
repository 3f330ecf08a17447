import LuvCoro.Channel.ReceiveSpecs

/-! # Specifications of the sending sections, of the timer steps and of `close` -/
namespace LuvCoro.Channel

open WaiterPool ParkingQueue

universe u
variable {T : Type u} {st : State T} {i : OpId}

/-! ## Sends of a thread -/

/-- What a send adds to the history: with a receiver waiting, the value is
taken at once. -/
def sendEvents (st : State T) (i : OpId) (v : T) : List (Event T) :=
  .accepted i v :: st.activeReceivers.head?.toList.map (.taken · v)

theorem placeSend_quiet (l : Locked T) (i : OpId) (v : T) :
    (placeSendLocked l i v).notifyBlockedSenders = l.notifyBlockedSenders := by
  unfold placeSendLocked
  dsimp only
  cases popReceiverWaiterLocked l.state with
  | mk o s => cases o <;> rfl

inductive SendSpec (st : State T) (i : OpId) (v : T) : SendOutcome × Locked T → Prop
  | thrown {e : Error} {st' : State T} : Pruned st st' →
      SendSpec st i v (.throws e, { state := st' })
  | full {st' : State T} : st.closed = false → ¬ st.toQueue.Accepts → Pruned st st' →
      SendSpec st i v (.full, { state := st' })
  | placed {l : Locked T} : st.toQueue.Accepts → Section noOne st l →
      l.state.toQueue = st.toQueue.give v → l.events = sendEvents st i v →
      l.notifyBlockedSenders = false → Handed st l.state v → SendSpec st i v (.placed, l)

theorem Pruned.handed {st' st'' : State T} (h : Pruned st st') {v : T}
    (hh : Handed st' st'' v) : Handed st st'' v := by
  intro w ws hw
  rw [← show st'.receiver = st.receiver from (congrArg State.receiver h.rest :)]
  exact hh w ws (h.receivers.trans hw)

theorem Pruned.activeReceivers_eq {st' : State T} (h : Pruned st st') (i : OpId) (v : T) :
    sendEvents st' i v = sendEvents st i v := by
  unfold sendEvents
  rw [h.receivers]

/-- `can_send_now_locked` and then `place_send_locked`, as all sends have it. -/
theorem sendNow_spec (hw : WellFormed st) (hc : st.closed = false) (i : OpId) (v : T) :
    SendSpec st i v (match canSendNowLocked st with
      | (ok, st) => if ok then (.placed, placeSendLocked { state := st } i v)
        else (.full, { state := st })) := by
  obtain ⟨st', he, hp⟩ := canSendNow_spec hw
  rw [he]
  by_cases ha : st.toQueue.Accepts
  · simp only [ha, decide_true, if_true]
    obtain ⟨hs, hq, hev, hh⟩ := placeSend_spec (hp.wellFormed hw) i v
    have hpre : Section noOne st { state := st' } := hp.section hw noOne rfl
    exact .placed ha (hpre.trans hs) (hq.trans (by rw [hp.toQueue]))
      (hev.trans (hp.activeReceivers_eq i v)) (placeSend_quiet _ i v) (hp.handed hh)
  · simp only [ha, decide_false, Bool.false_eq_true, if_false]
    exact .full hc ha hp

theorem trySend_spec (hw : WellFormed st) (i : OpId) (v : T) :
    SendSpec st i v (trySendLocked st i v) := by
  unfold trySendLocked
  split
  · exact .thrown (.refl st)
  · rename_i hc
    split
    · exact .thrown (.refl st)
    · rw [hw.closing, Bool.or_self] at hc
      exact sendNow_spec hw (by simpa using hc) i v

theorem wokenSend_spec (hw : WellFormed st) (i : OpId) (v : T) :
    SendSpec st i v (wokenSendLocked st i v) := by
  unfold wokenSendLocked
  split
  · exact .thrown (.refl st)
  · rename_i hc
    rw [hw.closing, Bool.or_self] at hc
    exact sendNow_spec hw (by simpa using hc) i v

/-! ## The awaiter of an asynchronous send -/

/-- A sender's waiter that is not queued and holds at most its value. -/
structure FreshSender (st : State T) (i : OpId) (v : Option T) : Prop where
  record : st.sender i = { value := v }
  queue : i ∉ st.senderWaiters

theorem outcome_setSender (st : State T) (i : OpId) (f : SenderWaiter T → SenderWaiter T) :
    Outcome (· = .sender i) st (st.setSender i f) := by
  refine ⟨.refl _ _, ⟨fun j _ hq => hq, fun j hj => ?_⟩, List.Sublist.refl _, List.Sublist.refl _⟩
  have hne : j ≠ i := fun he => hj (he ▸ rfl)
  refine .same ?_ rfl fun hw => (Pool.mem_waiting.mp hw).1
  simp [State.senders, State.setSender, hne]

theorem section_setSender (hw : WellFormed st) (hi : i ∉ st.senderWaiters)
    (f : SenderWaiter T → SenderWaiter T) :
    Section (· = .sender i) st { state := st.setSender i f } :=
  (outcome_setSender st i f).section ⟨rfl, rfl, rfl, rfl, rfl⟩ hw nofun
    (fun j hj => by cases hj; exact hi) (fun _ _ _ => rfl) (fun _ _ _ => rfl)

theorem toQueue_setSender (hi : i ∉ st.senderWaiters)
    (f : SenderWaiter T → SenderWaiter T) : (st.setSender i f).toQueue = st.toQueue := by
  have hne : ∀ j ∈ st.senderWaiters, j ≠ i := fun j hj he => hi (he ▸ hj)
  have ha : (st.setSender i f).activeSenders = st.activeSenders := by
    refine List.filter_congr fun j hj => ?_
    simp [State.setSender, hne j hj]
  have hp : (st.setSender i f).parked = st.parked := by
    unfold State.parked
    rw [ha]
    refine List.filterMap_congr fun j hj => ?_
    simp [State.setSender, hne j (List.mem_of_mem_filter hj)]
  unfold State.toQueue
  rw [hp]
  rfl

/-- The sections `h` and `h'` one after the other, where the second wakes. -/
theorem Section.setSender {own : Party → Prop} {l : Locked T} (h : Section own st l)
    (hown : ∀ j, own j → j = .sender i) (hi : i ∉ l.state.senderWaiters)
    (f : SenderWaiter T → SenderWaiter T) :
    Section (· = .sender i) st { l with state := l.state.setSender i f } := by
  have hs := section_setSender h.wellFormed hi f
  refine ⟨⟨h.capacity, h.closed, h.handleClosing, h.handleInitialized, h.async⟩, hs.wellFormed,
    (h.receivers.mono fun j hj => hown _ hj).trans hs.receivers,
    (h.senders.mono fun j hj => hown _ hj).trans hs.senders, fun hwake j hj => ?_,
    fun hwake j hj => ?_⟩
  · exact h.quietReceivers hwake j fun ho => hj (hown _ ho)
  · exact h.quietSenders hwake j fun ho => hj (hown _ ho)

/-- The part of an asynchronous send both awaiter steps begin with. -/
inductive AttemptSpec (st : State T) (i : OpId) (v : T) : Bool × Locked T → Prop
  | thrown {st' : State T} : Section (· = .sender i) st { state := st' } →
      st'.toQueue = st.toQueue → st'.readySenders = st.readySenders → i ∉ st'.senderWaiters →
      (st'.sender i).completed → AttemptSpec st i v (true, { state := st' })
  | placed {l : Locked T} : st.toQueue.Accepts → Section (· = .sender i) st l →
      l.state.toQueue = st.toQueue.give v → l.events = sendEvents st i v →
      l.notifyBlockedSenders = false → i ∉ l.state.senderWaiters →
      l.state.readySenders.count i = st.readySenders.count i → (l.state.sender i).completed →
      Handed st l.state v → AttemptSpec st i v (true, l)
  | full {st' : State T} : st.closed = false → ¬ st.toQueue.Accepts → Pruned st st' →
      AttemptSpec st i v (false, { state := st' })

theorem attempt_spec (hw : WellFormed st) (hi : i ∉ st.senderWaiters) {v : T}
    (hv : (st.sender i).value = some v) : AttemptSpec st i v (asyncSendAttempt st i) := by
  unfold asyncSendAttempt
  split
  · exact .thrown (section_setSender hw hi _) (toQueue_setSender hi _) rfl hi
      (by simp [State.setSender])
  · rename_i hc
    rw [hw.closing, Bool.or_self] at hc
    have hcl : st.closed = false := by simpa using hc
    split
    · exact .thrown (section_setSender hw hi _) (toQueue_setSender hi _) rfl hi
        (by simp [State.setSender])
    · obtain ⟨st', he, hp⟩ := canSendNow_spec hw
      rw [he]
      by_cases ha : st.toQueue.Accepts
      · have hval : (st'.sender i).value = some v := by
          rw [show st'.sender = st.sender from (congrArg State.sender hp.rest :), hv]
        simp only [ha, decide_true, if_true, hval]
        obtain ⟨hs, hq, hev, hh⟩ := placeSend_spec (hp.wellFormed hw) i v
        have hpre : Section noOne st { state := st' } := hp.section hw noOne rfl
        have hs' := hpre.trans hs
        have hn := placeSend_quiet { state := st' } i v
        generalize placeSendLocked { state := st' } i v = l at hs hs' hq hev hn hh
        have hil : i ∉ l.state.senderWaiters := fun h => hi (hs'.senders.mem i id h)
        have hidle := hs'.senders.idle (j := i) id fun h => hi (Pool.mem_waiting.mp h).1
        exact .placed ha (hs'.setSender (by simp) hil _)
          ((toQueue_setSender hil _).trans (hq.trans (by rw [hp.toQueue])))
          (hev.trans (hp.activeReceivers_eq i v)) hn hil hidle.2 (by simp [State.setSender])
          (hp.handed hh)
      · simp only [ha, decide_false, Bool.false_eq_true, if_false]
        exact .full hcl ha hp

/-- What `await_suspend` of an asynchronous send does, with its result. -/
inductive SendSuspendSpec (st : State T) (i : OpId) (v : T) : Bool × Locked T → Prop
  | parked {st' : State T} : st.closed = false → ¬ st.toQueue.Accepts →
      st'.toQueue = st.toQueue.parkGiver i v →
      Section (· = .sender i) st { state := st', events := [.accepted i v] } →
      st'.readySenders.count i = st.readySenders.count i → i ∈ st'.activeSenders →
      SendSuspendSpec st i v (true, { state := st', events := [.accepted i v] })
  | thrown {st' : State T} : Section (· = .sender i) st { state := st' } →
      st'.toQueue = st.toQueue → i ∉ st'.senderWaiters →
      st'.readySenders.count i = st.readySenders.count i →
      (st'.sender i).completed → SendSuspendSpec st i v (false, { state := st' })
  | placed {l : Locked T} : st.toQueue.Accepts → Section (· = .sender i) st l →
      l.state.toQueue = st.toQueue.give v → l.events = sendEvents st i v →
      l.notifyBlockedSenders = false → i ∉ l.state.senderWaiters →
      l.state.readySenders.count i = st.readySenders.count i →
      (l.state.sender i).completed → Handed st l.state v → SendSuspendSpec st i v (false, l)

/-- A sender joins the queue with its value. -/
theorem pushSender_spec (hw : WellFormed st) (hi : i ∉ st.senderWaiters) {v : T}
    (hr : st.sender i = { continuation := true, value := some v }) (l : Locked T)
    (hl : l.state = { st with senderWaiters := st.senderWaiters ++ [i] }) :
    Section (· = .sender i) st l ∧ l.state.toQueue = st.toQueue.parkGiver i v ∧
      i ∈ l.state.activeSenders := by
  obtain ⟨state, _, _, _, _⟩ := l
  subst hl
  have hact : State.activeSenders { st with senderWaiters := st.senderWaiters ++ [i] } =
      st.activeSenders ++ [i] := by
    simp [State.activeSenders, hr]
  refine ⟨⟨⟨rfl, rfl, rfl, rfl, rfl⟩, ⟨⟨hw.receivers, ⟨?_, fun j hj => ?_⟩, hw.receiverResumable,
    fun j hj => ?_, fun j hj => ?_⟩, hw.closing⟩, .refl _ _, ⟨fun j hj hq => ?_, fun j hj => ?_⟩,
    fun _ _ _ => rfl, fun _ _ _ => rfl⟩, ?_, ?_⟩
  · exact List.nodup_append.mpr ⟨hw.senders.nodup, List.nodup_singleton i, fun a ha' b hb => by
      rw [List.mem_singleton.mp hb]
      exact fun he => hi (he ▸ ha')⟩
  · rw [State.waiting_senders, hact, List.mem_append, List.mem_singleton] at hj
    rcases hj with hj | rfl
    · exact hw.senders.pending j hj
    · exact congrArg SenderWaiter.completed hr
  · rw [hact, List.mem_append, List.mem_singleton] at hj
    rcases hj with hj | rfl
    · exact hw.senderResumable j hj
    · exact congrArg SenderWaiter.continuation hr
  · rw [hact, List.mem_append, List.mem_singleton] at hj
    rcases hj with hj | rfl
    · exact hw.senderValue j hj
    · exact ⟨v, congrArg SenderWaiter.value hr⟩
  · have hq' : j ∈ st.senderWaiters ++ [i] := hq
    rw [List.mem_append, List.mem_singleton] at hq'
    exact hq'.resolve_right fun he => hj (he ▸ rfl)
  · refine .same rfl rfl fun hwait => ?_
    exact List.mem_append_left [i] (Pool.mem_waiting.mp hwait).1
  · have hp : State.parked { st with senderWaiters := st.senderWaiters ++ [i] } =
        st.parked ++ [(i, v)] := by
      unfold State.parked
      rw [hact, List.filterMap_append]
      simp [hr]
    unfold State.toQueue
    rw [hp]
    rfl
  · rw [hact]
    simp

theorem asyncSendSuspend_spec (hw : WellFormed st) {v : T} (hf : FreshSender st i (some v)) :
    SendSuspendSpec st i v (asyncSendSuspendLocked st i) := by
  let cont : SenderWaiter T → SenderWaiter T := fun s => { s with continuation := true }
  have hi := hf.queue
  have hset := section_setSender hw hi cont
  have hq₁ : (st.setSender i cont).toQueue = st.toQueue := toQueue_setSender hi cont
  have hrec : (st.setSender i cont).sender i = { continuation := true, value := some v } := by
    simp [State.setSender, cont, hf.record]
  have h := attempt_spec hset.wellFormed hi (congrArg SenderWaiter.value hrec)
  have hcont : (fun s : SenderWaiter T => { s with continuation := true }) = cont := rfl
  simp only [asyncSendSuspendLocked, hcont]
  generalize asyncSendAttempt (st.setSender i cont) i = r at h ⊢
  cases h with
  | thrown hs hq hready hil hc =>
    exact .thrown (hset.trans hs) (hq.trans hq₁) hil (congrArg (List.count i) hready) hc
  | placed ha hs hq hev hn hil hcount hc hh =>
    rw [hq₁] at ha hq
    exact .placed ha (hset.trans hs) hq hev hn hil hcount hc hh
  | full hc ha hp =>
    rename_i st'
    rw [hq₁] at ha
    have hrec' : st'.sender i = { continuation := true, value := some v } := by
      rw [show st'.sender = (st.setSender i cont).sender from (congrArg State.sender hp.rest :)]
      exact hrec
    have hpre : Section (· = .sender i) st { state := st' } :=
      hset.trans (hp.section hset.wellFormed _ rfl)
    have hi' : i ∉ st'.senderWaiters := fun h => hi (hp.senderWaiters.subset h)
    simp only [hrec', Option.toList_some, List.map_cons, List.map_nil, List.nil_append]
    obtain ⟨hpush, hpq, hmem⟩ := pushSender_spec hpre.wellFormed hi' hrec'
      { state := { st' with senderWaiters := st'.senderWaiters ++ [i] },
        events := [.accepted i v] } rfl
    refine .parked hc ha (hpq.trans ?_) (hpre.trans hpush) ?_ hmem
    · rw [hp.toQueue, hq₁]
    · exact congrArg (List.count i) hp.readySenders

end LuvCoro.Channel
