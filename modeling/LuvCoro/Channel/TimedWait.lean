import LuvCoro.Channel.Recv
import LuvCoro.Channel.Timer

/-! # The wait of one `recv_for`

Between the push of its waiter and the resumption, a `recv_for` is completed by
whoever gets to it first: a sender, `close`, its timer, or a post or a libuv call
that fails. What the first one writes into the waiter is never written over, so
the call returns it. -/
namespace LuvCoro.Channel

open Transition WaiterPool

universe u
variable {T : Type u} {s t : Sys T} {l : Label T} {i j : OpId} {st : State T}

/-! ## What a section writes into the receivers -/

/-- Every receiver is as it was, or was completed by `f`. -/
def Writes (f : ReceiverWaiter T → ReceiverWaiter T) (st st' : State T) : Prop :=
  ∀ j, st'.receiver j = st.receiver j ∨ st'.receiver j = f (st.receiver j)

theorem writes_same {f : ReceiverWaiter T → ReceiverWaiter T} {st' : State T}
    (h : st'.receiver = st.receiver) : Writes f st st' := fun j => .inl (by rw [h])

theorem Writes.of_eq {f : ReceiverWaiter T → ReceiverWaiter T} {a b c : State T}
    (h : Writes f a b) (ha : a.receiver = st.receiver) (hc : c.receiver = b.receiver) :
    Writes f st c := by
  intro j
  rw [hc, ← ha]
  exact h j

theorem popReceiver_records (st : State T) :
    (popReceiverWaiterLocked st).2.receiver = st.receiver := by
  unfold popReceiverWaiterLocked
  split <;> rfl

theorem popSender_records (st : State T) :
    (popSenderWaiterLocked st).2.receiver = st.receiver := by
  unfold popSenderWaiterLocked
  split <;> rfl

theorem completeValue_writes (l : Locked T) (w : OpId) (v : T) :
    Writes (received · v) l.state (completeReceiverValueLocked l w v).state := by
  intro j
  have hset : (completeReceiverValueLocked l w v).state.receiver j =
      (l.state.setReceiver w (received · v)).receiver j := by
    unfold completeReceiverValueLocked
    dsimp only
    split <;> rfl
  rw [hset]
  by_cases hj : j = w
  · subst hj
    exact .inr (by simp [State.setReceiver])
  · exact .inl (by simp [State.setReceiver, hj])

theorem completeException_writes (l : Locked T) (w : OpId) (e : Error) :
    Writes (receivedException · e) l.state (completeReceiverExceptionLocked l w e).state := by
  intro j
  have hset : (completeReceiverExceptionLocked l w e).state.receiver j =
      (l.state.setReceiver w (receivedException · e)).receiver j := by
    unfold completeReceiverExceptionLocked
    dsimp only
    split <;> rfl
  rw [hset]
  by_cases hj : j = w
  · subst hj
    exact .inr (by simp [State.setReceiver])
  · exact .inl (by simp [State.setReceiver, hj])

theorem placeSend_writes (l : Locked T) (i : OpId) (v : T) :
    Writes (received · v) l.state (placeSendLocked l i v).state := by
  have hpop := popReceiver_records l.state
  unfold placeSendLocked
  dsimp only
  generalize popReceiverWaiterLocked l.state = r at hpop ⊢
  obtain ⟨w, st⟩ := r
  cases w with
  | some w =>
    have h := completeValue_writes
      { l with state := st, events := l.events ++ [Event.accepted i v] } w v
    exact h.of_eq hpop rfl
  | none => exact writes_same hpop

theorem canSendNow_records (st : State T) :
    (canSendNowLocked st).2.receiver = st.receiver ∧
      (canSendNowLocked st).2.sender = st.sender := by
  unfold canSendNowLocked hasWaitingSendersLocked hasWaitingReceiversLocked
  dsimp only
  split
  · exact ⟨rfl, rfl⟩
  · split <;> exact ⟨rfl, rfl⟩

theorem trySend_writes (st : State T) (i : OpId) (v : T) :
    Writes (received · v) st (trySendLocked st i v).2.state := by
  have hcan := (canSendNow_records st).1
  unfold trySendLocked
  split
  · exact writes_same rfl
  split
  · exact writes_same rfl
  generalize canSendNowLocked st = r at hcan ⊢
  obtain ⟨ok, st'⟩ := r
  cases ok with
  | true => exact (placeSend_writes { state := st' } i v).of_eq hcan rfl
  | false => exact writes_same hcan

theorem wokenSend_writes (st : State T) (i : OpId) (v : T) :
    Writes (received · v) st (wokenSendLocked st i v).2.state := by
  have hcan := (canSendNow_records st).1
  unfold wokenSendLocked
  split
  · exact writes_same rfl
  generalize canSendNowLocked st = r at hcan ⊢
  obtain ⟨ok, st'⟩ := r
  cases ok with
  | true => exact (placeSend_writes { state := st' } i v).of_eq hcan rfl
  | false => exact writes_same hcan

theorem asyncSendAttempt_writes (st : State T) (i : OpId) {v : T}
    (hv : (st.sender i).value = some v) :
    Writes (received · v) st (asyncSendAttempt st i).2.state := by
  obtain ⟨hcan, hsnd⟩ := canSendNow_records st
  unfold asyncSendAttempt
  split
  · exact writes_same rfl
  split
  · exact writes_same rfl
  generalize canSendNowLocked st = r at hcan hsnd ⊢
  obtain ⟨ok, st'⟩ := r
  have hv' : (st'.sender i).value = some v := by
    rw [show st'.sender = st.sender from hsnd]
    exact hv
  cases ok with
  | true =>
    simp only [if_true, hv']
    exact (placeSend_writes { state := st' } i v).of_eq hcan rfl
  | false => exact writes_same hcan

theorem asyncSendSuspend_writes (st : State T) (i : OpId) {v : T}
    (hv : (st.sender i).value = some v) :
    Writes (received · v) st (asyncSendSuspendLocked st i).2.state := by
  have h := asyncSendAttempt_writes (st.setSender i fun s => { s with continuation := true }) i
    (v := v) (by simpa [State.setSender] using hv)
  unfold asyncSendSuspendLocked
  dsimp only
  generalize asyncSendAttempt (st.setSender i fun s => { s with continuation := true }) i = r at h ⊢
  obtain ⟨ok, l⟩ := r
  cases ok <;> exact h.of_eq rfl rfl

theorem closeReceivers_writes (fuel : Nat) (l : Locked T) :
    Writes (receivedException · .closedError) l.state (closeReceivers fuel l).state := by
  induction fuel generalizing l with
  | zero => exact writes_same rfl
  | succ fuel ih =>
    have hpop := popReceiver_records l.state
    unfold closeReceivers
    generalize popReceiverWaiterLocked l.state = r at hpop ⊢
    obtain ⟨w, st⟩ := r
    cases w with
    | none => exact writes_same hpop
    | some w =>
      have hfirst := (completeException_writes { l with state := st } w .closedError).of_eq
        (c := (completeReceiverExceptionLocked { l with state := st } w .closedError).state)
        hpop rfl
      intro j
      -- a receiver completed twice would hold what it was completed with first
      rcases ih (completeReceiverExceptionLocked { l with state := st } w .closedError) j with
        he | he
      · exact (hfirst j).imp he.trans he.trans
      · rcases hfirst j with hf | hf
        · exact .inr (he.trans (by rw [hf]))
        · rw [hf] at he
          exact .inr he

theorem closeSenders_records (fuel : Nat) (l : Locked T) :
    (closeSenders fuel l).state.receiver = l.state.receiver := by
  induction fuel generalizing l with
  | zero => rfl
  | succ fuel ih =>
    have hpop := popSender_records l.state
    unfold closeSenders
    generalize popSenderWaiterLocked l.state = r at hpop ⊢
    obtain ⟨w, st⟩ := r
    cases w with
    | none => exact hpop
    | some w =>
      refine (ih _).trans (Eq.trans ?_ hpop)
      unfold completeSenderExceptionLocked
      dsimp only
      split <;> rfl

theorem close_writes (st : State T) :
    Writes (receivedException · .closedError) st (closeLocked st).2.state := by
  have h := closeReceivers_writes st.receiverWaiters.length { state := { st with closed := true } }
  exact h.of_eq rfl (closeSenders_records _ _)

section Expel
variable {f : ReceiverWaiter T → ReceiverWaiter T}

theorem expel_self (ha : (st.receiver i).active = true) (hc : (st.receiver i).completed = false) :
    (expelReceiverLocked st i f).2.receiver i =
      { f (st.receiver i) with active := false, completed := true, timer := false } := by
  simp [expelReceiverLocked, ha, hc, State.setReceiver]

theorem expel_done (hc : (st.receiver i).completed = true) :
    expelReceiverLocked st i f = (false, st) := by
  simp [expelReceiverLocked, hc]

theorem expel_other (hj : j ≠ i) :
    (expelReceiverLocked st i f).2.receiver j = st.receiver j ∧
      (expelReceiverLocked st i f).2.readyReceivers.count j = st.readyReceivers.count j := by
  unfold expelReceiverLocked
  dsimp only
  split
  · simp [State.setReceiver, hj, Ne.symm hj]
  · exact ⟨rfl, rfl⟩

theorem expel_frame : (expelReceiverLocked st i f).2.receiverWaiters = st.receiverWaiters ∧
    (expelReceiverLocked st i f).2.senders = st.senders := by
  unfold expelReceiverLocked
  dsimp only
  split <;> exact ⟨rfl, rfl⟩

end Expel

/-- The waiter that `await_suspend` of a `recv_for` leaves in the queue. -/
theorem recvForSuspend_parked {timeout : Int} (hw : WellFormed st) (hv : st.toQueue.Valid)
    (hf : FreshReceiver st i) (h : (recvForSuspendLocked st i timeout).1 = true) :
    0 < timeout ∧ (recvForSuspendLocked st i timeout).2.state.receiver i =
      { continuation := true, timer := true } := by
  have hs := @resume_spec _ _ _ True hw hv hf
  unfold recvForSuspendLocked at h ⊢
  dsimp only at h hs ⊢
  generalize tryRecvLocked { state := st.setReceiver i fun r => { r with continuation := true } } i
    = r at h hs ⊢
  obtain ⟨ok, l⟩ := r
  cases ok with
  | true => cases h
  | false =>
    rcases hs with ⟨hok, _⟩ | ⟨st', he, _, _, _, _, _, hrec, _⟩
    · cases hok
    · cases he
      dsimp only at h ⊢
      split at h
      · cases h
      · rename_i ht
        rw [if_neg ht]
        refine ⟨by omega, ?_⟩
        simp [State.setReceiver, hrec]

/-! ## Who ended the wait -/

/-- What ended the wait of a receiver. -/
inductive Ending (T : Type u) where
  | sent (value : T)
  | fired
  | closed
  | failed

/-- The value that the next section of `j` would place. -/
def Sys.sending (s : Sys T) (j : OpId) : Option T :=
  match s.pc j with
  | .send v | .sendWoken v | .trySend v => some v
  | .asyncSendReady | .asyncSendSuspend => (s.chan.sender j).value
  | _ => none

/-- A step that completes the waiter of `i` is the section of a sender, the section
of `close`, the callback of its timer, or one that fails. -/
def Sys.endingOf (s : Sys T) (l : Label T) (i : OpId) : Ending T :=
  match l with
  | .run j =>
    match s.sending j, s.pc j with
    | some v, _ => .sent v
    | none, .close => .closed
    | none, _ => .failed
  | .timerFire j => if j = i then .fired else .failed
  | _ => .failed

/-- What the waiter holds afterwards. -/
def Ending.Recorded : Ending T → ReceiverWaiter T → Prop
  | .sent v, r => r.exception = none ∧ r.timedOut = false ∧ r.value = some v
  | .fired, r => r.exception = none ∧ r.timedOut = true
  | .closed, r => r.exception = some .closedError
  | .failed, r => ∃ e, e ≠ .closedError ∧ r.exception = some e

/-- What `recv_for` makes of it. -/
def Ending.Reports : Ending T → Result T → Prop
  | .sent v, r => r = .value (some v)
  | .fired, r => r = .value none
  | .closed, r => r = .thrown .closedError
  | .failed, r => ∃ e, e ≠ .closedError ∧ r = .thrown e

theorem Ending.Recorded.reports {e : Ending T} (h : e.Recorded (st.receiver i)) :
    e.Reports (Resume.recvFor.result st i) := by
  unfold Resume.result
  cases e with
  | sent v =>
    obtain ⟨hex, hto, hv⟩ := h
    simp [Ending.Reports, hex, hto, hv]
  | fired =>
    obtain ⟨hex, hto⟩ := h
    simp [Ending.Reports, hex, hto]
  | closed =>
    have hex : (st.receiver i).exception = some .closedError := h
    simp [Ending.Reports, hex]
  | failed =>
    obtain ⟨e, hne, hex⟩ := h
    exact ⟨e, hne, by simp [hex]⟩

/-- The points of a `recv_for` whose wait has ended. Only one that failed has the
loop still to wake. -/
inductive EndedPc (e : Ending T) : Pc T → Prop
  | suspended : EndedPc e (.suspended .recvFor)
  | notify {f : Flags} : (f.wakeLoop = true → e = .failed) →
      EndedPc e (.notify f (.resume .recvFor))
  | cancelTimers {f : Flags} : (f.wakeLoop = true → e = .failed) →
      EndedPc e (.cancelTimers f (.resume .recvFor))
  | wake {f : Flags} : (f.wakeLoop = true → e = .failed) → EndedPc e (.wake f (.resume .recvFor))
  | done {r : Result T} : e.Reports r → EndedPc e (.done r)

/-- The waiter of `i` waits, with its timer still its own. -/
structure Parked (s : Sys T) (i : OpId) : Prop where
  pc : s.pc i = .suspended .recvFor
  active : i ∈ s.chan.activeReceivers
  record : s.chan.receiver i = { continuation := true, timer := true }
  unowed : s.owed i = 0

/-- The wait of `i` has ended with `e`, and its timer is no longer its own. -/
structure Ended (e : Ending T) (s : Sys T) (i : OpId) : Prop where
  pc : EndedPc e (s.pc i)
  completed : (s.chan.receiver i).completed = true
  inactive : (s.chan.receiver i).active = false
  timer : (s.chan.receiver i).timer = false
  recorded : e.Recorded (s.chan.receiver i)

/-- How far a `recv_for` has come that queued its waiter. -/
inductive Wait (s : Sys T) (i : OpId) : Option (Ending T) → Prop
  | parked : Parked s i → Wait s i none
  | ended {e : Ending T} : Ended e s i → Wait s i (some e)

theorem Parked.pending (h : Parked s i) : (s.chan.receiver i).completed = false := by
  rw [h.record]

theorem Ended.not_waiting {e : Ending T} (h : Ended e s i) : i ∉ s.chan.activeReceivers :=
  not_active_of rfl h.inactive

/-! ## Steps of others -/

theorem sending_writes (hr : s.Ready) (h : runOp s j = some t) (hs : (s.pc j).sends = true) :
    ∃ v, s.sending j = some v ∧ Writes (received · v) s.chan t.chan := by
  have hop := hr.op j
  cases hpc : s.pc j with
  | send v =>
    simp only [runOp, hpc, Option.some.injEq] at h
    subst h
    exact ⟨v, by simp [Sys.sending, hpc], by
      rw [afterSend_chan]
      exact trySend_writes s.chan j v⟩
  | sendWoken v =>
    simp only [runOp, hpc, Option.some.injEq] at h
    subst h
    exact ⟨v, by simp [Sys.sending, hpc], by
      rw [afterSend_chan]
      exact wokenSend_writes s.chan j v⟩
  | trySend v =>
    simp only [runOp, hpc, Option.some.injEq] at h
    subst h
    exact ⟨v, by simp [Sys.sending, hpc], by
      rw [afterSend_chan]
      exact trySend_writes s.chan j v⟩
  | asyncSendReady =>
    simp only [runOp, hpc, Option.some.injEq] at h
    subst h
    obtain ⟨v, hf⟩ := hop.sender (by rw [hpc]; rfl)
    have hv : (s.chan.sender j).value = some v := by rw [hf.record]
    exact ⟨v, by simp [Sys.sending, hpc, hv], asyncSendAttempt_writes s.chan j hv⟩
  | asyncSendSuspend =>
    simp only [runOp, hpc, Option.some.injEq] at h
    subst h
    obtain ⟨v, hf⟩ := hop.sender (by rw [hpc]; rfl)
    have hv : (s.chan.sender j).value = some v := by rw [hf.record]
    exact ⟨v, by simp [Sys.sending, hpc, hv], by
      rw [awaitSuspend_chan]
      exact asyncSendSuspend_writes s.chan j hv⟩
  | _ =>
    rw [hpc] at hs
    cases hs

theorem closing_writes (h : runOp s j = some t) (hpc : s.pc j = .close) :
    Writes (receivedException · .closedError) s.chan t.chan := by
  simp only [runOp, hpc, Option.some.injEq] at h
  subst h
  exact close_writes s.chan

/-- What the section of another operation leaves of a waiter that waits. -/
theorem parked_others (hi : Inv s) (hp : Parked s i) (hsnd : i ∉ s.chan.senderWaiters)
    (h : step s l = some t) (hl : ¬ l.Times i) : Parked t i ∨ Ended (s.endingOf l i) t i := by
  have hspec := step_spec hi.ready h
  have hrun : l ≠ .run i := by
    rintro rfl
    have hn : runOp s i = some t := h
    simp [runOp, hp.pc] at hn
  have hpost : l ≠ .post i := by
    rintro rfl
    exact hl rfl
  have hstart : ∀ loop call, l ≠ .start i loop call := by
    rintro loop call rfl
    have hn : startCall s i loop call = some t := h
    simp [startCall, hp.pc] at hn
  have hpc : t.pc i = .suspended .recvFor := by
    rcases pc_others hspec hpost hrun ⟨by simp [hp.pc], by simp [hp.pc]⟩ with he | ⟨hf, _⟩
    · exact he.trans hp.pc
    · have hpos := List.count_pos_iff.mpr hf
      have h0 := hp.unowed
      unfold Sys.owed at h0
      omega
  obtain ⟨vs, _, hfate, hhands⟩ := spared_step hi (fun _ => hl) (fun he => absurd he hrun) hspec
  cases hfate with
  | same hrec hiff =>
    have hm := hiff.mpr hp.active
    exact .inl ⟨hpc, hm, hrec.trans hp.record, owed_step hspec (fun _ => hm) (by rw [hp.pc]; rfl)
      hstart hsnd (fun he => absurd he hrun) (fun _ => hm) hp.unowed⟩
  | @handed v _ _ hval hex =>
    obtain ⟨j, rfl, hsends⟩ : ∃ j, l = .run j ∧ (s.pc j).sends = true := by
      rcases hhands with he | ⟨he, _⟩ | ⟨j, he, hs, _⟩
      · cases he
      · exact absurd he hrun
      · exact ⟨j, he, hs⟩
    obtain ⟨v', hv', hw⟩ := sending_writes hi.ready h hsends
    rcases hw i with he | he
    · rw [he, hp.record] at hval
      cases hval
    · rw [hp.record] at he
      refine .inr ⟨hpc ▸ .suspended, by rw [he]; rfl, by rw [he]; rfl, by rw [he]; rfl, ?_⟩
      rw [he]
      simp [Sys.endingOf, hv', Ending.Recorded, received]
  | closed _ _ _ hex hcl =>
    have hopen : s.chan.closed = false := (hi.ready.valid.takers (List.ne_nil_of_mem hp.active)).2.2
    obtain ⟨j, rfl, hj⟩ : ∃ j, l = .run j ∧ s.pc j = .close := by
      refine (closed_by hspec hcl).resolve_left fun hc => ?_
      rw [hopen] at hc
      cases hc
    rcases closing_writes h hj i with he | he
    · rw [he, hp.record] at hex
      cases hex
    · rw [hp.record] at he
      refine .inr ⟨hpc ▸ .suspended, by rw [he]; rfl, by rw [he]; rfl, by rw [he]; rfl, ?_⟩
      rw [he]
      simp [Sys.endingOf, Sys.sending, hj, Ending.Recorded, receivedException]

/-! ## Steps of the timer -/

theorem parked_same (hp : Parked s i) (hpc : t.pc i = s.pc i) (hf : t.flushing = s.flushing)
    (hc : t.chan = s.chan) : Parked t i := by
  refine ⟨hpc.trans hp.pc, by rw [hc]; exact hp.active, by rw [hc]; exact hp.record, ?_⟩
  have h0 := hp.unowed
  unfold Sys.owed at h0 ⊢
  rw [hc, hf]
  exact h0

/-- The timer of another operation does not reach the waiter. -/
theorem parked_expel {f : ReceiverWaiter T → ReceiverWaiter T} (hp : Parked s i) (hj : i ≠ j)
    (hpc : t.pc i = s.pc i) (hf : t.flushing = s.flushing)
    (hc : t.chan = (expelReceiverLocked s.chan j f).2) : Parked t i := by
  obtain ⟨hrec, hcount⟩ := @expel_other _ j i s.chan f hj
  obtain ⟨hq, hsnd⟩ := @expel_frame _ j s.chan f
  rw [← hc] at hrec hcount hq hsnd
  obtain ⟨hm, ha⟩ := List.mem_filter.mp hp.active
  have hrs : t.chan.readySenders = s.chan.readySenders := congrArg Pool.tokens hsnd
  refine ⟨hpc.trans hp.pc, List.mem_filter.mpr ⟨hq ▸ hm, by rw [hrec]; exact ha⟩,
    hrec.trans hp.record, ?_⟩
  have h0 := hp.unowed
  unfold Sys.owed at h0 ⊢
  rw [hcount, hrs, hf]
  exact h0

theorem ended_expel {f : ReceiverWaiter T → ReceiverWaiter T} {e : Ending T} (hp : Parked s i)
    (hpc : EndedPc e (t.pc i)) (hc : t.chan = (expelReceiverLocked s.chan i f).2)
    (he : ∀ r, e.Recorded { f { continuation := true, timer := true } with
      active := false, completed := r, timer := false }) : Ended e t i := by
  have hself := @expel_self _ i s.chan f (by rw [hp.record]) hp.pending
  rw [← hc, hp.record] at hself
  exact ⟨hpc, by rw [hself], by rw [hself], by rw [hself], by rw [hself]; exact he true⟩

/-- What the loop thread does to the receivers when it runs a posted closure. -/
theorem runPosted_writes {rcInit rcStart : Int} (h : runPosted s rcInit rcStart = some t) :
    t.pc = s.pc ∧ t.flushing = s.flushing ∧ (t.chan = s.chan ∨
      ∃ j e, e ≠ .closedError ∧ t.chan = (failLocked s.chan j e).2) := by
  unfold runPosted at h
  split at h
  · cases h
  · rename_i j c ps _
    split at h
    · cases h
      unfold Sys.timerStart
      split
      · exact ⟨rfl, rfl, .inl rfl⟩
      split
      · exact ⟨rfl, rfl, .inl rfl⟩
      dsimp only
      split
      · exact ⟨rfl, rfl, .inr ⟨j, _, by simp, rfl⟩⟩
      split
      · exact ⟨rfl, rfl, .inr ⟨j, _, by simp, rfl⟩⟩
      · exact ⟨rfl, rfl, .inl rfl⟩
    · cases h
  · cases h
    exact ⟨rfl, rfl, .inl rfl⟩
  · cases h
    exact ⟨rfl, rfl, .inl rfl⟩

/-- What the post of the start does: it queues a closure with the timer it reads
off the waiter, or ends the wait itself. -/
theorem runPosting_cases (h : runPosting s i = some t) :
    s.posting i = true ∧ (s.shuttingDown = false ∧ t = { s with
      posting := Function.update s.posting i false
      posted := s.posted ++ [.timerStart i (s.chan.receiver i).timer] } ∨
    s.shuttingDown = true ∧ t.chan = (failLocked s.chan i shuttingDownError).2 ∧
      t.posted = s.posted ∧
      t.pc i = .notify { wakeLoop := (failLocked s.chan i shuttingDownError).1 }
        (.resume .recvFor)) := by
  unfold runPosting at h
  split at h
  · rename_i hp
    refine ⟨hp, ?_⟩
    dsimp only [Sys.post_eq] at h
    split at h
    · rename_i u hu
      split at hu
      · cases hu
      · rename_i hs
        cases hu
        cases h
        exact .inl ⟨by simpa using hs, rfl⟩
    · rename_i hu
      split at hu
      · rename_i hs
        cases h
        exact .inr ⟨hs, rfl, rfl, goto_self ..⟩
      · cases hu
  · cases h

/-- What the timer of `i`, or the post of its start, leaves of a waiter that waits. -/
theorem parked_times (hp : Parked s i) (h : step s l = some t) (hl : l.Times i) :
    Parked t i ∨ Ended (s.endingOf l i) t i := by
  cases l with
  | post j =>
    obtain rfl : j = i := hl
    obtain ⟨_, ⟨_, rfl⟩ | ⟨_, hc, _, hpc⟩⟩ := runPosting_cases h
    · exact .inl (parked_same hp rfl rfl rfl)
    · refine .inr (ended_expel hp (hpc ▸ .notify fun _ => rfl) hc fun _ => ?_)
      exact ⟨_, by simp [shuttingDownError], rfl⟩
  | timerFire j =>
    obtain rfl : j = i := hl
    have hfire : timerFire s j = some t := h
    unfold timerFire at hfire
    split at hfire
    · cases hfire
      refine .inr (ended_expel hp (hp.pc ▸ .suspended) rfl fun _ => ?_)
      simp [Sys.endingOf, Ending.Recorded]
    · cases hfire
  | runPosted rcInit rcStart =>
    obtain ⟨hpc, hf, hc | ⟨j, e, hne, hc⟩⟩ := runPosted_writes h
    · exact .inl (parked_same hp (by rw [hpc]) hf hc)
    · by_cases hj : i = j
      · subst hj
        refine .inr (ended_expel hp (by rw [hpc, hp.pc]; exact .suspended) hc fun _ => ?_)
        exact ⟨e, hne, rfl⟩
      · exact .inl (parked_expel hp hj (by rw [hpc]) hf hc)
  | _ => exact hl.elim

/-! ## Steps after the wait -/

theorem EndedPc.later {e : Ending T} {p : Pc T} (h : EndedPc e p) :
    p.beforeReceive = false ∧ p.beforeSend = false ∧ p ≠ .tryRecv ∧ p ≠ .idle ∧
      ∀ v, p ≠ .sendWait v := by
  cases h <;> exact ⟨rfl, rfl, nofun, nofun, nofun⟩

/-- `await_resume` takes the outcome off the waiter, unless the wait failed and
the loop cannot be woken. -/
theorem ended_run {e : Ending T} (hr : e.Recorded (s.chan.receiver i)) (hp : EndedPc e (s.pc i))
    (h : runOp s i = some t) : t.chan = s.chan ∧ EndedPc e (t.pc i) := by
  have hresult : EndedPc e (.done (Resume.recvFor.result s.chan i)) := .done hr.reports
  generalize hpc : s.pc i = p at hp
  cases hp with
  | suspended => simp [runOp, hpc] at h
  | done _ => simp [runOp, hpc] at h
  | notify hf =>
    simp only [runOp, hpc, Option.some.injEq] at h
    subst h
    exact ⟨by rw [goto_chan]; split <;> rfl, by rw [goto_self]; exact .cancelTimers hf⟩
  | @cancelTimers f hf =>
    simp only [runOp, hpc] at h
    cases hts : f.timersToCancel with
    | nil =>
      simp only [hts, Option.some.injEq] at h
      subst h
      exact ⟨rfl, by rw [goto_self]; exact .wake hf⟩
    | cons x xs =>
      simp only [hts, Option.some.injEq] at h
      subst h
      exact ⟨(post_chan s _).1, by rw [goto_self]; exact .cancelTimers hf⟩
  | @wake f hf =>
    simp only [runOp, hpc] at h
    by_cases hw : f.wakeLoop = true
    · obtain rfl := hf hw
      simp only [hw, Bool.not_true, Bool.false_eq_true, if_false] at h
      split at h
      · cases h
        exact ⟨rfl, by rw [goto_self]; exact hresult⟩
      split at h
      · cases h
        exact ⟨rfl, by rw [goto_self]; exact .done ⟨_, by simp [asyncClosingError], rfl⟩⟩
      · cases h
        exact ⟨rfl, by rw [goto_self]; exact hresult⟩
    · have hw' : f.wakeLoop = false := by simpa using hw
      simp only [hw', Bool.not_false, if_true, Option.some.injEq] at h
      subst h
      exact ⟨rfl, by rw [goto_self]; exact hresult⟩

theorem Ended.of_record {e : Ending T} (h : Ended e s i) (hpc : EndedPc e (t.pc i))
    (hr : t.chan.receiver i = s.chan.receiver i) : Ended e t i :=
  ⟨hpc, by rw [hr]; exact h.completed, by rw [hr]; exact h.inactive, by rw [hr]; exact h.timer,
    by rw [hr]; exact h.recorded⟩

/-- Nothing writes to the waiter any more. -/
theorem ended_step {e : Ending T} (hi : Inv s) (he : Ended e s i) (h : step s l = some t) :
    Ended e t i := by
  have hspec := step_spec hi.ready h
  obtain ⟨hb, _, htry, hidle, hwait⟩ := he.pc.later
  by_cases hrun : l = .run i
  · subst hrun
    obtain ⟨hc, hpc⟩ := ended_run he.recorded he.pc h
    exact he.of_record hpc (by rw [hc])
  by_cases hpost : l = .post i
  · subst hpost
    obtain ⟨_, ⟨_, rfl⟩ | ⟨_, hc, _, hpc⟩⟩ := runPosting_cases h
    · exact he.of_record he.pc rfl
    · have hdone : failLocked s.chan i shuttingDownError = (false, s.chan) :=
        expel_done he.completed
      rw [hdone] at hc hpc
      exact he.of_record (hpc ▸ .notify nofun) (by rw [hc])
  have hpc : EndedPc e (t.pc i) := by
    rcases pc_others hspec hpost hrun ⟨hidle, hwait⟩ with hsame | ⟨_, k, hk, hk'⟩
    · rw [hsame]
      exact he.pc
    · have hp := he.pc
      rw [hk] at hp
      cases hp
      rw [hk']
      exact .notify nofun
  by_cases hl : l.Times i
  · cases l with
    | post j => exact absurd (congrArg Label.post hl) hpost
    | timerFire j =>
      obtain rfl : j = i := hl
      have hfire : timerFire s j = some t := h
      unfold timerFire at hfire
      split at hfire
      · cases hfire
        have hdone : fireLocked s.chan j = (false, s.chan) := expel_done he.completed
        exact he.of_record hpc (by simp [Sys.setTimer, hdone])
      · cases hfire
    | runPosted rcInit rcStart =>
      obtain ⟨_, _, hc | ⟨j, x, _, hc⟩⟩ := runPosted_writes h
      · exact he.of_record hpc (by rw [hc])
      · refine he.of_record hpc ?_
        rw [hc]
        by_cases hj : i = j
        · subst hj
          rw [show failLocked s.chan i x = (false, s.chan) from expel_done he.completed]
        · exact (expel_other hj).1
    | _ => exact hl.elim
  · obtain ⟨vs, _, hfate, _⟩ := spared_step hi (fun _ => hl) (fun x => absurd x hrun) hspec
    cases hfate with
    | same hrec _ => exact he.of_record hpc hrec
    | handed hh _ _ _ => exact absurd (List.mem_of_mem_head? hh) he.not_waiting
    | closed hm _ _ _ _ => exact absurd hm he.not_waiting

/-- What ended the wait of `i`, once the step `l` has been taken. -/
def Sys.nextEnding (s : Sys T) (l : Label T) (t : Sys T) (i : OpId) (e : Option (Ending T)) :
    Option (Ending T) :=
  if !(s.chan.receiver i).completed && (t.chan.receiver i).completed then some (s.endingOf l i)
  else e

/-- The step lemma of the wait. -/
theorem wait_step {e : Option (Ending T)} (hi : Inv s) (hw : Wait s i e)
    (hsnd : i ∉ s.chan.senderWaiters) (h : step s l = some t) :
    Wait t i (s.nextEnding l t i e) := by
  cases hw with
  | parked hp =>
    have hor : Parked t i ∨ Ended (s.endingOf l i) t i := by
      by_cases hl : l.Times i
      · exact parked_times hp h hl
      · exact parked_others hi hp hsnd h hl
    unfold Sys.nextEnding
    rcases hor with hp' | he
    · rw [hp'.pending, Bool.and_false, if_neg (by simp)]
      exact .parked hp'
    · rw [hp.pending, he.completed]
      exact .ended he
  | ended he =>
    unfold Sys.nextEnding
    rw [he.completed, Bool.not_true, Bool.false_and, if_neg (by simp)]
    exact .ended (ended_step hi he h)

end LuvCoro.Channel
