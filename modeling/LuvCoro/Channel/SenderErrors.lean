import LuvCoro.Channel.Refinement

/-! # Who sets the error of a sender

Only two sections write the `exception` of a sender's waiter: the awaiter of the
send itself, when it finds the channel closed, and `close`. -/
namespace LuvCoro.Channel

open Transition

universe u
variable {T : Type u} {st st' : State T} {l : Locked T} {i w : OpId}

/-- No sender's error differs. -/
structure SameErrors (st st' : State T) : Prop where
  exception : ∀ j, (st'.sender j).exception = (st.sender j).exception

theorem SameErrors.refl (st : State T) : SameErrors st st := ⟨fun _ => rfl⟩

theorem SameErrors.of_eq (h : st'.sender = st.sender) : SameErrors st st' := by
  constructor
  intro j
  rw [h]

theorem SameErrors.trans {a b c : State T} (h : SameErrors a b) (h' : SameErrors b c) :
    SameErrors a c := ⟨fun j => (h'.exception j).trans (h.exception j)⟩

theorem sameErrors_setSender {f : SenderWaiter T → SenderWaiter T}
    (hf : (f (st.sender w)).exception = (st.sender w).exception) :
    SameErrors st (st.setSender w f) := by
  constructor
  intro j
  by_cases hj : j = w
  · subst hj
    simpa [State.setSender] using hf
  · simp [State.setSender, hj]

/-! ## Helpers -/

theorem popReceiver_sender (st : State T) : (popReceiverWaiterLocked st).2.sender = st.sender := by
  unfold popReceiverWaiterLocked
  split <;> rfl

theorem popSender_sender (st : State T) : (popSenderWaiterLocked st).2.sender = st.sender := by
  unfold popSenderWaiterLocked
  split <;> rfl

theorem canSendNow_sender (st : State T) : (canSendNowLocked st).2.sender = st.sender := by
  unfold canSendNowLocked
  split
  · rfl
  · dsimp only [hasWaitingSendersLocked, hasWaitingReceiversLocked]
    split <;> rfl

theorem completeValue_sender (l : Locked T) (w : OpId) (v : T) :
    (completeReceiverValueLocked l w v).state.sender = l.state.sender := by
  unfold completeReceiverValueLocked
  dsimp only
  split <;> rfl

theorem completeException_sender (l : Locked T) (w : OpId) (e : Error) :
    (completeReceiverExceptionLocked l w e).state.sender = l.state.sender := by
  unfold completeReceiverExceptionLocked
  dsimp only
  split <;> rfl

theorem release_errors (l : Locked T) (w : OpId) :
    SameErrors l.state (releaseSenderLocked l w).state := by
  have hvalue : SameErrors l.state (l.state.setSender w fun s => { s with value := none }) :=
    sameErrors_setSender rfl
  have hdone : ∀ st : State T, SameErrors st
      (st.setSender w fun s => { s with active := false, completed := true }) := fun st =>
    sameErrors_setSender rfl
  unfold releaseSenderLocked completeSenderLocked
  dsimp only
  split <;> exact ⟨(hvalue.trans (hdone _)).exception⟩

theorem placeSend_sender (l : Locked T) (i : OpId) (v : T) :
    (placeSendLocked l i v).state.sender = l.state.sender := by
  have hpop := popReceiver_sender l.state
  unfold placeSendLocked
  dsimp only
  split
  · rename_i w st' he
    rw [he] at hpop
    exact (completeValue_sender ..).trans hpop
  · rename_i st' he
    rw [he] at hpop
    exact hpop

/-- A waiting sender's value goes to the receiver `w`. -/
theorem handOver_errors {v : T} (h : st.sender = l.state.sender) (w s : OpId) :
    SameErrors l.state
      (releaseSenderLocked (completeReceiverValueLocked { l with state := st } w v) s).state :=
  .trans (.of_eq ((completeValue_sender { l with state := st } w v).trans h)) (release_errors _ s)

theorem pumpReceivers_errors (fuel : Nat) (l : Locked T) :
    SameErrors l.state (pumpReceivers fuel l).state := by
  induction fuel generalizing l with
  | zero => exact .refl _
  | succ fuel ih =>
    have hpop := popReceiver_sender l.state
    unfold pumpReceivers
    split
    · rename_i st he
      rw [he] at hpop
      exact .of_eq hpop
    · rename_i w st he
      rw [he] at hpop
      split
      · rename_i v ms hm
        refine .trans (.of_eq ?_) (ih _)
        exact (completeValue_sender ..).trans hpop
      · have hpop' := popSender_sender st
        split
        · rename_i s st' he'
          rw [he'] at hpop'
          split
          · rename_i v hv
            let l' := releaseSenderLocked
              (completeReceiverValueLocked { l with state := st' } w v) s
            have hgive : SameErrors l.state l'.state := handOver_errors (hpop'.trans hpop) w s
            exact hgive.trans (ih { l' with wakeLoop := true })
          · exact .of_eq (hpop'.trans hpop)
        · rename_i st' he'
          rw [he'] at hpop'
          exact .of_eq (hpop'.trans hpop)

theorem pumpSenders_errors (fuel : Nat) (l : Locked T) :
    SameErrors l.state (pumpSenders fuel l).state := by
  induction fuel generalizing l with
  | zero => exact .refl _
  | succ fuel ih =>
    have hpop := popSender_sender l.state
    unfold pumpSenders
    split
    · split
      · rename_i st he
        rw [he] at hpop
        exact .of_eq hpop
      · rename_i s st he
        rw [he] at hpop
        split
        · rename_i v hv
          let l' : Locked T := { l with state := { st with messages := st.messages ++ [v] } }
          have hput : SameErrors l.state l'.state := .of_eq hpop
          have hfree := hput.trans (release_errors l' s)
          exact hfree.trans (ih { releaseSenderLocked l' s with wakeLoop := true })
        · exact .of_eq hpop
    · exact .refl _

theorem pump_errors (l : Locked T) : SameErrors l.state (pumpLocked l).state :=
  (pumpReceivers_errors _ l).trans (pumpSenders_errors _ _)

theorem tryRecv_errors (l : Locked T) (w : OpId) :
    SameErrors l.state (tryRecvLocked l w).2.state := by
  have hpop := popSender_sender l.state
  unfold tryRecvLocked
  split
  · rename_i v ms hm
    have hset : SameErrors l.state (completeReceiverValueLocked
        { l with state := { l.state with messages := ms } } w v).state :=
      .of_eq (completeValue_sender ..)
    exact hset.trans (pump_errors _)
  · split
    · rename_i s st he
      rw [he] at hpop
      split
      · exact handOver_errors hpop w s
      · exact .of_eq hpop
    · rename_i st he
      rw [he] at hpop
      dsimp only
      split
      · exact .of_eq ((completeException_sender ..).trans hpop)
      · exact .of_eq hpop

theorem take_errors (st : State T) (i : OpId) : SameErrors st (takeLocked st i).2.state := by
  have hpop := popSender_sender st
  unfold takeLocked
  split
  · rename_i v ms hm
    have hpump := pump_errors { state := { st with messages := ms }, events := [.taken i v] }
    exact ⟨hpump.exception⟩
  · split
    · rename_i s st' he
      rw [he] at hpop
      split
      · exact .trans (.of_eq hpop) (release_errors { state := st', events := _ } s)
      · exact .of_eq hpop
    · rename_i st' he
      rw [he] at hpop
      exact .of_eq hpop

theorem expel_errors (st : State T) (i : OpId) (f : ReceiverWaiter T → ReceiverWaiter T) :
    SameErrors st (expelReceiverLocked st i f).2 := by
  unfold expelReceiverLocked
  dsimp only
  split <;> exact .of_eq rfl

/-! ## Sections -/

theorem sendNow_errors {r : SendOutcome × Locked T} {v : T}
    (hr : r = match canSendNowLocked st with
      | (ok, st) => if ok then (.placed, placeSendLocked { state := st } i v)
        else (.full, { state := st })) : SameErrors st r.2.state := by
  have hcan := canSendNow_sender st
  generalize canSendNowLocked st = c at hr hcan
  obtain ⟨ok, st'⟩ := c
  cases ok with
  | true =>
    subst hr
    exact .of_eq ((placeSend_sender ..).trans hcan)
  | false =>
    subst hr
    exact .of_eq hcan

theorem trySend_errors (st : State T) (i : OpId) (v : T) :
    SameErrors st (trySendLocked st i v).2.state := by
  unfold trySendLocked
  split
  · exact .refl _
  · split
    · exact .refl _
    · exact sendNow_errors rfl

theorem wokenSend_errors (st : State T) (i : OpId) (v : T) :
    SameErrors st (wokenSendLocked st i v).2.state := by
  unfold wokenSendLocked
  split
  · exact .refl _
  · exact sendNow_errors rfl

/-- A section of the send `i` that has set its error, and has put nothing into
the channel. -/
structure OwnError (i : OpId) (st : State T) (l : Locked T) : Prop where
  others : ∀ j, j ≠ i → (l.state.sender j).exception = (st.sender j).exception
  events : l.events = []

theorem ownError_setSender (st : State T) (i : OpId) (f : SenderWaiter T → SenderWaiter T) :
    OwnError i st { state := st.setSender i f } := by
  refine ⟨fun j hj => ?_, rfl⟩
  simp [State.setSender, hj]

theorem attempt_errors (st : State T) (i : OpId) :
    SameErrors st (asyncSendAttempt st i).2.state ∨
      (asyncSendAttempt st i).1 = true ∧ OwnError i st (asyncSendAttempt st i).2 := by
  unfold asyncSendAttempt
  split
  · exact .inr ⟨rfl, ownError_setSender ..⟩
  · split
    · exact .inr ⟨rfl, ownError_setSender ..⟩
    · have hcan := canSendNow_sender st
      generalize canSendNowLocked st = c at hcan ⊢
      obtain ⟨ok, st'⟩ := c
      dsimp only at hcan ⊢
      refine .inl ?_
      split
      · split
        · rename_i v hv
          have hplace : SameErrors st (placeSendLocked { state := st' } i v).state :=
            .of_eq ((placeSend_sender { state := st' } i v).trans hcan)
          have hdone : ∀ st : State T, SameErrors st
              (st.setSender i fun s => { s with value := none, completed := true }) := fun st =>
            sameErrors_setSender rfl
          exact hplace.trans (hdone _)
        · exact .of_eq hcan
      · exact .of_eq hcan

theorem asyncSendSuspend_errors (st : State T) (i : OpId) :
    SameErrors st (asyncSendSuspendLocked st i).2.state ∨
      (asyncSendSuspendLocked st i).1 = false ∧ OwnError i st (asyncSendSuspendLocked st i).2 := by
  have hcont : SameErrors st (st.setSender i fun s => { s with continuation := true }) :=
    sameErrors_setSender rfl
  have h := attempt_errors (st.setSender i fun s => { s with continuation := true }) i
  unfold asyncSendSuspendLocked
  dsimp only
  generalize asyncSendAttempt (st.setSender i fun s => { s with continuation := true }) i = r at h ⊢
  obtain ⟨ok, l⟩ := r
  cases ok with
  | true =>
    rcases h with h | ⟨_, h⟩
    · exact .inl (hcont.trans h)
    · exact .inr ⟨rfl, fun j hj => (h.others j hj).trans (hcont.exception j), h.events⟩
  | false =>
    rcases h with h | ⟨hf, _⟩
    · exact .inl ⟨(hcont.trans h).exception⟩
    · cases hf

theorem recvSuspend_errors (st : State T) (i : OpId) :
    SameErrors st (recvSuspendLocked st i).2.state := by
  have h := tryRecv_errors { state := st.setReceiver i fun r => { r with continuation := true } } i
  unfold recvSuspendLocked
  dsimp only
  split
  · rename_i l he
    rw [he] at h
    exact ⟨h.exception⟩
  · rename_i l he
    rw [he] at h
    exact ⟨h.exception⟩

theorem recvForReady_errors (st : State T) (i : OpId) (timeout : Int) :
    SameErrors st (recvForReadyLocked st i timeout).2.state := by
  have h := tryRecv_errors { state := st } i
  unfold recvForReadyLocked
  split
  · rename_i l he
    rw [he] at h
    exact ⟨h.exception⟩
  · rename_i l he
    rw [he] at h
    split <;> exact ⟨h.exception⟩

theorem recvForSuspend_errors (st : State T) (i : OpId) (timeout : Int) :
    SameErrors st (recvForSuspendLocked st i timeout).2.state := by
  have h := tryRecv_errors { state := st.setReceiver i fun r => { r with continuation := true } } i
  unfold recvForSuspendLocked
  dsimp only
  split
  · rename_i l he
    rw [he] at h
    exact ⟨h.exception⟩
  · rename_i l he
    rw [he] at h
    split <;> exact ⟨h.exception⟩

theorem next_errors (st : State T) (i : OpId) :
    SameErrors st (blockingNextSection st i).2.state := by
  have h := take_errors st i
  unfold blockingNextSection
  split
  · rename_i v l he
    rw [he] at h
    exact ⟨h.exception⟩
  · rename_i l he
    rw [he] at h
    split <;> exact ⟨h.exception⟩

/-! ## Steps -/

section
variable {s t : Sys T}

/-- The operation `i` has set the error of its own send and nothing else. -/
structure SelfError (i : OpId) (s t : Sys T) : Prop where
  beforeSend : (s.pc i).beforeSend = true
  ended : ∃ f, t.pc i = .notify f (.resume .asyncSend)
  log : t.log = s.log
  others : ∀ j, j ≠ i → (t.chan.sender j).exception = (s.chan.sender j).exception

theorem OwnError.selfError {l : Locked T} (h : OwnError i s.chan l)
    (hb : (s.pc i).beforeSend = true) (he : ∃ f, t.pc i = .notify f (.resume .asyncSend))
    (hc : t.chan = l.state) (hl : t.log = s.log ++ l.events) : SelfError i s t := by
  refine ⟨hb, he, ?_, ?_⟩
  · rw [hl, h.events, List.append_nil]
  · rw [hc]
    exact h.others

theorem run_errors (h : runOp s i = some t) :
    SameErrors s.chan t.chan ∨ SelfError i s t ∨ s.pc i = .close := by
  cases hpc : s.pc i with
  | idle | sendWait _ | suspended _ | done _ => simp [runOp, hpc] at h
  | send v =>
    simp only [runOp, hpc, Option.some.injEq] at h
    subst h
    rw [afterSend_chan]
    exact .inl (trySend_errors ..)
  | sendWoken v =>
    simp only [runOp, hpc, Option.some.injEq] at h
    subst h
    rw [afterSend_chan]
    exact .inl (wokenSend_errors ..)
  | trySend v =>
    simp only [runOp, hpc, Option.some.injEq] at h
    subst h
    rw [afterSend_chan]
    exact .inl (trySend_errors ..)
  | asyncSendReady =>
    simp only [runOp, hpc, Option.some.injEq] at h
    subst h
    rcases attempt_errors s.chan i with he | ⟨hend, he⟩
    · exact .inl he
    · have hnotify : ((s.awaitReady i (asyncSendAttempt s.chan i) .asyncSend .asyncSendSuspend).pc
          i) = .notify (asyncSendAttempt s.chan i).2.flags (.resume .asyncSend) :=
        (goto_self ..).trans (if_pos hend)
      exact .inr (.inl (he.selfError (by rw [hpc]; rfl) ⟨_, hnotify⟩ rfl rfl))
  | asyncSendSuspend =>
    simp only [runOp, hpc, Option.some.injEq] at h
    subst h
    rcases asyncSendSuspend_errors s.chan i with he | ⟨hend, he⟩
    · rw [awaitSuspend_chan]
      exact .inl he
    · have hnotify : (s.awaitSuspend i (asyncSendSuspendLocked s.chan i) .asyncSend).pc i =
          .notify (asyncSendSuspendLocked s.chan i).2.flags (.resume .asyncSend) := by
        unfold Sys.awaitSuspend
        rw [hend]
        exact goto_self ..
      exact .inr (.inl (he.selfError (by rw [hpc]; rfl) ⟨_, hnotify⟩ (awaitSuspend_chan ..)
        (awaitSuspend_log ..)))
  | recvReady optional =>
    simp only [runOp, hpc, Option.some.injEq] at h
    subst h
    exact .inl (tryRecv_errors { state := s.chan } i)
  | recvSuspend optional =>
    simp only [runOp, hpc, Option.some.injEq] at h
    subst h
    rw [awaitSuspend_chan]
    exact .inl (recvSuspend_errors ..)
  | recvForReady timeout =>
    simp only [runOp, hpc, Option.some.injEq] at h
    subst h
    exact .inl (recvForReady_errors ..)
  | recvForSuspend timeout =>
    simp only [runOp, hpc, Option.some.injEq] at h
    subst h
    refine .inl ?_
    rw [show Sys.chan { s.awaitSuspend i _ .recvFor with posting := _ } = _ from
      awaitSuspend_chan ..]
    exact recvForSuspend_errors ..
  | tryRecv =>
    simp only [runOp, hpc, Option.some.injEq] at h
    subst h
    exact .inl (take_errors ..)
  | blockingNext =>
    have hn := next_errors s.chan i
    simp only [runOp, hpc] at h
    split at h
    · cases h
      exact .inl (.refl _)
    · split at h <;> cases h <;> exact .inl hn
  | close => exact .inr (.inr rfl)
  | closeTimers schedule timers =>
    refine .inl ?_
    cases timers with
    | nil =>
      simp only [runOp, hpc, Option.some.injEq] at h
      subst h
      exact .refl _
    | cons w ws =>
      simp only [runOp, hpc, Option.some.injEq] at h
      subst h
      rw [goto_chan, (post_chan s _).1]
      exact .refl _
  | closePost =>
    simp only [runOp, hpc, Sys.post_eq] at h
    split at h
    · rename_i s' he
      split at he <;> cases he
      cases h
      exact .inl (.refl _)
    · cases h
      exact .inl (.refl _)
  | notify f k =>
    simp only [runOp, hpc, Option.some.injEq] at h
    subst h
    cases f.notifyBlockedSenders <;> exact .inl (.refl _)
  | cancelTimers f k =>
    simp only [runOp, hpc] at h
    split at h
    · cases h
      rw [goto_chan, (post_chan s _).1]
      exact .inl (.refl _)
    · cases h
      exact .inl (.refl _)
  | wake f k =>
    simp only [runOp, hpc] at h
    repeat' split at h
    all_goals
      cases h
      exact .inl (.refl _)
  | closeNotify schedule timers =>
    simp only [runOp, hpc, Option.some.injEq] at h
    subst h
    exact .inl (.refl _)

theorem timerStart_errors (s : Sys T) (i : OpId) (rcInit rcStart : Int) :
    SameErrors s.chan (s.timerStart i rcInit rcStart).chan := by
  have hfail : ∀ (s : Sys T) (e : Error), SameErrors s.chan (s.timerFail i e).chan :=
    fun s e => expel_errors s.chan i _
  unfold Sys.timerStart
  split
  · exact .refl _
  · split
    · exact .refl _
    · dsimp only
      split
      · exact hfail (s.setTimer i _) _
      · split
        · exact hfail (s.setTimer i _) _
        · exact .refl _

theorem step_errors {l : Label T} (h : step s l = some t) : SameErrors s.chan t.chan ∨
    ∃ i, l = .run i ∧ (SelfError i s t ∨ s.pc i = .close) := by
  cases l with
  | run i => exact (run_errors h).imp_right fun h => ⟨i, rfl, h⟩
  | start i loop call =>
    refine .inl ?_
    simp only [step, startCall] at h
    cases hpc : s.pc i with
    | idle =>
      cases call with
      | asyncSend v =>
        simp only [hpc, Option.some.injEq] at h
        subst h
        have hset : SameErrors s.chan (s.chan.setSender i fun w => { w with value := some v }) :=
          sameErrors_setSender rfl
        exact hset
      | _ =>
        simp only [hpc, Option.some.injEq] at h
        subst h
        exact .refl _
    | _ => simp [hpc] at h
  | post i =>
    refine .inl ?_
    simp only [step, runPosting, Sys.post_eq] at h
    split at h
    · split at h
      · rename_i s' he
        split at he <;> cases he
        cases h
        exact .refl _
      · cases h
        exact expel_errors ..
    · cases h
  | spurious i =>
    simp only [step] at h
    split at h <;> cases h
    exact .inl (.refl _)
  | runPosted rcInit rcStart =>
    simp only [step, runPosted] at h
    split at h
    · cases h
    · rename_i w captured ps hp
      split at h <;> cases h
      exact .inl (timerStart_errors { s with posted := ps } w rcInit rcStart)
    · cases h
      exact .inl (.refl _)
    · cases h
      exact .inl (.refl _)
  | timerFire i =>
    simp only [step, timerFire] at h
    split at h <;> cases h
    exact .inl (expel_errors ..)
  | onAsync =>
    simp only [step] at h
    split at h <;> cases h
    exact .inl (.refl _)
  | flushSwap =>
    simp only [step, flushSwap] at h
    split at h <;> cases h
    exact .inl (.of_eq rfl)
  | flushResume q =>
    simp only [step, flushResume] at h
    split at h
    · split at h <;> cases h <;> exact .inl (.refl _)
    · cases h
  | closeHandle =>
    simp only [step] at h
    split at h <;> cases h
    exact .inl (.refl _)
  | shutdown =>
    cases h
    exact .inl (.refl _)

end

end LuvCoro.Channel
