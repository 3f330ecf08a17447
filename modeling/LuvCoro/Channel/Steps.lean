import LuvCoro.Channel.System
import LuvCoro.Channel.CloseSpecs

/-! # What one step of the channel system can do

`OpInv` says what an operation may rely on before others can see its waiter.
Under it every step is one of the cases of `StepSpec`, in which the critical
sections are replaced by their specifications; all invariants of the system are
proved by cases on it. -/
namespace LuvCoro.Channel

open Transition WaiterPool ParkingQueue

universe u
variable {T : Type u}

/-! ## What an operation may rely on -/

def After.isRecvTask : After T → Bool
  | .recvTask => true
  | _ => false

/-- The operation may still come to use a receiver waiter nobody has seen. -/
def Pc.beforeReceive : Pc T → Bool
  | .idle | .recvReady _ | .recvSuspend _ | .recvForReady _ | .recvForSuspend _ => true
  | .blockingNext => true
  | .notify _ k | .cancelTimers _ k | .wake _ k => k.isRecvTask
  | _ => false

/-- The operation has a sender waiter nobody has seen. -/
def Pc.beforeSend : Pc T → Bool
  | .asyncSendReady | .asyncSendSuspend => true
  | _ => false

namespace Sys

/-- A timer of the operation may still act on its waiter. -/
def Timed (s : Sys T) (i : OpId) : Prop :=
  s.posting i = true ∨ (s.timer i).armed = true ∨ ∃ c, .timerStart i c ∈ s.posted

/-- What holds of one operation. -/
structure OpInv (s : Sys T) (i : OpId) : Prop where
  receiver : (s.pc i).beforeReceive = true → FreshReceiver s.chan i
  sender : (s.pc i).beforeSend = true → ∃ v, FreshSender s.chan i (some v)
  idle : s.pc i = .idle → FreshSender s.chan i none
  timed : s.Timed i → (s.pc i).beforeReceive = false

/-- What a channel operation can rely on at every step. -/
structure Ready (s : Sys T) : Prop where
  wellFormed : WellFormed s.chan
  valid : s.chan.toQueue.Valid
  async : s.chan.async = true
  initialized : s.chan.handleInitialized = true
  op : ∀ i, s.OpInv i

end Sys

/-! ## The cases of a step -/

/-- The channel after the call: `async_send` has created its waiter. -/
def Call.enter (call : Call T) (st : State T) (i : OpId) : State T :=
  match call with
  | .asyncSend v => st.setSender i fun w => { w with value := some v }
  | _ => st

/-- The points of a receive before `await_ready` and before `await_suspend`. -/
inductive ReadyPc : Pc T → Resume → Pc T → Prop
  | recv {optional : Bool} :
      ReadyPc (.recvReady optional) (.recv optional) (.recvSuspend optional)
  | recvFor {timeout : Int} : ReadyPc (.recvForReady timeout) .recvFor (.recvForSuspend timeout)

inductive SuspendPc : Pc T → Resume → Prop
  | recv {optional : Bool} : SuspendPc (.recvSuspend optional) (.recv optional)
  | recvFor {timeout : Int} : SuspendPc (.recvForSuspend timeout) .recvFor

/-- Whether the post of the timer start may begin now. -/
inductive Posts (s : Sys T) (i : OpId) (r : Bool) : Resume → (OpId → Bool) → Prop
  | recv {optional : Bool} : Posts s i r (.recv optional) s.posting
  | recvFor : Posts s i r .recvFor (Function.update s.posting i r)

/-- What a timer of `i` does: it may take the waiter out of the race, after
which it flushes. -/
structure TimerStep (s : Sys T) (i : OpId) (t : Sys T) : Prop where
  timed : s.Timed i
  chan : t.chan = s.chan ∨ (s.chan.receiver i).active = true ∧
    (s.chan.receiver i).completed = false ∧ Expelled s.chan i t.chan ∧ 0 < t.flushCalls
  frame : t = { s with
    chan := t.chan, posted := t.posted, timer := t.timer, flushCalls := t.flushCalls }
  flush : s.flushCalls ≤ t.flushCalls
  posted : s.posted = t.posted ∨ ∃ c, s.posted = .timerStart i c :: t.posted
  armed : ∀ j, (t.timer j).armed = true → s.Timed j

inductive StepSpec (s : Sys T) : Label T → Sys T → Prop
  | start {i : OpId} {loop : Bool} {call : Call T} : s.pc i = .idle →
      StepSpec s (.start i loop call)
        { s with
          onLoop := Function.update s.onLoop i loop
          pc := Function.update s.pc i call.entry
          chan := call.enter s.chan i }
  | send {i : OpId} {v : T} {r : SendOutcome × Locked T} {full : Pc T} {ok : Result T} :
      s.pc i = .send v ∨ s.pc i = .sendWoken v ∨ s.pc i = .trySend v →
      full = .sendWait v ∨ (∃ x, full = .done x) → SendSpec s.chan i v r →
      StepSpec s (.run i) (s.afterSend i r full ok)
  | sendReady {i : OpId} {v : T} {r : Bool × Locked T} : s.pc i = .asyncSendReady →
      FreshSender s.chan i (some v) → AttemptSpec s.chan i v r →
      StepSpec s (.run i) (s.awaitReady i r .asyncSend .asyncSendSuspend)
  | sendSuspend {i : OpId} {v : T} {r : Bool × Locked T} : s.pc i = .asyncSendSuspend →
      FreshSender s.chan i (some v) → SendSuspendSpec s.chan i v r →
      StepSpec s (.run i) (s.awaitSuspend i r .asyncSend)
  | recvReady {i : OpId} {k : Resume} {p q : Pc T} {r : Bool × Locked T} :
      s.pc i = q → ReadyPc q k p → FreshReceiver s.chan i →
      ReadySpec s.chan i (k = .recvFor) r → StepSpec s (.run i) (s.awaitReady i r k p)
  | recvSuspend {i : OpId} {k : Resume} {q : Pc T} {posting : OpId → Bool}
      {r : Bool × Locked T} : s.pc i = q → SuspendPc q k → FreshReceiver s.chan i →
      Posts s i r.1 k posting → SuspendSpec s.chan i (k = .recvFor) r →
      StepSpec s (.run i) { s.awaitSuspend i r k with posting := posting }
  | tryRecv {i : OpId} {r : Option T × Locked T} : s.pc i = .tryRecv → TakeSpec s.chan i r →
      StepSpec s (.run i) ((s.commit r.2).goto i (.notify r.2.flags (.ret (.value r.1))))
  | next {i : OpId} {v : T} {l : Locked T} : s.pc i = .blockingNext → s.onLoop i = false →
      TakeSpec s.chan i (some v, l) →
      StepSpec s (.run i) ((s.commit l).goto i (.notify l.flags (.ret (.value (some v)))))
  | nextNothing {i : OpId} {st' : State T} {p : Pc T} : s.pc i = .blockingNext →
      s.chan.messages = [] → Pruned s.chan st' →
      s.chan.closed = true ∧ p = .done (.value none) ∨
        s.chan.closed = false ∧ p = .notify {} .recvTask →
      StepSpec s (.run i) ({ s with chan := st' }.goto i p)
  | nextOnLoop {i : OpId} : s.pc i = .blockingNext → s.onLoop i = true →
      StepSpec s (.run i) (s.goto i (.done (.thrown nextOnLoopError)))
  | close {i : OpId} {st' : State T} {timers : List OpId} : s.pc i = .close →
      WellFormed st' → Outcome noOne s.chan st' → st'.toQueue = s.chan.toQueue.close →
      st'.async = s.chan.async → st'.handleInitialized = s.chan.handleInitialized →
      (∀ j ∈ s.chan.activeReceivers, (st'.receiver j).exception = some .closedError ∧
        (st'.receiver j).value = (s.chan.receiver j).value) →
      StepSpec s (.run i) (Sys.goto { s with
        chan := st'
        log := s.log ++ s.chan.parked.map fun g => .failed g.1 g.2 } i
          (.closeNotify (!s.chan.handleClosing) timers))
  | closeNotify {i : OpId} {schedule : Bool} {timers : List OpId} :
      s.pc i = .closeNotify schedule timers →
      StepSpec s (.run i) (s.notifyAll.goto i (.closeTimers schedule timers))
  | closeTimer {i t : OpId} {schedule : Bool} {timers : List OpId} :
      s.pc i = .closeTimers schedule (t :: timers) →
      StepSpec s (.run i) (((s.post (.timerCancel t)).getD s).goto i (.closeTimers schedule timers))
  | closeTimersDone {i : OpId} {schedule : Bool} : s.pc i = .closeTimers schedule [] →
      StepSpec s (.run i) (s.goto i (if schedule then .closePost else .done .unit))
  | closePost {i : OpId} : s.pc i = .closePost → s.shuttingDown = false →
      StepSpec s (.run i) ({ s with posted := s.posted ++ [Posted.closeChannel] }.goto i (.done .unit))
  | closePostFailed {i : OpId} : s.pc i = .closePost → s.shuttingDown = true →
      StepSpec s (.run i) (s.goto i (.done (.thrown shuttingDownError)))
  | notify {i : OpId} {f : Flags} {k : After T} : s.pc i = .notify f k →
      StepSpec s (.run i)
        ((if f.notifyBlockedSenders then s.notifyAll else s).goto i (.cancelTimers f k))
  | cancelTimer {i t : OpId} {ts : List OpId} {f : Flags} {k : After T} :
      s.pc i = .cancelTimers f k → f.timersToCancel = t :: ts →
      StepSpec s (.run i) (((s.post (.timerCancel t)).getD s).goto i
        (.cancelTimers { f with timersToCancel := ts } k))
  | cancelTimersDone {i : OpId} {f : Flags} {k : After T} : s.pc i = .cancelTimers f k →
      StepSpec s (.run i) (s.goto i (.wake f k))
  | wakeNothing {i : OpId} {f : Flags} {k : After T} : s.pc i = .wake f k → f.wakeLoop = false →
      StepSpec s (.run i) (s.goto i (k.continue s.chan i))
  | wakeFlush {i : OpId} {f : Flags} {k : After T} : s.pc i = .wake f k → f.wakeLoop = true →
      StepSpec s (.run i)
        ({ s with flushCalls := s.flushCalls + 1 }.goto i (k.continue s.chan i))
  | wakeClosing {i : OpId} {f : Flags} {k : After T} : s.pc i = .wake f k → f.wakeLoop = true →
      s.asyncClosing = true → s.onLoop i = false →
      StepSpec s (.run i) (s.goto i (.done (.thrown asyncClosingError)))
  | wakeAsync {i : OpId} {f : Flags} {k : After T} : s.pc i = .wake f k → f.wakeLoop = true →
      s.asyncClosing = false →
      StepSpec s (.run i) ({ s with asyncPending := true }.goto i (k.continue s.chan i))
  | spurious {i : OpId} {v : T} : s.pc i = .sendWait v →
      StepSpec s (.spurious i) (s.goto i (.sendWoken v))
  | posted {i : OpId} {c : Bool} : s.posting i = true → s.shuttingDown = false →
      StepSpec s (.post i) { s with
        posting := Function.update s.posting i false, posted := s.posted ++ [.timerStart i c] }
  | postFailed {i : OpId} {st' : State T} {wake : Bool} : s.posting i = true →
      s.shuttingDown = true → st' = s.chan ∨ Expelled s.chan i st' ∧ wake = true →
      StepSpec s (.post i) (({ s with
        chan := st', posting := Function.update s.posting i false }.continueInline i).goto i
          (.notify { wakeLoop := wake } (.resume .recvFor)))
  | timer {i : OpId} {l : Label T} {t : Sys T} :
      l = .timerFire i ∨ (∃ rcInit rcStart, l = .runPosted rcInit rcStart) →
      TimerStep s i t → StepSpec s l t
  | timerCancel {i : OpId} {ps : List Posted} {rcInit rcStart : Int} {tm : OpId → TimerState} :
      s.posted = .timerCancel i :: ps →
      (∀ j, (tm j).armed = true → (s.timer j).armed = true) →
      StepSpec s (.runPosted rcInit rcStart) { s with posted := ps, timer := tm }
  | closeChannel {ps : List Posted} {rcInit rcStart : Int} : s.posted = .closeChannel :: ps →
      StepSpec s (.runPosted rcInit rcStart)
        { s with posted := ps, flushCalls := s.flushCalls + 1, closeStarted := true }
  | onAsync : s.asyncPending = true → s.asyncClosing = false →
      StepSpec s .onAsync { s with asyncPending := false, flushCalls := s.flushCalls + 1 }
  | flushSwap {n : Nat} : s.flushCalls = n + 1 →
      StepSpec s .flushSwap { s with
        chan := { s.chan with readyReceivers := [], readySenders := [] }
        flushCalls := n
        flushing := s.flushing ++ [s.chan.readyReceivers ++ s.chan.readySenders] }
  | flushResume {q : Nat} {w : OpId} {ws : List OpId} {k : Resume} :
      s.flushing[q]? = some (w :: ws) → s.pc w = .suspended k →
      StepSpec s (.flushResume q) ({ s with
        flushing := s.flushing.set q ws
        resumed := Function.update s.resumed w (s.resumed w + 1) }.goto w (.notify {} (.resume k)))
  | flushStray {q : Nat} {w : OpId} {ws : List OpId} :
      s.flushing[q]? = some (w :: ws) → (∀ k, s.pc w ≠ .suspended k) →
      StepSpec s (.flushResume q) { s with
        flushing := s.flushing.set q ws
        resumed := Function.update s.resumed w (s.resumed w + 1) }
  | closeHandle : s.closeStarted = true → s.flushCalls = 0 →
      StepSpec s .closeHandle { s with asyncClosing := true }
  | shutdown : StepSpec s .shutdown { s with shuttingDown := true }

/-! ## Every step is one of them -/

section
variable {s t : Sys T} {i : OpId}

theorem Sys.post_eq (s : Sys T) (p : Posted) :
    s.post p = if s.shuttingDown then none else some { s with posted := s.posted ++ [p] } := rfl

theorem runOp_spec (hr : s.Ready) (h : runOp s i = some t) : StepSpec s (.run i) t := by
  have hop := hr.op i
  cases hpc : s.pc i with
  | idle | sendWait _ | suspended _ | done _ =>
    simp [runOp, hpc] at h
  | send v =>
    simp only [runOp, hpc, Option.some.injEq] at h
    subst h
    refine .send (.inl hpc) ?_ (trySend_spec hr.wellFormed i v)
    by_cases hl : s.onLoop i = true
    · exact .inr ⟨_, by rw [if_pos hl]⟩
    · exact .inl (by rw [if_neg hl])
  | sendWoken v =>
    simp only [runOp, hpc, Option.some.injEq] at h
    subst h
    exact .send (.inr (.inl hpc)) (.inl rfl) (wokenSend_spec hr.wellFormed i v)
  | trySend v =>
    simp only [runOp, hpc, Option.some.injEq] at h
    subst h
    exact .send (.inr (.inr hpc)) (.inr ⟨_, rfl⟩) (trySend_spec hr.wellFormed i v)
  | asyncSendReady =>
    simp only [runOp, hpc, Option.some.injEq] at h
    subst h
    obtain ⟨v, hf⟩ := hop.sender (by rw [hpc]; rfl)
    exact .sendReady hpc hf (attempt_spec hr.wellFormed hf.queue (by rw [hf.record]))
  | asyncSendSuspend =>
    simp only [runOp, hpc, Option.some.injEq] at h
    subst h
    obtain ⟨v, hf⟩ := hop.sender (by rw [hpc]; rfl)
    exact .sendSuspend hpc hf (asyncSendSuspend_spec hr.wellFormed hf)
  | recvReady optional =>
    simp only [runOp, hpc, Option.some.injEq] at h
    subst h
    have hf := hop.receiver (by rw [hpc]; rfl)
    exact .recvReady hpc .recv hf (recvReady_spec hr.wellFormed hr.valid hf)
  | recvSuspend optional =>
    simp only [runOp, hpc, Option.some.injEq] at h
    subst h
    have hf := hop.receiver (by rw [hpc]; rfl)
    have hs := @recvSuspend_spec _ _ _ (Resume.recv optional = .recvFor) hr.wellFormed hr.valid hf
    have hp : (s.awaitSuspend i (recvSuspendLocked s.chan i) (.recv optional)).posting =
        s.posting := by
      unfold Sys.awaitSuspend; split <;> rfl
    have := StepSpec.recvSuspend hpc .recv hf .recv hs
    rwa [← hp] at this
  | recvForReady timeout =>
    simp only [runOp, hpc, Option.some.injEq] at h
    subst h
    have hf := hop.receiver (by rw [hpc]; rfl)
    exact .recvReady hpc .recvFor hf
      (recvForReady_spec rfl hr.wellFormed hr.valid hf timeout)
  | recvForSuspend timeout =>
    simp only [runOp, hpc, Option.some.injEq] at h
    subst h
    have hf := hop.receiver (by rw [hpc]; rfl)
    have hp : (s.awaitSuspend i (recvForSuspendLocked s.chan i timeout) .recvFor).posting =
        s.posting := by
      unfold Sys.awaitSuspend; split <;> rfl
    rw [hp]
    exact .recvSuspend hpc .recvFor hf .recvFor
      (recvForSuspend_spec rfl hr.wellFormed hr.valid hf timeout)
  | tryRecv =>
    simp only [runOp, hpc, Option.some.injEq] at h
    subst h
    exact .tryRecv hpc (take_spec hr.wellFormed hr.valid i)
  | blockingNext =>
    simp only [runOp, hpc] at h
    split at h
    · rename_i hl
      cases h
      exact .nextOnLoop hpc hl
    · rename_i hl
      have hspec := take_spec hr.wellFormed hr.valid i
      unfold blockingNextSection at h
      generalize takeLocked s.chan i = r at hspec h
      obtain ⟨v?, l⟩ := r
      cases v? with
      | some v =>
        cases h
        exact .next hpc (by simpa using hl) hspec
      | none =>
        cases hspec with
        | nothing hm hp =>
          rename_i st'
          have hcl : st'.closed = s.chan.closed := hp.keeps.closed
          have hh : st'.handleClosing = s.chan.closed :=
            hp.keeps.handleClosing.trans hr.wellFormed.closing
          simp only [hcl, hh, Bool.or_self] at h
          by_cases hc : s.chan.closed = true
          · simp only [hc, if_true, Option.some.injEq] at h
            subst h
            have := StepSpec.nextNothing hpc hm hp (.inl ⟨hc, rfl⟩)
            simpa [Sys.commit] using this
          · simp only [hc, Bool.false_eq_true, if_false, Option.some.injEq] at h
            subst h
            have := StepSpec.nextNothing hpc hm hp (.inr ⟨by simpa using hc, rfl⟩)
            simpa [Sys.commit, Locked.flags] using this
  | close =>
    simp only [runOp, hpc, Option.some.injEq] at h
    subst h
    obtain ⟨st', timers, he, hw, hout, hq, hinit, hasync, hex⟩ := close_spec hr.wellFormed
    rw [he]
    exact .close hpc hw hout hq hasync hinit hex
  | closeNotify schedule timers =>
    simp only [runOp, hpc, Option.some.injEq] at h
    subst h
    exact .closeNotify hpc
  | closeTimers schedule timers =>
    cases timers with
    | nil =>
      simp only [runOp, hpc, Option.some.injEq] at h
      subst h
      exact .closeTimersDone hpc
    | cons t ts =>
      simp only [runOp, hpc, Option.some.injEq] at h
      subst h
      exact .closeTimer hpc
  | closePost =>
    simp only [runOp, hpc, Sys.post_eq] at h
    by_cases hs : s.shuttingDown = true
    · simp only [hs, if_true, Option.some.injEq] at h
      subst h
      exact .closePostFailed hpc hs
    · rw [if_neg hs] at h
      cases h
      exact .closePost hpc (by simpa using hs)
  | notify f k =>
    simp only [runOp, hpc, Option.some.injEq] at h
    subst h
    exact .notify hpc
  | cancelTimers f k =>
    simp only [runOp, hpc] at h
    cases hts : f.timersToCancel with
    | nil =>
      simp only [hts, Option.some.injEq] at h
      subst h
      exact .cancelTimersDone hpc
    | cons t ts =>
      simp only [hts, Option.some.injEq] at h
      subst h
      exact .cancelTimer hpc hts
  | wake f k =>
    simp only [runOp, hpc] at h
    by_cases hw : f.wakeLoop = true
    · simp only [hw, Bool.not_true, Bool.false_eq_true, if_false, hr.async, Bool.false_or] at h
      by_cases hl : s.onLoop i = true
      · simp only [hl, if_true, Option.some.injEq] at h
        subst h
        exact .wakeFlush hpc hw
      · by_cases hc : s.asyncClosing = true
        · simp only [hl, Bool.false_eq_true, if_false, hc, if_true, Option.some.injEq] at h
          subst h
          exact .wakeClosing hpc hw hc (by simpa using hl)
        · rw [if_neg hl, if_neg hc] at h
          cases h
          exact .wakeAsync hpc hw (by simpa using hc)
    · have hw' : f.wakeLoop = false := by simpa using hw
      simp only [hw', Bool.not_false, if_true, Option.some.injEq] at h
      subst h
      exact .wakeNothing hpc hw'

theorem runPosting_spec (hr : s.Ready) (h : runPosting s i = some t) : StepSpec s (.post i) t := by
  unfold runPosting at h
  by_cases hp : s.posting i = true
  · rw [if_pos hp] at h
    dsimp only [Sys.post_eq] at h
    by_cases hs : s.shuttingDown = true
    · rw [if_pos hs] at h
      cases h
      refine .postFailed hp hs ?_
      unfold recvForPostFailedLocked
      rcases expel_spec hr.wellFormed i fun r => { r with exception := some shuttingDownError } with
        he | ⟨_, _, st', he, hx⟩
      · exact .inl (by rw [he])
      · rw [he]
        exact .inr ⟨hx, rfl⟩
    · rw [if_neg hs] at h
      cases h
      exact .posted hp (by simpa using hs)
  · rw [if_neg hp] at h
    cases h

/-- `timer_state::fail` and `timer_state::fire` act on the channel alike. -/
theorem timerStep_expel (hr : s.Ready) (ht : s.Timed i) (f : ReceiverWaiter T → ReceiverWaiter T)
    {ps : List Posted} (hps : s.posted = ps ∨ ∃ c, s.posted = .timerStart i c :: ps)
    {tm : OpId → TimerState} (htm : ∀ j, (tm j).armed = true → s.Timed j) :
    TimerStep s i { s with
      chan := (expelReceiverLocked s.chan i f).2, posted := ps, timer := tm,
      flushCalls := s.flushCalls + 1 } := by
  refine ⟨ht, ?_, rfl, Nat.le_succ _, hps, htm⟩
  rcases expel_spec hr.wellFormed i f with he | ⟨ha, hc, st', he, hx⟩
  · exact .inl (by rw [he])
  · rw [he]
    exact .inr ⟨ha, hc, hx, Nat.succ_pos _⟩

theorem closeHandle_armed (x : TimerState) : x.closeHandle.armed = true → x.armed = true := by
  unfold TimerState.closeHandle
  split
  · exact id
  · exact nofun

theorem setTimer_armed (tm : OpId → TimerState) (i : OpId) (x : TimerState) {j : OpId}
    (h : (Function.update tm i x j).armed = true) : j = i ∨ (tm j).armed = true := by
  by_cases hj : j = i
  · exact .inl hj
  · rw [Function.update_of_ne hj] at h
    exact .inr h

theorem timerStart_spec (hr : s.Ready) {ps : List Posted}
    (hps : s.posted = .timerStart i true :: ps) (rcInit rcStart : Int) :
    TimerStep s i (Sys.timerStart { s with posted := ps } i rcInit rcStart) := by
  have ht : s.Timed i := .inr (.inr ⟨true, by rw [hps]; exact List.mem_cons_self⟩)
  have hps' : s.posted = ps ∨ ∃ c, s.posted = .timerStart i c :: ps := .inr ⟨true, hps⟩
  have harm : ∀ x j, (Function.update s.timer i x j).armed = true → s.Timed j := fun x j h => by
    rcases setTimer_armed s.timer i x h with rfl | hj
    · exact ht
    · exact .inr (.inl hj)
  have harm' : ∀ x y j, (Function.update (Function.update s.timer i x) i y j).armed = true →
      s.Timed j := fun x y j h => by
    rw [Function.update_idem] at h
    exact harm y j h
  unfold Sys.timerStart
  split
  · exact ⟨ht, .inl rfl, rfl, Nat.le_refl _, hps', fun j h => .inr (.inl h)⟩
  split
  · exact ⟨ht, .inl rfl, rfl, Nat.le_refl _, hps', fun j h => .inr (.inl h)⟩
  dsimp only
  split
  · exact timerStep_expel hr ht _ hps' (harm _)
  split
  · exact timerStep_expel hr ht _ hps' (harm' _ _)
  · exact ⟨ht, .inl rfl, rfl, Nat.le_refl _, hps', harm' _ _⟩

theorem runPosted_spec (hr : s.Ready) {rcInit rcStart : Int}
    (h : runPosted s rcInit rcStart = some t) : StepSpec s (.runPosted rcInit rcStart) t := by
  unfold runPosted at h
  split at h
  · cases h
  · rename_i i captured ps hps
    split at h
    · rename_i hc
      cases h
      subst hc
      exact .timer (.inr ⟨rcInit, rcStart, rfl⟩) (timerStart_spec hr hps rcInit rcStart)
    · cases h
  · rename_i i ps hps
    cases h
    refine .timerCancel hps fun j hj => ?_
    by_cases he : j = i
    · subst he
      rw [Function.update_self] at hj
      exact closeHandle_armed { s.timer j with canceled := true } hj
    · rwa [Function.update_of_ne he] at hj
  · rename_i ps hps
    cases h
    exact .closeChannel hps

theorem timerFire_spec (hr : s.Ready) (h : timerFire s i = some t) :
    TimerStep s i t := by
  unfold timerFire at h
  split at h
  · rename_i ha
    cases h
    refine timerStep_expel hr (.inr (.inl ha)) _ (.inl rfl) fun j hj => ?_
    rcases setTimer_armed s.timer i _ hj with rfl | hj
    · exact .inr (.inl ha)
    · exact .inr (.inl hj)
  · cases h

/-- Only a call that has not begun begins. -/
theorem start_spec {i : OpId} {loop : Bool} {call : Call T}
    (h : StepSpec s (.start i loop call) t) : s.pc i = .idle ∧
      t = { s with
        onLoop := Function.update s.onLoop i loop
        pc := Function.update s.pc i call.entry
        chan := call.enter s.chan i } := by
  cases h with
  | start hpc => exact ⟨hpc, rfl⟩
  | timer hlab _ => rcases hlab with h | ⟨_, _, h⟩ <;> cases h

/-- The inversion lemma of the channel system. -/
theorem step_spec (hr : s.Ready) {l : Label T} (h : step s l = some t) : StepSpec s l t := by
  cases l with
  | start i loop call =>
    unfold step startCall at h
    cases hpc : s.pc i with
    | idle =>
      have := @StepSpec.start _ s i loop call hpc
      cases call <;> simp only [hpc, Option.some.injEq] at h <;> subst h <;> exact this
    | _ => simp [hpc] at h
  | run i => exact runOp_spec hr h
  | post i => exact runPosting_spec hr h
  | spurious i =>
    unfold step at h
    cases hpc : s.pc i with
    | sendWait v =>
      simp only [hpc, Option.some.injEq] at h
      subst h
      exact .spurious hpc
    | _ => simp [hpc] at h
  | runPosted rcInit rcStart => exact runPosted_spec hr h
  | timerFire i => exact .timer (.inl rfl) (timerFire_spec hr h)
  | onAsync =>
    simp only [step, Option.ite_none_right_eq_some, Bool.and_eq_true, Bool.not_eq_true',
      Option.some.injEq] at h
    obtain ⟨⟨hp, hc⟩, rfl⟩ := h
    exact .onAsync hp hc
  | flushSwap =>
    simp only [step, flushSwap] at h
    split at h
    · cases h
    · rename_i n hn
      cases h
      exact .flushSwap hn
  | flushResume q =>
    simp only [step, flushResume] at h
    split at h
    · rename_i w ws hq
      cases hpc : s.pc w with
      | suspended k =>
        simp only [hpc, Option.some.injEq] at h
        subst h
        exact .flushResume hq hpc
      | _ =>
        simp only [hpc, Option.some.injEq] at h
        subst h
        exact .flushStray hq (by simp [hpc])
    · cases h
  | closeHandle =>
    simp only [step, Option.ite_none_right_eq_some, Bool.and_eq_true, beq_iff_eq,
      Option.some.injEq] at h
    obtain ⟨⟨hs, hn⟩, rfl⟩ := h
    exact .closeHandle hs hn
  | shutdown =>
    cases h
    exact .shutdown

end

end LuvCoro.Channel
