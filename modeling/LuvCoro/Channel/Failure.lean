import LuvCoro.Channel.History

/-! # What a failed send has delivered

A send that throws is not in the row of the accepted sends or among those that
`close` has failed, unless what it throws comes from `uv_async_send`, after its
value was placed. -/
namespace LuvCoro.Channel

open Transition WaiterPool ParkingQueue

universe u
variable {T : Type u} {s t : Sys T} {l : Label T} {i : OpId}

/-- The value of a sender that `close` has failed stays where nobody takes it. -/
theorem failed_not_received (h : Reachable (system T) s) {i : OpId} (hf : i ∈ s.failedSenders) :
    ¬ s.ReceivedFrom i := by
  have hist := reachable_sendHistory h
  obtain ⟨front, ho⟩ := hist.ordered
  have hcount : s.taken.length ≤ front.length := by
    have hc := congrArg List.length (balanced h)
    have ha := congrArg List.length ho
    rw [s.parkedValues_eq, ← s.failedBy_values, ← s.acceptedBy_values] at hc
    simp only [List.length_append, List.length_map] at hc ha
    omega
  have hsenders : s.senders =
      front.map Prod.fst ++ (s.chan.parked.map Prod.fst ++ s.failedSenders) := by
    unfold Sys.senders Sys.failedSenders
    rw [ho, List.map_append, List.map_append]
  intro hr
  have hfront : i ∈ front.map Prod.fst := by
    unfold Sys.ReceivedFrom at hr
    rw [hsenders, List.take_append_of_le_length (by rwa [List.length_map])] at hr
    exact List.mem_of_mem_take hr
  have hn := hist.nodup
  rw [hsenders] at hn
  exact (List.nodup_append.mp hn).2.2 i hfront i (List.mem_append_right _ hf) rfl

/-- `uv_async_send` of a send past its section is not refused. -/
def Wakes (s : Sys T) : Label T → Prop
  | .run i => ∀ f k, s.pc i = .wake f k → k.ofSend = true → f.wakeLoop = true →
      s.onLoop i = true ∨ s.asyncClosing = false
  | _ => True

/-- A send that has thrown is not in the history, or `close` has failed it. -/
def ThrownFailed (s : Sys T) : Prop :=
  ∀ j e, s.pc j = .done (.thrown e) → j ∈ s.senders → j ∈ s.failedSenders

theorem thrownFailed_step (hi : Inv s) (h : SendHistory s) (ht : ThrownFailed s)
    (hg : Wakes s l) (hs : step s l = some t) : ThrownFailed t := by
  intro j e hpc hj
  have hspec := step_spec hi.ready hs
  have hist := history_step hi.ready hs hspec
  rcases hist.mem_senders hj with hold | hown
  · refine hist.mem_failed ?_
    rcases (onward_step hspec j).thrown e hpc (h.sent j hold).1 with hd | he | hw
    · exact ht j e hd hold
    · refine h.error j hold ?_
      rw [he]
      simp
    · obtain ⟨rfl, f, k, hwake, hk, hf, hl, hc⟩ := hw
      rcases hg f k hwake hk hf with hon | hopen
      · rw [hl] at hon
        cases hon
      · rw [hc] at hopen
        cases hopen
  · exact absurd hpc (Pc.not_done hown.after _)

theorem reachable_thrownFailed (h : ReachableBy (system T) Wakes s) : ThrownFailed s := by
  refine h.invariant ?_ fun s l t hr hI hg hs =>
    thrownFailed_step (reachable_inv hr.reachable) (reachable_sendHistory hr.reachable) hI hg hs
  rintro s ⟨capacity, rfl⟩ j e _ hj
  cases hj

/-- The operation puts no value into the channel any more, and `close` has failed
the one it put there. -/
structure Failed (i : OpId) (s : Sys T) : Prop where
  past : (s.pc i).unsent = false
  failed : i ∈ s.senders → i ∈ s.failedSenders

theorem failed_step {i : OpId} (hi : Inv s) (h : Failed i s) (hs : step s l = some t) :
    Failed i t := by
  have hspec := step_spec hi.ready hs
  have hist := history_step hi.ready hs hspec
  constructor
  · by_contra hne
    have hu := (onward_step hspec i).unsent (by simpa using hne)
    rw [h.past] at hu
    cases hu
  · intro hj
    rcases hist.mem_senders hj with hold | hown
    · exact hist.mem_failed (h.failed hold)
    · have hu := hown.before
      rw [h.past] at hu
      cases hu

/-- Without a refused wake-up, a send that throws has delivered nothing, and
nothing of it is delivered later. -/
theorem failed_send_unreceived {i : OpId} {e : Error} {ls : List (Label T)}
    (h : ReachableBy (system T) Wakes s) (hd : s.pc i = .done (.thrown e))
    (hr : run (system T) s ls = some t) : ¬ t.ReceivedFrom i := by
  have hfailed : Failed i s := ⟨by rw [hd]; rfl, reachable_thrownFailed h i e hd⟩
  have hafter : Failed i t := h.reachable.run_invariant hfailed
    (fun s l t hr hI hs => failed_step (reachable_inv hr) hI hs) hr
  intro hrec
  exact failed_not_received (h.reachable.run hr) (hafter.failed (List.mem_of_mem_take hrec)) hrec

theorem wakes_of (h : ∀ f k, s.pc i = .wake f k → f.wakeLoop = false) : Wakes s (.run i) := by
  intro f k hpc _ hf
  rw [h f k hpc] at hf
  cases hf

/-- Send 1 waits behind a full buffer; `close` fails it, its value stays out, and
the message before it is still received. -/
theorem failed_send_unreceived_parked : ∃ s : Sys Nat, ReachableBy (system Nat) Wakes s ∧
    s.pc 1 = .done (.thrown .closedError) ∧
    ∃ t, run (system Nat) s [.start 3 true .tryRecv, .run 3] = some t ∧
      t.taken = [7] ∧ ¬ t.ReceivedFrom 1 := by
  have h₀ : ReachableBy (system Nat) Wakes (Sys.new 1) := .init ⟨1, rfl⟩
  have h₁ := h₀.step (l := .start 0 false (.trySend 7)) (by trivial) rfl
  have h₂ := h₁.step (l := .run 0) (wakes_of fun f k h => by cases h) rfl
  have h₃ := h₂.step (l := .start 1 true (.asyncSend 8)) (by trivial) rfl
  have h₄ := h₃.step (l := .run 1) (wakes_of fun f k h => by cases h) rfl
  have h₅ := h₄.step (l := .run 1) (wakes_of fun f k h => by cases h) rfl
  have h₆ := h₅.step (l := .start 2 false .close) (by trivial) rfl
  have h₇ := h₆.step (l := .run 2) (wakes_of fun f k h => by cases h) rfl
  have h₈ := h₇.step (l := .run 2) (wakes_of fun f k h => by cases h) rfl
  have h₉ := h₈.step (l := .run 2) (wakes_of fun f k h => by cases h) rfl
  have h₁₀ := h₉.step (l := .run 2) (wakes_of fun f k h => by cases h) rfl
  have h₁₁ := h₁₀.step (l := .runPosted 0 0) (by trivial) rfl
  have h₁₂ := h₁₁.step (l := .flushSwap) (by trivial) rfl
  have h₁₃ := h₁₂.step (l := .flushResume 0) (by trivial) rfl
  have h₁₄ := h₁₃.step (l := .run 1) (wakes_of fun f k h => by cases h) rfl
  have h₁₅ := h₁₄.step (l := .run 1) (wakes_of fun f k h => by cases h) rfl
  have h₁₆ := h₁₅.step (l := .run 1) (wakes_of fun f k h => by cases h; rfl) rfl
  have hout := failed_send_unreceived (i := 1) (e := .closedError) h₁₆ rfl
    (show run (system Nat) _ [.start 3 true .tryRecv, .run 3] = some _ from rfl)
  exact ⟨_, h₁₆, rfl, _, rfl, rfl, hout⟩

/-- Send 1 hands its value to receiver 0; before it calls `uv_async_send`, the
posted closure of `close` resumes the receiver and closes the handle. -/
theorem thrown_send_received : ∃ s : Sys Nat, Reachable (system Nat) s ∧
    s.pc 1 = .done (.thrown asyncClosingError) ∧ s.ReceivedFrom 1 ∧
      s.pc 0 = .done (.value (some 7)) := by
  have hr := (reachable_new (T := Nat) 1).run
    (show run (system Nat) _ [.start 0 true .recv, .run 0, .run 0, .start 1 false (.send 7), .run 1,
      .run 1, .run 1, .start 2 false .close, .run 2, .run 2, .run 2, .run 2, .runPosted 0 0,
      .flushSwap, .flushResume 0, .run 0, .run 0, .run 0, .closeHandle, .run 1] = some _ from rfl)
  exact ⟨_, hr, rfl, List.mem_singleton.mpr rfl, rfl⟩

/-! ## The condition is exact -/

theorem placeSend_wakes {st : State T} {v : T}
    (h : (placeSendLocked { state := st } i v).wakeLoop = true) : st.activeReceivers ≠ [] := by
  intro hnil
  unfold placeSendLocked at h
  simp only [(popReceiver_nil hnil).1] at h
  cases h

theorem sendNow_wakes {st : State T} (hw : WellFormed st) {r : SendOutcome × Locked T} {v : T}
    (hr : r = match canSendNowLocked st with
      | (ok, st) => if ok then (.placed, placeSendLocked { state := st } i v)
        else (.full, { state := st }))
    (h : r.2.wakeLoop = true) : st.activeReceivers ≠ [] := by
  obtain ⟨st', he, hp⟩ := canSendNow_spec hw
  rw [he] at hr
  subst hr
  dsimp only at h
  split at h
  · rw [← show st'.activeReceivers = st.activeReceivers from hp.receivers]
    exact placeSend_wakes h
  · cases h

theorem trySend_wakes {st : State T} (hw : WellFormed st) {v : T}
    (h : (trySendLocked st i v).2.wakeLoop = true) : st.activeReceivers ≠ [] := by
  unfold trySendLocked at h
  split at h
  · cases h
  · split at h
    · cases h
    · exact sendNow_wakes hw rfl h

theorem wokenSend_wakes {st : State T} (hw : WellFormed st) {v : T}
    (h : (wokenSendLocked st i v).2.wakeLoop = true) : st.activeReceivers ≠ [] := by
  unfold wokenSendLocked at h
  split at h
  · cases h
  · exact sendNow_wakes hw rfl h

theorem attempt_wakes {st : State T} (hw : WellFormed st)
    (h : (asyncSendAttempt st i).2.wakeLoop = true) : st.activeReceivers ≠ [] := by
  unfold asyncSendAttempt at h
  split at h
  · cases h
  · split at h
    · cases h
    · obtain ⟨st', he, hp⟩ := canSendNow_spec hw
      rw [he] at h
      dsimp only at h
      split at h
      · split at h
        · rw [← show st'.activeReceivers = st.activeReceivers from hp.receivers]
          exact placeSend_wakes h
        · cases h
      · cases h

theorem asyncSendSuspend_wakes {st : State T} (hw : WellFormed st) (hq : i ∉ st.senderWaiters)
    (h : (asyncSendSuspendLocked st i).2.wakeLoop = true) : st.activeReceivers ≠ [] := by
  have hset := section_setSender hw hq fun s => { s with continuation := true }
  have hwakes := attempt_wakes (i := i) hset.wellFormed
  unfold asyncSendSuspendLocked at h
  dsimp only at h hwakes
  generalize asyncSendAttempt (st.setSender i fun s => { s with continuation := true }) i = r
    at h hwakes
  obtain ⟨ok, l⟩ := r
  cases ok with
  | true => exact hwakes h
  | false => exact hwakes h

section
variable {j : OpId}

/-- A value given while a receiver waits is taken at once. -/
theorem given_received (hi : Inv s) (ht : Reachable (system T) t) {v : T}
    (ha : s.chan.activeReceivers ≠ []) (hq : t.chan.toQueue = s.chan.toQueue.give v)
    (hl : t.log = s.log ++ sendEvents s.chan j v) : t.ReceivedFrom j := by
  obtain ⟨hm, hg, hc⟩ := hi.ready.valid.takers ha
  have hgive : ∃ ts, t.chan.toQueue = { s.chan.toQueue with takers := ts } := by
    rw [hq]
    unfold Queue.give
    split
    · rename_i hnil
      exact absurd hnil ha
    · exact ⟨_, rfl⟩
  obtain ⟨ts, hts⟩ := hgive
  have hmessages : t.chan.messages = [] := (congrArg Queue.buffer hts).trans hm
  have hparked : t.chan.parked = [] := (congrArg Queue.givers hts).trans hg
  have hfailed : t.failed = [] := by
    have hopen : t.chan.closed = false := (congrArg Queue.closed hts).trans hc
    rw [← t.failedBy_values, failedBy_open (reachable_inv ht) hopen]
    rfl
  have hall : t.taken = t.accepted := by
    have hcons := balanced ht
    rw [t.parkedValues_eq, hmessages, hparked, hfailed] at hcons
    simpa using hcons
  have hlength : t.taken.length = t.senders.length := by
    rw [hall, ← t.acceptedBy_values]
    simp [Sys.senders]
  unfold Sys.ReceivedFrom
  rw [hlength, List.take_length]
  refine List.mem_map.mpr ⟨(j, v), ?_, rfl⟩
  unfold Sys.acceptedBy
  rw [hl, List.filterMap_append]
  exact List.mem_append_right _ (List.mem_filterMap.mpr ⟨.accepted j v, by simp [sendEvents], rfl⟩)

theorem SendSpec.received {v : T} {r : SendOutcome × Locked T} {full : Pc T} {ok : Result T}
    (h : SendSpec s.chan j v r) (hi : Inv s) (hfull : full.handing = false)
    (hwake : r.2.wakeLoop = true → s.chan.activeReceivers ≠ [])
    (ht : Reachable (system T) (s.afterSend j r full ok))
    (hh : ((s.afterSend j r full ok).pc j).handing = true) :
    (s.afterSend j r full ok).ReceivedFrom j := by
  have hlog := afterSend_log s j r full ok
  have hchan := afterSend_chan s j r full ok
  cases h with
  | thrown _ =>
    unfold Sys.afterSend at hh
    rw [goto_self] at hh
    cases hh
  | full _ _ _ =>
    unfold Sys.afterSend at hh
    rw [goto_self, hfull] at hh
    cases hh
  | @placed l ha _ hq hev _ _ =>
    have hw : l.wakeLoop = true := by
      unfold Sys.afterSend at hh
      rw [goto_self] at hh
      exact (Bool.and_eq_true_iff.mp hh).2
    refine given_received hi ht (v := v) (hwake hw) ?_ ?_
    · rw [hchan]
      exact hq
    · rw [hlog, hev]

theorem AttemptSpec.received {v : T} {r : Bool × Locked T} (h : AttemptSpec s.chan j v r)
    (hi : Inv s) (hwake : r.2.wakeLoop = true → s.chan.activeReceivers ≠ [])
    (ht : Reachable (system T) (s.awaitReady j r .asyncSend .asyncSendSuspend))
    (hh : ((s.awaitReady j r .asyncSend .asyncSendSuspend).pc j).handing = true) :
    (s.awaitReady j r .asyncSend .asyncSendSuspend).ReceivedFrom j := by
  unfold Sys.awaitReady at hh
  rw [goto_self] at hh
  cases h with
  | thrown _ _ _ _ _ => cases hh
  | full _ _ _ => cases hh
  | placed ha _ hq hev _ _ _ _ _ =>
    refine given_received hi ht (hwake hh) hq ?_
    rw [awaitReady_log, hev]

theorem SendSuspendSpec.received {v : T} {r : Bool × Locked T}
    (h : SendSuspendSpec s.chan j v r) (hi : Inv s)
    (hwake : r.2.wakeLoop = true → s.chan.activeReceivers ≠ [])
    (ht : Reachable (system T) (s.awaitSuspend j r .asyncSend))
    (hh : ((s.awaitSuspend j r .asyncSend).pc j).handing = true) :
    (s.awaitSuspend j r .asyncSend).ReceivedFrom j := by
  have hlog := awaitSuspend_log s j r .asyncSend
  have hchan := awaitSuspend_chan s j r .asyncSend
  unfold Sys.awaitSuspend at hh
  cases h with
  | parked _ _ _ _ _ _ =>
    rw [if_pos rfl, goto_self] at hh
    cases hh
  | thrown _ _ _ _ _ =>
    rw [if_neg (by simp), goto_self] at hh
    cases hh
  | placed ha _ hq hev _ _ _ _ _ =>
    rw [if_neg (by simp), goto_self] at hh
    refine given_received hi ht (v := v) (hwake hh) ?_ ?_
    · rw [hchan]
      exact hq
    · rw [hlog, hev]

theorem section_received (hr : Reachable (system T) s) (hs : step s (.run j) = some t)
    (hu : (s.pc j).unsent = true) (hh : (t.pc j).handing = true) : t.ReceivedFrom j := by
  have hi := reachable_inv hr
  have hw := hi.ready.wellFormed
  have ht : Reachable (system T) t := ReachableBy.step (l := .run j) hr trivial hs
  cases hpc : s.pc j with
  | idle | sendWait _ => simp [step, runOp, hpc] at hs
  | send v =>
    simp only [step, runOp, hpc, Option.some.injEq] at hs
    subst hs
    refine (trySend_spec hw j v).received hi ?_ (trySend_wakes hw) ht hh
    split <;> rfl
  | sendWoken v =>
    simp only [step, runOp, hpc, Option.some.injEq] at hs
    subst hs
    exact (wokenSend_spec hw j v).received hi rfl (wokenSend_wakes hw) ht hh
  | trySend v =>
    simp only [step, runOp, hpc, Option.some.injEq] at hs
    subst hs
    exact (trySend_spec hw j v).received hi rfl (trySend_wakes hw) ht hh
  | asyncSendReady =>
    simp only [step, runOp, hpc, Option.some.injEq] at hs
    subst hs
    obtain ⟨v, hf⟩ := (hi.ready.op j).sender (by rw [hpc]; rfl)
    have hspec := attempt_spec hw hf.queue (v := v) (by rw [hf.record])
    exact hspec.received hi (attempt_wakes hw) ht hh
  | asyncSendSuspend =>
    simp only [step, runOp, hpc, Option.some.injEq] at hs
    subst hs
    obtain ⟨v, hf⟩ := (hi.ready.op j).sender (by rw [hpc]; rfl)
    exact (asyncSendSuspend_spec hw hf).received hi (asyncSendSuspend_wakes hw hf.queue) ht hh
  | _ =>
    rw [hpc] at hu
    cases hu

/-- What has been received stays received. -/
theorem received_step (hi : Inv s) (hs : step s l = some t) (h : s.ReceivedFrom j) :
    t.ReceivedFrom j := by
  have hspec := step_spec hi.ready hs
  have htaken : s.taken.length ≤ t.taken.length := by
    rcases step_moved hi.ready hspec with he | ⟨m, he⟩
    · exact Nat.le_of_eq (congrArg (fun g => g.taken.length) he).symm
    · exact (step_taken he).length_le
  have hsenders : s.senders <+: t.senders := by
    rcases (history_step hi.ready hs hspec).senders with he | ⟨i, _, he⟩
    · simp [he]
    · simp [he]
  have htake : s.senders.take s.taken.length <+: t.senders.take t.taken.length :=
    List.prefix_take_iff.mpr ⟨(List.take_prefix _ _).trans hsenders,
      Nat.le_trans (List.length_take_le _ _) htaken⟩
  exact htake.subset h

/-- A send that has the loop to wake has been received. -/
def HandingReceived (s : Sys T) : Prop := ∀ j, (s.pc j).handing = true → s.ReceivedFrom j

theorem reachable_received (h : Reachable (system T) s) : HandingReceived s := by
  refine h.invariant ?_ fun s l t hr hI hs => ?_
  · rintro s ⟨capacity, rfl⟩ j hj
    cases hj
  · intro j hj
    have hi := reachable_inv hr
    rcases (onward_step (step_spec hi.ready hs) j).handing hj with hold | ⟨hu, rfl⟩
    · exact received_step hi hs (hI j hold)
    · exact section_received hr hs hu hj

/-- The first step that does not meet the condition makes a send throw whose
value has been received. -/
theorem refused_received (hr : Reachable (system T) s) (hs : step s l = some t)
    (hbad : ¬ Wakes s l) : ∃ i e, t.pc i = .done (.thrown e) ∧ t.ReceivedFrom i := by
  have hi := reachable_inv hr
  cases l with
  | run i =>
    simp only [Wakes, not_forall] at hbad
    obtain ⟨f, k, hpc, hk, hf, hno⟩ := hbad
    obtain ⟨hl, hc⟩ := not_or.mp hno
    have hrec : s.ReceivedFrom i := by
      refine reachable_received hr i ?_
      rw [hpc]
      exact Bool.and_eq_true_iff.mpr ⟨hk, hf⟩
    have ht := received_step hi hs hrec
    have hstep : step s (.run i) = some (s.goto i (.done (.thrown asyncClosingError))) := by
      simp [step, runOp, hpc, hf, hl, hc, hi.ready.async]
    obtain rfl := Option.some.inj (hs.symm.trans hstep)
    exact ⟨i, asyncClosingError, goto_self .., ht⟩
  | _ => exact absurd trivial hbad

end

end LuvCoro.Channel
