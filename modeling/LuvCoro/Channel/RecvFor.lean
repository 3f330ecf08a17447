import LuvCoro.Channel.TimedWait

/-! # What a `recv_for` returns

The calls of `recv_for` that queue a waiter, with a record of what ended each
wait. Such a call returns what ended its wait first, and its timer is closed
once. What may go wrong is the post of the timer start: `await_suspend` reads
`waiter->timer` after it has left the lock, and whoever completes the waiter
resets that pointer. -/
namespace LuvCoro.Channel

open Transition WaiterPool ParkingQueue

universe u
variable {T : Type u} {s t : Sys T} {l : Label T} {i j : OpId}

/-! ## Before the waiter is queued -/

/-- A receive that goes on to its next look has changed nothing. -/
theorem look_unowed (h : StepSpec s (.run i) t) (hs : (s.pc i).beforeReceive = true)
    (ht : (t.pc i).beforeReceive = true) :
    t.owed i = s.owed i ∧ (i ∈ t.chan.senderWaiters → i ∈ s.chan.senderWaiters) := by
  have hsame : t.chan = s.chan → t.flushing = s.flushing →
      t.owed i = s.owed i ∧ (i ∈ t.chan.senderWaiters → i ∈ s.chan.senderWaiters) := by
    intro hc hf
    unfold Sys.owed
    rw [hc, hf]
    exact ⟨rfl, id⟩
  have hpruned : ∀ {st : State T}, Pruned s.chan st → t.chan = st → t.flushing = s.flushing →
      t.owed i = s.owed i ∧ (i ∈ t.chan.senderWaiters → i ∈ s.chan.senderWaiters) := by
    rintro st hp rfl hf
    unfold Sys.owed
    rw [hp.readyReceivers, hp.readySenders, hf]
    exact ⟨rfl, fun hq => hp.senderWaiters.subset hq⟩
  have hpast : ∀ {p : Pc T}, t.pc i = p → p.past →
      t.owed i = s.owed i ∧ (i ∈ t.chan.senderWaiters → i ∈ s.chan.senderWaiters) := by
    intro p he hp
    rw [he, hp.1] at ht
    cases ht
  have hnever : ∀ {p : Pc T}, s.pc i = p → p.beforeReceive = false →
      t.owed i = s.owed i ∧ (i ∈ t.chan.senderWaiters → i ∈ s.chan.senderWaiters) := by
    intro p he hp
    rw [he, hp] at hs
    cases hs
  cases h with
  | send hpc _ _ =>
    rcases hpc with hpc | hpc | hpc
    · exact hnever hpc rfl
    · exact hnever hpc rfl
    · exact hnever hpc rfl
  | recvReady _ _ _ hr =>
    cases hr with
    | nothing _ _ hp => exact hpruned hp rfl rfl
    | expired _ _ _ _ _ _ _ _ => exact hpast (goto_self ..) (past_resume _ _)
    | found _ => exact hpast (goto_self ..) (past_resume _ _)
  | recvSuspend _ _ _ _ hr =>
    cases hr with
    | parked _ _ _ _ _ _ => exact hpast (goto_self ..) ⟨rfl, rfl, nofun⟩
    | value _ _ _ _ _ => exact hpast (goto_self ..) (past_resume _ _)
    | closed _ _ _ _ _ _ _ => exact hpast (goto_self ..) (past_resume _ _)
    | expired _ _ _ _ _ _ _ _ => exact hpast (goto_self ..) (past_resume _ _)
  | next _ _ _ => exact hpast (goto_self ..) (past_ret _ _)
  | nextNothing _ _ hp _ => exact hpruned hp rfl rfl
  | nextOnLoop _ _ => exact hsame rfl rfl
  | notify _ =>
    exact hsame (by rw [goto_chan]; split <;> rfl) (by dsimp only [Sys.goto]; split <;> rfl)
  | cancelTimer _ _ => exact hsame (post_chan s _).1 (post_flushing s _).1
  | cancelTimersDone _ => exact hsame rfl rfl
  | wakeNothing _ _ => exact hsame rfl rfl
  | wakeFlush _ _ => exact hsame rfl rfl
  | wakeClosing _ _ _ _ => exact hsame rfl rfl
  | wakeAsync _ _ _ => exact hsame rfl rfl
  | timer hlab _ => rcases hlab with he | ⟨_, _, he⟩ <;> cases he
  | sendReady hpc _ _ | sendSuspend hpc _ _ | tryRecv hpc _ | close hpc _ _ _ _ _ _
  | closeNotify hpc | closeTimer hpc | closeTimersDone hpc | closePost hpc _
  | closePostFailed hpc _ => exact hnever hpc rfl

/-- A receive whose waiter is not known to others is owed nothing. -/
theorem fresh_unowed (h : Reachable (system T) s) (hb : (s.pc i).beforeReceive = true) :
    i ∉ s.chan.senderWaiters ∧ s.owed i = 0 := by
  revert hb
  refine h.invariant (I := fun s => (s.pc i).beforeReceive = true →
    i ∉ s.chan.senderWaiters ∧ s.owed i = 0) ?_ ?_
  · rintro s ⟨capacity, rfl⟩ _
    exact ⟨List.not_mem_nil, rfl⟩
  intro s l t hr hI hs hb'
  have hi := reachable_inv hr
  have hspec := step_spec hi.ready hs
  have hb : (s.pc i).beforeReceive = true := by
    cases hx : (s.pc i).beforeReceive with
    | true => rfl
    | false => rw [past_receive hspec hx] at hb'; cases hb'
  obtain ⟨hsnd, h0⟩ := hI hb
  have hop := hi.ready.op i
  by_cases hrun : l = .run i
  · subst hrun
    obtain ⟨he, hq⟩ := look_unowed hspec hb hb'
    exact ⟨fun hm => hsnd (hq hm), he.trans h0⟩
  by_cases hl : ∃ loop call, l = .start i loop call
  · obtain ⟨loop, call, rfl⟩ := hl
    cases hspec with
    | start hidle =>
      have hsame : (call.enter s.chan i).senderWaiters = s.chan.senderWaiters ∧
          (call.enter s.chan i).readyReceivers = s.chan.readyReceivers ∧
          (call.enter s.chan i).readySenders = s.chan.readySenders := by
        cases call <;> exact ⟨rfl, rfl, rfl⟩
      refine ⟨by rw [hsame.1]; exact hsnd, ?_⟩
      unfold Sys.owed at h0 ⊢
      rw [hsame.2.1, hsame.2.2]
      exact h0
    | timer hlab _ => rcases hlab with he | ⟨_, _, he⟩ <;> cases he
  have hstart : ∀ loop call, l ≠ .start i loop call := fun loop call he => hl ⟨loop, call, he⟩
  have hbs : (s.pc i).beforeSend = false := by
    cases hp : s.pc i with
    | asyncSendReady | asyncSendSuspend => rw [hp] at hb; cases hb
    | _ => rfl
  have hu : ¬ s.Timed i := by
    intro ht
    rw [hop.timed ht] at hb
    cases hb
  have hna : i ∉ s.chan.activeReceivers := fun hm =>
    (hop.receiver hb).queue (List.mem_of_mem_filter hm)
  exact ⟨sender_step hspec hbs hstart hsnd, owed_step hspec (fun ht => absurd ht hu) hbs hstart hsnd
    (fun he => absurd he hrun) (fun hm => absurd hm hna) h0⟩

/-- The section of `await_suspend` that queues the waiter. -/
theorem queue_parked (hr : Reachable (system T) s) (h : step s l = some t) {timeout : Int}
    (hpc : s.pc i = .recvForSuspend timeout) (hpc' : t.pc i = .suspended .recvFor) :
    0 < timeout ∧ Parked t i ∧ i ∉ t.chan.senderWaiters := by
  have hi := reachable_inv hr
  have hspec := step_spec hi.ready h
  have hb : (s.pc i).beforeReceive = true := by rw [hpc]; rfl
  obtain ⟨hsnd, h0⟩ := fresh_unowed hr hb
  have hop := hi.ready.op i
  have hu : ¬ s.Timed i := by
    intro ht
    rw [hop.timed ht] at hb
    cases hb
  obtain rfl : l = .run i := by
    by_contra hrun
    rcases pc_others hspec (untimed_post hspec hu) hrun ⟨by simp [hpc], by simp [hpc]⟩ with
      he | ⟨_, k, hk, _⟩
    · rw [he, hpc] at hpc'
      cases hpc'
    · rw [hpc] at hk
      cases hk
  have hf := hop.receiver hb
  have hrun : runOp s i = some t := h
  simp only [runOp, hpc, Option.some.injEq] at hrun
  subst hrun
  have hspec' := @recvForSuspend_spec _ s.chan i True trivial hi.ready.wellFormed hi.ready.valid hf
    timeout
  have hrec := @recvForSuspend_parked _ i s.chan timeout hi.ready.wellFormed hi.ready.valid hf
  generalize recvForSuspendLocked s.chan i timeout = r at hspec' hrec hpc' ⊢
  have hdone : ∀ {p : Locked T}, (s.awaitSuspend i (false, p) .recvFor).pc i ≠
      .suspended .recvFor := by
    intro p he
    cases (goto_self ..).symm.trans he
  cases hspec' with
  | @parked st' _ _ hq hs hcount _ =>
    obtain ⟨hpos, hrec⟩ := hrec rfl
    have hact : st'.activeReceivers = s.chan.activeReceivers ++ [i] := congrArg Queue.takers hq
    have hw : i ∉ s.chan.senders.waiting := fun hm => hsnd (Pool.mem_waiting.mp hm).1
    have hrs : st'.readySenders.count i = s.chan.readySenders.count i :=
      (hs.senders.idle (by simp) hw).2
    refine ⟨hpos, ⟨hpc', ?_, hrec, ?_⟩, fun hm => hsnd (hs.senders.mem i (by simp) hm)⟩
    · exact hact ▸ List.mem_append_right _ (List.mem_singleton.mpr rfl)
    · unfold Sys.owed at h0 ⊢
      rw [← hcount, ← hrs] at h0
      exact h0
  | value _ _ _ _ _ => exact absurd hpc' hdone
  | closed _ _ _ _ _ _ _ => exact absurd hpc' hdone
  | expired _ _ _ _ _ _ _ _ => exact absurd hpc' hdone

/-! ## The history of the waits -/

/-- The channel, with what became of every `recv_for` that queued its waiter and
of every timer. -/
structure Traced (T : Type u) where
  sys : Sys T
  queued : OpId → Bool := fun _ => false
  ending : OpId → Option (Ending T) := fun _ => none
  /-- The timer has been armed. -/
  started : OpId → Bool := fun _ => false

/-- One step of the channel; the history is written down and never read. -/
def Traced.step (s : Traced T) (l : Label T) : Option (Traced T) :=
  (Channel.step s.sys l).map fun t =>
    { sys := t
      queued := fun i => s.queued i || t.posting i
      ending := fun i => if s.queued i then s.sys.nextEnding l t i (s.ending i) else s.ending i
      started := fun i => s.started i || (t.timer i).armed }

def traced (T : Type u) : System (Traced T) (Label T) where
  init s := ∃ capacity, s = { sys := Sys.new capacity }
  step := Traced.step

/-- Nobody has completed the waiter of `i` when its `recv_for` reads the timer for
the post of the start. -/
def Unraced (s : Sys T) : Label T → Prop
  | .post i => (s.chan.receiver i).completed = false
  | _ => True

/-- What the calls of `recv_for` that queued a waiter have to show. -/
structure Outcomes (s : Traced T) : Prop where
  /-- The posted start closure holds a timer. -/
  captured : ∀ i c, .timerStart i c ∈ s.sys.posted → c = true
  value : ∀ i r v, s.queued i = true → s.sys.pc i = .done r →
    (r = .value (some v) ↔ s.ending i = some (.sent v))
  nothing : ∀ i r, s.queued i = true → s.sys.pc i = .done r →
    (r = .value none ↔ s.ending i = some .fired)
  closed : ∀ i r, s.queued i = true → s.sys.pc i = .done r →
    (r = .thrown .closedError ↔ s.ending i = some .closed)
  /-- A timer that was started is closed when it is no longer armed, and once. -/
  once : ∀ i, s.started i = true →
    (s.sys.timer i).closes = if (s.sys.timer i).armed then 0 else 1
  /-- An armed timer will fire unless it is cancelled, and is closed then. -/
  due : ∀ i, (s.sys.timer i).armed = true →
    ∃ t, Channel.step s.sys (.timerFire i) = some t ∧ (t.timer i).closes = 1

/-! ## What holds in every run -/

/-- The history agrees with the channel. -/
structure Traced.Kept (s : Traced T) : Prop where
  reachable : Reachable (system T) s.sys
  posting : ∀ i, s.sys.posting i = true → s.queued i = true
  fresh : ∀ i, s.queued i = false → s.ending i = none
  wait : ∀ i, s.queued i = true → Wait s.sys i (s.ending i) ∧ i ∉ s.sys.chan.senderWaiters
  clock : ∀ i, Clock s.sys i
  ran : ∀ i, s.started i = true → (s.sys.timer i).Ran

theorem kept_init (capacity : Nat) : Traced.Kept ({ sys := Sys.new capacity } : Traced T) :=
  ⟨reachable_new capacity, nofun, fun _ _ => rfl, nofun, clock_init capacity, nofun⟩

theorem Wait.later {e : Option (Ending T)} (h : Wait s i e) :
    (s.pc i).beforeSend = false ∧ s.pc i ≠ .idle := by
  cases h with
  | parked hp => rw [hp.pc]; exact ⟨rfl, nofun⟩
  | ended he => exact ⟨he.pc.later.2.1, he.pc.later.2.2.2.1⟩

/-- The waiters that are queued stay out of the senders' queue. -/
theorem Wait.unsent {e : Option (Ending T)} (h : Wait s i e) (hs : step s l = some t)
    (hi : Inv s) (hsnd : i ∉ s.chan.senderWaiters) : i ∉ t.chan.senderWaiters := by
  have hspec := step_spec hi.ready hs
  refine sender_step hspec h.later.1 ?_ hsnd
  rintro loop call rfl
  cases hspec with
  | start hidle => exact h.later.2 hidle
  | timer hlab _ => rcases hlab with he | ⟨_, _, he⟩ <;> cases he

/-- The step lemma of the history. -/
theorem kept_step {s t : Traced T} (hk : s.Kept) (h : s.step l = some t) : t.Kept := by
  obtain ⟨u, hu, rfl⟩ := Option.map_eq_some_iff.mp h
  have hi := reachable_inv hk.reachable
  have hspec := step_spec hi.ready hu
  refine ⟨hk.reachable.next hu, fun i hp => ?_, fun i hq => ?_, fun i hq => ?_,
    fun i => clock_step_kept hi hu (hk.clock i), fun i hst => ?_⟩
  · simp [show u.posting i = true from hp]
  · have hq' : s.queued i = false := by
      cases hx : s.queued i with
      | false => rfl
      | true => simp [hx] at hq
    simp [hq', hk.fresh i hq']
  · cases hx : s.queued i with
    | true =>
      obtain ⟨hw, hsnd⟩ := hk.wait i hx
      simp only [hx, if_true]
      exact ⟨wait_step hi hw hsnd hu, hw.unsent hu hi hsnd⟩
    | false =>
      have hp : u.posting i = true := by simpa [hx] using hq
      have hnot : s.sys.posting i ≠ true := fun hp' => by rw [hk.posting i hp'] at hx; cases hx
      obtain ⟨⟨timeout, hpc⟩, hpc'⟩ := (posting_of_step hspec hp).resolve_left hnot
      obtain ⟨_, hparked, hsnd⟩ := queue_parked hk.reachable hu hpc hpc'
      simp only [hx, Bool.false_eq_true, if_false, hk.fresh i hx]
      exact ⟨.parked hparked, hsnd⟩
  · refine ran_step (hk.clock i) (clock_step hi.ready hu i) ?_
    rcases Bool.or_eq_true .. ▸ hst with hst | harm
    · exact .inl (hk.ran i hst)
    · exact .inr harm

theorem traced_kept {good : Traced T → Label T → Prop} {s : Traced T}
    (h : ReachableBy (traced T) good s) : s.Kept := by
  refine h.invariant ?_ fun s l t _ hk _ hs => kept_step hk hs
  rintro s ⟨capacity, rfl⟩
  exact kept_init capacity

/-- A waiter that is posted for is complete exactly when its timer is gone. -/
theorem Traced.Kept.posts {s : Traced T} (hk : s.Kept) (hp : s.sys.posting i = true) :
    (s.sys.chan.receiver i).timer = !(s.sys.chan.receiver i).completed := by
  have hw := (hk.wait i (hk.posting i hp)).1
  generalize s.ending i = e at hw
  cases hw with
  | parked hpk => rw [hpk.record]; rfl
  | ended he => rw [he.timer, he.completed]; rfl

/-- A start closure without a timer is posted by the post that reads none. -/
theorem posted_null (hr : s.Ready) (h : step s l = some t) (hp : .timerStart i false ∈ t.posted) :
    .timerStart i false ∈ s.posted ∨
      l = .post i ∧ s.posting i = true ∧ (s.chan.receiver i).timer = false := by
  have hspec := step_spec hr h
  have haside : Aside s l t → .timerStart i false ∈ s.posted := by
    intro ha
    rcases ha.posted with he | ⟨p, hne, he⟩
    · exact he ▸ hp
    · rw [he, List.mem_append, List.mem_singleton] at hp
      exact hp.resolve_right fun hx => hne i false hx.symm
  cases l with
  | post j =>
    obtain ⟨hposting, ⟨_, rfl⟩ | ⟨_, _, hs, _⟩⟩ := runPosting_cases h
    · rcases List.mem_append.mp hp with hp | hp
      · exact .inl hp
      · obtain ⟨rfl, hc⟩ := Posted.timerStart.inj (List.mem_singleton.mp hp)
        exact .inr ⟨rfl, hposting, hc.symm⟩
    · exact .inl (hs ▸ hp)
  | timerFire j =>
    have hfire : timerFire s j = some t := h
    unfold timerFire at hfire
    split at hfire
    · cases hfire
      exact .inl hp
    · cases hfire
  | runPosted rcInit rcStart =>
    obtain ⟨p, he⟩ := runPosted_tail h
    exact .inl (he ▸ List.mem_cons_of_mem p hp)
  | _ => exact .inl (haside (aside_step hspec nofun nofun nofun))

/-! ## The outcome -/

theorem Ending.Reports.unique {e : Ending T} {r : Result T} (h : e.Reports r) :
    (∀ v, r = .value (some v) ↔ e = .sent v) ∧ (r = .value none ↔ e = .fired) ∧
      (r = .thrown .closedError ↔ e = .closed) := by
  cases e with
  | sent v =>
    obtain rfl : r = .value (some v) := h
    simp [eq_comm]
  | fired =>
    obtain rfl : r = .value none := h
    simp
  | closed =>
    obtain rfl : r = .thrown .closedError := h
    simp
  | failed =>
    obtain ⟨x, hne, rfl⟩ := h
    simp [hne]

/-- A call that queued its waiter returns what ended the wait. -/
theorem Traced.Kept.returns {s : Traced T} (hk : s.Kept) {r : Result T}
    (hq : s.queued i = true) (hpc : s.sys.pc i = .done r) :
    ∃ e, s.ending i = some e ∧ e.Reports r := by
  have hw := (hk.wait i hq).1
  generalize s.ending i = x at hw ⊢
  cases hw with
  | parked hp =>
    rw [hp.pc] at hpc
    cases hpc
  | @ended e he =>
    have hp := he.pc
    rw [hpc] at hp
    cases hp with
    | done hr => exact ⟨e, rfl, hr⟩

theorem Traced.Kept.outcomes {s : Traced T} (hk : s.Kept)
    (hp : ∀ i, .timerStart i false ∉ s.sys.posted) : Outcomes s := by
  have hend : ∀ i r, s.queued i = true → s.sys.pc i = .done r →
      ∃ e, s.ending i = some e ∧ e.Reports r := fun i r hq hpc => hk.returns hq hpc
  refine ⟨fun i c hm => ?_, fun i r v hq hpc => ?_, fun i r hq hpc => ?_, fun i r hq hpc => ?_,
    fun i hs => ?_, fun i ha => ?_⟩
  · cases c with
    | true => rfl
    | false => exact absurd hm (hp i)
  · obtain ⟨e, he, hr⟩ := hend i r hq hpc
    rw [he, Option.some.injEq]
    exact hr.unique.1 v
  · obtain ⟨e, he, hr⟩ := hend i r hq hpc
    rw [he, Option.some.injEq]
    exact hr.unique.2.1
  · obtain ⟨e, he, hr⟩ := hend i r hq hpc
    rw [he, Option.some.injEq]
    exact hr.unique.2.2
  · have hran := hk.ran i hs
    rw [(hk.clock i).sound.closes, hran.2]
    cases (s.sys.timer i).closing <;> rfl
  · refine ⟨_, by simp only [Channel.step, timerFire, ha, if_true]; rfl, ?_⟩
    simp only [Sys.setTimer, Function.update_self]
    exact (hk.clock i).sound.fires ha

/-- As long as no sender and no `close` gets in between the unlock and the post,
every start closure holds a timer, every call of `recv_for` that queued its
waiter returns what ended the wait first, and every timer that was started is
closed once; and a post with somebody in between holds no timer. -/
theorem recv_for_outcomes {s : Traced T}
    (h : ReachableBy (traced T) (fun s l => Unraced s.sys l) s) :
    Outcomes s ∧ ∀ i t, Channel.step s.sys (.post i) = some t → s.sys.shuttingDown = false →
      ∃ c, t.posted = s.sys.posted ++ [.timerStart i c] ∧
        (c = true ↔ Unraced s.sys (.post i)) := by
  have hk := traced_kept h
  have hnull : ∀ i, .timerStart i false ∉ s.sys.posted := by
    refine h.invariant (I := fun s => ∀ i, .timerStart i false ∉ s.sys.posted) ?_ ?_
    · rintro s ⟨capacity, rfl⟩ i
      exact List.not_mem_nil
    intro s l t hr hI hl hs i hm
    have hk := traced_kept hr
    obtain ⟨u, hu, rfl⟩ := Option.map_eq_some_iff.mp hs
    rcases posted_null (reachable_inv hk.reachable).ready hu hm with hm | ⟨rfl, hp, hnot⟩
    · exact hI i hm
    · have hdone : (s.sys.chan.receiver i).completed = false := hl
      rw [hk.posts hp, hdone] at hnot
      cases hnot
  refine ⟨hk.outcomes hnull, fun i t ht hopen => ?_⟩
  obtain ⟨hp, ⟨_, rfl⟩ | ⟨hs, _, _, _⟩⟩ := runPosting_cases ht
  · refine ⟨_, rfl, ?_⟩
    rw [hk.posts hp]
    simp [Unraced]
  · rw [hopen] at hs
    cases hs

/-- A wait that a sender ends after the timer has been started. -/
theorem recv_for_outcomes_sent : ∃ s : Traced Nat, s.queued 0 = true ∧
    s.ending 0 = some (.sent 7) ∧ s.sys.pc 0 = .done (.value (some 7)) ∧ s.started 0 = true ∧
    Outcomes s := by
  have h0 : ReachableBy (traced Nat) (fun s l => Unraced s.sys l) { sys := Sys.new 0 } :=
    .init ⟨0, rfl⟩
  have h1 := h0.run (by simp [Unraced]) (show run (traced Nat) _
    [.start 0 false (.recvFor 10), .run 0, .run 0] = some _ from rfl)
  have h2 := ReachableBy.step (l := .post 0) h1 (by unfold Unraced; rfl)
    (show Traced.step _ _ = some _ from rfl)
  have h3 := h2.run (by simp [Unraced]) (show run (traced Nat) _
    [.runPosted 0 0, .start 1 false (.trySend 7), .run 1, .run 1, .run 1, .run 1, .run 1,
      .runPosted 0 0, .onAsync, .flushSwap, .flushResume 0, .run 0, .run 0, .run 0] =
        some _ from rfl)
  exact ⟨_, rfl, rfl, rfl, rfl, (recv_for_outcomes h3).1⟩

/-- A sender that completes the waiter between the unlock and the post makes
`recv_for` post a start without a timer, which the loop dereferences. -/
theorem recv_for_posts_null : ∃ s : Traced Nat, Reachable (traced Nat) s ∧
    .timerStart 0 false ∈ s.sys.posted ∧
    ∀ rcInit rcStart, Channel.step s.sys (.runPosted rcInit rcStart) = none := by
  have h0 : Reachable (traced Nat) { sys := Sys.new 0 } := .init ⟨0, rfl⟩
  have h := h0.run (show run (traced Nat) _ [.start 0 false (.recvFor 10), .run 0, .run 0,
    .start 1 false (.trySend 7), .run 1, .post 0] = some _ from rfl)
  exact ⟨_, h, List.mem_singleton.mpr rfl, fun _ _ => rfl⟩

end LuvCoro.Channel
