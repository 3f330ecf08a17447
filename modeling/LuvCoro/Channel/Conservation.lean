import LuvCoro.Channel.Refinement

/-! # Conservation, order and the representation invariant

What the refinement says about the channel itself, over all its runs. -/
namespace LuvCoro.Channel

open Transition ParkingQueue

universe u
variable {T : Type u} {s t : Sys T}

namespace Sys

/-- The values taken by receivers, in lock order. -/
def taken (s : Sys T) : List T := s.log.filterMap Event.taken?

/-- The values a send has placed or parked, in lock order. -/
def accepted (s : Sys T) : List T := s.log.filterMap Event.accepted?

/-- The values of the senders `close` has failed. -/
def failed (s : Sys T) : List T := s.log.filterMap Event.failed?

/-- The values of the senders still waiting, in queue order. -/
def parkedValues (s : Sys T) : List T :=
  s.chan.activeSenders.filterMap fun w => (s.chan.sender w).value

theorem parkedValues_eq (s : Sys T) : s.parkedValues = s.chan.parked.map Prod.snd := by
  unfold parkedValues State.parked
  induction s.chan.activeSenders with
  | nil => rfl
  | cons w ws ih =>
    cases hv : (s.chan.sender w).value with
    | none => simpa [hv] using ih
    | some v => simpa [hv] using ih

end Sys

/-- The balance of the parking queue, in the words of the channel. -/
theorem balanced (h : Reachable (system T) s) :
    s.taken ++ (s.chan.messages ++ s.parkedValues) ++ s.failed = s.accepted := by
  rw [s.parkedValues_eq]
  exact (reachable_inv h).sound.balanced

/-- No value is lost, duplicated or overtaken. -/
theorem conservation (h : Reachable (system T) s) :
    s.taken ++ s.chan.messages ++ s.parkedValues ++ s.failed = s.accepted := by
  have hb : s.taken ++ (s.chan.messages ++ s.chan.parked.map Prod.snd) ++ s.failed = s.accepted :=
    (reachable_inv h).sound.balanced
  rw [s.parkedValues_eq, List.append_assoc s.taken]
  exact hb

theorem conservation_full : ∃ s : Sys Nat, s.taken = [7] ∧ s.chan.messages = [8] ∧
    s.parkedValues = [9] ∧ s.taken ++ s.chan.messages ++ s.parkedValues ++ s.failed = s.accepted :=
  ⟨_, rfl, rfl, rfl, conservation ((reachable_new 1).run
    (show run (system Nat) _ [.start 0 false (.trySend 7), .run 0, .start 1 false .tryRecv, .run 1,
      .start 2 false (.trySend 8), .run 2, .start 3 true (.asyncSend 9), .run 3, .run 3] = some _
      from rfl))⟩

/-! ## The representation invariant -/

theorem active_of_valid (hw : WellFormed s.chan) (hv : s.chan.toQueue.Valid) :
    (s.chan.activeReceivers ≠ [] →
      s.chan.messages = [] ∧ s.chan.activeSenders = [] ∧ s.chan.closed = false) ∧
    (s.chan.activeSenders ≠ [] → 0 < s.chan.capacity ∧
      s.chan.messages.length = s.chan.capacity ∧ s.chan.closed = false) := by
  refine ⟨fun hr => ?_, fun hs => hv.givers fun hg => hs (hw.parked_eq_nil.mp hg)⟩
  obtain ⟨hm, hg, hc⟩ := hv.takers hr
  exact ⟨hm, hw.parked_eq_nil.mp hg, hc⟩

theorem closed_waiters (hw : WellFormed s.chan) (hv : s.chan.toQueue.Valid)
    (hc : s.chan.closed = true) : s.chan.activeReceivers = [] ∧ s.chan.activeSenders = [] := by
  obtain ⟨hr, hs⟩ := active_of_valid hw hv
  constructor
  · by_contra hne
    rw [(hr hne).2.2] at hc
    cases hc
  · by_contra hne
    rw [(hs hne).2.2] at hc
    cases hc

/-- From `s` on, the channel is closed, nobody waits, nothing is accepted, and
the messages leave in order. -/
structure Draining (s t : Sys T) : Prop where
  closed : t.chan.closed = true
  receivers : t.chan.activeReceivers = []
  senders : t.chan.activeSenders = []
  accepted : t.accepted = s.accepted
  drained : ∃ xs, s.chan.messages = xs ++ t.chan.messages ∧ t.taken = s.taken ++ xs

theorem draining_step {s₀ : Sys T} {l : Label T} (hr : Reachable (system T) s)
    (hd : Draining s₀ s) (h : step s l = some t) : Draining s₀ t := by
  have hi := reachable_inv hr
  obtain ⟨hm, hi'⟩ := inv_step hi h
  have hone : t.chan.closed = true ∧ t.accepted = s.accepted ∧
      ∃ xs, s.chan.messages = xs ++ t.chan.messages ∧ t.taken = s.taken ++ xs := by
    rcases hm with he | ⟨m, he⟩
    · have hc : t.chan.closed = s.chan.closed := congrArg (fun g => g.closed) he
      refine ⟨hc.trans hd.closed, congrArg Ledger.given he, [], ?_, ?_⟩
      · exact (congrArg (fun g => g.buffer) he).symm
      · rw [List.append_nil]
        exact congrArg Ledger.taken he
    · exact step_closed hi.ready.valid hd.closed he
  obtain ⟨hc, ha, ys, hys, htk⟩ := hone
  obtain ⟨xs, hxs, htk'⟩ := hd.drained
  obtain ⟨h₁, h₂⟩ := closed_waiters hi'.ready.wellFormed hi'.ready.valid hc
  refine ⟨hc, h₁, h₂, ha.trans hd.accepted, xs ++ ys, ?_, ?_⟩
  · rw [hxs, hys, List.append_assoc]
  · rw [htk, htk', List.append_assoc]

theorem draining_run {ls : List (Label T)} (hr : Reachable (system T) s)
    (hc : s.chan.closed = true) (h : run (system T) s ls = some t) : Draining s t := by
  have hi := reachable_inv hr
  obtain ⟨h₁, h₂⟩ := closed_waiters hi.ready.wellFormed hi.ready.valid hc
  refine hr.run_invariant (I := Draining s) ⟨hc, h₁, h₂, rfl, [], rfl, (List.append_nil _).symm⟩ ?_ h
  exact fun s' l t' hr' hd hs => draining_step hr' hd hs

/-- The operation is about to look at the queue for a value. -/
def Pc.receives : Pc T → Bool
  | .recvReady _ | .recvSuspend _ | .recvForReady _ | .recvForSuspend _ => true
  | .tryRecv | .blockingNext => true
  | _ => false

/-- The value has been handed to `i`, in its waiter or as its result. -/
def Sys.Delivered (t : Sys T) (i : OpId) (v : T) : Prop :=
  (t.chan.receiver i).value = some v ∧ (t.chan.receiver i).exception = none ∧
      (t.chan.receiver i).timedOut = false ∨
    ∃ f, t.pc i = .notify f (.ret (.value (some v)))

/-- `i` has found the channel closed and empty: `closed_error` is in its waiter,
`blocking_next` ends, or `try_recv` has nothing to return. -/
def Sys.ReportedClosed (t : Sys T) (i : OpId) : Prop :=
  (t.chan.receiver i).exception = some .closedError ∨ t.pc i = .done (.value none) ∨
    ∃ f, t.pc i = .notify f (.ret (.value none))

/-- Without parked senders, taking shortens the buffer. -/
theorem take_front {st st' : State T} {v : T} (hg : st.toQueue.givers = [])
    (h : st.toQueue.take = some (v, st'.toQueue)) : st.messages = v :: st'.messages := by
  unfold Queue.take at h
  rw [hg] at h
  cases hm : st.messages with
  | nil =>
    rw [show st.toQueue.buffer = [] from hm] at h
    cases h
  | cons x xs =>
    rw [show st.toQueue.buffer = x :: xs from hm] at h
    obtain ⟨rfl, hq⟩ := Prod.mk.inj (Option.some.inj h)
    rw [show st'.messages = xs from (congrArg Queue.buffer hq).symm]

/-- A receive on a closed channel: the front message while there is one. -/
theorem closed_receive {i : OpId} (hr : Reachable (system T) s) (hc : s.chan.closed = true)
    (hp : (s.pc i).receives = true) (hl : s.pc i = .blockingNext → s.onLoop i = false)
    (h : step s (.run i) = some t) :
    (∀ v ms, s.chan.messages = v :: ms →
      t.chan.messages = ms ∧ t.log = s.log ++ [.taken i v] ∧ t.Delivered i v) ∧
    (s.chan.messages = [] → t.log = s.log ∧ t.ReportedClosed i) := by
  have hi := reachable_inv hr
  have hw := hi.ready.wellFormed
  have hg : s.chan.toQueue.givers = [] :=
    hw.parked_eq_nil.mpr (closed_waiters hw hi.ready.valid hc).2
  -- a receive that takes takes the front, and one that takes nothing needs an empty buffer
  have htake : ∀ {v : T} {st' : State T}, s.chan.toQueue.take = some (v, st'.toQueue) →
      t.chan = st' → t.log = s.log ++ [.taken i v] → t.Delivered i v →
      (∀ w ms, s.chan.messages = w :: ms →
        t.chan.messages = ms ∧ t.log = s.log ++ [.taken i w] ∧ t.Delivered i w) ∧
      (s.chan.messages = [] → t.log = s.log ∧ t.ReportedClosed i) := by
    intro v st' ht hchan hlog hd
    have hm := take_front hg ht
    refine ⟨fun w ms hwm => ?_, fun he => ?_⟩
    · rw [hm] at hwm
      cases hwm
      exact ⟨congrArg State.messages hchan, hlog, hd⟩
    · rw [he] at hm
      cases hm
  have hnone : s.chan.messages = [] → t.log = s.log → t.ReportedClosed i →
      (∀ w ms, s.chan.messages = w :: ms →
        t.chan.messages = ms ∧ t.log = s.log ++ [.taken i w] ∧ t.Delivered i w) ∧
      (s.chan.messages = [] → t.log = s.log ∧ t.ReportedClosed i) := by
    intro he hlog hrep
    refine ⟨fun w ms hwm => ?_, fun _ => ⟨hlog, hrep⟩⟩
    rw [he] at hwm
    cases hwm
  cases step_spec hi.ready h with
  | recvReady _ _ hf hs =>
    cases hs with
    | nothing _ ho _ =>
      rw [ho] at hc
      cases hc
    | expired _ ho _ _ _ _ _ _ =>
      rw [ho] at hc
      cases hc
    | found hfound =>
      cases hfound with
      | value ht _ hev _ hrec _ =>
        refine htake ht rfl ?_ (.inl ?_)
        · rw [awaitReady_log, hev]
        · rw [awaitReady_chan, hrec, hf.record]
          exact ⟨rfl, rfl, rfl⟩
      | closed hm _ _ _ hev _ hrec _ =>
        refine hnone hm ?_ (.inl ?_)
        · rw [awaitReady_log, hev, List.append_nil]
        · rw [awaitReady_chan, hrec]
          rfl
  | recvSuspend _ _ _ _ hs =>
    cases hs with
    | parked _ ho _ _ _ _ =>
      rw [ho] at hc
      cases hc
    | expired _ ho _ _ _ _ _ _ =>
      rw [ho] at hc
      cases hc
    | value ht _ hev _ hrec =>
      refine htake ht rfl ?_ (.inl ⟨congrArg ReceiverWaiter.value hrec,
        congrArg ReceiverWaiter.exception hrec, congrArg ReceiverWaiter.timedOut hrec⟩)
      exact congrArg (s.log ++ ·) hev
    | closed hm _ _ _ hev _ hrec =>
      refine hnone hm ?_ (.inl (congrArg ReceiverWaiter.exception hrec))
      exact (congrArg (s.log ++ ·) hev).trans (List.append_nil _)
  | tryRecv _ hs =>
    cases hs with
    | nothing hm hp => exact hnone hm (List.append_nil _) (.inr (.inr ⟨_, goto_self ..⟩))
    | value ht _ hev _ =>
      refine htake ht rfl ?_ (.inr ⟨_, goto_self ..⟩)
      rw [goto_log, commit_log, hev]
  | next _ _ hs =>
    cases hs with
    | value ht _ hev _ =>
      refine htake ht rfl ?_ (.inr ⟨_, goto_self ..⟩)
      rw [goto_log, commit_log, hev]
  | nextNothing _ hm _ hcase =>
    rcases hcase with ⟨_, rfl⟩ | ⟨ho, _⟩
    · exact hnone hm rfl (.inr (.inl (goto_self ..)))
    · rw [ho] at hc
      cases hc
  | send hpc _ _ => rcases hpc with hpc | hpc | hpc <;> simp [hpc, Pc.receives] at hp
  | nextOnLoop hpc hon =>
    rw [hl hpc] at hon
    cases hon
  | timer hlab _ => rcases hlab with h | ⟨_, _, h⟩ <;> cases h
  | _ => simp_all [Pc.receives]

/-- The four clauses of the channel's representation. -/
theorem representation (h : Reachable (system T) s) :
    (0 < s.chan.capacity → s.chan.messages.length ≤ s.chan.capacity) ∧
    (s.chan.activeReceivers ≠ [] →
      s.chan.messages = [] ∧ s.chan.activeSenders = [] ∧ s.chan.closed = false) ∧
    (s.chan.activeSenders ≠ [] → 0 < s.chan.capacity ∧
      s.chan.messages.length = s.chan.capacity ∧ s.chan.closed = false) ∧
    (s.chan.closed = true →
      (∀ ls t, run (system T) s ls = some t → Draining s t) ∧
      ∀ i t, (s.pc i).receives = true → (s.pc i = .blockingNext → s.onLoop i = false) →
        step s (.run i) = some t →
          (∀ v ms, s.chan.messages = v :: ms →
            t.chan.messages = ms ∧ t.log = s.log ++ [.taken i v] ∧ t.Delivered i v) ∧
          (s.chan.messages = [] → t.log = s.log ∧ t.ReportedClosed i)) := by
  have hi := reachable_inv h
  obtain ⟨hr, hs⟩ := active_of_valid hi.ready.wellFormed hi.ready.valid
  exact ⟨hi.ready.valid.bounded, hr, hs, fun hc => ⟨fun ls t => draining_run h hc,
    fun i t hp hl hst => closed_receive h hc hp hl hst⟩⟩

/-- A message buffered before `close` is still received after it. -/
theorem representation_closed : ∃ t : Sys Nat, run (system Nat) (Sys.new 1)
    [.start 0 false (.trySend 7), .run 0, .start 1 false .close, .run 1, .start 2 false .tryRecv,
      .run 2] = some t ∧ t.chan.messages = [] ∧ t.Delivered 2 7 := by
  have hr := (reachable_new (T := Nat) 1).run
    (show run (system Nat) _ [.start 0 false (.trySend 7), .run 0, .start 1 false .close, .run 1,
      .start 2 false .tryRecv] = some _ from rfl)
  obtain ⟨hm, _, hd⟩ := (((representation hr).2.2.2 rfl).2 2 _ rfl nofun rfl).1 7 [] rfl
  exact ⟨_, rfl, hm, hd⟩

end LuvCoro.Channel
