import LuvCoro.Channel.Conservation
import LuvCoro.Channel.SenderErrors

/-! # Whose values have been received

The values come out in the order in which they went in (`conservation`), so the
history tells whose value has been received: the sends that were accepted stand
in a row, of which the first ones have been taken and the last ones have failed. -/
namespace LuvCoro.Channel

open Transition WaiterPool ParkingQueue

universe u
variable {T : Type u} {s t : Sys T} {l : Label T} {i : OpId}

/-! ## Whose values they are -/

def Event.acceptedBy? : Event T → Option (OpId × T)
  | .accepted i v => some (i, v)
  | _ => none

def Event.failedBy? : Event T → Option (OpId × T)
  | .failed i v => some (i, v)
  | _ => none

namespace Sys

/-- The values a send has placed or parked, with the send. -/
def acceptedBy (s : Sys T) : List (OpId × T) := s.log.filterMap Event.acceptedBy?

/-- The values of the senders `close` has failed, with the send. -/
def failedBy (s : Sys T) : List (OpId × T) := s.log.filterMap Event.failedBy?

def senders (s : Sys T) : List OpId := s.acceptedBy.map Prod.fst

def failedSenders (s : Sys T) : List OpId := s.failedBy.map Prod.fst

/-- The value of the send `i` is one of those that have been taken. -/
def ReceivedFrom (s : Sys T) (i : OpId) : Prop := i ∈ s.senders.take s.taken.length

theorem acceptedBy_values (s : Sys T) : s.acceptedBy.map Prod.snd = s.accepted := by
  unfold acceptedBy accepted
  induction s.log with
  | nil => rfl
  | cons e es ih => cases e <;> simpa [List.filterMap_cons, Event.acceptedBy?, Event.accepted?]

theorem failedBy_values (s : Sys T) : s.failedBy.map Prod.snd = s.failed := by
  unfold failedBy failed
  induction s.log with
  | nil => rfl
  | cons e es ih => cases e <;> simpa [List.filterMap_cons, Event.failedBy?, Event.failed?]

end Sys

/-- The values that were taken are those of the first sends accepted. -/
theorem taken_eq (h : Reachable (system T) s) :
    s.taken = (s.acceptedBy.take s.taken.length).map Prod.snd := by
  rw [List.map_take, s.acceptedBy_values, ← balanced h, List.append_assoc, List.take_left]

/-! ## Points of a send -/

/-- What a send does when its section is over. -/
def After.ofSend : After T → Bool
  | .ret .unit | .ret (.sent _) | .resume .asyncSend => true
  | _ => false

namespace Pc

/-- The operation may still put a value into the channel. -/
def unsent : Pc T → Bool
  | .idle | .send _ | .sendWait _ | .sendWoken _ | .trySend _ => true
  | .asyncSendReady | .asyncSendSuspend => true
  | _ => false

/-- The operation is a send past its section. -/
def inFlight : Pc T → Bool
  | .suspended .asyncSend => true
  | .notify _ k | .cancelTimers _ k | .wake _ k => k.ofSend
  | _ => false

/-- The operation is a send past its section, and has the loop to wake. -/
def handing : Pc T → Bool
  | .notify f k | .cancelTimers f k | .wake f k => k.ofSend && f.wakeLoop
  | _ => false

/-- The operation may have put a value into the channel. -/
def sent : Pc T → Bool
  | .done _ => true
  | p => p.inFlight

theorem sent_of_inFlight {p : Pc T} (h : p.inFlight = true) : p.sent = true := by
  cases p with
  | done r => rfl
  | _ => exact h

theorem not_unsent {p : Pc T} (h : p.sent = true) : p.unsent = false := by
  cases p with
  | idle | send _ | sendWait _ | sendWoken _ | trySend _ => cases h
  | asyncSendReady | asyncSendSuspend => cases h
  | _ => rfl

theorem unsent_of_beforeSend {p : Pc T} (h : p.beforeSend = true) : p.unsent = true := by
  cases p with
  | asyncSendReady | asyncSendSuspend => rfl
  | _ => cases h

theorem not_done {p : Pc T} (h : p.inFlight = true) (r : Result T) : p ≠ .done r := by
  intro hd
  rw [hd] at h
  cases h

end Pc

/-- A send that goes on after its section does so as a send. -/
theorem send_inFlight (hs : step s (.run i) = some t) {v : T}
    (hpc : s.pc i = .send v ∨ s.pc i = .sendWoken v ∨ s.pc i = .trySend v)
    {f : Flags} {k : After T} (ht : t.pc i = .notify f k) : k.ofSend = true := by
  have hafter : ∀ {r : SendOutcome × Locked T} {full : Pc T} {ok : Result T},
      (∀ f k, full ≠ .notify f k) → (After.ret ok).ofSend = true →
      t = s.afterSend i r full ok → k.ofSend = true := by
    intro r full ok hfull hok he
    rw [he] at ht
    unfold Sys.afterSend at ht
    split at ht <;> rw [goto_self] at ht
    · cases ht
    · exact absurd ht (hfull f k)
    · cases ht
      exact hok
  rcases hpc with hpc | hpc | hpc <;> simp only [step, runOp, hpc, Option.some.injEq] at hs
  · refine hafter ?_ ?_ hs.symm
    · intro f k
      split <;> simp
    · rfl
  · exact hafter (by simp) rfl hs.symm
  · exact hafter (by simp) rfl hs.symm

/-! ## One step of the history -/

/-- A step of the history; `own` is what is known of a send that is accepted. -/
inductive HistoryStep (own : OpId → Prop) (s t : Sys T) : Prop
  | same : t.chan.parked = s.chan.parked → t.acceptedBy = s.acceptedBy →
      t.failedBy = s.failedBy → HistoryStep own s t
  | left {g : OpId × T} : s.chan.parked = g :: t.chan.parked → t.acceptedBy = s.acceptedBy →
      t.failedBy = s.failedBy → HistoryStep own s t
  | placed {i : OpId} {v : T} : own i → s.chan.closed = false → s.chan.parked = [] →
      t.chan.parked = [] → t.acceptedBy = s.acceptedBy ++ [(i, v)] →
      t.failedBy = s.failedBy → HistoryStep own s t
  | parked {i : OpId} {v : T} : own i → s.chan.closed = false →
      t.chan.parked = s.chan.parked ++ [(i, v)] → t.acceptedBy = s.acceptedBy ++ [(i, v)] →
      t.failedBy = s.failedBy → HistoryStep own s t
  | failed : t.chan.parked = [] → t.acceptedBy = s.acceptedBy →
      t.failedBy = s.failedBy ++ s.chan.parked → HistoryStep own s t

section
variable {own : OpId → Prop}

theorem history_same (hq : t.chan.toQueue = s.chan.toQueue) (hl : t.log = s.log) :
    HistoryStep own s t := by
  refine .same (congrArg Queue.givers hq) ?_ ?_
  · unfold Sys.acceptedBy
    rw [hl]
  · unfold Sys.failedBy
    rw [hl]

/-- A step whose events neither accept nor fail anything. -/
theorem history_quiet {es : List (Event T)} (hl : t.log = s.log ++ es)
    (ha : es.filterMap Event.acceptedBy? = []) (hf : es.filterMap Event.failedBy? = []) :
    t.acceptedBy = s.acceptedBy ∧ t.failedBy = s.failedBy := by
  constructor
  · rw [Sys.acceptedBy, hl, List.filterMap_append, ha, List.append_nil]
    rfl
  · rw [Sys.failedBy, hl, List.filterMap_append, hf, List.append_nil]
    rfl

theorem take_givers {q q' : Queue OpId T} {v : T} (h : q.take = some (v, q')) :
    q'.givers = q.givers ∨ ∃ g, q.givers = g :: q'.givers := by
  unfold Queue.take at h
  split at h
  · cases h
  · rename_i hg
    cases h
    exact .inl rfl
  · rename_i g gs _ hg
    cases h
    exact .inr ⟨g, hg⟩

theorem history_take {j : OpId} {v : T} {st : State T}
    (htake : s.chan.toQueue.take = some (v, st.toQueue)) (hc : t.chan = st)
    (hl : t.log = s.log ++ [.taken j v]) : HistoryStep own s t := by
  obtain ⟨ha, hf⟩ := history_quiet hl rfl rfl
  rw [← hc] at htake
  rcases take_givers htake with hg | ⟨g, hg⟩
  · exact .same hg ha hf
  · exact .left hg ha hf

theorem give_givers (q : Queue OpId T) (v : T) : (q.give v).givers = q.givers := by
  unfold Queue.give
  split <;> rfl

theorem history_give {v : T} {st : State T} (hi : own i) (hacc : s.chan.toQueue.Accepts)
    (hq : st.toQueue = s.chan.toQueue.give v) (hc : t.chan = st)
    (hl : t.log = s.log ++ sendEvents s.chan i v) : HistoryStep own s t := by
  have hsent : (sendEvents s.chan i v).filterMap Event.acceptedBy? = [(i, v)] ∧
      (sendEvents s.chan i v).filterMap Event.failedBy? = [] := by
    unfold sendEvents
    cases s.chan.activeReceivers.head? <;>
      simp [List.filterMap_cons, Event.acceptedBy?, Event.failedBy?]
  have hparked : t.chan.parked = s.chan.parked := by
    rw [hc]
    exact (congrArg Queue.givers hq).trans (give_givers _ v)
  have hnil : s.chan.parked = [] := hacc.2.1
  refine .placed (v := v) hi hacc.1 hnil (hparked.trans hnil) ?_ ?_
  · rw [Sys.acceptedBy, hl, List.filterMap_append, hsent.1]
    rfl
  · rw [Sys.failedBy, hl, List.filterMap_append, hsent.2, List.append_nil]
    rfl

theorem TakeSpec.history {j : OpId} {r : Option T × Locked T} (h : TakeSpec s.chan j r)
    (hc : t.chan = r.2.state) (hl : t.log = s.log ++ r.2.events) : HistoryStep own s t := by
  cases h with
  | nothing _ hp =>
    exact history_same ((congrArg State.toQueue hc).trans hp.toQueue) (hl.trans (List.append_nil _))
  | value htake _ hev _ => exact history_take htake hc (by rw [hl, hev])

theorem ReadySpec.history {j : OpId} {timed : Prop} {r : Bool × Locked T}
    (h : ReadySpec s.chan j timed r) (hc : t.chan = r.2.state)
    (hl : t.log = s.log ++ r.2.events) : HistoryStep own s t := by
  cases h with
  | nothing _ _ hp =>
    exact history_same ((congrArg State.toQueue hc).trans hp.toQueue) (hl.trans (List.append_nil _))
  | expired _ _ _ hq _ _ _ _ =>
    exact history_same ((congrArg State.toQueue hc).trans hq) (hl.trans (List.append_nil _))
  | found hf =>
    cases hf with
    | value htake _ hev _ _ _ => exact history_take htake hc (by rw [hl, hev])
    | closed _ _ _ hq hev _ _ _ =>
      exact history_same ((congrArg State.toQueue hc).trans hq) (by rw [hl, hev, List.append_nil])

theorem SuspendSpec.history {j : OpId} {timed : Prop} {r : Bool × Locked T}
    (h : SuspendSpec s.chan j timed r) (hc : t.chan = r.2.state)
    (hl : t.log = s.log ++ r.2.events) : HistoryStep own s t := by
  cases h with
  | parked _ _ hq _ _ _ =>
    obtain ⟨ha, hf⟩ := history_quiet hl rfl rfl
    exact .same ((congrArg State.parked hc).trans (congrArg Queue.givers hq)) ha hf
  | value htake _ hev _ _ => exact history_take htake hc (by rw [hl, hev])
  | closed _ _ _ hq hev _ _ =>
    exact history_same ((congrArg State.toQueue hc).trans hq) (by rw [hl, hev, List.append_nil])
  | expired _ _ _ hq _ _ _ _ =>
    exact history_same ((congrArg State.toQueue hc).trans hq) (hl.trans (List.append_nil _))

theorem Expelled.history {j : OpId} {st : State T} (h : st = s.chan ∨ Expelled s.chan j st)
    (hc : t.chan = st) (hl : t.log = s.log) : HistoryStep own s t := by
  have hlog : t.log = s.log ++ [] := hl.trans (List.append_nil _).symm
  obtain ⟨ha, hf⟩ := history_quiet hlog rfl rfl
  rcases h with rfl | hx
  · exact .same (congrArg State.parked hc) ha hf
  · exact .same ((congrArg State.parked hc).trans (congrArg Queue.givers hx.toQueue)) ha hf

theorem filterMap_failedBy (gs : List (OpId × T)) :
    (gs.map fun g => Event.failed g.1 g.2).filterMap Event.acceptedBy? = [] ∧
      (gs.map fun g => Event.failed g.1 g.2).filterMap Event.failedBy? = gs := by
  induction gs with
  | nil => exact ⟨rfl, rfl⟩
  | cons g gs ih =>
    simp [Event.acceptedBy?, Event.failedBy?, List.filterMap_cons, ih.1, ih.2]

theorem SendSpec.history {v : T} {r : SendOutcome × Locked T} (h : SendSpec s.chan i v r)
    (hi : r.1 = .placed → own i) (hc : t.chan = r.2.state) (hl : t.log = s.log ++ r.2.events) :
    HistoryStep own s t := by
  cases h with
  | thrown hp =>
    exact history_same ((congrArg State.toQueue hc).trans hp.toQueue) (hl.trans (List.append_nil _))
  | full _ _ hp =>
    exact history_same ((congrArg State.toQueue hc).trans hp.toQueue) (hl.trans (List.append_nil _))
  | placed ha _ hq hev _ _ => exact history_give (hi rfl) ha hq hc (by rw [hl, hev])

theorem AttemptSpec.history {v : T} {r : Bool × Locked T} (h : AttemptSpec s.chan i v r)
    (hi : r.1 = true → own i) (hc : t.chan = r.2.state) (hl : t.log = s.log ++ r.2.events) :
    HistoryStep own s t := by
  cases h with
  | thrown _ hq _ _ _ =>
    exact history_same ((congrArg State.toQueue hc).trans hq) (hl.trans (List.append_nil _))
  | full _ _ hp =>
    exact history_same ((congrArg State.toQueue hc).trans hp.toQueue) (hl.trans (List.append_nil _))
  | placed ha _ hq hev _ _ _ _ _ => exact history_give (hi rfl) ha hq hc (by rw [hl, hev])

theorem SendSuspendSpec.history {v : T} {r : Bool × Locked T}
    (h : SendSuspendSpec s.chan i v r) (hi : own i) (hc : t.chan = r.2.state)
    (hl : t.log = s.log ++ r.2.events) : HistoryStep own s t := by
  cases h with
  | thrown _ hq _ _ _ =>
    exact history_same ((congrArg State.toQueue hc).trans hq) (hl.trans (List.append_nil _))
  | placed ha _ hq hev _ _ _ _ _ => exact history_give hi ha hq hc (by rw [hl, hev])
  | parked hcl _ hq _ _ _ =>
    have hp : t.chan.parked = s.chan.parked ++ [(i, v)] :=
      (congrArg State.parked hc).trans (congrArg Queue.givers hq)
    refine .parked hi hcl hp ?_ ?_
    · rw [Sys.acceptedBy, hl, List.filterMap_append]
      rfl
    · rw [Sys.failedBy, hl, List.filterMap_append]
      exact List.append_nil _

end

/-- A send accepted by the step `l` was not in flight before, and is now. -/
structure Sends (s t : Sys T) (l : Label T) (i : OpId) : Prop where
  label : l = .run i
  before : (s.pc i).unsent = true
  after : (t.pc i).inFlight = true
  posting : t.posting = s.posting

/-- What a step adds to the history. -/
theorem history_step (hr : s.Ready) (hs : step s l = some t) (h : StepSpec s l t) :
    HistoryStep (Sends s t l) s t := by
  cases h with
  | @start i loop call hpc =>
    refine history_same ?_ rfl
    cases call with
    | asyncSend v => exact toQueue_setSender ((hr.op i).idle hpc).queue _
    | _ => rfl
  | @send i v r full ok hpc _ hspec =>
    refine hspec.history ?_ (afterSend_chan ..) (afterSend_log ..)
    intro hplaced
    have hnotify : (s.afterSend i r full ok).pc i = .notify r.2.flags (.ret ok) := by
      unfold Sys.afterSend
      rw [hplaced]
      exact goto_self ..
    refine ⟨rfl, ?_, ?_, ?_⟩
    · rcases hpc with hpc | hpc | hpc <;> rw [hpc] <;> rfl
    · rw [hnotify]
      exact send_inFlight hs hpc hnotify
    · unfold Sys.afterSend
      split <;> rfl
  | @sendReady i v r hpc _ hspec =>
    refine hspec.history ?_ rfl rfl
    intro hended
    refine ⟨rfl, by rw [hpc]; rfl, ?_, rfl⟩
    unfold Sys.awaitReady
    rw [goto_self, hended]
    rfl
  | @sendSuspend i v r hpc _ hspec =>
    refine hspec.history ⟨rfl, by rw [hpc]; rfl, ?_, ?_⟩ (awaitSuspend_chan ..)
      (awaitSuspend_log ..)
    · unfold Sys.awaitSuspend
      split <;> rw [goto_self] <;> rfl
    · unfold Sys.awaitSuspend
      split <;> rfl
  | recvReady _ _ _ hspec => exact hspec.history rfl rfl
  | recvSuspend _ _ _ _ hspec => exact hspec.history (awaitSuspend_chan ..) (awaitSuspend_log ..)
  | tryRecv _ hspec => exact hspec.history rfl rfl
  | next _ _ hspec => exact hspec.history rfl rfl
  | nextNothing _ _ hp _ => exact history_same hp.toQueue rfl
  | close _ _ _ hq _ _ _ =>
    obtain ⟨ha, hf⟩ := filterMap_failedBy s.chan.parked
    refine .failed (congrArg Queue.givers hq) ?_ ?_
    · unfold Sys.acceptedBy
      rw [goto_log, List.filterMap_append, ha, List.append_nil]
    · unfold Sys.failedBy
      rw [goto_log, List.filterMap_append, hf]
  | postFailed _ _ hx => exact Expelled.history (hx.imp_right And.left) rfl rfl
  | timer _ ht =>
    rw [ht.frame]
    exact Expelled.history (ht.chan.imp_right fun h => h.2.2.1) rfl rfl
  | closeTimer _ => exact history_same (congrArg State.toQueue (post_chan s _).1) (post_chan s _).2
  | cancelTimer _ _ =>
    exact history_same (congrArg State.toQueue (post_chan s _).1) (post_chan s _).2
  | @notify i f k _ =>
    cases f.notifyBlockedSenders <;> exact history_same rfl rfl
  | _ => exact history_same rfl rfl

/-! ## An operation after one step -/

/-- What makes a send throw after its value is in the channel: the error in its
waiter, or `uv_async_send` on a handle that is closing. -/
def Sys.Throws (s : Sys T) (l : Label T) (j : OpId) (e : Error) : Prop :=
  (s.chan.sender j).exception = some e ∨
    l = .run j ∧ ∃ f k, s.pc j = .wake f k ∧ k.ofSend = true ∧ f.wakeLoop = true ∧
      s.onLoop j = false ∧ s.asyncClosing = true

/-- The operation `j` may come to `q` by the step `l`. -/
structure Onward (s : Sys T) (l : Label T) (j : OpId) (q : Pc T) : Prop where
  unsent : q.unsent = true → (s.pc j).unsent = true
  sent : (s.pc j).sent = true → s.posting j = false → q.sent = true
  thrown : ∀ e, q = .done (.thrown e) → (s.pc j).sent = true →
    s.pc j = .done (.thrown e) ∨ s.Throws l j e
  handing : q.handing = true → (s.pc j).handing = true ∨ (s.pc j).unsent = true ∧ l = .run j

section
variable {j : OpId} {p q : Pc T}

theorem onward_refl (h : q = s.pc j) : Onward s l j q := by
  rw [h]
  exact ⟨id, fun hs _ => hs, fun e he _ => .inl he, .inl⟩

/-- The operation is about to send. -/
theorem onward_unsent (h : (s.pc j).unsent = true) (hq : q.handing = true → l = .run j) :
    Onward s l j q := by
  have hn : (s.pc j).sent = false := by
    by_contra hs
    rw [Pc.not_unsent (by simpa using hs)] at h
    cases h
  refine ⟨fun _ => h, fun hs _ => ?_, fun e _ hs => ?_, fun hh => .inr ⟨h, hq hh⟩⟩ <;>
  · rw [hn] at hs
    cases hs

/-- The operation is no send that has begun. -/
theorem onward_other (h : (s.pc j).sent = false) (hq : q.unsent = false)
    (hh : q.handing = false) : Onward s l j q := by
  refine ⟨fun hu => ?_, fun hs _ => ?_, fun e _ hs => ?_, fun hd => ?_⟩
  · rw [hq] at hu
    cases hu
  · rw [h] at hs
    cases hs
  · rw [h] at hs
    cases hs
  · rw [hh] at hd
    cases hd

/-- The operation goes on as a send if it was one, and has not ended. -/
theorem onward_next (hu : q.unsent = false) (hd : ∀ r, q ≠ .done r)
    (hs : (s.pc j).sent = true → q.sent = true)
    (hh : q.handing = true → (s.pc j).handing = true) : Onward s l j q := by
  refine ⟨fun h => ?_, fun h _ => hs h, fun e he _ => absurd he (hd _), fun h => .inl (hh h)⟩
  rw [hu] at h
  cases h

theorem onward_continue {f : Flags} {k : After T} (hpc : s.pc j = .wake f k) :
    Onward s l j (k.continue s.chan j) := by
  cases k with
  | recvTask => exact onward_other (by rw [hpc]; rfl) rfl rfl
  | ret r =>
    refine ⟨?_, ?_, ?_, ?_⟩
    · simp [After.continue, Pc.unsent]
    · simp [After.continue, Pc.sent]
    · intro e he hs
      cases he
      rw [hpc] at hs
      cases hs
    · simp [After.continue, Pc.handing]
  | resume k =>
    refine ⟨?_, ?_, ?_, ?_⟩
    · simp [After.continue, Pc.unsent]
    · simp [After.continue, Pc.sent]
    · intro e he hs
      cases k with
      | recv optional =>
        rw [hpc] at hs
        cases hs
      | recvFor =>
        rw [hpc] at hs
        cases hs
      | asyncSend =>
        refine .inr (.inl ?_)
        simp only [After.continue, Resume.result] at he
        split at he
        · rename_i e' hex
          cases he
          exact hex
        · cases he
    · simp [After.continue, Pc.handing]

theorem onward_update {i : OpId} (ht : t.pc = Function.update s.pc i p) (h : Onward s l i p)
    (j : OpId) : Onward s l j (t.pc j) := by
  by_cases hj : j = i
  · subst hj
    rwa [ht, Function.update_self]
  · refine onward_refl ?_
    rw [ht, Function.update_of_ne hj]

/-- `notify_all` moves only threads that have not sent yet. -/
theorem onward_notifyAll {i : OpId} (h : Onward s l i p) (j : OpId) :
    Onward s l j ((s.notifyAll.goto i p).pc j) := by
  by_cases hj : j = i
  · subst hj
    rwa [goto_self]
  · rw [show (s.notifyAll.goto i p).pc j = s.notifyAll.pc j from Function.update_of_ne hj ..]
    unfold Sys.notifyAll
    dsimp only
    split
    · rename_i v hv
      refine onward_unsent (by rw [hv]; rfl) fun h => ?_
      cases h
    · exact onward_refl rfl

theorem onward_step (h : StepSpec s l t) (j : OpId) : Onward s l j (t.pc j) := by
  cases h with
  | @start i loop call hpc =>
    refine onward_update (i := i) rfl (onward_unsent (by rw [hpc]; rfl) fun h => ?_) j
    cases call <;> cases h
  | @send i v r full ok hpc hfull hs =>
    have hbefore : ∀ {p : Pc T}, Onward s (.run i) i p := by
      rcases hpc with hpc | hpc | hpc <;> exact onward_unsent (by rw [hpc]; rfl) fun _ => rfl
    unfold Sys.afterSend
    split <;> exact onward_update rfl hbefore j
  | @sendReady i v r hpc _ _ =>
    exact onward_update (i := i) rfl (onward_unsent (by rw [hpc]; rfl) fun _ => rfl) j
  | @sendSuspend i v r hpc _ _ =>
    have hbefore : ∀ {p : Pc T}, Onward s (.run i) i p :=
      onward_unsent (by rw [hpc]; rfl) fun _ => rfl
    unfold Sys.awaitSuspend
    split <;> exact onward_update rfl hbefore j
  | @recvReady i k p q r hpc hq _ _ =>
    refine onward_update (i := i) rfl ?_ j
    cases hq <;> split <;> exact onward_other (by rw [hpc]; rfl) rfl rfl
  | @recvSuspend i k q posting r hpc hq _ _ _ =>
    unfold Sys.awaitSuspend
    cases hq <;> split <;>
      exact onward_update (i := i) rfl (onward_other (by rw [hpc]; rfl) rfl rfl) j
  | tryRecv hpc _ => exact onward_update rfl (onward_other (by rw [hpc]; rfl) rfl rfl) j
  | next hpc _ _ => exact onward_update rfl (onward_other (by rw [hpc]; rfl) rfl rfl) j
  | nextNothing hpc _ _ hp =>
    rcases hp with ⟨_, rfl⟩ | ⟨_, rfl⟩ <;>
      exact onward_update rfl (onward_other (by rw [hpc]; rfl) rfl rfl) j
  | nextOnLoop hpc _ => exact onward_update rfl (onward_other (by rw [hpc]; rfl) rfl rfl) j
  | close hpc _ _ _ _ _ _ => exact onward_update rfl (onward_other (by rw [hpc]; rfl) rfl rfl) j
  | closeNotify hpc => exact onward_notifyAll (onward_other (by rw [hpc]; rfl) rfl rfl) j
  | @closeTimer i _ schedule timers hpc =>
    refine onward_update (p := .closeTimers schedule timers) ?_
      (onward_other (by rw [hpc]; rfl) rfl rfl) j
    exact congrArg (Function.update · _ _) (post_pc s _)
  | @closeTimersDone i schedule hpc =>
    cases schedule <;>
      exact onward_update (i := i) rfl (onward_other (by rw [hpc]; rfl) rfl rfl) j
  | closePost hpc _ => exact onward_update rfl (onward_other (by rw [hpc]; rfl) rfl rfl) j
  | closePostFailed hpc _ => exact onward_update rfl (onward_other (by rw [hpc]; rfl) rfl rfl) j
  | @notify i f k hpc =>
    have hnext : Onward s (.run i) i (.cancelTimers f k) :=
      onward_next rfl (by simp) (by rw [hpc]; exact id) (by rw [hpc]; exact id)
    cases f.notifyBlockedSenders with
    | true => exact onward_notifyAll hnext j
    | false => exact onward_update (i := i) rfl hnext j
  | @cancelTimer i _ ts f k hpc _ =>
    refine onward_update (i := i) (p := .cancelTimers { f with timersToCancel := ts } k) ?_
      (onward_next rfl (by simp) (by rw [hpc]; exact id) (by rw [hpc]; exact id)) j
    exact congrArg (Function.update · _ _) (post_pc s _)
  | @cancelTimersDone i f k hpc =>
    exact onward_update (i := i) rfl
      (onward_next rfl (by simp) (by rw [hpc]; exact id) (by rw [hpc]; exact id)) j
  | wakeNothing hpc _ => exact onward_update rfl (onward_continue hpc) j
  | wakeFlush hpc _ => exact onward_update rfl (onward_continue hpc) j
  | wakeAsync hpc _ _ => exact onward_update rfl (onward_continue hpc) j
  | @wakeClosing i f k hpc hw hc hl =>
    refine onward_update (i := i) rfl ⟨?_, ?_, ?_, ?_⟩ j
    · simp [Pc.unsent]
    · exact fun _ _ => rfl
    · intro e _ hs
      rw [hpc] at hs
      exact .inr (.inr ⟨rfl, f, k, hpc, hs, hw, hl, hc⟩)
    · simp [Pc.handing]
  | spurious hpc =>
    refine onward_update rfl (onward_unsent (by rw [hpc]; rfl) fun h => ?_) j
    cases h
  | @postFailed i st' wake hp _ _ =>
    refine onward_update (i := i) rfl ⟨?_, ?_, ?_, ?_⟩ j
    · simp [Pc.unsent]
    · intro _ hn
      rw [hp] at hn
      cases hn
    · intro e he
      cases he
    · simp [Pc.handing, After.ofSend]
  | timer _ ht => exact onward_refl (congrFun (congrArg Sys.pc ht.frame :) j)
  | @flushResume q w ws k _ hpc =>
    refine onward_update (i := w) rfl (onward_next rfl (by simp) ?_ ?_) j
    · rw [hpc]
      cases k <;> exact id
    · simp [Pc.handing]
  | _ => exact onward_refl rfl

end

/-! ## The sends of the history -/

section
variable {own : OpId → Prop} {j : OpId}

theorem HistoryStep.senders (h : HistoryStep own s t) :
    t.senders = s.senders ∨ ∃ i, own i ∧ t.senders = s.senders ++ [i] := by
  have hkeep : t.acceptedBy = s.acceptedBy → t.senders = s.senders := congrArg (List.map Prod.fst)
  have hnew : ∀ {i : OpId} {v : T}, t.acceptedBy = s.acceptedBy ++ [(i, v)] →
      t.senders = s.senders ++ [i] := by
    intro i v he
    unfold Sys.senders
    rw [he, List.map_append]
    rfl
  cases h with
  | same _ ha _ => exact .inl (hkeep ha)
  | left _ ha _ => exact .inl (hkeep ha)
  | failed _ ha _ => exact .inl (hkeep ha)
  | placed hi _ _ _ ha _ => exact .inr ⟨_, hi, hnew ha⟩
  | parked hi _ _ ha _ => exact .inr ⟨_, hi, hnew ha⟩

theorem HistoryStep.mem_senders (h : HistoryStep own s t) (hj : j ∈ t.senders) :
    j ∈ s.senders ∨ own j := by
  rcases h.senders with he | ⟨i, hi, he⟩ <;> rw [he] at hj
  · exact .inl hj
  · rcases List.mem_append.mp hj with hj | hj
    · exact .inl hj
    · rw [List.mem_singleton] at hj
      exact .inr (hj ▸ hi)

theorem HistoryStep.mem_failed (h : HistoryStep own s t) (hj : j ∈ s.failedSenders) :
    j ∈ t.failedSenders := by
  have hkeep : t.failedBy = s.failedBy → j ∈ t.failedSenders := by
    intro he
    unfold Sys.failedSenders
    rwa [he]
  cases h with
  | same _ _ hf => exact hkeep hf
  | left _ _ hf => exact hkeep hf
  | placed _ _ _ _ _ hf => exact hkeep hf
  | parked _ _ _ _ hf => exact hkeep hf
  | failed _ _ hf =>
    unfold Sys.failedSenders
    rw [hf, List.map_append]
    exact List.mem_append_left _ hj

theorem HistoryStep.nodup (h : HistoryStep own s t) (hn : s.senders.Nodup)
    (hown : ∀ i, own i → i ∉ s.senders) : t.senders.Nodup := by
  rcases h.senders with he | ⟨i, hi, he⟩ <;> rw [he]
  · exact hn
  · refine List.nodup_append.mpr ⟨hn, List.nodup_singleton i, fun a ha b hb hab => ?_⟩
    rw [List.mem_singleton] at hb
    rw [hab, hb] at ha
    exact hown i hi ha

/-- The accepted sends in a row: first those that have left the channel, then
those that wait, then those that failed. -/
def Sys.Ordered (s : Sys T) : Prop :=
  ∃ front, s.acceptedBy = front ++ (s.chan.parked ++ s.failedBy)

theorem failedBy_open (hi : Inv s) (hc : s.chan.closed = false) : s.failedBy = [] := by
  have hf : s.failed = [] := by
    by_contra hne
    have hcl : s.chan.closed = true := hi.sound.refusedClosed hne
    rw [hc] at hcl
    cases hcl
  rw [← s.failedBy_values] at hf
  exact List.map_eq_nil_iff.mp hf

theorem HistoryStep.ordered (h : HistoryStep own s t) (hi : Inv s) (ho : s.Ordered) :
    t.Ordered := by
  obtain ⟨front, ho⟩ := ho
  cases h with
  | same hp ha hf => exact ⟨front, by rw [ha, hp, hf, ho]⟩
  | @left g hp ha hf =>
    refine ⟨front ++ [g], ?_⟩
    rw [ha, hf, ho, hp]
    simp
  | @placed i v _ hc hs hp ha hf =>
    refine ⟨front ++ [(i, v)], ?_⟩
    rw [ha, hf, hp, ho, hs, failedBy_open hi hc]
    simp
  | @parked i v _ hc hp ha hf =>
    refine ⟨front, ?_⟩
    rw [ha, hf, hp, ho, failedBy_open hi hc]
    simp
  | failed hp ha hf =>
    refine ⟨front, ?_⟩
    rw [ha, hf, hp, ho]
    -- nobody waits in a closed channel, and none has failed in an open one
    cases hc : s.chan.closed with
    | false => rw [failedBy_open hi hc, List.append_nil, List.nil_append, List.nil_append]
    | true =>
      have hnil : s.chan.parked = [] := by
        by_contra hne
        have hopen : s.chan.closed = false := (hi.ready.valid.givers hne).2.2
        rw [hc] at hopen
        cases hopen
      rw [hnil, List.append_nil, List.nil_append]

end

/-- What the history tells of the sends. -/
structure SendHistory (s : Sys T) : Prop where
  posting : ∀ j, s.posting j = true → (s.pc j).unsent = false
  fresh : ∀ j, (s.pc j).unsent = true → (s.chan.sender j).exception = none
  sent : ∀ j ∈ s.senders, (s.pc j).sent = true ∧ s.posting j = false
  nodup : s.senders.Nodup
  ordered : s.Ordered
  error : ∀ j ∈ s.senders, (s.chan.sender j).exception ≠ none → j ∈ s.failedSenders

theorem mem_parked (hw : WellFormed s.chan) {j : OpId} (hj : j ∈ s.chan.activeSenders) :
    j ∈ s.chan.parked.map Prod.fst := by
  obtain ⟨v, hv⟩ := hw.senderValue j hj
  refine List.mem_map.mpr ⟨(j, v), ?_, rfl⟩
  refine List.mem_filterMap.mpr ⟨j, hj, ?_⟩
  rw [hv]
  rfl

/-- A send that has not been through its section is not in the history. -/
theorem SendHistory.not_sender (h : SendHistory s) {j : OpId} (hu : (s.pc j).unsent = true) :
    j ∉ s.senders := by
  intro hj
  rw [Pc.not_unsent (h.sent j hj).1] at hu
  cases hu

theorem SendHistory.parked_sender (h : SendHistory s) {j : OpId}
    (hj : j ∈ s.chan.parked.map Prod.fst) : j ∈ s.senders := by
  obtain ⟨front, ho⟩ := h.ordered
  unfold Sys.senders
  rw [ho, List.map_append, List.map_append]
  exact List.mem_append_right _ (List.mem_append_left _ hj)

/-- `close` sets the error of those that wait, and these have failed then. -/
theorem close_errors (hw : WellFormed s.chan) {st' : State T} {j : OpId}
    (hout : Outcome noOne s.chan st') :
    (st'.sender j).exception = (s.chan.sender j).exception ∨
      j ∈ s.chan.parked.map Prod.fst := by
  cases hout.senders.advance j id with
  | same hrec _ _ => exact .inl (congrArg SenderWaiter.exception hrec)
  | completed hwait _ _ _ => exact .inr (mem_parked hw hwait)

theorem close_history (hr : s.Ready) {i : OpId} (hpc : s.pc i = .close)
    (hs : step s (.run i) = some t) :
    Outcome noOne s.chan t.chan ∧ t.failedBy = s.failedBy ++ s.chan.parked := by
  simp only [step, runOp, hpc, Option.some.injEq] at hs
  subst hs
  obtain ⟨st', timers, he, _, hout, _, _, _, _⟩ := close_spec hr.wellFormed
  rw [he]
  refine ⟨hout, ?_⟩
  unfold Sys.failedBy
  rw [goto_log, commit_log, List.filterMap_append, (filterMap_failedBy s.chan.parked).2]

section
variable (hi : Inv s) (h : SendHistory s) (hs : step s l = some t)
include hi h hs

theorem sendHistory_posting (j : OpId) (hp : t.posting j = true) : (t.pc j).unsent = false := by
  have hspec := step_spec hi.ready hs
  rcases posting_of_step hspec hp with hold | ⟨_, hpc⟩
  · by_contra hne
    have hu := h.posting j hold
    rw [(onward_step hspec j).unsent (by simpa using hne)] at hu
    cases hu
  · rw [hpc]
    rfl

theorem sendHistory_sent (j : OpId) (hj : j ∈ t.senders) :
    (t.pc j).sent = true ∧ t.posting j = false := by
  have hspec := step_spec hi.ready hs
  rcases (history_step hi.ready hs hspec).mem_senders hj with hj | hj
  · obtain ⟨hsent, hpost⟩ := h.sent j hj
    refine ⟨(onward_step hspec j).sent hsent hpost, ?_⟩
    by_contra hne
    rcases posting_of_step hspec (by simpa using hne) with hp | ⟨⟨timeout, hpc⟩, _⟩
    · rw [hpost] at hp
      cases hp
    · rw [hpc] at hsent
      cases hsent
  · refine ⟨Pc.sent_of_inFlight hj.after, ?_⟩
    rw [hj.posting]
    by_contra hne
    have hu := h.posting j (by simpa using hne)
    rw [hj.before] at hu
    cases hu

theorem sendHistory_fresh (j : OpId) (hj : (t.pc j).unsent = true) :
    (t.chan.sender j).exception = none := by
  have hbefore : (s.pc j).unsent = true := (onward_step (step_spec hi.ready hs) j).unsent hj
  have hnone := h.fresh j hbefore
  rcases step_errors hs with he | ⟨i, rfl, he | hpc⟩
  · rw [he.exception j, hnone]
  · by_cases hji : j = i
    · obtain ⟨f, hf⟩ := he.ended
      rw [hji, hf] at hj
      cases hj
    · rw [he.others j hji, hnone]
  · rcases close_errors (j := j) hi.ready.wellFormed (close_history hi.ready hpc hs).1 with he | hp
    · rw [he, hnone]
    · exact absurd (h.parked_sender hp) (h.not_sender hbefore)

theorem sendHistory_error (j : OpId) (hj : j ∈ t.senders)
    (he : (t.chan.sender j).exception ≠ none) : j ∈ t.failedSenders := by
  have hist := history_step hi.ready hs (step_spec hi.ready hs)
  have hsame : j ∈ s.senders → (t.chan.sender j).exception = (s.chan.sender j).exception →
      j ∈ t.failedSenders := by
    intro hold hex
    rw [hex] at he
    exact hist.mem_failed (h.error j hold he)
  have hnew : (s.pc j).unsent = true →
      (t.chan.sender j).exception ≠ (s.chan.sender j).exception := by
    intro hu hex
    rw [hex] at he
    exact he (h.fresh j hu)
  rcases hist.mem_senders hj with hold | hown
  · rcases step_errors hs with hex | ⟨i, rfl, hex | hpc⟩
    · exact hsame hold (hex.exception j)
    · by_cases hji : j = i
      · rw [hji] at hold
        exact absurd hold (h.not_sender (Pc.unsent_of_beforeSend hex.beforeSend))
      · exact hsame hold (hex.others j hji)
    · obtain ⟨hout, hf⟩ := close_history hi.ready hpc hs
      rcases close_errors (j := j) hi.ready.wellFormed hout with hex | hp
      · exact hsame hold hex
      · unfold Sys.failedSenders
        rw [hf, List.map_append]
        exact List.mem_append_right _ hp
  · rcases step_errors hs with hex | ⟨i, hl, hex | hpc⟩
    · exact absurd (hex.exception j) (hnew hown.before)
    · by_cases hji : j = i
      · -- the send that sets its own error accepts nothing
        subst hji
        have hmem : j ∈ s.senders := by
          unfold Sys.senders Sys.acceptedBy at hj ⊢
          rwa [hex.log] at hj
        exact absurd hmem (h.not_sender hown.before)
      · exact absurd (hex.others j hji) (hnew hown.before)
    · have hli := hown.label
      rw [hl] at hli
      cases hli
      have hu := hown.before
      rw [hpc] at hu
      cases hu

theorem sendHistory_step : SendHistory t where
  posting := sendHistory_posting hi h hs
  fresh := sendHistory_fresh hi h hs
  sent := sendHistory_sent hi h hs
  nodup := (history_step hi.ready hs (step_spec hi.ready hs)).nodup h.nodup
    fun _ hown => h.not_sender hown.before
  ordered := (history_step hi.ready hs (step_spec hi.ready hs)).ordered hi h.ordered
  error := sendHistory_error hi h hs

end

theorem reachable_sendHistory (h : Reachable (system T) s) : SendHistory s := by
  refine h.invariant ?_ fun s l t hr hI hs => sendHistory_step (reachable_inv hr) hI hs
  rintro s ⟨capacity, rfl⟩
  refine ⟨?_, ?_, ?_, List.nodup_nil, ⟨[], rfl⟩, ?_⟩
  · intro j hp
    cases hp
  · exact fun j _ => rfl
  · intro j hj
    cases hj
  · intro j hj
    cases hj

end LuvCoro.Channel
