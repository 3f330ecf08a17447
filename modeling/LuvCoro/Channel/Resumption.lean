import LuvCoro.Channel.Refinement

/-! # Resumption of suspended receivers and senders

A coroutine that `await_suspend` has suspended is owed one resumption. The load
of an operation counts what is owed to it: its place in a queue of live waiters,
then its place in a ready queue, then in the local queue of a flush. It is 1
from the suspension to the resumption, in every run of which the re-checks of
`await_suspend` find nothing and no post fails. -/
namespace LuvCoro.Channel

open Transition WaiterPool ParkingQueue

universe u
variable {T : Type u} {s t : Sys T} {l : Label T}

/-- What the coroutine of the operation is suspended in. -/
def Pc.suspendedIn : Pc T → Option Resume
  | .suspended k => some k
  | _ => none

/-- The operation will flush the ready queues, or see to it that a flush comes. -/
def Pc.flushes : Pc T → Bool
  | .notify f _ | .cancelTimers f _ | .wake f _ => f.wakeLoop
  | .closeNotify schedule _ | .closeTimers schedule _ => schedule
  | .closePost => true
  | _ => false

namespace Sys

/-- A flush is due, apart from what `i` may still do. -/
def FlushDueBut (s : Sys T) (i : Option OpId) : Prop :=
  0 < s.flushCalls ∨ s.asyncPending = true ∧ s.asyncClosing = false ∨ .closeChannel ∈ s.posted ∨
    ∃ j, some j ≠ i ∧ (s.pc j).flushes = true

def FlushDue (s : Sys T) : Prop := s.FlushDueBut none

/-- The operations in a ready queue. -/
def readyOps (s : Sys T) : List OpId := s.chan.readyReceivers ++ s.chan.readySenders

/-- How often the suspended coroutine of `i` has been continued. -/
def continued (s : Sys T) (i : OpId) : Nat := s.returnedFalse i + s.resumed i

/-- The waiter of a coroutine suspended in `k` has been completed. -/
def Completed (s : Sys T) (i : OpId) : Resume → Prop
  | .asyncSend => (s.chan.sender i).completed = true
  | _ => (s.chan.receiver i).completed = true

/-- Nobody is continued twice, and whoever has been completed is on the way. -/
structure ResumedOnce (s : Sys T) : Prop where
  once : ∀ i, s.continued i ≤ 1
  suspended : ∀ i k, s.pc i = .suspended k → s.continued i = 0
  due : ∀ i k, s.pc i = .suspended k → s.Completed i k →
    i ∈ s.readyOps ∧ s.FlushDue ∨ ∃ q ∈ s.flushing, i ∈ q

end Sys

/-- The steps that do not go wrong: a re-check in `await_suspend` finds neither
a value nor the channel closed, the post of a timer start is accepted, and so is
the post of `close`, unless nobody depends on it. -/
def Calm (s : Sys T) : Label T → Prop
  | .run i =>
    match s.pc i with
    | .recvSuspend _ | .recvForSuspend _ => s.chan.messages = [] ∧ s.chan.closed = false
    | .closePost => s.shuttingDown = false ∨ s.readyOps = [] ∨ s.FlushDueBut (some i)
    | _ => True
  | .post _ => s.shuttingDown = false
  | _ => True

/-! ## The load of an operation -/

namespace Sys

/-- What is owed to the coroutine of `i`. -/
def load (s : Sys T) (i : OpId) : Nat :=
  s.chan.receivers.load i + s.chan.senders.load i + s.flushing.flatten.count i

theorem load_eq (s : Sys T) (i : OpId) : s.load i =
    s.chan.readyReceivers.count i + s.chan.activeReceivers.count i +
      (s.chan.readySenders.count i + s.chan.activeSenders.count i) +
        s.flushing.flatten.count i := rfl

/-- What the bookkeeping of one operation amounts to. -/
structure OpOnce (s : Sys T) (i : OpId) : Prop where
  suspended : ∀ k, (s.pc i).suspendedIn = some k → s.load i = 1 ∧ s.continued i = 0
  other : (s.pc i).suspendedIn = none → s.load i = 0 ∧ s.continued i ≤ 1
  fresh : (s.pc i).beforeReceive = true ∨ (s.pc i).beforeSend = true → s.continued i = 0
  receiver : i ∈ s.chan.activeReceivers → (s.pc i).suspendedIn ≠ some .asyncSend
  sender : i ∈ s.chan.activeSenders → (s.pc i).suspendedIn = some .asyncSend
  timed : s.Timed i → (s.chan.receiver i).active = true →
    (s.chan.receiver i).completed = false → i ∈ s.chan.receiverWaiters

end Sys

/-- What may change about an operation without changing its bookkeeping. -/
structure SameOp (s t : Sys T) (j : OpId) : Prop where
  suspendedIn : (t.pc j).suspendedIn = (s.pc j).suspendedIn
  fresh : (t.pc j).beforeReceive = true ∨ (t.pc j).beforeSend = true →
    (s.pc j).beforeReceive = true ∨ (s.pc j).beforeSend = true
  continued : t.continued j = s.continued j
  timed : t.Timed j → s.Timed j

theorem opOnce_of {j : OpId} (hload : t.load j = s.load j)
    (hr : j ∈ t.chan.activeReceivers → j ∈ s.chan.activeReceivers)
    (hs : j ∈ t.chan.activeSenders → j ∈ s.chan.activeSenders)
    (ht : s.Timed j → (t.chan.receiver j).active = true → (t.chan.receiver j).completed = false →
      j ∈ t.chan.receiverWaiters)
    (he : SameOp s t j) (h : s.OpOnce j) : t.OpOnce j := by
  refine ⟨fun k hk => ?_, fun hk => ?_, fun hb => ?_, fun hm => ?_, fun hm => ?_,
    fun hti => ht (he.timed hti)⟩
  · rw [hload, he.continued]
    exact h.suspended k (he.suspendedIn ▸ hk)
  · rw [hload, he.continued]
    exact h.other (he.suspendedIn ▸ hk)
  · rw [he.continued]
    exact h.fresh (he.fresh hb)
  · rw [he.suspendedIn]
    exact h.receiver (hr hm)
  · rw [he.suspendedIn]
    exact h.sender (hs hm)

/-- A timed waiter stays in the queue until it is completed. -/
theorem timed_frame {own : OpId → Prop} {j : OpId}
    (hr : Evolves own s.chan.receivers t.chan.receivers) (hj : ¬ own j) (h : s.OpOnce j)
    (ht : s.Timed j) (ha : (t.chan.receiver j).active = true)
    (hc : (t.chan.receiver j).completed = false) : j ∈ t.chan.receiverWaiters := by
  cases hr.advance j hj with
  | same record _ queue =>
    have hrec : t.chan.receiver j = s.chan.receiver j := record
    rw [hrec] at ha hc
    exact queue (Pool.mem_waiting.mpr ⟨h.timed ht ha hc, ha⟩)
  | completed _ inactive _ _ => exact absurd (ha.symm.trans inactive) (by decide)

/-- The steps of others do not change the bookkeeping of an operation. -/
theorem opOnce_frame {own : Party → Prop} {j : OpId} (hw : WellFormed s.chan)
    (hw' : WellFormed t.chan)
    (hr : Evolves (fun j => own (.receiver j)) s.chan.receivers t.chan.receivers)
    (hs : Evolves (fun j => own (.sender j)) s.chan.senders t.chan.senders)
    (hf : t.flushing = s.flushing)
    (hj : ¬ own (.receiver j)) (hj' : ¬ own (.sender j))
    (he : SameOp s t j) (h : s.OpOnce j) : t.OpOnce j := by
  refine opOnce_of ?_ (fun hm => (hr.waiting_of hj hm).1) (fun hm => (hs.waiting_of hj' hm).1)
    (timed_frame hr hj h) he h
  unfold Sys.load
  rw [hr.load_eq hw.receivers hw'.receivers hj, hs.load_eq hw.senders hw'.senders hj', hf]

/-- An operation nothing is owed to any more. -/
theorem opOnce_past {i : OpId} (hsus : (t.pc i).suspendedIn = none) (hp : (t.pc i).past)
    (hload : t.load i = 0) (hc : t.continued i ≤ 1)
    (ht : t.Timed i → (t.chan.receiver i).active = true →
      (t.chan.receiver i).completed = false → i ∈ t.chan.receiverWaiters) : t.OpOnce i := by
  have hr : i ∉ t.chan.receivers.waiting := by
    rw [← List.count_eq_zero]
    unfold Sys.load Pool.load at hload
    omega
  have hs : i ∉ t.chan.senders.waiting := by
    rw [← List.count_eq_zero]
    unfold Sys.load Pool.load at hload
    omega
  refine ⟨fun k hk => ?_, fun _ => ⟨hload, hc⟩, fun hb => ?_, fun hm => absurd hm hr,
    fun hm => absurd hm hs, ht⟩
  · rw [hsus] at hk
    cases hk
  · rw [hp.1, hp.2.1] at hb
    rcases hb with hb | hb <;> cases hb

/-- The load of an operation whose own receiver waiter is all that changed. -/
theorem load_own_receiver {i : OpId} (hw : WellFormed s.chan) (hw' : WellFormed t.chan)
    (hs : Evolves (fun j => (Party.sender j : Party) = .receiver i) s.chan.senders t.chan.senders)
    (hf : t.flushing = s.flushing) (h0 : s.load i = 0)
    (hc : t.chan.readyReceivers.count i = s.chan.readyReceivers.count i) :
    t.load i = t.chan.activeReceivers.count i := by
  have hse : t.chan.senders.load i = s.chan.senders.load i :=
    hs.load_eq hw.senders hw'.senders nofun
  unfold Sys.load at h0 ⊢
  rw [hse, hf]
  unfold Pool.load at h0 ⊢
  have hct : t.chan.receivers.tokens.count i = s.chan.receivers.tokens.count i := hc
  have hwt : t.chan.receivers.waiting = t.chan.activeReceivers := rfl
  rw [hct, hwt]
  omega

theorem load_own_sender {i : OpId} (hw : WellFormed s.chan) (hw' : WellFormed t.chan)
    (hr : Evolves (fun j => (Party.receiver j : Party) = .sender i)
      s.chan.receivers t.chan.receivers)
    (hf : t.flushing = s.flushing) (h0 : s.load i = 0)
    (hc : t.chan.readySenders.count i = s.chan.readySenders.count i) :
    t.load i = t.chan.activeSenders.count i := by
  have hre : t.chan.receivers.load i = s.chan.receivers.load i :=
    hr.load_eq hw.receivers hw'.receivers nofun
  unfold Sys.load at h0 ⊢
  rw [hre, hf]
  unfold Pool.load at h0 ⊢
  have hct : t.chan.senders.tokens.count i = s.chan.senders.tokens.count i := hc
  have hwt : t.chan.senders.waiting = t.chan.activeSenders := rfl
  rw [hct, hwt]
  omega

theorem sus_update {i : OpId} {p : Pc T} (ht : t.pc = Function.update s.pc i p)
    (h : p.suspendedIn = (s.pc i).suspendedIn) (j : OpId) :
    (t.pc j).suspendedIn = (s.pc j).suspendedIn := by
  rw [ht]
  by_cases hj : j = i
  · subst hj
    rw [Function.update_self]
    exact h
  · rw [Function.update_of_ne hj]

theorem sus_notifyAll (j : OpId) : (s.notifyAll.pc j).suspendedIn = (s.pc j).suspendedIn := by
  simp only [Sys.notifyAll]
  cases s.pc j <;> rfl

theorem notifyIf_frame (s : Sys T) (b : Bool) :
    (if b then s.notifyAll else s).chan = s.chan ∧
    (if b then s.notifyAll else s).flushing = s.flushing ∧
    (if b then s.notifyAll else s).returnedFalse = s.returnedFalse ∧
    (if b then s.notifyAll else s).resumed = s.resumed ∧
    ∀ j, ((if b then s.notifyAll else s).pc j).suspendedIn = (s.pc j).suspendedIn := by
  cases b with
  | false => exact ⟨rfl, rfl, rfl, rfl, fun _ => rfl⟩
  | true => exact ⟨rfl, rfl, rfl, rfl, sus_notifyAll⟩

theorem sus_continue {f : Flags} {k : After T} {st : State T} {i : OpId} :
    (k.continue st i).suspendedIn = (Pc.wake f k).suspendedIn := by
  cases k <;> rfl

theorem continued_inline (s : Sys T) (i j : OpId) (hj : j ≠ i) :
    (s.continueInline i).continued j = s.continued j := by
  simp [Sys.continued, Sys.continueInline, hj]

theorem continued_inline_self (s : Sys T) (i : OpId) :
    (s.continueInline i).continued i ≤ s.continued i + 1 := by
  simp only [Sys.continued, Sys.continueInline, Function.update_self]
  omega

theorem post_flushing (s : Sys T) (p : Posted) : ((s.post p).getD s).flushing = s.flushing ∧
    ((s.post p).getD s).returnedFalse = s.returnedFalse ∧
      ((s.post p).getD s).resumed = s.resumed := by
  rw [Sys.post_eq]
  split <;> exact ⟨rfl, rfl, rfl⟩

theorem suspendedIn_of_before {p : Pc T} (h : p.beforeReceive = true ∨ p.beforeSend = true) :
    p.suspendedIn = none := by
  cases p with
  | suspended k => simp [Pc.beforeReceive, Pc.beforeSend] at h
  | _ => rfl

/-- Resuming takes one entry out of the local queues of the flushes. -/
theorem count_flatten_set {ls : List (List OpId)} {q : Nat} {w : OpId} {ws : List OpId}
    (h : ls[q]? = some (w :: ws)) (j : OpId) :
    ls.flatten.count j = (ls.set q ws).flatten.count j + if j = w then 1 else 0 := by
  induction ls generalizing q with
  | nil => cases h
  | cons x xs ih =>
    cases q with
    | zero =>
      cases h
      by_cases hj : j = w
      · simp [hj]
      · simp [hj, Ne.symm hj]
    | succ q =>
      have := ih h
      simp only [List.flatten_cons, List.count_append, List.set_cons_succ]
      omega

section Step

variable (hi : Inv s) (hi' : Inv t) (hop : ∀ i, s.OpOnce i) (h : StepSpec s l t)
  (hl : ∀ i loop call, l ≠ .start i loop call)

include h hl

/-- What a step leaves of an operation it neither suspends nor continues. -/
theorem sameOp_of {j : OpId} (hsus : (t.pc j).suspendedIn = (s.pc j).suspendedIn)
    (hc : t.continued j = s.continued j) : SameOp s t j := by
  have hlater := later_step h hl j
  refine ⟨hsus, Or.imp hlater.receive hlater.send, hc, fun ht => ?_⟩
  rcases timed_step h ht with ht | ⟨_, hb, hk⟩
  · exact ht
  · rw [hk] at hsus
    cases hp : s.pc j with
    | suspended k' => simp [hp, Pc.beforeReceive] at hb
    | _ => rw [hp] at hsus; cases hsus

include hi hi' hop

/-- A step that concerns nobody's own waiter. -/
theorem opOnce_quiet
    (hr : Evolves (fun _ => False) s.chan.receivers t.chan.receivers)
    (hs : Evolves (fun _ => False) s.chan.senders t.chan.senders)
    (hf : t.flushing = s.flushing) (hc : t.returnedFalse = s.returnedFalse)
    (hc' : t.resumed = s.resumed)
    (hsus : ∀ j, (t.pc j).suspendedIn = (s.pc j).suspendedIn) (j : OpId) : t.OpOnce j :=
  @opOnce_frame _ _ _ noOne j hi.ready.wellFormed hi'.ready.wellFormed hr hs hf id id
    (sameOp_of h hl (hsus j) (by unfold Sys.continued; rw [hc, hc'])) (hop j)

/-- A step of `i` that settles its own waiter, which nobody else is concerned with. -/
theorem opOnce_own {own : Party → Prop} {i : OpId} {p : Pc T}
    (hown : ∀ j, own (.receiver j) ∨ own (.sender j) → j = i)
    (hr : Evolves (fun j => own (.receiver j)) s.chan.receivers t.chan.receivers)
    (hs : Evolves (fun j => own (.sender j)) s.chan.senders t.chan.senders)
    (hf : t.flushing = s.flushing) (hpc : t.pc = Function.update s.pc i p)
    (hc : ∀ j, j ≠ i → t.continued j = s.continued j) (hself : t.OpOnce i) (j : OpId) :
    t.OpOnce j := by
  by_cases hj : j = i
  · rw [hj]
    exact hself
  · have hpcj : t.pc j = s.pc j := by rw [hpc, Function.update_of_ne hj]
    exact opOnce_frame hi.ready.wellFormed hi'.ready.wellFormed hr hs hf
      (fun ho => hj (hown j (.inl ho))) (fun ho => hj (hown j (.inr ho)))
      (sameOp_of h hl (by rw [hpcj]) (hc j hj)) (hop j)

omit hi hi' hop hl in
/-- An operation that was not suspended has no timer yet, unless it has one. -/
theorem not_timed {i : OpId} {f : Flags} {k : Resume} (hr : s.Ready)
    (hb : (s.pc i).beforeReceive = true)
    (hpc : t.pc = Function.update s.pc i (.notify f (.resume k))) : ¬ t.Timed i := by
  intro ht
  rcases timed_step h ht with ht | ⟨_, _, hk⟩
  · have := (hr.op i).timed ht
    rw [hb] at this
    cases this
  · rw [hpc, Function.update_self] at hk
    cases hk

/-- A receive that ends before it was suspended. -/
theorem opOnce_received {i : OpId} {f : Flags} {k : Resume}
    (hb : (s.pc i).beforeReceive = true)
    (hr : Evolves (fun j => (Party.receiver j : Party) = .receiver i) s.chan.receivers
      t.chan.receivers)
    (hs : Evolves (fun j => (Party.sender j : Party) = .receiver i) s.chan.senders t.chan.senders)
    (hf : t.flushing = s.flushing)
    (hpc : t.pc = Function.update s.pc i (.notify f (.resume k)))
    (hc : ∀ j, j ≠ i → t.continued j = s.continued j) (hci : t.continued i ≤ s.continued i + 1)
    (hn : i ∉ t.chan.activeReceivers)
    (hq : t.chan.readyReceivers.count i = s.chan.readyReceivers.count i) (j : OpId) :
    t.OpOnce j := by
  refine @opOnce_own _ _ _ _ hi hi' hop h hl (· = .receiver i) i _ ?_ hr hs hf hpc hc ?_ j
  · rintro j (hj | hj) <;> cases hj
    rfl
  have hpi : t.pc i = .notify f (.resume k) := by rw [hpc, Function.update_self]
  have h0 := (hop i).other (suspendedIn_of_before (.inl hb))
  have hfresh := (hop i).fresh (.inl hb)
  have hload := load_own_receiver hi.ready.wellFormed hi'.ready.wellFormed hs hf h0.1 hq
  rw [List.count_eq_zero.mpr hn] at hload
  exact opOnce_past (by rw [hpi]; rfl) (by rw [hpi]; exact past_resume f k) hload (by omega)
    fun ht => absurd ht (not_timed h hi.ready hb hpc)

/-- A send that ends before it was suspended. -/
theorem opOnce_sent {i : OpId} {f : Flags} {k : Resume} (hb : (s.pc i).beforeSend = true)
    (hr : Evolves (fun j => (Party.receiver j : Party) = .sender i) s.chan.receivers
      t.chan.receivers)
    (hs : Evolves (fun j => (Party.sender j : Party) = .sender i) s.chan.senders t.chan.senders)
    (hf : t.flushing = s.flushing)
    (hpc : t.pc = Function.update s.pc i (.notify f (.resume k)))
    (hc : ∀ j, j ≠ i → t.continued j = s.continued j) (hci : t.continued i ≤ s.continued i + 1)
    (hn : i ∉ t.chan.senderWaiters)
    (hq : t.chan.readySenders.count i = s.chan.readySenders.count i) (j : OpId) :
    t.OpOnce j := by
  refine @opOnce_own _ _ _ _ hi hi' hop h hl (· = .sender i) i _ ?_ hr hs hf hpc hc ?_ j
  · rintro j (hj | hj) <;> cases hj
    rfl
  have hpi : t.pc i = .notify f (.resume k) := by rw [hpc, Function.update_self]
  have h0 := (hop i).other (suspendedIn_of_before (.inr hb))
  have hfresh := (hop i).fresh (.inr hb)
  have hload := load_own_sender hi.ready.wellFormed hi'.ready.wellFormed hr hf h0.1 hq
  have hn' : i ∉ t.chan.activeSenders := fun hm => hn (List.mem_of_mem_filter hm)
  rw [List.count_eq_zero.mpr hn'] at hload
  refine opOnce_past (by rw [hpi]; rfl) (by rw [hpi]; exact past_resume f k) hload (by omega)
    fun ht => timed_frame hr nofun (hop i) ?_
  rcases timed_step h ht with ht | ⟨_, _, hk⟩
  · exact ht
  · rw [hpi] at hk
    cases hk

/-- A coroutine is suspended: from now on it is owed one resumption. -/
theorem opOnce_parkReceiver {i : OpId} {k : Resume} (hb : (s.pc i).beforeReceive = true)
    (hk : k ≠ .asyncSend)
    (hr : Evolves (fun j => (Party.receiver j : Party) = .receiver i) s.chan.receivers
      t.chan.receivers)
    (hs : Evolves (fun j => (Party.sender j : Party) = .receiver i) s.chan.senders t.chan.senders)
    (hf : t.flushing = s.flushing) (hpc : t.pc = Function.update s.pc i (.suspended k))
    (hc : ∀ j, t.continued j = s.continued j) (hm : i ∈ t.chan.activeReceivers)
    (hq : t.chan.readyReceivers.count i = s.chan.readyReceivers.count i) (j : OpId) :
    t.OpOnce j := by
  refine @opOnce_own _ _ _ _ hi hi' hop h hl (· = .receiver i) i _ ?_ hr hs hf hpc
    (fun j _ => hc j) ?_ j
  · rintro j (hj | hj) <;> cases hj
    rfl
  have hpi : t.pc i = .suspended k := by rw [hpc, Function.update_self]
  have h0 := (hop i).other (suspendedIn_of_before (.inl hb))
  have hfresh := (hop i).fresh (.inl hb)
  have hload := load_own_receiver hi.ready.wellFormed hi'.ready.wellFormed hs hf h0.1 hq
  have hone : t.chan.activeReceivers.count i = 1 :=
    List.count_eq_one_of_mem (hi'.ready.wellFormed.receivers.nodup.filter _) hm
  rw [hone] at hload
  refine ⟨fun _ _ => ⟨hload, (hc i).trans hfresh⟩, fun hn => ?_, fun hn => ?_, fun _ => ?_,
    fun hms => ?_, fun _ _ _ => List.mem_of_mem_filter hm⟩
  · rw [hpi] at hn
    cases hn
  · rw [hpi] at hn
    rcases hn with hn | hn <;> simp [Pc.beforeReceive, Pc.beforeSend] at hn
  · rw [hpi]
    exact fun he => hk (Option.some.inj he)
  · have hold : i ∈ s.chan.senders.waiting := (hs.waiting_of nofun hms).1
    have hz := h0.1
    unfold Sys.load Pool.load at hz
    have := List.count_pos_iff.mpr hold
    omega

theorem opOnce_parkSender {i : OpId} (hb : (s.pc i).beforeSend = true)
    (hr : Evolves (fun j => (Party.receiver j : Party) = .sender i) s.chan.receivers
      t.chan.receivers)
    (hs : Evolves (fun j => (Party.sender j : Party) = .sender i) s.chan.senders t.chan.senders)
    (hf : t.flushing = s.flushing) (hpc : t.pc = Function.update s.pc i (.suspended .asyncSend))
    (hc : ∀ j, t.continued j = s.continued j) (hm : i ∈ t.chan.activeSenders)
    (hq : t.chan.readySenders.count i = s.chan.readySenders.count i) (j : OpId) :
    t.OpOnce j := by
  refine @opOnce_own _ _ _ _ hi hi' hop h hl (· = .sender i) i _ ?_ hr hs hf hpc
    (fun j _ => hc j) ?_ j
  · rintro j (hj | hj) <;> cases hj
    rfl
  have hpi : t.pc i = .suspended .asyncSend := by rw [hpc, Function.update_self]
  have h0 := (hop i).other (suspendedIn_of_before (.inr hb))
  have hfresh := (hop i).fresh (.inr hb)
  have hload := load_own_sender hi.ready.wellFormed hi'.ready.wellFormed hr hf h0.1 hq
  have hone : t.chan.activeSenders.count i = 1 :=
    List.count_eq_one_of_mem (hi'.ready.wellFormed.senders.nodup.filter _) hm
  rw [hone] at hload
  refine ⟨fun _ _ => ⟨hload, (hc i).trans hfresh⟩, fun hn => ?_, fun hn => ?_, fun hmr => ?_,
    fun _ => by rw [hpi]; rfl, fun ht => timed_frame hr nofun (hop i) ?_⟩
  · rw [hpi] at hn
    cases hn
  · rw [hpi] at hn
    rcases hn with hn | hn <;> simp [Pc.beforeReceive, Pc.beforeSend] at hn
  · have hold : i ∈ s.chan.receivers.waiting := (hr.waiting_of nofun hmr).1
    have hz := h0.1
    unfold Sys.load Pool.load at hz
    have := List.count_pos_iff.mpr hold
    omega
  · rcases timed_step h ht with ht | ⟨_, hbr, _⟩
    · exact ht
    · cases hp : s.pc i <;> rw [hp] at hb hbr <;> simp [Pc.beforeReceive, Pc.beforeSend] at hb hbr

end Step

/-- A call begins: nothing has been owed to it, and nothing is. -/
theorem opOnce_start {i : OpId} {call : Call T} (hidle : s.pc i = .idle)
    (hpc : t.pc = Function.update s.pc i call.entry) (hchan : t.chan = call.enter s.chan i)
    (hf : t.flushing = s.flushing) (hc : t.continued = s.continued) (ht : t.Timed = s.Timed)
    (hop : ∀ j, s.OpOnce j) (j : OpId) : t.OpOnce j := by
  have hreceivers : t.chan.receivers = s.chan.receivers := by rw [hchan]; cases call <;> rfl
  have hready : t.chan.readySenders = s.chan.readySenders := by rw [hchan]; cases call <;> rfl
  have hact : ∀ w, (t.chan.sender w).active = (s.chan.sender w).active := by
    intro w
    rw [hchan]
    cases call with
    | asyncSend v =>
      by_cases hw : w = i
      · subst hw
        simp [Call.enter, State.setSender]
      · simp [Call.enter, State.setSender, hw]
    | _ => rfl
  have hsenders : t.chan.activeSenders = s.chan.activeSenders := by
    unfold State.activeSenders
    rw [show t.chan.senderWaiters = s.chan.senderWaiters by rw [hchan]; cases call <;> rfl]
    exact List.filter_congr fun w _ => hact w
  have hload : ∀ st : State T, st.senders.load j = st.readySenders.count j +
      st.activeSenders.count j := fun _ => rfl
  have hpcj : j = i ∧ s.pc j = .idle ∧ t.pc j = call.entry ∨ t.pc j = s.pc j := by
    by_cases hj : j = i
    · subst hj
      exact .inl ⟨rfl, hidle, by rw [hpc, Function.update_self]⟩
    · exact .inr (by rw [hpc, Function.update_of_ne hj])
  refine opOnce_of ?_ (fun hm => ?_) (fun hm => hsenders ▸ hm)
    (fun hti => ?_) ⟨?_, ?_, by rw [hc], fun h => ht ▸ h⟩ (hop j)
  · unfold Sys.load
    rw [hload, hload, hsenders, hreceivers, hready, hf]
  · rw [← State.waiting_receivers] at hm ⊢
    exact hreceivers ▸ hm
  · have hw : t.chan.receiverWaiters = s.chan.receiverWaiters := congrArg Pool.queue hreceivers
    have hr : t.chan.receiver = s.chan.receiver := congrArg Pool.record hreceivers
    rw [hw, hr]
    exact (hop j).timed hti
  · rcases hpcj with ⟨_, h₁, h₂⟩ | he
    · rw [h₁, h₂]
      cases call <;> rfl
    · rw [he]
  · rcases hpcj with ⟨_, h₁, _⟩ | he
    · rw [h₁]
      exact fun _ => .inl rfl
    · rw [he]
      exact id

theorem sus_goto {i : OpId} {p : Pc T} (h : p.suspendedIn = (s.pc i).suspendedIn) (j : OpId) :
    ((s.goto i p).pc j).suspendedIn = (s.pc j).suspendedIn := sus_update rfl h j

theorem calm_recheck {i : OpId} {q : Pc T} {k : Resume} (h : Calm s (.run i)) (hpc : s.pc i = q)
    (hq : SuspendPc q k) : s.chan.messages = [] ∧ s.chan.closed = false := by
  simp only [Calm, hpc] at h
  cases hq <;> exact h

/-- The step lemma: whatever the step, the bookkeeping of every operation is
right again. -/
theorem opOnce_step (hi : Inv s) (hi' : Inv t) (hop : ∀ j, s.OpOnce j) (h : StepSpec s l t)
    (hcalm : Calm s l) (j : OpId) : t.OpOnce j := by
  by_cases hl : ∀ i loop call, l ≠ .start i loop call
  swap
  · simp only [not_forall, ne_eq, not_not] at hl
    obtain ⟨i, loop, call, rfl⟩ := hl
    obtain ⟨hpc, rfl⟩ := start_spec h
    refine @opOnce_start _ s _ i call hpc ?_ ?_ ?_ ?_ ?_ hop j <;> rfl
  have hspec := h
  have hquiet := @opOnce_quiet _ _ _ _ hi hi' hop hspec hl
  have hsame : t.chan = s.chan → t.flushing = s.flushing → t.returnedFalse = s.returnedFalse →
      t.resumed = s.resumed → (∀ j, (t.pc j).suspendedIn = (s.pc j).suspendedIn) → t.OpOnce j :=
    fun he hf hc hc' hsus => hquiet (by rw [he]; exact .refl _ _) (by rw [he]; exact .refl _ _)
      hf hc hc' hsus j
  have hmove : ∀ {i : OpId} {p q : Pc T}, t.chan = s.chan → t.flushing = s.flushing →
      t.returnedFalse = s.returnedFalse → t.resumed = s.resumed →
      t.pc = Function.update s.pc i p → s.pc i = q → p.suspendedIn = q.suspendedIn →
      t.OpOnce j := fun he hf hc hc' ht hpc hp =>
    hsame he hf hc hc' (sus_update ht (by rw [hpc]; exact hp))
  cases h with
  | start _ => exact absurd rfl (hl _ _ _)
  | @send i v r full ok hpc hfull hs =>
    have hsus : (s.pc i).suspendedIn = none := by rcases hpc with h | h | h <;> rw [h] <;> rfl
    cases hs with
    | thrown hp =>
      exact hquiet (hp.outcome noOne).receivers (hp.outcome noOne).senders rfl rfl rfl
        (sus_goto hsus.symm) j
    | full _ _ hp =>
      refine hquiet (hp.outcome noOne).receivers (hp.outcome noOne).senders rfl rfl rfl
        (sus_goto ?_) j
      rcases hfull with rfl | ⟨x, rfl⟩ <;> exact hsus.symm
    | placed _ hs _ _ _ _ => exact hquiet hs.receivers hs.senders rfl rfl rfl (sus_goto hsus.symm) j
  | @sendReady i v r hpc _ hs =>
    have hb : (s.pc i).beforeSend = true := by rw [hpc]; rfl
    cases hs with
    | full _ _ hp =>
      exact hquiet (hp.outcome noOne).receivers (hp.outcome noOne).senders rfl rfl rfl
        (sus_update (i := i) rfl (suspendedIn_of_before (.inr hb)).symm) j
    | thrown hs _ hq hn _ =>
      exact @opOnce_sent _ _ _ _ hi hi' hop hspec hl _ _ _ hb hs.receivers hs.senders rfl rfl
        (fun _ _ => rfl) (Nat.le_succ _) hn (congrArg _ hq) j
    | placed _ hs _ _ _ hn hq _ _ =>
      exact @opOnce_sent _ _ _ _ hi hi' hop hspec hl _ _ _ hb hs.receivers hs.senders rfl rfl
        (fun _ _ => rfl) (Nat.le_succ _) hn hq j
  | @sendSuspend i v r hpc _ hs =>
    have hb : (s.pc i).beforeSend = true := by rw [hpc]; rfl
    cases hs with
    | parked _ _ _ hs hq hm =>
      exact @opOnce_parkSender _ _ _ _ hi hi' hop hspec hl _ hb hs.receivers hs.senders rfl rfl
        (fun _ => rfl) hm hq j
    | thrown hs _ hn hq _ =>
      exact @opOnce_sent _ _ _ _ hi hi' hop hspec hl _ _ _ hb hs.receivers hs.senders rfl rfl
        (continued_inline s i) (continued_inline_self s i) hn hq j
    | placed _ hs _ _ _ hn hq _ _ =>
      exact @opOnce_sent _ _ _ _ hi hi' hop hspec hl _ _ _ hb hs.receivers hs.senders rfl rfl
        (continued_inline s i) (continued_inline_self s i) hn hq j
  | @recvReady i k p q r hpc hq hfr hs =>
    have hb : (s.pc i).beforeReceive = true := by rw [hpc]; cases hq <;> rfl
    cases hs with
    | nothing _ _ hp =>
      exact hquiet (hp.outcome noOne).receivers (hp.outcome noOne).senders rfl rfl rfl
        (sus_update (i := i) rfl (.trans (by cases hq <;> rfl)
          (suspendedIn_of_before (.inl hb)).symm)) j
    | expired _ _ hs _ hn hq _ _ =>
      exact @opOnce_received _ _ _ _ hi hi' hop hspec hl _ _ _ hb hs.receivers hs.senders rfl rfl
        (fun _ _ => rfl) (Nat.le_succ _) (fun hm => hn (List.mem_of_mem_filter hm)) hq j
    | found hf =>
      cases hf with
      | value _ hs _ _ hrec hq =>
        exact @opOnce_received _ _ _ _ hi hi' hop hspec hl _ _ _ hb hs.receivers hs.senders rfl rfl
          (fun _ _ => rfl) (Nat.le_succ _) (not_active_of hrec rfl)
          (by rw [hfr.record] at hq; exact hq) j
      | closed _ _ hs _ _ _ hrec hq =>
        exact @opOnce_received _ _ _ _ hi hi' hop hspec hl _ _ _ hb hs.receivers hs.senders rfl rfl
          (fun _ _ => rfl) (Nat.le_succ _) (not_active_of hrec rfl)
          (by rw [hfr.record] at hq; exact hq) j
  | @recvSuspend i k q posting r hpc hq hfr hpost hs =>
    have hb : (s.pc i).beforeReceive = true := by rw [hpc]; cases hq <;> rfl
    have hempty := calm_recheck hcalm hpc hq
    cases hs with
    | @parked st' _ _ htq hs hq' _ =>
      refine @opOnce_parkReceiver _ _ _ _ hi hi' hop hspec hl _ _ hb ?_ hs.receivers hs.senders rfl
        rfl (fun _ => rfl) ?_ hq' j
      · cases hq <;> exact nofun
      · have htk : st'.activeReceivers = s.chan.activeReceivers ++ [i] := congrArg Queue.takers htq
        exact htk ▸ List.mem_append_right _ (List.mem_singleton.mpr rfl)
    | value htake _ _ _ _ =>
      have hm : s.chan.toQueue.buffer = [] := hempty.1
      simp [Queue.take, hm] at htake
    | closed _ hcl _ _ _ _ _ =>
      rw [hempty.2] at hcl
      cases hcl
    | expired _ _ hs _ hn hq' _ _ =>
      exact @opOnce_received _ _ _ _ hi hi' hop hspec hl _ _ _ hb hs.receivers hs.senders rfl rfl
        (continued_inline s i) (continued_inline_self s i)
        (fun hm => hn (List.mem_of_mem_filter hm)) hq' j
  | @tryRecv i r hpc hs =>
    cases hs with
    | nothing _ hp =>
      exact hquiet (hp.outcome noOne).receivers (hp.outcome noOne).senders rfl rfl rfl
        (sus_update (i := i) rfl (by rw [hpc]; rfl)) j
    | value _ hs _ _ =>
      exact hquiet hs.receivers hs.senders rfl rfl rfl
        (sus_update (i := i) rfl (by rw [hpc]; rfl)) j
  | @next i v r hpc _ hs =>
    cases hs with
    | value _ hs _ _ =>
      exact hquiet hs.receivers hs.senders rfl rfl rfl
        (sus_update (i := i) rfl (by rw [hpc]; rfl)) j
  | nextNothing hpc _ hp hq =>
    refine hquiet (hp.outcome noOne).receivers (hp.outcome noOne).senders rfl rfl rfl
      (sus_goto ?_) j
    rw [hpc]
    rcases hq with ⟨_, rfl⟩ | ⟨_, rfl⟩ <;> rfl
  | nextOnLoop hpc _ => exact hmove rfl rfl rfl rfl rfl hpc rfl
  | close hpc _ hout _ _ _ _ =>
    exact hquiet hout.receivers hout.senders rfl rfl rfl (sus_goto (by rw [hpc]; rfl)) j
  | closeNotify hpc =>
    refine hsame rfl rfl rfl rfl fun j => ?_
    exact (sus_goto (by rw [sus_notifyAll, hpc]; rfl) j).trans (sus_notifyAll j)
  | closeTimer hpc =>
    obtain ⟨h₁, h₂, h₃⟩ := post_flushing s (.timerCancel _)
    exact hmove (post_chan s _).1 h₁ h₂ h₃ (congrArg (Function.update · _ _) (post_pc s _)) hpc rfl
  | @closeTimersDone i schedule hpc =>
    exact hmove rfl rfl rfl rfl rfl hpc (by cases schedule <;> rfl)
  | closePost hpc _ => exact hmove rfl rfl rfl rfl rfl hpc rfl
  | closePostFailed hpc _ => exact hmove rfl rfl rfl rfl rfl hpc rfl
  | @notify i f k hpc =>
    obtain ⟨h₁, h₂, h₃, h₄, h₅⟩ := notifyIf_frame s f.notifyBlockedSenders
    exact hsame h₁ h₂ h₃ h₄ fun j => (sus_goto (by rw [h₅, hpc]; rfl) j).trans (h₅ j)
  | cancelTimer hpc _ =>
    obtain ⟨h₁, h₂, h₃⟩ := post_flushing s (.timerCancel _)
    exact hmove (post_chan s _).1 h₁ h₂ h₃ (congrArg (Function.update · _ _) (post_pc s _)) hpc rfl
  | cancelTimersDone hpc => exact hmove rfl rfl rfl rfl rfl hpc rfl
  | wakeNothing hpc _ => exact hmove rfl rfl rfl rfl rfl hpc sus_continue
  | wakeFlush hpc _ => exact hmove rfl rfl rfl rfl rfl hpc sus_continue
  | wakeClosing hpc _ _ _ => exact hmove rfl rfl rfl rfl rfl hpc rfl
  | wakeAsync hpc _ _ => exact hmove rfl rfl rfl rfl rfl hpc sus_continue
  | spurious hpc => exact hmove rfl rfl rfl rfl rfl hpc rfl
  | postFailed _ hs _ => exact absurd (hs.symm.trans hcalm) (by decide)
  | @timer i _ _ _ ht =>
    have hf := congrArg Sys.flushing ht.frame
    have hc := congrArg Sys.returnedFalse ht.frame
    have hc' := congrArg Sys.resumed ht.frame
    have hpc := congrArg Sys.pc ht.frame
    rcases ht.chan with he | ⟨ha, hcm, hx, _⟩
    · exact hsame he hf hc hc' fun j => by rw [hpc]
    · exact hquiet (hx.queued ((hop i).timed ht.timed ha hcm)) (by rw [hx.senders]; exact .refl _ _)
        hf hc hc' (fun j => by rw [hpc]) j
  | @flushSwap n hn =>
    refine @opOnce_of _ s _ j ?_ id id (hop j).timed ⟨rfl, id, rfl, id⟩ (hop j)
    rw [Sys.load_eq, Sys.load_eq]
    simp only [State.activeReceivers, State.activeSenders, List.count_nil, List.flatten_append,
      List.flatten_singleton, List.count_append]
    omega
  | @flushResume q w ws k hq hpc =>
    have hcount := count_flatten_set hq j
    by_cases hj : j = w
    · subst hj
      obtain ⟨h1, hc⟩ := (hop j).suspended k (by rw [hpc]; rfl)
      rw [Sys.load_eq] at h1
      rw [if_pos rfl] at hcount
      refine opOnce_past (by rw [goto_self]; rfl) (by rw [goto_self]; exact past_resume _ k) ?_ ?_
        (hop j).timed
      · rw [Sys.load_eq]
        dsimp only [goto_chan, Sys.goto]
        omega
      · simp only [Sys.continued, Sys.goto, Function.update_self] at hc ⊢
        omega
    · rw [if_neg hj] at hcount
      refine @opOnce_of _ s _ j ?_ id id (hop j).timed (sameOp_of hspec hl (by simp [Sys.goto, hj]) ?_)
        (hop j)
      · rw [Sys.load_eq, Sys.load_eq]
        dsimp only [goto_chan, Sys.goto]
        omega
      · simp [Sys.continued, Sys.goto, hj]
  | @flushStray q w ws hq hpc =>
    -- nothing is owed to a coroutine that is not suspended
    have hcount := count_flatten_set hq w
    have hnone : (s.pc w).suspendedIn = none := by
      cases hp : s.pc w with
      | suspended k => exact absurd hp (hpc k)
      | _ => rfl
    have h0 := ((hop w).other hnone).1
    rw [Sys.load_eq] at h0
    rw [if_pos rfl] at hcount
    omega
  | _ => exact hsame rfl rfl rfl rfl fun _ => rfl

end LuvCoro.Channel
