import LuvCoro.Channel.Steps

/-! # The channel system refines the parking queue

The history of a run and the queue the state stands for make a `Ledger`; a step
of the system is a stutter or one move of it. That gives the invariant `Inv`
which every later result starts from. -/
namespace LuvCoro.Channel

open Transition WaiterPool ParkingQueue

universe u
variable {T : Type u}

/-! ## The ledger of a run -/

def Event.accepted? : Event T → Option T
  | .accepted _ v => some v
  | _ => none

def Event.taken? : Event T → Option T
  | .taken _ v => some v
  | _ => none

def Event.failed? : Event T → Option T
  | .failed _ v => some v
  | _ => none

/-- The state and the history as the parking queue sees them. -/
def ledger (st : State T) (log : List (Event T)) : Ledger OpId T where
  toQueue := st.toQueue
  given := log.filterMap Event.accepted?
  taken := log.filterMap Event.taken?
  refused := log.filterMap Event.failed?

def Sys.ledger (s : Sys T) : Ledger OpId T := Channel.ledger s.chan s.log

section Moves
variable {st st' : State T} {log : List (Event T)} {i : OpId} {v : T}

theorem ledger_same (h : st'.toQueue = st.toQueue) : ledger st' log = ledger st log := by
  unfold ledger
  rw [h]

theorem ledger_take (h : st.toQueue.take = some (v, st'.toQueue)) :
    ParkingQueue.step (ledger st log) .take = some (ledger st' (log ++ [.taken i v])) := by
  have h' : (ledger st log).toQueue.take = some (v, st'.toQueue) := h
  simp only [ParkingQueue.step, h', Option.map_some]
  simp [ledger, List.filterMap_append, Event.accepted?, Event.taken?, Event.failed?]

theorem ledger_give (ha : st.toQueue.Accepts) (h : st'.toQueue = st.toQueue.give v) :
    ParkingQueue.step (ledger st log) (.give v) =
      some (ledger st' (log ++ sendEvents st i v)) := by
  have ha' : (ledger st log).Accepts := ha
  have hg : (ledger st log).toQueue.give v = st'.toQueue := h.symm
  have ht : (ledger st log).takers = st.activeReceivers := rfl
  simp only [ParkingQueue.step, ha', if_true, hg, ht, sendEvents]
  cases hr : st.activeReceivers with
  | nil =>
    simp [ledger, List.filterMap_append, Event.accepted?, Event.taken?, Event.failed?]
  | cons w ws =>
    simp [ledger, List.filterMap_append, List.filterMap_cons, Event.accepted?, Event.taken?,
      Event.failed?]

theorem ledger_parkTaker (hm : st.messages = []) (hc : st.closed = false)
    (h : st'.toQueue = st.toQueue.parkTaker i) :
    ParkingQueue.step (ledger st log) (.parkTaker i) = some (ledger st' log) := by
  have hp : (ledger st log).toQueue.parkTaker i = st'.toQueue := h.symm
  have hb : (ledger st log).buffer = [] := hm
  have hc' : (ledger st log).closed = false := hc
  simp only [ParkingQueue.step, hb, hc', hp]
  rfl

theorem ledger_parkGiver (hc : st.closed = false) (hn : ¬ st.toQueue.Accepts)
    (h : st'.toQueue = st.toQueue.parkGiver i v) :
    ParkingQueue.step (ledger st log) (.parkGiver i v) =
      some (ledger st' (log ++ [.accepted i v])) := by
  have hp : (ledger st log).toQueue.parkGiver i v = st'.toQueue := h.symm
  have hc' : (ledger st log).closed = false ∧ ¬ (ledger st log).Accepts := ⟨hc, hn⟩
  simp only [ParkingQueue.step, if_pos hc', hp]
  simp [ledger, List.filterMap_append, Event.accepted?, Event.taken?, Event.failed?]

theorem ledger_dropTaker (h : st'.toQueue = st.toQueue.dropTaker i) :
    ParkingQueue.step (ledger st log) (.dropTaker i) = some (ledger st' log) := by
  have hp : (ledger st log).toQueue.dropTaker i = st'.toQueue := h.symm
  simp only [ParkingQueue.step, hp]
  rfl

theorem filterMap_failed (gs : List (OpId × T)) :
    (gs.map fun g => Event.failed g.1 g.2).filterMap Event.accepted? = [] ∧
      (gs.map fun g => Event.failed g.1 g.2).filterMap Event.taken? = [] ∧
      (gs.map fun g => Event.failed g.1 g.2).filterMap Event.failed? = gs.map Prod.snd := by
  induction gs with
  | nil => exact ⟨rfl, rfl, rfl⟩
  | cons g gs ih =>
    simp [Event.accepted?, Event.taken?, Event.failed?, List.filterMap_cons, ih.1, ih.2.1, ih.2.2]

theorem ledger_close (h : st'.toQueue = st.toQueue.close) :
    ParkingQueue.step (ledger st log) .close =
      some (ledger st' (log ++ st.parked.map fun g => .failed g.1 g.2)) := by
  have hp : (ledger st log).toQueue.close = st'.toQueue := h.symm
  obtain ⟨h₁, h₂, h₃⟩ := filterMap_failed st.parked
  simp only [ParkingQueue.step, hp]
  simp only [ledger, List.filterMap_append, h₁, h₂, h₃, List.append_nil]
  rfl

end Moves

/-! ## One step -/

/-- A stutter or a move of the parking queue. -/
def Moved (s t : Sys T) : Prop :=
  t.ledger = s.ledger ∨ ∃ m, ParkingQueue.step s.ledger m = some t.ledger

section
variable {s t : Sys T} {i : OpId}

theorem moved_of_queue (hq : t.chan.toQueue = s.chan.toQueue) (hl : t.log = s.log) :
    Moved s t := .inl (by unfold Sys.ledger; rw [hl]; exact ledger_same hq)

@[simp] theorem goto_chan (s : Sys T) (i : OpId) (p : Pc T) : (s.goto i p).chan = s.chan := rfl
@[simp] theorem goto_self (s : Sys T) (i : OpId) (p : Pc T) : (s.goto i p).pc i = p :=
  Function.update_self ..
@[simp] theorem goto_log (s : Sys T) (i : OpId) (p : Pc T) : (s.goto i p).log = s.log := rfl
@[simp] theorem commit_chan (s : Sys T) (l : Locked T) : (s.commit l).chan = l.state := rfl
@[simp] theorem commit_log (s : Sys T) (l : Locked T) : (s.commit l).log = s.log ++ l.events := rfl
@[simp] theorem notifyAll_chan (s : Sys T) : s.notifyAll.chan = s.chan := rfl
@[simp] theorem notifyAll_log (s : Sys T) : s.notifyAll.log = s.log := rfl

theorem post_chan (s : Sys T) (p : Posted) :
    ((s.post p).getD s).chan = s.chan ∧ ((s.post p).getD s).log = s.log := by
  rw [Sys.post_eq]
  split <;> exact ⟨rfl, rfl⟩

@[simp] theorem awaitReady_chan (s : Sys T) (i : OpId) (r : Bool × Locked T) (k : Resume)
    (p : Pc T) : (s.awaitReady i r k p).chan = r.2.state := rfl

@[simp] theorem awaitReady_log (s : Sys T) (i : OpId) (r : Bool × Locked T) (k : Resume)
    (p : Pc T) : (s.awaitReady i r k p).log = s.log ++ r.2.events := rfl

@[simp] theorem awaitSuspend_chan (s : Sys T) (i : OpId) (r : Bool × Locked T) (k : Resume) :
    (s.awaitSuspend i r k).chan = r.2.state := by
  unfold Sys.awaitSuspend
  split <;> rfl

@[simp] theorem awaitSuspend_log (s : Sys T) (i : OpId) (r : Bool × Locked T) (k : Resume) :
    (s.awaitSuspend i r k).log = s.log ++ r.2.events := by
  unfold Sys.awaitSuspend
  split <;> rfl

@[simp] theorem afterSend_chan (s : Sys T) (i : OpId) (r : SendOutcome × Locked T) (full : Pc T)
    (ok : Result T) : (s.afterSend i r full ok).chan = r.2.state := by
  unfold Sys.afterSend
  split <;> rfl

@[simp] theorem afterSend_log (s : Sys T) (i : OpId) (r : SendOutcome × Locked T) (full : Pc T)
    (ok : Result T) : (s.afterSend i r full ok).log = s.log ++ r.2.events := by
  unfold Sys.afterSend
  split <;> rfl

/-- A stutter or a move, from the channel's state and history alone. -/
theorem moved_iff {st : State T} {log : List (Event T)} (hc : t.chan = st) (hl : t.log = log)
    (h : ledger st log = s.ledger ∨ ∃ m, ParkingQueue.step s.ledger m = some (ledger st log)) :
    Moved s t := by
  subst hc hl
  exact h

theorem TakeSpec.moved {r : Option T × Locked T} (h : TakeSpec s.chan i r)
    (hc : t.chan = r.2.state) (hl : t.log = s.log ++ r.2.events) : Moved s t := by
  refine moved_iff hc hl ?_
  cases h with
  | nothing _ hp => exact .inl (by rw [List.append_nil]; exact ledger_same hp.toQueue)
  | value htake _ hev _ => exact .inr ⟨.take, by rw [hev]; exact ledger_take htake⟩

theorem ReadySpec.moved {timed : Prop} {r : Bool × Locked T} (h : ReadySpec s.chan i timed r)
    (hc : t.chan = r.2.state) (hl : t.log = s.log ++ r.2.events) : Moved s t := by
  refine moved_iff hc hl ?_
  cases h with
  | nothing _ _ hp => exact .inl (by rw [List.append_nil]; exact ledger_same hp.toQueue)
  | expired _ _ _ hq _ _ _ _ => exact .inl (by rw [List.append_nil]; exact ledger_same hq)
  | found hf =>
    cases hf with
    | value htake _ hev _ _ _ => exact .inr ⟨.take, by rw [hev]; exact ledger_take htake⟩
    | closed _ _ _ hq hev _ _ _ =>
      exact .inl (by rw [hev, List.append_nil]; exact ledger_same hq)

theorem SuspendSpec.moved {timed : Prop} {r : Bool × Locked T}
    (h : SuspendSpec s.chan i timed r)
    (hc : t.chan = r.2.state) (hl : t.log = s.log ++ r.2.events) : Moved s t := by
  refine moved_iff hc hl ?_
  cases h with
  | parked hm hcl hq _ _ _ =>
    exact .inr ⟨.parkTaker i, by rw [List.append_nil]; exact ledger_parkTaker hm hcl hq⟩
  | value htake _ hev _ _ => exact .inr ⟨.take, by rw [hev]; exact ledger_take htake⟩
  | closed _ _ _ hq hev _ _ => exact .inl (by rw [hev, List.append_nil]; exact ledger_same hq)
  | expired _ _ _ hq _ _ _ _ => exact .inl (by rw [List.append_nil]; exact ledger_same hq)

theorem SendSpec.moved {v : T} {r : SendOutcome × Locked T} (h : SendSpec s.chan i v r)
    (hc : t.chan = r.2.state) (hl : t.log = s.log ++ r.2.events) : Moved s t := by
  refine moved_iff hc hl ?_
  cases h with
  | thrown hp => exact .inl (by rw [List.append_nil]; exact ledger_same hp.toQueue)
  | full _ _ hp => exact .inl (by rw [List.append_nil]; exact ledger_same hp.toQueue)
  | placed ha _ hq hev _ _ => exact .inr ⟨.give v, by rw [hev]; exact ledger_give ha hq⟩

theorem AttemptSpec.moved {v : T} {r : Bool × Locked T} (h : AttemptSpec s.chan i v r)
    (hc : t.chan = r.2.state) (hl : t.log = s.log ++ r.2.events) : Moved s t := by
  refine moved_iff hc hl ?_
  cases h with
  | thrown _ hq _ _ _ => exact .inl (by rw [List.append_nil]; exact ledger_same hq)
  | full _ _ hp => exact .inl (by rw [List.append_nil]; exact ledger_same hp.toQueue)
  | placed ha _ hq hev _ _ _ _ _ => exact .inr ⟨.give v, by rw [hev]; exact ledger_give ha hq⟩

theorem SendSuspendSpec.moved {v : T} {r : Bool × Locked T} (h : SendSuspendSpec s.chan i v r)
    (hc : t.chan = r.2.state) (hl : t.log = s.log ++ r.2.events) : Moved s t := by
  refine moved_iff hc hl ?_
  cases h with
  | parked hcl ha hq _ _ _ => exact .inr ⟨.parkGiver i v, ledger_parkGiver hcl ha hq⟩
  | thrown _ hq _ _ _ => exact .inl (by rw [List.append_nil]; exact ledger_same hq)
  | placed ha _ hq hev _ _ _ _ _ => exact .inr ⟨.give v, by rw [hev]; exact ledger_give ha hq⟩

theorem Expelled.moved {st' : State T} (h : st' = s.chan ∨ Expelled s.chan i st')
    (hc : t.chan = st') (hl : t.log = s.log) : Moved s t := by
  refine moved_iff hc hl ?_
  rcases h with rfl | hx
  · exact .inl rfl
  · exact .inr ⟨.dropTaker i, ledger_dropTaker hx.toQueue⟩

/-- The simulation: one step of the channel is at most one move of the queue. -/
theorem step_moved (hr : s.Ready) {l : Label T} (h : StepSpec s l t) : Moved s t := by
  cases h with
  | @start i loop call hpc =>
    refine moved_of_queue ?_ rfl
    cases call with
    | asyncSend v => exact toQueue_setSender ((hr.op i).idle hpc).queue _
    | _ => rfl
  | send _ _ hs => exact hs.moved (afterSend_chan ..) (afterSend_log ..)
  | sendReady _ _ hs => exact hs.moved rfl rfl
  | sendSuspend _ _ hs => exact hs.moved (awaitSuspend_chan ..) (awaitSuspend_log ..)
  | recvReady _ _ _ hs => exact hs.moved rfl rfl
  | recvSuspend _ _ _ _ hs => exact hs.moved (awaitSuspend_chan ..) (awaitSuspend_log ..)
  | tryRecv _ hs => exact hs.moved rfl rfl
  | next _ _ hs => exact hs.moved rfl rfl
  | nextNothing _ _ hp _ => exact moved_of_queue hp.toQueue rfl
  | close _ _ _ hq _ _ _ => exact .inr ⟨.close, ledger_close hq⟩
  | postFailed _ _ hx => exact Expelled.moved (hx.imp_right And.left) rfl rfl
  | timer _ ht =>
    rw [ht.frame]
    exact Expelled.moved (ht.chan.imp_right fun h => h.2.2.1) rfl rfl
  | closeTimer _ => exact moved_of_queue (congrArg State.toQueue (post_chan s _).1) (post_chan s _).2
  | cancelTimer _ _ =>
    exact moved_of_queue (congrArg State.toQueue (post_chan s _).1) (post_chan s _).2
  | @notify i f k _ =>
    cases f.notifyBlockedSenders <;> exact moved_of_queue rfl rfl
  | _ => exact moved_of_queue rfl rfl

end

/-! ## The invariant -/

/-- What a step leaves of the waiters nobody has seen. -/
structure Preserves (own : Party → Prop) (st st' : State T) : Prop where
  wellFormed : WellFormed st'
  async : st'.async = st.async
  initialized : st'.handleInitialized = st.handleInitialized
  receiver : ∀ j, ¬ own (.receiver j) → FreshReceiver st j → FreshReceiver st' j
  sender : ∀ j v, ¬ own (.sender j) → FreshSender st j v → FreshSender st' j v

theorem Preserves.refl {st : State T} (hw : WellFormed st) (own : Party → Prop) :
    Preserves own st st := ⟨hw, rfl, rfl, fun _ _ h => h, fun _ _ _ h => h⟩

theorem preserves_of_evolves {own : Party → Prop} {st st' : State T} (hw : WellFormed st')
    (ha : st'.async = st.async) (hi : st'.handleInitialized = st.handleInitialized)
    (hr : Evolves (fun j => own (.receiver j)) st.receivers st'.receivers)
    (hs : Evolves (fun j => own (.sender j)) st.senders st'.senders) :
    Preserves own st st' := by
  refine ⟨hw, ha, hi, fun j hj hf => ?_, fun j v hj hf => ?_⟩
  · have hn : j ∉ st.receivers.waiting := fun h => hf.queue (Pool.mem_waiting.mp h).1
    exact ⟨(hr.idle hj hn).1.trans hf.record, fun hq => hf.queue (hr.mem j hj hq)⟩
  · have hn : j ∉ st.senders.waiting := fun h => hf.queue (Pool.mem_waiting.mp h).1
    exact ⟨(hs.idle hj hn).1.trans hf.record, fun hq => hf.queue (hs.mem j hj hq)⟩

theorem Section.preserves {own : Party → Prop} {st : State T} {l : Locked T}
    (h : Section own st l) : Preserves own st l.state :=
  preserves_of_evolves h.wellFormed h.async h.handleInitialized h.receivers h.senders

theorem Pruned.preserves {st st' : State T} (h : Pruned st st') (hw : WellFormed st)
    (own : Party → Prop) : Preserves own st st' :=
  (h.section hw own (l := { state := st' }) rfl).preserves

theorem Expelled.preserves {st st' : State T} {i : OpId} (h : Expelled st i st') :
    Preserves (· = .receiver i) st st' := by
  refine preserves_of_evolves h.wellFormed h.async h.handleInitialized
    (h.receivers.mono fun j hj => hj ▸ rfl) ?_
  rw [h.senders]
  exact .refl _ _

/-- An operation never comes to an earlier program point. -/
structure Later (p q : Pc T) : Prop where
  receive : q.beforeReceive = true → p.beforeReceive = true
  send : q.beforeSend = true → p.beforeSend = true
  idle : q = .idle → p = .idle
  close : q = .close → p = .close

theorem Later.refl (p : Pc T) : Later p p := ⟨id, id, id, id⟩

/-- The operation has been called and its waiter is known or not needed. -/
def Pc.past (p : Pc T) : Prop :=
  p.beforeReceive = false ∧ p.beforeSend = false ∧ p ≠ .close

theorem Pc.past.later {q : Pc T} (h : q.past) (p : Pc T) : Later p q := by
  refine ⟨fun hr => ?_, fun hs => ?_, fun hi => ?_, fun hc => absurd hc h.2.2⟩
  · rw [h.1] at hr
    cases hr
  · rw [h.2.1] at hs
    cases hs
  · have hr := h.1
    rw [hi] at hr
    cases hr

section
variable {s t : Sys T} {i : OpId}

theorem Later.trans {p q r : Pc T} (h : Later p q) (h' : Later q r) : Later p r :=
  ⟨fun hr => h.receive (h'.receive hr), fun hr => h.send (h'.send hr),
    fun hr => h.idle (h'.idle hr), fun hr => h.close (h'.close hr)⟩

theorem later_update {p : Pc T} (ht : t.pc = Function.update s.pc i p) (h : Later (s.pc i) p)
    (j : OpId) : Later (s.pc j) (t.pc j) := by
  rw [ht]
  by_cases hj : j = i
  · subst hj
    rw [Function.update_self]
    exact h
  · rw [Function.update_of_ne hj]
    exact .refl _

theorem later_notifyAll (j : OpId) : Later (s.pc j) (s.notifyAll.pc j) := by
  simp only [Sys.notifyAll]
  cases s.pc j with
  | sendWait v => exact ⟨id, id, (by simp), (by simp)⟩
  | _ => exact .refl _

theorem past_done (r : Result T) : (Pc.done r).past := ⟨rfl, rfl, nofun⟩

theorem past_resume (f : Flags) (k : Resume) : (Pc.notify f (.resume k) : Pc T).past := ⟨rfl, rfl, nofun⟩

theorem past_ret (f : Flags) (r : Result T) : (Pc.notify f (.ret r)).past := ⟨rfl, rfl, nofun⟩

theorem past_closeTimers (schedule : Bool) (timers : List OpId) :
    (Pc.closeTimers schedule timers : Pc T).past := ⟨rfl, rfl, nofun⟩

theorem later_continue {f : Flags} {k : After T} {st : State T} :
    Later (Pc.wake f k) (k.continue st i) := by
  cases k with
  | ret r => exact (past_done _).later _
  | resume k => exact (past_done _).later _
  | recvTask => exact ⟨fun _ => rfl, nofun, nofun, nofun⟩

theorem post_pc (s : Sys T) (p : Posted) : ((s.post p).getD s).pc = s.pc := by
  rw [Sys.post_eq]
  split <;> rfl

theorem post_posting (s : Sys T) (p : Posted) : ((s.post p).getD s).posting = s.posting := by
  rw [Sys.post_eq]
  split <;> rfl

/-- Only `recv_for` comes to post a timer start, and is suspended then. -/
theorem posting_of_step {l : Label T} (h : StepSpec s l t) {j : OpId} (hp : t.posting j = true) :
    s.posting j = true ∨
      (∃ timeout, s.pc j = .recvForSuspend timeout) ∧ t.pc j = .suspended .recvFor := by
  have hsame : t.posting = s.posting → s.posting j = true := by
    intro he
    rwa [← he]
  have hclear : ∀ {i : OpId}, t.posting = Function.update s.posting i false →
      s.posting j = true := by
    intro i he
    rw [he] at hp
    by_cases hj : j = i
    · rw [hj, Function.update_self] at hp
      cases hp
    · rwa [Function.update_of_ne hj] at hp
  cases h with
  | send _ _ _ => exact .inl (hsame (by unfold Sys.afterSend; split <;> rfl))
  | sendSuspend _ _ _ => exact .inl (hsame (by unfold Sys.awaitSuspend; split <;> rfl))
  | @recvSuspend i k q posting r hpc hq _ hpost _ =>
    obtain ⟨ok, l⟩ := r
    cases hpost with
    | recv => exact .inl hp
    | recvFor =>
      cases ok with
      | false => exact .inl (hclear rfl)
      | true =>
        by_cases hj : j = i
        · subst hj
          cases hq
          exact .inr ⟨⟨_, hpc⟩, goto_self ..⟩
        · exact .inl ((Function.update_of_ne hj true s.posting).symm.trans hp)
  | closeTimer _ => exact .inl (hsame (post_posting s _))
  | cancelTimer _ _ => exact .inl (hsame (post_posting s _))
  | notify _ => exact .inl (hsame (by split <;> rfl))
  | posted _ _ => exact .inl (hclear rfl)
  | postFailed _ _ _ => exact .inl (hclear rfl)
  | timer _ ht => exact .inl (hsame (congrArg Sys.posting ht.frame :))
  | _ => exact .inl (hsame rfl)

/-- Once called, an operation only goes forward. -/
theorem later_step {l : Label T} (h : StepSpec s l t)
    (hl : ∀ i loop call, l ≠ .start i loop call) (j : OpId) : Later (s.pc j) (t.pc j) := by
  have hpast : ∀ {i : OpId} {p : Pc T}, t.pc = Function.update s.pc i p → p.past →
      Later (s.pc j) (t.pc j) := fun ht hp => later_update ht (hp.later _) j
  have hrefl : t.pc = s.pc → Later (s.pc j) (t.pc j) := fun he => he ▸ .refl _
  cases h with
  | @start i loop call _ => exact absurd rfl (hl i loop call)
  | @send i v r full ok _ hfull hs =>
    cases hs with
    | thrown _ => exact hpast rfl (past_done _)
    | placed _ _ _ _ _ _ => exact hpast rfl (past_ret _ _)
    | full _ _ _ =>
      rcases hfull with rfl | ⟨x, rfl⟩ <;> exact hpast rfl ⟨rfl, rfl, (by intro h; cases h)⟩
  | @sendReady i v r hpc _ _ =>
    refine later_update (i := i) rfl ?_ j
    split
    · exact (past_resume _ _).later _
    · rw [hpc]
      exact ⟨(by intro h; cases h), id, (by intro h; cases h), (by intro h; cases h)⟩
  | @sendSuspend i v r _ _ _ =>
    obtain ⟨ok, l⟩ := r
    cases ok with
    | true => exact hpast rfl ⟨rfl, rfl, (by intro h; cases h)⟩
    | false => exact hpast rfl (past_resume _ _)
  | @recvReady i k p q r hpc hq _ _ =>
    refine later_update (i := i) rfl ?_ j
    split
    · exact (past_resume _ _).later _
    · rw [hpc]
      cases hq <;> exact ⟨id, (by intro h; cases h), (by intro h; cases h), (by intro h; cases h)⟩
  | @recvSuspend i k q posting r _ _ _ _ _ =>
    obtain ⟨ok, l⟩ := r
    cases ok with
    | true => exact hpast rfl ⟨rfl, rfl, (by intro h; cases h)⟩
    | false => exact hpast rfl (past_resume _ _)
  | tryRecv _ _ => exact hpast rfl (past_ret _ _)
  | next _ _ _ => exact hpast rfl (past_ret _ _)
  | nextNothing hpc _ _ hp =>
    refine later_update rfl ?_ j
    rw [hpc]
    rcases hp with ⟨_, rfl⟩ | ⟨_, rfl⟩
    · exact (past_done _).later _
    · exact ⟨fun _ => rfl, (by intro h; cases h), (by intro h; cases h), (by intro h; cases h)⟩
  | nextOnLoop _ _ => exact hpast rfl (past_done _)
  | close _ _ _ _ _ _ _ => exact hpast rfl ⟨rfl, rfl, (by intro h; cases h)⟩
  | @closeNotify i schedule timers _ =>
    refine (later_notifyAll j).trans (later_update (s := s.notifyAll) rfl ?_ j)
    exact (past_closeTimers _ _).later _
  | @closeTimer i _ schedule timers _ =>
    refine hpast (i := i) (p := .closeTimers schedule timers) ?_ ⟨rfl, rfl, (by intro h; cases h)⟩
    exact congrArg (Function.update · _ _) (post_pc s _)
  | @closeTimersDone i schedule _ =>
    refine hpast (i := i) rfl ?_
    cases schedule <;> exact ⟨rfl, rfl, (by intro h; cases h)⟩
  | closePost _ _ => exact hpast rfl (past_done _)
  | closePostFailed _ _ => exact hpast rfl (past_done _)
  | @notify i f k hpc =>
    cases hf : f.notifyBlockedSenders with
    | false =>
      refine later_update (i := i) rfl ?_ j
      rw [hpc]
      exact ⟨id, (by intro h; cases h), (by intro h; cases h), (by intro h; cases h)⟩
    | true =>
      refine (later_notifyAll j).trans (later_update (s := s.notifyAll) rfl ?_ j)
      have hi : s.notifyAll.pc i = .notify f k := by
        simp only [Sys.notifyAll, hpc]
      rw [hi]
      exact ⟨id, (by intro h; cases h), (by intro h; cases h), (by intro h; cases h)⟩
  | @cancelTimer i _ ts f k hpc _ =>
    refine later_update (p := .cancelTimers { f with timersToCancel := ts } k)
      (congrArg (Function.update · _ _) (post_pc s _)) ?_ j
    rw [hpc]
    exact ⟨id, (by intro h; cases h), (by intro h; cases h), (by intro h; cases h)⟩
  | @cancelTimersDone i f k hpc =>
    refine later_update (i := i) rfl ?_ j
    rw [hpc]
    exact ⟨id, (by intro h; cases h), (by intro h; cases h), (by intro h; cases h)⟩
  | wakeNothing hpc _ => exact later_update rfl (by rw [hpc]; exact later_continue) j
  | wakeFlush hpc _ => exact later_update rfl (by rw [hpc]; exact later_continue) j
  | wakeClosing _ _ _ _ => exact hpast rfl (past_done _)
  | wakeAsync hpc _ _ => exact later_update rfl (by rw [hpc]; exact later_continue) j
  | spurious _ => exact hpast rfl ⟨rfl, rfl, (by intro h; cases h)⟩
  | postFailed _ _ _ => exact hpast rfl (past_resume _ _)
  | timer _ ht => exact hrefl (congrArg Sys.pc ht.frame :)
  | flushResume _ _ => exact hpast rfl (past_resume _ _)
  | _ => exact hrefl rfl

theorem timed_post (s : Sys T) {p : Posted} (hp : ∀ j c, p ≠ .timerStart j c) {j : OpId}
    (h : ((s.post p).getD s).Timed j) : s.Timed j := by
  rw [Sys.post_eq] at h
  split at h
  · exact h
  · rcases h with h | h | ⟨c, h⟩
    · exact .inl h
    · exact .inr (.inl h)
    · rcases List.mem_append.mp h with h | h
      · exact .inr (.inr ⟨c, h⟩)
      · exact absurd (List.mem_singleton.mp h).symm (hp j c)

theorem timed_congr (hpost : t.posting = s.posting)
    (htimer : ∀ j, (t.timer j).armed = true → (s.timer j).armed = true)
    (hposted : ∀ p ∈ t.posted, p ∈ s.posted) {j : OpId} (h : t.Timed j) : s.Timed j := by
  rcases h with h | h | ⟨c, h⟩
  · exact .inl (by rw [← hpost]; exact h)
  · exact .inr (.inl (htimer j h))
  · exact .inr (.inr ⟨c, hposted _ h⟩)

/-- A timer comes into play only when its operation is suspended. -/
theorem timed_step {l : Label T} (h : StepSpec s l t) {j : OpId} (ht : t.Timed j) :
    s.Timed j ∨ l = .run j ∧ (s.pc j).beforeReceive = true ∧ t.pc j = .suspended .recvFor := by
  have hsame : (t.posting = s.posting ∧ t.timer = s.timer ∧ t.posted = s.posted) → s.Timed j :=
    fun ⟨h₁, h₂, h₃⟩ => timed_congr h₁ (fun j h => by rw [← h₂]; exact h)
      (fun p h => by rw [← h₃]; exact h) ht
  have hclear : ∀ {i : OpId}, t.posting = Function.update s.posting i false →
      t.timer = s.timer → t.posted = s.posted → s.Timed j := by
    intro i h₁ h₂ h₃
    rcases ht with h | h
    · rw [h₁] at h
      by_cases hj : j = i
      · rw [hj, Function.update_self] at h
        cases h
      · rw [Function.update_of_ne hj] at h
        exact .inl h
    · rw [h₂, h₃] at h
      exact .inr h
  cases h with
  | send _ _ _ => exact .inl (hsame (by unfold Sys.afterSend; split <;> exact ⟨rfl, rfl, rfl⟩))
  | sendSuspend _ _ _ =>
    exact .inl (hsame (by unfold Sys.awaitSuspend; split <;> exact ⟨rfl, rfl, rfl⟩))
  | @recvSuspend i k q posting r hpc hq _ hpost hs =>
    obtain ⟨ok, l⟩ := r
    cases hpost with
    | recv => exact .inl (hsame (by unfold Sys.awaitSuspend; split <;> exact ⟨rfl, rfl, rfl⟩))
    | recvFor =>
      cases ok with
      | false => exact .inl (hclear rfl rfl rfl)
      | true =>
        by_cases hj : j = i
        · subst hj
          refine .inr ⟨rfl, ?_, goto_self ..⟩
          rw [hpc]
          cases hq; rfl
        · rcases ht with h | h
          · exact .inl (.inl ((Function.update_of_ne hj true s.posting).symm.trans h))
          · exact .inl (.inr h)
  | closeTimer _ => exact .inl (timed_post s (p := .timerCancel _) nofun ht)
  | cancelTimer _ _ => exact .inl (timed_post s (p := .timerCancel _) nofun ht)
  | closePost _ hs =>
    exact .inl (timed_post s (p := .closeChannel) nofun (by rw [Sys.post_eq, hs]; exact ht))
  | notify _ => exact .inl (hsame (by split <;> exact ⟨rfl, rfl, rfl⟩))
  | @posted i c hp _ =>
    rcases ht with h | h | ⟨c', h⟩
    · by_cases hj : j = i
      · rw [hj]
        exact .inl (.inl hp)
      · exact .inl (.inl ((Function.update_of_ne hj false s.posting).symm.trans h))
    · exact .inl (.inr (.inl h))
    · rcases List.mem_append.mp h with h | h
      · exact .inl (.inr (.inr ⟨c', h⟩))
      · cases List.mem_singleton.mp h
        exact .inl (.inl hp)
  | postFailed _ _ _ => exact .inl (hclear rfl rfl rfl)
  | timer _ hti =>
    rcases ht with h | h | ⟨c, h⟩
    · have hpost : t.posting = s.posting := (congrArg Sys.posting hti.frame :)
      exact .inl (.inl (by rw [← hpost]; exact h))
    · exact .inl (hti.armed j h)
    · refine .inl (.inr (.inr ⟨c, ?_⟩))
      rcases hti.posted with hp | ⟨c', hp⟩
      · rw [hp]
        exact h
      · rw [hp]
        exact List.mem_cons_of_mem _ h
  | timerCancel hps htm =>
    refine .inl (timed_congr (j := j) ?_ ?_ (fun p hp => ?_) ht)
    · rfl
    · exact htm
    · rw [hps]
      exact List.mem_cons_of_mem _ hp
  | closeChannel hps =>
    refine .inl (timed_congr (j := j) ?_ ?_ (fun p hp => ?_) ht)
    · rfl
    · exact fun _ => id
    · rw [hps]
      exact List.mem_cons_of_mem _ hp
  | _ => exact .inl (hsame ⟨rfl, rfl, rfl⟩)

/-! ### What a step keeps of the waiters -/

theorem ReadySpec.preserves {timed : Prop} {r : Bool × Locked T} (hw : WellFormed s.chan)
    (h : ReadySpec s.chan i timed r) : Preserves (· = .receiver i) s.chan r.2.state := by
  cases h with
  | nothing _ _ hp => exact hp.preserves hw _
  | expired _ _ hs _ _ _ _ _ => exact hs.preserves
  | found hf =>
    cases hf with
    | value _ hs _ _ _ _ => exact hs.preserves
    | closed _ _ hs _ _ _ _ _ => exact hs.preserves

theorem SuspendSpec.preserves {timed : Prop} {r : Bool × Locked T}
    (h : SuspendSpec s.chan i timed r) :
    Preserves (· = .receiver i) s.chan r.2.state := by
  cases h with
  | parked _ _ _ hs _ _ => exact hs.preserves
  | value _ hs _ _ _ => exact hs.preserves
  | closed _ _ hs _ _ _ _ => exact hs.preserves
  | expired _ _ hs _ _ _ _ _ => exact hs.preserves

theorem TakeSpec.preserves {r : Option T × Locked T} (hw : WellFormed s.chan)
    (h : TakeSpec s.chan i r) : Preserves noOne s.chan r.2.state := by
  cases h with
  | nothing _ hp => exact hp.preserves hw _
  | value _ hs _ _ => exact hs.preserves

theorem SendSpec.preserves {v : T} {r : SendOutcome × Locked T} (hw : WellFormed s.chan)
    (h : SendSpec s.chan i v r) : Preserves noOne s.chan r.2.state := by
  cases h with
  | thrown hp => exact hp.preserves hw _
  | full _ _ hp => exact hp.preserves hw _
  | placed _ hs _ _ _ _ => exact hs.preserves

theorem AttemptSpec.preserves {v : T} {r : Bool × Locked T} (hw : WellFormed s.chan)
    (h : AttemptSpec s.chan i v r) : Preserves (· = .sender i) s.chan r.2.state := by
  cases h with
  | thrown hs _ _ _ _ => exact hs.preserves
  | full _ _ hp => exact hp.preserves hw _
  | placed _ hs _ _ _ _ _ _ _ => exact hs.preserves

theorem SendSuspendSpec.preserves {v : T} {r : Bool × Locked T}
    (h : SendSuspendSpec s.chan i v r) : Preserves (· = .sender i) s.chan r.2.state := by
  cases h with
  | parked _ _ _ hs _ _ => exact hs.preserves
  | thrown hs _ _ _ _ => exact hs.preserves
  | placed _ hs _ _ _ _ _ _ _ => exact hs.preserves

/-- The acting operation is past the point where its own waiter matters. -/
structure OwnPast (own : Party → Prop) (t : Sys T) : Prop where
  receiver : ∀ j, own (.receiver j) → (t.pc j).beforeReceive = false
  sender : ∀ j, own (.sender j) → (t.pc j).past

theorem ownPast_receiver (h : (t.pc i).past) : OwnPast (· = .receiver i) t :=
  ⟨fun j hj => by cases hj; exact h.1, nofun⟩

theorem ownPast_sender (h : (t.pc i).past) : OwnPast (· = .sender i) t :=
  ⟨nofun, fun j hj => by cases hj; exact h⟩

theorem past_of_update {p : Pc T} (ht : t.pc = Function.update s.pc i p) (hp : p.past) :
    (t.pc i).past := by
  rw [ht, Function.update_self]
  exact hp

theorem preserves_step (hr : s.Ready) {l : Label T} (h : StepSpec s l t)
    (hl : ∀ i loop call, l ≠ .start i loop call) :
    ∃ own, Preserves own s.chan t.chan ∧ OwnPast own t := by
  have hw := hr.wellFormed
  have hno : Preserves noOne s.chan t.chan → ∃ own, Preserves own s.chan t.chan ∧ OwnPast own t :=
    fun hp => ⟨noOne, hp, nofun, nofun⟩
  have hsame : t.chan = s.chan → ∃ own, Preserves own s.chan t.chan ∧ OwnPast own t := fun he =>
    hno (by rw [he]; exact .refl hw _)
  cases h with
  | @start i loop call _ => exact absurd rfl (hl i loop call)
  | send _ _ hs => exact hno (by rw [afterSend_chan]; exact hs.preserves hw)
  | @sendReady i v r _ _ hs =>
    have hp := hs.preserves hw
    cases hs with
    | full _ _ hpr => exact hno (hpr.preserves hw _)
    | thrown _ _ _ _ _ => exact ⟨_, hp, ownPast_sender (past_of_update rfl (past_resume _ _))⟩
    | placed _ _ _ _ _ _ _ _ _ =>
      exact ⟨_, hp, ownPast_sender (past_of_update rfl (past_resume _ _))⟩
  | @sendSuspend i v r _ _ hs =>
    have hp := hs.preserves
    cases hs with
    | parked _ _ _ _ _ _ => exact ⟨_, hp, ownPast_sender (past_of_update rfl ⟨rfl, rfl, nofun⟩)⟩
    | thrown _ _ _ _ _ => exact ⟨_, hp, ownPast_sender (past_of_update rfl (past_resume _ _))⟩
    | placed _ _ _ _ _ _ _ _ _ =>
      exact ⟨_, hp, ownPast_sender (past_of_update rfl (past_resume _ _))⟩
  | @recvReady i k p q r _ _ _ hs =>
    have hp := hs.preserves hw
    cases hs with
    | nothing _ _ hpr => exact hno (hpr.preserves hw _)
    | found _ => exact ⟨_, hp, ownPast_receiver (past_of_update rfl (past_resume _ _))⟩
    | expired _ _ _ _ _ _ _ _ =>
      exact ⟨_, hp, ownPast_receiver (past_of_update rfl (past_resume _ _))⟩
  | @recvSuspend i k q posting r _ _ _ _ hs =>
    have hp := hs.preserves
    cases hs with
    | parked _ _ _ _ _ _ => exact ⟨_, hp, ownPast_receiver (past_of_update rfl ⟨rfl, rfl, nofun⟩)⟩
    | value _ _ _ _ _ => exact ⟨_, hp, ownPast_receiver (past_of_update rfl (past_resume _ _))⟩
    | closed _ _ _ _ _ _ _ =>
      exact ⟨_, hp, ownPast_receiver (past_of_update rfl (past_resume _ _))⟩
    | expired _ _ _ _ _ _ _ _ =>
      exact ⟨_, hp, ownPast_receiver (past_of_update rfl (past_resume _ _))⟩
  | tryRecv _ hs => exact hno (hs.preserves hw)
  | next _ _ hs => exact hno (hs.preserves hw)
  | nextNothing _ _ hpr _ => exact hno (hpr.preserves hw _)
  | close _ hw' hout _ ha hi _ =>
    exact hno (preserves_of_evolves hw' ha hi hout.receivers hout.senders)
  | closeTimer _ => exact hsame (post_chan s _).1
  | cancelTimer _ _ => exact hsame (post_chan s _).1
  | notify _ => exact hsame (by rw [goto_chan]; split <;> rfl)
  | @postFailed i st' wake _ _ hx =>
    refine ⟨(· = .receiver i), ?_, ownPast_receiver (past_of_update rfl (past_resume _ _))⟩
    rcases hx with rfl | ⟨hx, _⟩
    · exact .refl hw _
    · exact hx.preserves
  | @timer i _ _ _ ht =>
    have hpc : t.pc = s.pc := (congrArg Sys.pc ht.frame :)
    refine ⟨(· = .receiver i), ?_, fun j hj => ?_, nofun⟩
    · rcases ht.chan with he | ⟨_, _, hx, _⟩
      · rw [he]
        exact .refl hw _
      · exact hx.preserves
    · cases hj
      rw [hpc]
      exact (hr.op i).timed ht.timed
  | flushSwap _ =>
    refine hno ⟨?_, rfl, rfl, fun _ _ h => ⟨h.record, h.queue⟩, fun _ _ _ h => ⟨h.record, h.queue⟩⟩
    exact ⟨⟨⟨hw.receivers.nodup, hw.receivers.pending⟩, ⟨hw.senders.nodup, hw.senders.pending⟩,
      hw.receiverResumable, hw.senderResumable, hw.senderValue⟩, hw.closing⟩
  | _ => exact hsame rfl

theorem ready_start (hr : s.Ready) (loop : Bool) (call : Call T) (hpc : s.pc i = .idle)
    (hv : (call.enter s.chan i).toQueue.Valid) : Sys.Ready { s with
      onLoop := Function.update s.onLoop i loop
      pc := Function.update s.pc i call.entry
      chan := call.enter s.chan i } := by
  have hfr : FreshReceiver s.chan i := (hr.op i).receiver (by rw [hpc]; rfl)
  have hfs : FreshSender s.chan i none := (hr.op i).idle hpc
  have hnt : ¬ s.Timed i := fun h => by
    have := (hr.op i).timed h
    rw [hpc] at this
    cases this
  generalize hst : call.enter s.chan i = st' at hv ⊢
  have hp : Preserves (· = .sender i) s.chan st' := by
    subst hst
    cases call with
    | asyncSend v =>
      exact (section_setSender hr.wellFormed hfs.queue fun w =>
        { w with value := some v }).preserves
    | _ => exact .refl hr.wellFormed _
  have hown : (call.entry).beforeSend = true → ∃ v, FreshSender st' i (some v) := by
    subst hst
    cases call with
    | asyncSend v => exact fun _ => ⟨v, by simp [Call.enter, State.setSender, hfs.record], hfs.queue⟩
    | _ => intro h; cases h
  refine ⟨hp.wellFormed, hv, hp.async.trans hr.async, hp.initialized.trans hr.initialized,
    fun j => ?_⟩
  by_cases hj : j = i
  · subst hj
    have hpcj : Function.update s.pc j call.entry j = call.entry := Function.update_self ..
    refine ⟨fun _ => hp.receiver j (by simp) hfr, fun h => hown (hpcj ▸ h), fun h => ?_,
      fun h => absurd h hnt⟩
    have he : call.entry = .idle := hpcj.symm.trans h
    cases call <;> cases he
  · have hpcj : Function.update s.pc i call.entry j = s.pc j := Function.update_of_ne hj ..
    have hnj : ¬ Party.sender j = Party.sender i := fun he => hj (Party.sender.inj he)
    refine ⟨fun h => hp.receiver j (by simp) ((hr.op j).receiver (hpcj ▸ h)), fun h => ?_,
      fun h => hp.sender j _ hnj ((hr.op j).idle (hpcj.symm.trans h)), fun h => ?_⟩
    · obtain ⟨v, hf⟩ := (hr.op j).sender (hpcj ▸ h)
      exact ⟨v, hp.sender j _ hnj hf⟩
    · exact (congrArg Pc.beforeReceive hpcj).trans ((hr.op j).timed h)

/-- A valid queue is all a step has to leave behind for the next one. -/
theorem ready_step (hr : s.Ready) {l : Label T} (h : StepSpec s l t)
    (hv : t.chan.toQueue.Valid) : t.Ready := by
  by_cases hl : ∀ i loop call, l ≠ .start i loop call
  · obtain ⟨own, hp, hown⟩ := preserves_step hr h hl
    have hlater := later_step h hl
    refine ⟨hp.wellFormed, hv, hp.async.trans hr.async, hp.initialized.trans hr.initialized,
      fun j => ⟨fun hj => ?_, fun hj => ?_, fun hj => ?_, fun htj => ?_⟩⟩
    · refine hp.receiver j (fun ho => ?_) ((hr.op j).receiver ((hlater j).receive hj))
      rw [hown.receiver j ho] at hj
      cases hj
    · obtain ⟨v, hf⟩ := (hr.op j).sender ((hlater j).send hj)
      refine ⟨v, hp.sender j _ (fun ho => ?_) hf⟩
      rw [(hown.sender j ho).2.1] at hj
      cases hj
    · refine hp.sender j _ (fun ho => ?_) ((hr.op j).idle ((hlater j).idle hj))
      have := (hown.sender j ho).1
      rw [hj] at this
      cases this
    · rcases timed_step h htj with htj | ⟨_, _, hk⟩
      · have hb := (hr.op j).timed htj
        cases hb' : (t.pc j).beforeReceive with
        | false => rfl
        | true => rw [(hlater j).receive hb'] at hb; cases hb
      · rw [hk]
        rfl
  · simp only [not_forall, ne_eq, not_not] at hl
    obtain ⟨i, loop, call, rfl⟩ := hl
    obtain ⟨hpc, rfl⟩ := start_spec h
    exact ready_start hr loop call hpc hv

/-- What holds in every reachable state of the channel system. -/
structure Inv (s : Sys T) : Prop where
  ready : s.Ready
  sound : Sound s.ledger

theorem inv_step {l : Label T} (h : Inv s) (hs : step s l = some t) :
    Moved s t ∧ Inv t := by
  have hspec := step_spec h.ready hs
  have hm := step_moved h.ready hspec
  have hsound : Sound t.ledger := by
    rcases hm with he | ⟨m, he⟩
    · rw [he]
      exact h.sound
    · exact step_sound h.sound he
  exact ⟨hm, ready_step h.ready hspec hsound.valid, hsound⟩

theorem inv_init (capacity : Nat) : Inv (Sys.new capacity : Sys T) := by
  have hvalid : ({ capacity := capacity } : Queue OpId T).Valid := by
    refine ⟨fun _ => Nat.zero_le _, ?_, ?_⟩ <;> simp
  refine ⟨⟨⟨⟨⟨List.nodup_nil, nofun⟩, ⟨List.nodup_nil, nofun⟩, nofun, nofun, nofun⟩, rfl⟩,
    hvalid, rfl, rfl, fun i => ⟨fun _ => ⟨rfl, List.not_mem_nil⟩, nofun, fun _ => ⟨rfl,
      List.not_mem_nil⟩, ?_⟩⟩, hvalid, rfl, nofun⟩
  rintro (h | h | ⟨c, h⟩)
  · cases h
  · cases h
  · cases h

theorem reachable_inv (h : Reachable (system T) s) : Inv s := by
  refine h.invariant ?_ fun s l t _ hI hs => (inv_step hI hs).2
  rintro s ⟨capacity, rfl⟩
  exact inv_init capacity

/-- The channel system refines the parking queue. -/
theorem refines : Refines (system T) (ParkingQueue.system OpId T) Sys.ledger where
  init := by
    rintro s ⟨capacity, rfl⟩
    exact ⟨capacity, rfl⟩
  step s l t hr hs := (inv_step (reachable_inv hr) hs).1

end

end LuvCoro.Channel
