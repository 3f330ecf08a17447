import LuvCoro.Channel.Flush
import LuvCoro.Channel.Next

/-! # When a call of `recv` throws

`recv` throws what its waiter was failed with, or that the handle is closing.
Both come after a `close`, which is an operation of its own. -/
namespace LuvCoro.Channel

open Transition

universe u
variable {T : Type u} {s t : Sys T} {l : Label T} {i : OpId}

/-- The channel is closed by the section of `close` and by nothing else. -/
theorem closed_by (h : StepSpec s l t) (hc : t.chan.closed = true) :
    s.chan.closed = true ∨ ∃ j, l = .run j ∧ s.pc j = .close := by
  have hsame : t.chan.closed = s.chan.closed →
      s.chan.closed = true ∨ ∃ j, l = .run j ∧ s.pc j = .close := by
    intro he
    exact .inl (he ▸ hc)
  cases h with
  | @start i loop call _ => cases call <;> exact hsame rfl
  | @send i v r full ok _ _ hs =>
    cases hs with
    | thrown hp => exact hsame hp.keeps.closed
    | full _ _ hp => exact hsame hp.keeps.closed
    | placed _ hs _ _ _ _ => exact hsame hs.closed
  | sendReady _ _ hs =>
    cases hs with
    | thrown hs _ _ _ _ => exact hsame hs.closed
    | full _ _ hp => exact hsame hp.keeps.closed
    | placed _ hs _ _ _ _ _ _ _ => exact hsame hs.closed
  | sendSuspend _ _ hs =>
    cases hs with
    | parked _ _ _ hs _ _ => exact hsame hs.closed
    | thrown hs _ _ _ _ => exact hsame hs.closed
    | placed _ hs _ _ _ _ _ _ _ => exact hsame hs.closed
  | recvReady _ _ _ hs =>
    cases hs with
    | nothing _ _ hp => exact hsame hp.keeps.closed
    | expired _ _ hs _ _ _ _ _ => exact hsame hs.closed
    | found hf =>
      cases hf with
      | value _ hs _ _ _ _ => exact hsame hs.closed
      | closed _ _ hs _ _ _ _ _ => exact hsame hs.closed
  | recvSuspend _ _ _ _ hs =>
    cases hs with
    | parked _ _ _ hs _ _ => exact hsame hs.closed
    | value _ hs _ _ _ => exact hsame hs.closed
    | closed _ _ hs _ _ _ _ => exact hsame hs.closed
    | expired _ _ hs _ _ _ _ _ => exact hsame hs.closed
  | tryRecv _ hs =>
    cases hs with
    | nothing _ hp => exact hsame hp.keeps.closed
    | value _ hs _ _ => exact hsame hs.closed
  | next _ _ hs =>
    cases hs with
    | value _ hs _ _ => exact hsame hs.closed
  | nextNothing _ _ hp _ => exact hsame hp.keeps.closed
  | @close i _ _ hpc _ _ _ _ _ _ => exact .inr ⟨i, rfl, hpc⟩
  | closeTimer _ => exact hsame (congrArg State.closed (post_chan s _).1)
  | cancelTimer _ _ => exact hsame (congrArg State.closed (post_chan s _).1)
  | @notify i f k _ =>
    refine hsame ?_
    cases f.notifyBlockedSenders <;> rfl
  | postFailed _ _ hx =>
    rcases hx with rfl | ⟨hx, _⟩
    · exact hsame rfl
    · exact hsame (congrArg ParkingQueue.Queue.closed hx.toQueue)
  | timer _ ht =>
    rcases ht.chan with he | ⟨_, _, hx, _⟩
    · exact hsame (congrArg State.closed he)
    · exact hsame (congrArg ParkingQueue.Queue.closed hx.toQueue)
  | _ => exact hsame rfl

/-- The channel is closed, or `close` has been called. -/
def Sys.Closes (s : Sys T) : Prop := s.chan.closed = true ∨ ∃ i, s.pc i = .close

theorem closes_step (h : StepSpec s l t) (hc : t.Closes) :
    s.Closes ∨ ∃ i loop, l = .start i loop .close := by
  rcases hc with hc | ⟨i, hc⟩
  · rcases closed_by h hc with hc | ⟨j, _, hj⟩
    · exact .inl (.inl hc)
    · exact .inl (.inr ⟨j, hj⟩)
  · by_cases hl : ∃ j loop call, l = .start j loop call
    · obtain ⟨j, loop, call, rfl⟩ := hl
      obtain ⟨_, rfl⟩ := start_spec h
      by_cases he : i = j
      · subst he
        have hcall : call.entry = .close := (Function.update_self i _ s.pc).symm.trans hc
        cases call with
        | close => exact .inr ⟨i, loop, rfl⟩
        | _ => cases hcall
      · exact .inl (.inr ⟨i, (Function.update_of_ne he _ s.pc).symm.trans hc⟩)
    · have hlater := later_step h (fun j loop call he => hl ⟨j, loop, call, he⟩) i
      exact .inl (.inr ⟨i, hlater.close hc⟩)

/-! ## The steps of a `recv` -/

inductive RecvPc : Pc T → Prop
  | ready : RecvPc (.recvReady false)
  | suspend : RecvPc (.recvSuspend false)
  | suspended : RecvPc (.suspended (.recv false))
  | notify {f : Flags} : RecvPc (.notify f (.resume (.recv false)))
  | cancelTimers {f : Flags} : RecvPc (.cancelTimers f (.resume (.recv false)))
  | wake {f : Flags} : RecvPc (.wake f (.resume (.recv false)))
  | done {r : Result T} : RecvPc (.done r)

/-- A call of `recv` has not failed while the channel is open. -/
structure Recv (s : Sys T) (i : OpId) : Prop where
  untimed : ¬ s.Timed i
  point : RecvPc (s.pc i)
  exception : (s.chan.receiver i).exception ≠ none → s.chan.closed = true
  thrown : ∀ e, s.pc i = .done (.thrown e) → s.chan.closed = true

theorem RecvPc.not_start {p : Pc T} (h : RecvPc p) :
    p ≠ .idle ∧ (∀ v, p ≠ .sendWait v) ∧ p ≠ .tryRecv ∧ p ≠ .suspended .recvFor := by
  cases h <;> exact ⟨nofun, nofun, nofun, nofun⟩

theorem result_thrown {st : State T} {e : Error}
    (h : Resume.result st i (.recv false) = .thrown e) : (st.receiver i).exception ≠ none := by
  intro hn
  simp [Resume.result, hn] at h

/-- A look at the queue fails the waiter only when the channel is closed. -/
theorem recv_look (hp : RecvPc (s.pc i)) (hb : (s.pc i).beforeReceive = true)
    (h : StepSpec s (.run i) t) : RecvPc (t.pc i) ∧ (∀ r, t.pc i ≠ .done r) ∧
      ((t.chan.receiver i).exception ≠ none → t.chan.closed = true) := by
  generalize hpc : s.pc i = p at hp hb
  have hnone : ∀ {e : Option Error}, e = none → e ≠ none → t.chan.closed = true :=
    fun he hn => absurd he hn
  cases h with
  | @recvReady _ k q p' r hk hq hfr hs =>
    have hrec : k = .recv false ∧ q = .recvSuspend false := by
      rw [hk] at hpc
      subst hpc
      cases hq with
      | @recv optional => cases optional with
        | true => cases hp
        | false => exact ⟨rfl, rfl⟩
      | recvFor => cases hp
    obtain ⟨rfl, rfl⟩ := hrec
    cases hs with
    | @nothing st' _ _ hpr =>
      have hpt : (s.awaitReady i (false, { state := st' }) (.recv false) (.recvSuspend false)).pc i =
          .recvSuspend false := goto_self ..
      refine ⟨hpt.symm ▸ RecvPc.suspend, fun r he => ?_, hnone ?_⟩
      · rw [hpt] at he
        cases he
      · have hrest : st'.receiver = s.chan.receiver := (congrArg State.receiver hpr.rest :)
        rw [awaitReady_chan, hrest, hfr.record]
    | expired _ _ _ _ _ _ _ ht => cases ht
    | @found l' hf =>
      have hpt : (s.awaitReady i (true, l') (.recv false) (.recvSuspend false)).pc i =
          .notify l'.flags (.resume (.recv false)) := goto_self ..
      refine ⟨hpt.symm ▸ RecvPc.notify, fun r he => ?_, ?_⟩
      · rw [hpt] at he
        cases he
      · cases hf with
        | value _ _ _ _ hrec _ =>
          refine hnone ?_
          rw [awaitReady_chan, hrec, hfr.record]
          rfl
        | closed _ hc hs _ _ _ _ _ => exact fun _ => hs.closed.trans hc
  | @recvSuspend _ k q posting r hk hq hfr hpost hs =>
    have hrec : k = .recv false := by
      rw [hk] at hpc
      subst hpc
      cases hq with
      | @recv optional => cases optional with
        | true => cases hp
        | false => rfl
      | recvFor => cases hp
    subst hrec
    cases hs with
    | @parked st' _ _ _ _ _ hrec =>
      have hpt : (s.awaitSuspend i (true, { state := st' }) (.recv false)).pc i =
          .suspended (.recv false) := goto_self ..
      refine ⟨hpt.symm ▸ RecvPc.suspended, fun r he => ?_, hnone hrec.2⟩
      cases hpt.symm.trans he
    | @value v l' _ _ _ _ hrec =>
      have hpt : (s.awaitSuspend i (false, l') (.recv false)).pc i =
          .notify l'.flags (.resume (.recv false)) := goto_self ..
      refine ⟨hpt.symm ▸ RecvPc.notify, fun r he => ?_, hnone ?_⟩
      · cases hpt.symm.trans he
      · show (l'.state.receiver i).exception = none
        rw [hrec]
        rfl
    | @closed l' _ hc hs _ _ _ _ =>
      have hpt : (s.awaitSuspend i (false, l') (.recv false)).pc i =
          .notify l'.flags (.resume (.recv false)) := goto_self ..
      refine ⟨hpt.symm ▸ RecvPc.notify, fun r he => ?_, fun _ => hs.closed.trans hc⟩
      cases hpt.symm.trans he
    | expired _ _ _ _ _ _ _ ht => cases ht
  | timer hlab _ => rcases hlab with h | ⟨_, _, h⟩ <;> cases h
  | send hk _ _ => rcases hk with hk | hk | hk <;> rw [hpc] at hk <;> subst hk <;> cases hb
  | next hk _ _ | nextNothing hk _ _ _ | nextOnLoop hk _ => rw [hpc] at hk; subst hk; cases hp
  | notify hk | cancelTimer hk _ | cancelTimersDone hk | wakeNothing hk _ | wakeFlush hk _
  | wakeAsync hk _ _ | wakeClosing hk _ _ _ => rw [hpc] at hk; subst hk; cases hp; cases hb
  | sendReady hk _ _ | sendSuspend hk _ _ | tryRecv hk _ | close hk _ _ _ _ _ _ | closeNotify hk
  | closeTimer hk | closeTimersDone hk | closePost hk _ | closePostFailed hk _ =>
    rw [hpc] at hk; subst hk; cases hb

/-- After the look a `recv` goes on to return or to throw. -/
theorem recv_run (hcl : Closing s) (hn : Recv s i) (hb : (s.pc i).beforeReceive = false)
    (h : StepSpec s (.run i) t) : RecvPc (t.pc i) ∧
      ∀ e, t.pc i = .done (.thrown e) → s.chan.closed = true := by
  obtain ⟨_, hp, hex, _⟩ := hn
  generalize hpc : s.pc i = p at hp hb
  have hdone : ∀ {f : Flags} {k : After T} {u : Sys T}, s.pc i = .wake f k →
      u.pc i = k.continue s.chan i →
      RecvPc (u.pc i) ∧ ∀ e, u.pc i = .done (.thrown e) → s.chan.closed = true := by
    intro f k u hk hu
    rw [hpc] at hk
    subst hk
    cases hp
    rw [hu]
    refine ⟨.done, fun e he => hex ?_⟩
    exact result_thrown (Pc.done.inj he)
  have hstay : ∀ {q : Pc T} {u : Sys T}, u.pc i = q → RecvPc q → (∀ r, q ≠ .done r) →
      RecvPc (u.pc i) ∧ ∀ e, u.pc i = .done (.thrown e) → s.chan.closed = true := by
    intro q u hu hq hne
    rw [hu]
    exact ⟨hq, fun e he => absurd he (hne _)⟩
  cases h with
  | notify hk =>
    rw [hpc] at hk
    subst hk
    cases hp
    exact hstay (goto_self ..) .cancelTimers nofun
  | cancelTimer hk _ =>
    rw [hpc] at hk
    subst hk
    cases hp
    exact hstay (goto_self ..) .cancelTimers nofun
  | cancelTimersDone hk =>
    rw [hpc] at hk
    subst hk
    cases hp
    exact hstay (goto_self ..) .wake nofun
  | wakeNothing hk _ => exact hdone hk (goto_self ..)
  | wakeFlush hk _ => exact hdone hk (goto_self ..)
  | wakeAsync hk _ _ => exact hdone hk (goto_self ..)
  | wakeClosing hk _ hc _ =>
    rw [goto_self]
    exact ⟨.done, fun _ _ => hcl.asyncClosing hc⟩
  | timer hlab _ => rcases hlab with h | ⟨_, _, h⟩ <;> cases h
  | send hk _ _ => rcases hk with hk | hk | hk <;> rw [hpc] at hk <;> subst hk <;> cases hp
  | recvReady hk hq _ _ => rw [hpc] at hk; subst hk; cases hq <;> cases hb
  | recvSuspend hk hq _ _ _ => rw [hpc] at hk; subst hk; cases hq <;> cases hb
  | sendReady hk _ _ | sendSuspend hk _ _ | tryRecv hk _ | next hk _ _ | nextNothing hk _ _ _
  | nextOnLoop hk _ | close hk _ _ _ _ _ _ | closeNotify hk | closeTimer hk | closeTimersDone hk
  | closePost hk _ | closePostFailed hk _ => rw [hpc] at hk; subst hk; cases hp

theorem recv_step (hr : Reachable (system T) s) (hn : Recv s i) (hs : step s l = some t) :
    Recv t i := by
  have hi := reachable_inv hr
  have h := step_spec hi.ready hs
  have hclosed := closed_step hi (inv_step hi hs).1
  obtain ⟨hidle, hwait, htry, _⟩ := hn.point.not_start
  by_cases hlook : l = .run i ∧ (s.pc i).beforeReceive = true
  · obtain ⟨rfl, hb⟩ := hlook
    obtain ⟨hp, hd, hex⟩ := recv_look hn.point hb h
    exact ⟨untimed_step h hn.untimed hp.not_start.2.2.2, hp, hex, fun e he => absurd he (hd _)⟩
  have hpoint : RecvPc (t.pc i) ∧ ∀ e, t.pc i = .done (.thrown e) → s.chan.closed = true := by
    by_cases hrun : l = .run i
    · subst hrun
      have hb : (s.pc i).beforeReceive = false := by
        simpa using fun hb => hlook ⟨rfl, hb⟩
      exact recv_run (reachable_closing hr) hn hb h
    · rcases pc_others h (untimed_post h hn.untimed) hrun ⟨hidle, hwait⟩ with he | ⟨_, k, hk, hk'⟩
      · rw [he]
        exact ⟨hn.point, hn.thrown⟩
      · have hp := hn.point
        rw [hk] at hp
        cases hp
        rw [hk']
        exact ⟨.notify, nofun⟩
  refine ⟨untimed_step h hn.untimed hpoint.1.not_start.2.2.2, hpoint.1, fun hex => ?_,
    fun e he => hclosed (hpoint.2 e he)⟩
  obtain ⟨vs, _, hfate, _⟩ := spared_step hi (fun ht => absurd ht hn.untimed)
    (fun he => ⟨by simpa using fun hb => hlook ⟨he, hb⟩, htry⟩) h
  cases hfate with
  | same hrec _ => exact hclosed (hn.exception (by rwa [hrec] at hex))
  | handed _ _ _ he => exact hclosed (hn.exception (by rwa [he] at hex))
  | closed _ _ _ _ hc => exact hc

theorem recv_start {loop : Bool} (hr : Reachable (system T) s)
    (hs : step s (.start i loop .recv) = some t) : Recv t i := by
  have hi := reachable_inv hr
  obtain ⟨hpc, rfl⟩ := start_spec (step_spec hi.ready hs)
  have hop := hi.ready.op i
  have hfr := hop.receiver (by rw [hpc]; rfl)
  have hpt : Function.update s.pc i (Call.entry Call.recv) i = .recvReady false :=
    Function.update_self ..
  have hp : RecvPc (Function.update s.pc i (Call.entry Call.recv) i) := hpt ▸ .ready
  refine ⟨fun ht => ?_, hp, fun hex => ?_, fun e he => ?_⟩
  · have hb := hop.timed ht
    rw [hpc] at hb
    cases hb
  · have hsame : (Call.recv : Call T).enter s.chan i = s.chan := rfl
    exact absurd (by rw [hsame, hfr.record]) hex
  · cases hpt.symm.trans he

end LuvCoro.Channel
