import LuvCoro.Channel.Conservation
import LuvCoro.Channel.RecvFor
import LuvCoro.Channel.Wakeup

/-! # A receive returns what it took

An operation takes at most one value out of the channel: at its own look at the
queue, or from the sender that completes its waiter. Where the value stands from
then on depends on the operation's program point: in the waiter, in the result it
carries, or nowhere yet. No step loses it but the refusal of `uv_async_send`, which
`finalize_after_unlock` turns into an exception after the value was taken. -/
namespace LuvCoro.Channel

open Transition WaiterPool ParkingQueue

universe u
variable {T : Type u} {s t : Sys T} {l : Label T} {i : OpId}

/-- The values that a result hands to the caller. -/
def Result.values : Result T → List T
  | .value o => o.toList
  | _ => []

/-- Where an operation keeps what it has taken. -/
inductive Holding (T : Type u) where
  | nothing
  | waiter
  | result (r : Result T)

def After.holding : After T → Holding T
  | .ret r => .result r
  | .resume .asyncSend => .nothing
  | .resume (.recv _) | .resume .recvFor => .waiter
  | .recvTask => .nothing

def Pc.holding : Pc T → Holding T
  | .notify _ k | .cancelTimers _ k | .wake _ k => k.holding
  | .suspended k => (After.resume k : After T).holding
  | .done r => .result r
  | _ => .nothing

/-- What is taken is where the program point says; the call that could not wake
the loop has thrown it away. -/
def Holding.Keeps (r : ReceiverWaiter T) (vs : List T) : Holding T → Prop
  | .nothing => vs = []
  | .waiter => vs = r.value.toList
  | .result x => vs = x.values ∨ x = .thrown asyncClosingError ∧ vs.length ≤ 1

/-- A waiter in the queue belongs to a receive that is suspended, and nothing
resumes it before it is completed. -/
structure Queued (s : Sys T) (i : OpId) : Prop where
  suspended : ∃ k, s.pc i = .suspended k ∧ k ≠ .asyncSend
  unowed : s.owed i = 0
  sender : i ∉ s.chan.senderWaiters

/-- The values of one operation are accounted for. -/
structure Kept (s : Sys T) (i : OpId) : Prop where
  waiting : (s.chan.receiver i).active = true →
    (s.chan.receiver i).value = none ∧ (s.chan.receiver i).exception = none
  value : (s.chan.receiver i).value ≠ none →
    (s.chan.receiver i).exception = none ∧ (s.chan.receiver i).timedOut = false
  queued : i ∈ s.chan.activeReceivers → Queued s i
  holding : (s.pc i).holding.Keeps (s.chan.receiver i) (s.takenBy i)
  posting : s.posting i = true → s.takenBy i = (s.chan.receiver i).value.toList

theorem active_of_mem (h : i ∈ s.chan.activeReceivers) : (s.chan.receiver i).active = true :=
  (List.mem_filter.mp h).2

/-- The points at which an operation takes a value by itself. -/
def Pc.takes : Pc T → Bool
  | .recvReady _ | .recvSuspend _ | .recvForReady _ | .recvForSuspend _ => true
  | .tryRecv | .blockingNext => true
  | _ => false

/-! ## What is kept when the waiter is not touched -/

theorem Holding.Keeps.length {r : ReceiverWaiter T} {vs : List T} {h : Holding T}
    (hk : h.Keeps r vs) : vs.length ≤ 1 := by
  have ho : ∀ o : Option T, o.toList.length ≤ 1 := by
    intro o
    cases o <;> simp
  cases h with
  | nothing =>
    have : vs = [] := hk
    simp [this]
  | waiter =>
    have : vs = r.value.toList := hk
    exact this ▸ ho _
  | result x =>
    rcases hk with he | ⟨_, hl⟩
    · rw [he]
      cases x with
      | value o => exact ho o
      | _ => exact Nat.zero_le _
    · exact hl

theorem Kept.length (hk : Kept s i) : (s.takenBy i).length ≤ 1 := hk.holding.length

/-- Not queued, and nothing written into the waiter. -/
theorem Kept.of_record (hk : Kept s i) (hrec : t.chan.receiver i = s.chan.receiver i)
    (htaken : t.takenBy i = s.takenBy i)
    (hqueued : i ∈ t.chan.activeReceivers → Queued t i)
    (hpost : t.posting i = true → s.posting i = true)
    (hhold : (t.pc i).holding.Keeps (s.chan.receiver i) (s.takenBy i)) : Kept t i := by
  refine ⟨?_, ?_, hqueued, ?_, fun hp => ?_⟩
  · rw [hrec]
    exact hk.waiting
  · rw [hrec]
    exact hk.value
  · rw [hrec, htaken]
    exact hhold
  · rw [hrec, htaken]
    exact hk.posting (hpost hp)

theorem result_keeps {st : State T} {k : Resume} {vs : List T}
    (hv : (st.receiver i).value ≠ none →
      (st.receiver i).exception = none ∧ (st.receiver i).timedOut = false)
    (h : (After.resume k : After T).holding.Keeps (st.receiver i) vs) :
    vs = (k.result st i).values := by
  cases k with
  | asyncSend =>
    have : vs = [] := h
    subst this
    simp only [Resume.result]
    split <;> rfl
  | recv optional =>
    have : vs = (st.receiver i).value.toList := h
    subst this
    cases hval : (st.receiver i).value with
    | some v =>
      obtain ⟨hex, _⟩ := hv (by simp [hval])
      simp [Resume.result, hex, hval, Result.values]
    | none =>
      cases hex : (st.receiver i).exception with
      | none => simp [Resume.result, hex, hval, Result.values]
      | some e => cases e <;> cases optional <;> simp [Resume.result, hex, Result.values]
  | recvFor =>
    have : vs = (st.receiver i).value.toList := h
    subst this
    cases hval : (st.receiver i).value with
    | some v =>
      obtain ⟨hex, hto⟩ := hv (by simp [hval])
      simp [Resume.result, hex, hto, hval, Result.values]
    | none =>
      cases hex : (st.receiver i).exception with
      | none => simp [Resume.result, hex, hval, Result.values]
      | some e => simp [Resume.result, hex, Result.values]

theorem continue_keeps {st : State T} {k : After T} {vs : List T}
    (hv : (st.receiver i).value ≠ none →
      (st.receiver i).exception = none ∧ (st.receiver i).timedOut = false)
    (h : k.holding.Keeps (st.receiver i) vs) :
    (k.continue st i).holding.Keeps (st.receiver i) vs := by
  cases k with
  | ret r => exact h
  | resume k => exact .inl (result_keeps hv h)
  | recvTask => exact h

theorem Holding.Keeps.of_value {r r' : ReceiverWaiter T} {vs : List T} {h : Holding T}
    (hk : h.Keeps r vs) (hv : r'.value = r.value) : h.Keeps r' vs := by
  cases h with
  | nothing => exact hk
  | waiter =>
    have he : vs = r.value.toList := hk
    exact he.trans (by rw [hv])
  | result x => exact hk

/-- The waiter holds what is taken, and has left the queue. -/
theorem kept_waiter (hpc : (t.pc i).holding = .waiter)
    (htaken : t.takenBy i = (t.chan.receiver i).value.toList)
    (hm : i ∉ t.chan.activeReceivers)
    (hw : (t.chan.receiver i).active = true →
      (t.chan.receiver i).value = none ∧ (t.chan.receiver i).exception = none)
    (hv : (t.chan.receiver i).value ≠ none →
      (t.chan.receiver i).exception = none ∧ (t.chan.receiver i).timedOut = false) :
    Kept t i :=
  ⟨hw, hv, fun h => absurd h hm, by rw [hpc]; exact htaken, fun _ => htaken⟩

theorem Kept.unqueued (hk : Kept s i) (hpc : ∀ k, s.pc i ≠ .suspended k) :
    i ∉ s.chan.activeReceivers := by
  intro hm
  obtain ⟨k, he, _⟩ := (hk.queued hm).suspended
  exact hpc k he

theorem Kept.queued_nil (hk : Kept s i) (hm : i ∈ s.chan.activeReceivers) :
    (s.pc i).holding = .waiter ∧ s.takenBy i = [] := by
  obtain ⟨k, hpc, hne⟩ := (hk.queued hm).suspended
  have hw : (s.pc i).holding = .waiter := by
    rw [hpc]
    cases k with
    | asyncSend => exact absurd rfl hne
    | recv _ => rfl
    | recvFor => rfl
  have hh := hk.holding
  rw [hw] at hh
  have ht : s.takenBy i = (s.chan.receiver i).value.toList := hh
  refine ⟨hw, ht.trans ?_⟩
  rw [(hk.waiting (active_of_mem hm)).1]
  rfl

/-! ## Steps of others -/

theorem holding_notifyAll (s : Sys T) (i : OpId) :
    (s.notifyAll.pc i).holding = (s.pc i).holding := by
  simp only [Sys.notifyAll]
  cases s.pc i <;> rfl

/-- Others do not move what an operation has taken. -/
theorem holding_others (h : StepSpec s l t) (hpost : l ≠ .post i) (hrun : l ≠ .run i)
    (hstart : ∀ loop call, l ≠ .start i loop call) :
    (t.pc i).holding = (s.pc i).holding := by
  have hmove : ∀ {j : OpId} {p : Pc T}, t.pc = Function.update s.pc j p → j ≠ i →
      (t.pc i).holding = (s.pc i).holding := by
    intro j p ht hj
    rw [ht, Function.update_of_ne (Ne.symm hj)]
  have hne : ∀ {j : OpId}, l = .run j → j ≠ i := by
    rintro j rfl rfl
    exact hrun rfl
  cases h with
  | @start j loop call _ =>
    refine hmove rfl ?_
    rintro rfl
    exact hstart loop call rfl
  | send _ _ hs => cases hs <;> exact hmove rfl (hne rfl)
  | sendSuspend _ _ hs => cases hs <;> exact hmove rfl (hne rfl)
  | recvSuspend _ _ _ _ hs => cases hs <;> exact hmove rfl (hne rfl)
  | closeNotify _ =>
    refine Eq.trans ?_ (holding_notifyAll s i)
    exact congrArg Pc.holding (Function.update_of_ne (Ne.symm (hne rfl)) ..)
  | closeTimer _ =>
    exact hmove (congrArg (Function.update · _ _) (post_pc s _)) (hne rfl)
  | cancelTimer _ _ =>
    exact hmove (congrArg (Function.update · _ _) (post_pc s _)) (hne rfl)
  | @notify j f k _ =>
    refine (congrArg Pc.holding (Function.update_of_ne (Ne.symm (hne rfl)) ..)).trans ?_
    split
    · exact holding_notifyAll s i
    · rfl
  | @spurious j v hj =>
    by_cases he : j = i
    · subst he
      rw [goto_self, hj]
      rfl
    · exact hmove rfl he
  | @postFailed j st' wake _ _ _ =>
    refine hmove rfl ?_
    rintro rfl
    exact hpost rfl
  | timer _ ht =>
    have hpt := congrArg Sys.pc ht.frame
    rw [hpt]
  | @flushResume q w ws k hq hw =>
    by_cases he : w = i
    · subst he
      rw [goto_self, hw]
      rfl
    · exact hmove rfl he
  | posted _ _ | timerCancel _ _ | closeChannel _ | onAsync _ _ | flushSwap _ | flushStray _ _
  | closeHandle _ _ | shutdown => rfl
  | _ => exact hmove rfl (hne rfl)

theorem posting_others (h : StepSpec s l t) (hpc : (t.pc i).holding = (s.pc i).holding)
    (hp : t.posting i = true) : s.posting i = true := by
  rcases posting_of_step h hp with hp | ⟨⟨timeout, hs⟩, ht⟩
  · exact hp
  · rw [hs, ht] at hpc
    cases hpc

/-- A waiter in the queue stays suspended until somebody completes it. -/
theorem Queued.others (hq : Queued s i) (h : StepSpec s l t) (hpost : l ≠ .post i)
    (hrun : l ≠ .run i) : t.pc i = s.pc i := by
  obtain ⟨k, hk, _⟩ := hq.suspended
  rcases pc_others h hpost hrun ⟨by simp [hk], by simp [hk]⟩ with he | ⟨hf, _⟩
  · exact he
  · have hpos := List.count_pos_iff.mpr hf
    have h0 := hq.unowed
    unfold Sys.owed at h0
    omega

theorem Queued.step (hq : Queued s i) (h : StepSpec s l t) (hpost : l ≠ .post i)
    (hrun : l ≠ .run i) (hstart : ∀ loop call, l ≠ .start i loop call)
    (hm : i ∈ t.chan.activeReceivers) : Queued t i := by
  have hpc := hq.others h hpost hrun
  obtain ⟨k, hk, hne⟩ := hq.suspended
  have hb : (s.pc i).beforeSend = false := by
    rw [hk]
    rfl
  exact ⟨⟨k, hpc.trans hk, hne⟩, owed_step h (fun _ => hm) hb hstart hq.sender
    (fun he => absurd he hrun) (fun _ => hm) hq.unowed, sender_step h hb hstart hq.sender⟩

/-- The sections of other operations. -/
theorem kept_others (hi : Inv s) (hk : Kept s i) (hs : step s l = some t) (hrun : l ≠ .run i)
    (hstart : ∀ loop call, l ≠ .start i loop call) (htimes : ¬ l.Times i) : Kept t i := by
  have h := step_spec hi.ready hs
  have hpost : l ≠ .post i := by
    rintro rfl
    exact htimes rfl
  have hhold := holding_others h hpost hrun hstart
  have hposting := posting_others h hhold
  obtain ⟨vs, htaken, hfate, hhands⟩ := spared_step hi (fun _ => htimes) (fun he => absurd he hrun) h
  cases hfate with
  | same hrec hiff =>
    refine hk.of_record hrec (by rw [htaken, List.append_nil]) (fun hm => ?_) hposting
      (by rw [hhold]; exact hk.holding)
    exact (hk.queued (hiff.mp hm)).step h hpost hrun hstart hm
  | @handed v hh hn hval hex =>
    have hm := List.mem_of_mem_head? hh
    obtain ⟨hw, hnil⟩ := hk.queued_nil hm
    obtain ⟨hnone, hnex⟩ := hk.waiting (active_of_mem hm)
    obtain ⟨j, rfl, hsends⟩ : ∃ j, l = .run j ∧ (s.pc j).sends = true := by
      rcases hhands with he | ⟨he, _⟩ | ⟨j, he, hs, _⟩
      · cases he
      · exact absurd he hrun
      · exact ⟨j, he, hs⟩
    obtain ⟨v', _, hwr⟩ := sending_writes hi.ready hs hsends
    have hrec : t.chan.receiver i = received (s.chan.receiver i) v' := by
      refine (hwr i).resolve_left fun he => ?_
      rw [he, hnone] at hval
      cases hval
    refine kept_waiter (hhold.trans hw) (by rw [htaken, hnil, hval]; rfl) hn ?_ ?_
    · rw [hrec]
      exact fun ha => absurd ha (by simp [received])
    · rw [hrec]
      exact fun _ => ⟨hnex, rfl⟩
  | closed hm hn hval hex hcl =>
    obtain ⟨hw, hnil⟩ := hk.queued_nil hm
    obtain ⟨hnone, hnex⟩ := hk.waiting (active_of_mem hm)
    have hopen : s.chan.closed = false := (hi.ready.valid.takers (List.ne_nil_of_mem hm)).2.2
    obtain ⟨j, rfl, hj⟩ : ∃ j, l = .run j ∧ s.pc j = .close := by
      refine (closed_by h hcl).resolve_left fun hc => ?_
      rw [hopen] at hc
      cases hc
    have hrec : t.chan.receiver i = receivedException (s.chan.receiver i) .closedError := by
      refine (closing_writes hs hj i).resolve_left fun he => ?_
      rw [he, hnex] at hex
      cases hex
    refine kept_waiter (hhold.trans hw) (by rw [htaken, hnil, hval, hnone]; rfl) hn ?_ ?_
    · rw [hrec]
      exact fun ha => absurd ha (by simp [receivedException])
    · rw [hval, hnone]
      exact fun hne => absurd rfl hne

/-! ## Steps of the timer -/

/-- A timer writes no value. It completes a waiter that has none. -/
theorem expel_record {f : ReceiverWaiter T → ReceiverWaiter T} (hf : ∀ r, (f r).value = r.value)
    (hw : (s.chan.receiver i).active = true →
      (s.chan.receiver i).value = none ∧ (s.chan.receiver i).exception = none) :
    expelReceiverLocked s.chan i f = (false, s.chan) ∨
      ((expelReceiverLocked s.chan i f).2.receiver i).active = false ∧
        ((expelReceiverLocked s.chan i f).2.receiver i).value = none ∧
        (s.chan.receiver i).value = none := by
  by_cases hact : (s.chan.receiver i).active = true ∧ (s.chan.receiver i).completed = false
  · obtain ⟨ha, hc⟩ := hact
    rw [expel_self ha hc]
    exact .inr ⟨rfl, (hf _).trans (hw ha).1, (hw ha).1⟩
  · refine .inl ?_
    unfold expelReceiverLocked
    dsimp only
    rw [if_neg]
    simpa using hact

theorem kept_expelled {f : ReceiverWaiter T → ReceiverWaiter T} (hk : Kept s i)
    (hf : ∀ r, (f r).value = r.value) (hc : t.chan = (expelReceiverLocked s.chan i f).2)
    (htaken : t.takenBy i = s.takenBy i) (hpost : t.posting i = true → s.posting i = true)
    (hqueued : t.chan = s.chan → i ∈ t.chan.activeReceivers → Queued t i)
    (hhold : (t.pc i).holding.Keeps (s.chan.receiver i) (s.takenBy i)) : Kept t i := by
  rcases expel_record hf hk.waiting with he | ⟨ha, hv, hv'⟩
  · have hsame : t.chan = s.chan := by rw [hc, he]
    exact hk.of_record (by rw [hsame]) htaken (hqueued hsame) hpost hhold
  · rw [← hc] at ha hv
    refine ⟨fun h => ?_, fun h => absurd hv h, fun hm => ?_, ?_, fun hp => ?_⟩
    · rw [ha] at h
      cases h
    · have := active_of_mem hm
      rw [ha] at this
      cases this
    · rw [htaken]
      exact hhold.of_value (hv.trans hv'.symm)
    · rw [htaken, hk.posting (hpost hp), hv, hv']

/-- The timer of another operation does not reach the waiter. -/
theorem kept_expel_other {f : ReceiverWaiter T → ReceiverWaiter T} {j : OpId} (hk : Kept s i)
    (hj : i ≠ j) (hc : t.chan = (expelReceiverLocked s.chan j f).2) (hl : t.log = s.log)
    (hpc : t.pc = s.pc) (hpost : t.posting = s.posting) (hfl : t.flushing = s.flushing) :
    Kept t i := by
  obtain ⟨hrec, hcount⟩ := @expel_other _ j i s.chan f hj
  obtain ⟨hq, hsnd⟩ := @expel_frame _ j s.chan f
  rw [← hc] at hrec hcount hq hsnd
  have hrs : t.chan.readySenders = s.chan.readySenders := congrArg Pool.tokens hsnd
  have hws : t.chan.senderWaiters = s.chan.senderWaiters := congrArg Pool.queue hsnd
  refine hk.of_record hrec (by unfold Sys.takenBy; rw [hl]) (fun hm => ?_)
    (fun h => by rwa [hpost] at h) (by rw [hpc]; exact hk.holding)
  obtain ⟨hmem, ha⟩ := List.mem_filter.mp hm
  obtain ⟨hsus, h0, hns⟩ := hk.queued (List.mem_filter.mpr ⟨hq ▸ hmem, by rw [← hrec]; exact ha⟩)
  refine ⟨by rw [hpc]; exact hsus, ?_, by rw [hws]; exact hns⟩
  unfold Sys.owed at h0 ⊢
  rw [hcount, hrs, hfl]
  exact h0

/-- A state that differs from `s` in what `Kept` does not read. -/
theorem Kept.frame (hk : Kept s i) (hc : t.chan = s.chan) (hl : t.log = s.log)
    (hpc : t.pc = s.pc) (hpost : t.posting i = true → s.posting i = true)
    (hfl : t.flushing = s.flushing) : Kept t i := by
  refine hk.of_record (by rw [hc]) (by unfold Sys.takenBy; rw [hl]) (fun hm => ?_) hpost
    (by rw [hpc]; exact hk.holding)
  rw [hc] at hm
  obtain ⟨hsus, h0, hns⟩ := hk.queued hm
  refine ⟨by rw [hpc]; exact hsus, ?_, by rw [hc]; exact hns⟩
  unfold Sys.owed at h0 ⊢
  rw [hc, hfl]
  exact h0

/-- The timer of the operation, and the post that starts it. -/
theorem kept_times (hi : Inv s) (hk : Kept s i) (hs : step s l = some t) (htimes : l.Times i) :
    Kept t i := by
  cases l with
  | post j =>
    obtain rfl : j = i := htimes
    obtain ⟨hp, ⟨_, rfl⟩ | ⟨_, hc, _, hpc⟩⟩ := runPosting_cases hs
    · exact hk.frame rfl rfl rfl (fun _ => hp) rfl
    · have hlog : t.log = s.log := by
        cases step_spec hi.ready hs with
        | posted _ _ => rfl
        | postFailed _ _ _ => rfl
        | timer hlab _ => rcases hlab with h | ⟨_, _, h⟩ <;> cases h
      have htaken : t.takenBy j = s.takenBy j := by
        unfold Sys.takenBy
        rw [hlog]
      have hval := hk.posting hp
      refine kept_expelled (f := fun r => { r with exception := some shuttingDownError }) hk
        (fun _ => rfl) hc htaken (fun _ => hp) (fun hsame hm => ?_) (by rw [hpc]; exact hval)
      -- a waiter in the queue is active and not completed, so the post completes it
      rw [hsame] at hm
      have hpend := hi.ready.wellFormed.receivers.pending j hm
      have hrec := @expel_self _ j s.chan (fun r => { r with exception := some shuttingDownError })
        (active_of_mem hm) hpend
      have hrec' : t.chan.receiver j = _ := (congrArg (State.receiver · j) hc).trans hrec
      have ha := active_of_mem hm
      rw [← hsame, hrec'] at ha
      cases ha
  | timerFire j =>
    obtain rfl : j = i := htimes
    have hfire : timerFire s j = some t := hs
    unfold timerFire at hfire
    split at hfire
    · cases hfire
      refine kept_expelled (f := fun r => { r with timedOut := true }) hk (fun _ => rfl) rfl rfl id
        (fun hsame hm => ?_) hk.holding
      obtain ⟨hsus, h0, hns⟩ := hk.queued (hsame ▸ hm)
      unfold Sys.owed at h0
      exact ⟨hsus, by unfold Sys.owed; rw [hsame]; exact h0, by rw [hsame]; exact hns⟩
    · cases hfire
  | runPosted rcInit rcStart =>
    obtain ⟨hlog, hposting⟩ : t.log = s.log ∧ t.posting = s.posting := by
      cases step_spec hi.ready hs with
      | timer _ ht =>
        have hlog := congrArg Sys.log ht.frame
        have hposting := congrArg Sys.posting ht.frame
        exact ⟨hlog, hposting⟩
      | timerCancel _ _ => exact ⟨rfl, rfl⟩
      | closeChannel _ => exact ⟨rfl, rfl⟩
    obtain ⟨hpc, hfl, hc | ⟨j, e, _, hc⟩⟩ := runPosted_writes hs
    · exact hk.frame hc hlog hpc (fun h => by rwa [hposting] at h) hfl
    · by_cases hj : i = j
      · subst hj
        refine kept_expelled (f := fun r => { r with exception := some e }) hk (fun _ => rfl) hc
          (by unfold Sys.takenBy; rw [hlog]) (fun h => by rwa [hposting] at h)
          (fun hsame hm => ?_) (by rw [hpc]; exact hk.holding)
        obtain ⟨hsus, h0, hns⟩ := hk.queued (hsame ▸ hm)
        unfold Sys.owed at h0
        exact ⟨by rw [hpc]; exact hsus, by unfold Sys.owed; rw [hsame, hfl]; exact h0,
          by rw [hsame]; exact hns⟩
      · exact kept_expel_other hk hj hc hlog hpc hposting hfl
  | _ => exact htimes.elim

/-! ## Steps of its own -/

/-- A call begins: nothing is taken yet. -/
theorem kept_start {loop : Bool} {call : Call T} (hi : Inv s) (hk : Kept s i)
    (hs : step s (.start i loop call) = some t) : Kept t i := by
  obtain ⟨hpc, rfl⟩ := start_spec (step_spec hi.ready hs)
  have hop := hi.ready.op i
  have hfr := hop.receiver (by rw [hpc]; rfl)
  have hrec : (call.enter s.chan i).receiver = s.chan.receiver := by cases call <;> rfl
  have hq : (call.enter s.chan i).receiverWaiters = s.chan.receiverWaiters := by cases call <;> rfl
  have hnil : s.takenBy i = [] := by
    have hh := hk.holding
    rw [hpc] at hh
    exact hh
  refine hk.of_record (congrFun hrec i) rfl (fun hm => ?_) id ?_
  · have hm' : i ∈ (call.enter s.chan i).receiverWaiters := List.mem_of_mem_filter hm
    rw [hq] at hm'
    exact absurd hm' hfr.queue
  · show (Function.update s.pc i call.entry i).holding.Keeps _ _
    rw [Function.update_self]
    cases call <;> exact hnil

/-- The parts of `finalize_after_unlock`, and what comes after it. -/
theorem kept_goto {p : Pc T} (hk : Kept s i) (hsus : ∀ k, s.pc i ≠ .suspended k)
    (hc : t.chan = s.chan) (hl : t.log = s.log) (hpost : t.posting = s.posting)
    (hpc : t.pc i = p) (hhold : p.holding.Keeps (s.chan.receiver i) (s.takenBy i)) :
    Kept t i := by
  refine hk.of_record (by rw [hc]) (by unfold Sys.takenBy; rw [hl]) (fun hm => ?_)
    (fun h => by rwa [hpost] at h) (by rw [hpc]; exact hhold)
  rw [hc] at hm
  exact absurd hm (hk.unqueued hsus)

/-- A section of the operation that touches neither its waiter nor the values. -/
theorem kept_spared {p : Pc T} (hi : Inv s) (hk : Kept s i) (h : StepSpec s (.run i) t)
    (hb : (s.pc i).beforeReceive = false) (htry : s.pc i ≠ .tryRecv)
    (hsus : ∀ k, s.pc i ≠ .suspended k) (hpost : t.posting i = true → s.posting i = true)
    (hpc : t.pc i = p) (hhold : p.holding.Keeps (s.chan.receiver i) (s.takenBy i)) :
    Kept t i := by
  have hn := hk.unqueued hsus
  obtain ⟨vs, htaken, hfate, _⟩ := spared_step hi (fun _ => id) (fun _ => ⟨hb, htry⟩) h
  cases hfate with
  | same hrec hiff =>
    exact hk.of_record hrec (by rw [htaken, List.append_nil]) (fun hm => absurd (hiff.mp hm) hn)
      hpost (by rw [hpc]; exact hhold)
  | handed hh _ _ _ => exact absurd (List.mem_of_mem_head? hh) hn
  | closed hm _ _ _ _ => exact absurd hm hn

theorem takenBy_self (i : OpId) (v : T) : [Event.taken i v].filterMap (Event.takenBy? i) = [v] := by
  simp [Event.takenBy?]

theorem ReadyPc.takes {p q : Pc T} {k : Resume} (h : ReadyPc p k q) :
    p.takes = true ∧ p.beforeReceive = true ∧ p.holding = .nothing ∧ q.holding = .nothing ∧
      (After.resume k : After T).holding = .waiter := by
  cases h <;> exact ⟨rfl, rfl, rfl, rfl, rfl⟩

theorem SuspendPc.takes {p : Pc T} {k : Resume} (h : SuspendPc p k) :
    p.takes = true ∧ p.beforeReceive = true ∧ p.holding = .nothing ∧ k ≠ .asyncSend ∧
      (After.resume k : After T).holding = .waiter := by
  cases h <;> exact ⟨rfl, rfl, rfl, by simp, rfl⟩

theorem FreshReceiver.unqueued {st' : State T} (hfr : FreshReceiver s.chan i)
    (hq : st'.toQueue.takers = s.chan.toQueue.takers) : i ∉ st'.activeReceivers := by
  intro hm
  have ht : st'.activeReceivers = s.chan.activeReceivers := hq
  rw [ht] at hm
  exact hfr.queue (List.mem_of_mem_filter hm)

/-- The section takes `v` for the waiter. -/
theorem kept_received {c : Bool} {v : T} (hpc : (t.pc i).holding = .waiter)
    (hnil : s.takenBy i = []) (hl : t.log = s.log ++ [.taken i v])
    (hm : i ∉ t.chan.activeReceivers)
    (hrec : t.chan.receiver i = received { continuation := c } v) : Kept t i := by
  refine kept_waiter hpc ?_ hm ?_ ?_
  · rw [takenBy_append hl, takenBy_self, hnil, hrec]
    rfl
  · rw [hrec]
    exact fun ha => absurd ha (by simp [received])
  · rw [hrec]
    exact fun _ => ⟨rfl, rfl⟩

/-- The section ends the receive without a value. -/
theorem kept_empty (hpc : (t.pc i).holding = .waiter) (hnil : s.takenBy i = [])
    (hl : t.log = s.log) (hm : i ∉ t.chan.activeReceivers)
    (hv : (t.chan.receiver i).value = none)
    (ha : (t.chan.receiver i).active = true → (t.chan.receiver i).exception = none) :
    Kept t i := by
  refine kept_waiter hpc ?_ hm (fun h => ⟨hv, ha h⟩) fun h => absurd hv h
  rw [hv]
  unfold Sys.takenBy at hnil ⊢
  rw [hl, hnil]
  rfl

/-- `await_ready` of a receive. -/
theorem kept_recvReady {k : Resume} {p q : Pc T} {r : Bool × Locked T} (hk : Kept s i)
    (hpc : s.pc i = q) (hq : ReadyPc q k p) (hfr : FreshReceiver s.chan i)
    (hs : ReadySpec s.chan i (k = .recvFor) r) : Kept (s.awaitReady i r k p) i := by
  obtain ⟨_, _, hnq, hnp, hw⟩ := hq.takes
  have hnil : s.takenBy i = [] := by
    have hh := hk.holding
    rw [hpc, hnq] at hh
    exact hh
  have hpt : ∀ l' : Locked T, ((s.awaitReady i (true, l') k p).pc i).holding = .waiter := by
    intro l'
    exact (congrArg Pc.holding (goto_self ..)).trans hw
  cases hs with
  | @nothing st' _ _ hp =>
    have hrest : st'.receiver = s.chan.receiver := (congrArg State.receiver hp.rest :)
    refine hk.of_record (congrFun hrest i) ?_ (fun hm => ?_) id ?_
    · exact (takenBy_append (awaitReady_log ..)).trans (List.append_nil _)
    · exact absurd hm (hfr.unqueued hp.receivers)
    · have he : (s.awaitReady i (false, { state := st' }) k p).pc i = p := goto_self ..
      rw [he, hnp]
      exact hnil
  | expired _ _ _ hqu _ _ hrec _ =>
    exact kept_empty (hpt _) hnil (List.append_nil _) (hfr.unqueued (congrArg Queue.takers hqu))
      (by rw [awaitReady_chan, hrec]) (by rw [awaitReady_chan, hrec]; exact fun _ => rfl)
  | @found l' hf =>
    cases hf with
    | @value v _ htake _ hev _ hrec _ =>
      rw [hfr.record] at hrec
      exact kept_received (hpt _) hnil (by rw [awaitReady_log, hev])
        (hfr.unqueued (take_takers htake)) hrec
    | closed _ _ _ hqu hev _ hrec _ =>
      rw [hfr.record] at hrec
      refine kept_empty (hpt _) hnil (by rw [awaitReady_log, hev, List.append_nil])
        (hfr.unqueued (congrArg Queue.takers hqu)) ?_ ?_
      · rw [awaitReady_chan, hrec]
        rfl
      · rw [awaitReady_chan, hrec]
        exact fun ha => absurd ha (by simp [receivedException])

/-- `await_suspend` of a receive. -/
theorem kept_recvSuspend {k : Resume} {q : Pc T} {posting : OpId → Bool} {r : Bool × Locked T}
    (hr : Reachable (system T) s) (hk : Kept s i) (hpc : s.pc i = q) (hq : SuspendPc q k)
    (hfr : FreshReceiver s.chan i) (hs : SuspendSpec s.chan i (k = .recvFor) r) :
    Kept { s.awaitSuspend i r k with posting := posting } i := by
  obtain ⟨_, hb, hnq, hne, hw⟩ := hq.takes
  have hnil : s.takenBy i = [] := by
    have hh := hk.holding
    rw [hpc, hnq] at hh
    exact hh
  have hpt : ∀ l' : Locked T, ((s.awaitSuspend i (false, l') k).pc i).holding = .waiter := by
    intro l'
    exact (congrArg Pc.holding (goto_self ..)).trans hw
  cases hs with
  | @parked st' _ _ _ hs hcount hrec =>
    have he : (s.awaitSuspend i (true, { state := st' }) k).pc i = .suspended k := goto_self ..
    have htaken : s.takenBy i = (st'.receiver i).value.toList := by rw [hrec.1, hnil]; rfl
    have hlog : (s.awaitSuspend i (true, { state := st' }) k).takenBy i = s.takenBy i :=
      (takenBy_append (awaitSuspend_log ..)).trans (List.append_nil _)
    obtain ⟨hsnd, h0⟩ := fresh_unowed hr (i := i) (by rw [hpc]; exact hb)
    refine ⟨fun _ => hrec, fun hv => absurd hrec.1 hv, fun _ => ⟨⟨k, he, hne⟩, ?_, ?_⟩, ?_,
      fun _ => hlog.trans htaken⟩
    · have hws : i ∉ s.chan.senders.waiting := fun h => hsnd (Pool.mem_waiting.mp h).1
      have hrs : st'.readySenders.count i = s.chan.readySenders.count i :=
        (hs.senders.idle (by simp) hws).2
      unfold Sys.owed at h0 ⊢
      rw [← hcount, ← hrs] at h0
      exact h0
    · exact fun hm => hsnd (hs.senders.mem i (by simp) hm)
    · show ((s.awaitSuspend i (true, { state := st' }) k).pc i).holding.Keeps _ _
      rw [he]
      show (After.resume k : After T).holding.Keeps _ _
      rw [hw]
      exact hlog.trans htaken
  | @value v l' htake _ hev _ hrec =>
    exact kept_received (s := s) (hpt _) hnil ((awaitSuspend_log ..).trans (by rw [hev]))
      (hfr.unqueued (take_takers htake)) hrec
  | @closed l' _ _ _ hqu hev _ hrec =>
    refine kept_empty (s := s) (hpt l') hnil
      ((awaitSuspend_log ..).trans (by rw [hev, List.append_nil]))
      (hfr.unqueued (congrArg Queue.takers hqu)) ?_ ?_
    · show (l'.state.receiver i).value = none
      rw [hrec]
      rfl
    · show (l'.state.receiver i).active = true → _
      rw [hrec]
      exact fun ha => absurd ha (by simp [receivedException])
  | @expired st' _ _ _ hqu _ _ hrec _ =>
    refine kept_empty (s := s) (hpt _) hnil ((awaitSuspend_log ..).trans (List.append_nil _))
      (hfr.unqueued (congrArg Queue.takers hqu)) ?_ ?_
    · show (st'.receiver i).value = none
      rw [hrec]
    · show (st'.receiver i).active = true → (st'.receiver i).exception = none
      rw [hrec]
      exact fun _ => rfl

/-- `try_recv` and `blocking_next`, which hand the value to no waiter. -/
theorem kept_take {r : Option T × Locked T} {f : Flags} (hk : Kept s i)
    (hnil : s.takenBy i = []) (hsus : ∀ k, s.pc i ≠ .suspended k) (hp : s.posting i = false)
    (hs : TakeSpec s.chan i r) :
    Kept ((s.commit r.2).goto i (.notify f (.ret (.value r.1)))) i := by
  have hn := hk.unqueued hsus
  have hpt : ∀ (l' : Locked T) (o : Option T),
      ((s.commit l').goto i (.notify f (.ret (.value o)))).pc i = .notify f (.ret (.value o)) :=
    fun l' o => goto_self ..
  cases hs with
  | @nothing st' _ hp' =>
    have hrest : st'.receiver = s.chan.receiver := (congrArg State.receiver hp'.rest :)
    refine hk.of_record (congrFun hrest i) ?_ (fun hm => ?_) id ?_
    · exact (takenBy_append rfl).trans (List.append_nil _)
    · have ht : st'.activeReceivers = s.chan.activeReceivers := hp'.receivers
      exact absurd (ht ▸ hm) hn
    · rw [hpt]
      exact .inl hnil
  | @value v l' htake hs hev _ =>
    have hrec : l'.state.receiver i = s.chan.receiver i := (hs.receivers.idle id hn).1
    have hlog : ((s.commit l').goto i (.notify f (.ret (.value (some v))))).log =
        s.log ++ [.taken i v] := by rw [goto_log, commit_log, hev]
    have htaken : ((s.commit l').goto i (.notify f (.ret (.value (some v))))).takenBy i = [v] := by
      rw [takenBy_append hlog, hnil, takenBy_self]
      rfl
    refine ⟨?_, ?_, fun hm => ?_, ?_, fun h => ?_⟩
    · exact hrec.symm ▸ hk.waiting
    · exact hrec.symm ▸ hk.value
    · have ht : l'.state.activeReceivers = s.chan.activeReceivers := take_takers htake
      exact absurd (ht ▸ hm) hn
    · rw [hpt]
      exact .inl htaken
    · have h' : s.posting i = true := h
      rw [hp] at h'
      cases h'

theorem reachable_posting (h : Reachable (system T) s) : PostingSettled s := by
  refine h.invariant (I := PostingSettled) ?_ ?_
  · rintro s ⟨capacity, rfl⟩ j hj
    cases hj
  · intro s l t hr hI hs
    have hi := reachable_inv hr
    have h := step_spec hi.ready hs
    exact posting_step h hI (pcStep (inv_step hi hs).2 hI h)

/-- A blocking send, or `try_send`, receives nothing. -/
theorem send_keeps {r : ReceiverWaiter T} {v : T} (h : runOp s i = some t)
    (hpc : s.pc i = .send v ∨ s.pc i = .sendWoken v ∨ s.pc i = .trySend v) :
    (t.pc i).holding.Keeps r [] := by
  have hsend : ∀ {x : SendOutcome × Locked T} {full : Pc T} {ok : Result T},
      full.holding.Keeps r [] → ok.values = [] →
      ((s.afterSend i x full ok).pc i).holding.Keeps r [] := by
    intro x full ok hf hok
    unfold Sys.afterSend
    split
    · rw [goto_self]
      exact .inl rfl
    · rw [goto_self]
      exact hf
    · rw [goto_self]
      exact .inl hok.symm
  rcases hpc with hpc | hpc | hpc
  all_goals
    simp only [runOp, hpc, Option.some.injEq] at h
    subst h
  · refine hsend ?_ rfl
    split
    · exact .inl rfl
    · exact rfl
  · exact hsend rfl rfl
  · exact hsend (.inl rfl) rfl

theorem Kept.nothing (hk : Kept s i) {p : Pc T} (hpc : s.pc i = p) (hp : p.holding = .nothing) :
    s.takenBy i = [] := by
  have hh := hk.holding
  rw [hpc, hp] at hh
  exact hh

/-- The operation's own step. -/
theorem kept_run (hr : Reachable (system T) s) (hk : Kept s i) (hs : step s (.run i) = some t) :
    Kept t i := by
  have hi := reachable_inv hr
  have h := step_spec hi.ready hs
  have hspec := h
  have hsus : ∀ k, s.pc i ≠ .suspended k := by
    intro k hpc
    have hn : runOp s i = some t := hs
    simp [runOp, hpc] at hn
  have hposting : ∀ {p : Pc T}, s.pc i = p → p.beforeReceive = false →
      t.posting i = true → s.posting i = true := by
    intro p hpc hb hp
    refine (posting_of_step hspec hp).resolve_right ?_
    rintro ⟨⟨timeout, he⟩, _⟩
    rw [← hpc, he] at hb
    cases hb
  have hquiet : ∀ {p : Pc T}, s.pc i = p → p.beforeReceive = false → p ≠ .tryRecv →
      (t.pc i).holding.Keeps (s.chan.receiver i) (s.takenBy i) → Kept t i :=
    fun hpc hb htry hh => kept_spared hi hk hspec (by rw [hpc]; exact hb) (by rw [hpc]; exact htry)
      hsus (hposting hpc hb) rfl hh
  have hunposted : (s.pc i).settled = false → s.posting i = false := by
    intro hset
    cases hp : s.posting i with
    | false => rfl
    | true =>
      rw [reachable_posting hr i hp] at hset
      cases hset
  have hgo : ∀ {p q : Pc T} {u : Sys T}, s.pc i = p → u.chan = s.chan → u.log = s.log →
      u.posting = s.posting → u.pc i = q → (p.holding.Keeps (s.chan.receiver i) (s.takenBy i) →
        q.holding.Keeps (s.chan.receiver i) (s.takenBy i)) → Kept u i :=
    fun hpc hc hl hp hq hh => kept_goto hk hsus hc hl hp hq (hh (hpc ▸ hk.holding))
  cases h with
  | @send _ v r full ok hpc _ _ =>
    have hh := send_keeps (r := s.chan.receiver i) hs hpc
    rcases hpc with hpc | hpc | hpc
    all_goals
      refine hquiet hpc rfl (by simp) ?_
      rw [hk.nothing hpc rfl]
      exact hh
  | @sendReady _ v r hpc _ _ =>
    refine hquiet hpc rfl (by simp) ?_
    rw [hk.nothing hpc rfl]
    unfold Sys.awaitReady
    rw [goto_self]
    split <;> exact rfl
  | @sendSuspend _ v r hpc _ _ =>
    refine hquiet hpc rfl (by simp) ?_
    rw [hk.nothing hpc rfl]
    unfold Sys.awaitSuspend
    split
    · rw [goto_self]
      exact rfl
    · rw [goto_self]
      exact rfl
  | recvReady hpc hq hfr hsec => exact kept_recvReady hk hpc hq hfr hsec
  | recvSuspend hpc hq hfr _ hsec => exact kept_recvSuspend hr hk hpc hq hfr hsec
  | tryRecv hpc hsec =>
    exact kept_take hk (hk.nothing hpc rfl) hsus (hunposted (by rw [hpc]; rfl)) hsec
  | next hpc _ hsec =>
    exact kept_take hk (hk.nothing hpc rfl) hsus (hunposted (by rw [hpc]; rfl)) hsec
  | @nextNothing _ st' p hpc _ hp hor =>
    have hnil := hk.nothing hpc rfl
    have hrest : st'.receiver = s.chan.receiver := (congrArg State.receiver hp.rest :)
    refine hk.of_record (congrFun hrest i) rfl (fun hm => ?_) id ?_
    · have ht : st'.activeReceivers = s.chan.activeReceivers := hp.receivers
      exact absurd (ht ▸ hm) (hk.unqueued hsus)
    · rw [goto_self]
      rcases hor with ⟨_, rfl⟩ | ⟨_, rfl⟩
      · exact .inl hnil
      · exact hnil
  | nextOnLoop hpc _ => exact hgo hpc rfl rfl rfl (goto_self ..) fun h => .inl h
  | close hpc _ _ _ _ _ _ =>
    refine hquiet hpc rfl (by simp) ?_
    rw [hk.nothing hpc rfl, goto_self]
    exact rfl
  | closeNotify hpc => exact hgo hpc rfl rfl rfl (goto_self ..) id
  | closeTimer hpc =>
    obtain ⟨hc, hl⟩ := post_chan s (.timerCancel _)
    exact hgo hpc hc hl (post_posting s _) (goto_self ..) id
  | @closeTimersDone _ schedule hpc =>
    refine hgo hpc rfl rfl rfl (goto_self ..) fun h => ?_
    cases schedule with
    | true => exact h
    | false => exact .inl h
  | closePost hpc _ => exact hgo hpc rfl rfl rfl (goto_self ..) fun h => .inl h
  | closePostFailed hpc _ => exact hgo hpc rfl rfl rfl (goto_self ..) fun h => .inl h
  | @notify _ f k hpc =>
    refine hgo hpc ?_ ?_ ?_ (goto_self ..) id
    · rw [goto_chan]
      split <;> rfl
    · rw [goto_log]
      split <;> rfl
    · unfold Sys.goto
      split <;> rfl
  | cancelTimer hpc _ =>
    obtain ⟨hc, hl⟩ := post_chan s (.timerCancel _)
    exact hgo hpc hc hl (post_posting s _) (goto_self ..) id
  | cancelTimersDone hpc => exact hgo hpc rfl rfl rfl (goto_self ..) id
  | wakeNothing hpc _ => exact hgo hpc rfl rfl rfl (goto_self ..) (continue_keeps hk.value)
  | wakeFlush hpc _ => exact hgo hpc rfl rfl rfl (goto_self ..) (continue_keeps hk.value)
  | wakeAsync hpc _ _ => exact hgo hpc rfl rfl rfl (goto_self ..) (continue_keeps hk.value)
  | wakeClosing hpc _ _ _ =>
    exact hgo hpc rfl rfl rfl (goto_self ..) fun h => .inr ⟨rfl, h.length⟩
  | timer hlab _ => rcases hlab with h | ⟨_, _, h⟩ <;> cases h

theorem kept_new (capacity : Nat) : Kept (Sys.new capacity : Sys T) i :=
  ⟨fun _ => ⟨rfl, rfl⟩, fun h => absurd rfl h, fun hm => absurd hm List.not_mem_nil, rfl,
    fun _ => rfl⟩

theorem Kept.step (hr : Reachable (system T) s) (hk : Kept s i) (hs : step s l = some t) :
    Kept t i := by
  have hi := reachable_inv hr
  by_cases hrun : l = .run i
  · subst hrun
    exact kept_run hr hk hs
  by_cases hstart : ∃ loop call, l = .start i loop call
  · obtain ⟨loop, call, rfl⟩ := hstart
    exact kept_start hi hk hs
  by_cases htimes : l.Times i
  · exact kept_times hi hk hs htimes
  · exact kept_others hi hk hs hrun (fun loop call he => hstart ⟨loop, call, he⟩) htimes

theorem reachable_kept (h : Reachable (system T) s) (i : OpId) : Kept s i := by
  refine h.invariant (I := fun s => Kept s i) ?_ fun s l t hr hI hs => hI.step hr hs
  rintro s ⟨capacity, rfl⟩
  exact kept_new capacity

/-! ## Who took what -/

/-- The operation that takes a value, with the value. -/
def Event.take? : Event T → Option (OpId × T)
  | .taken i v => some (i, v)
  | _ => none

/-- What has been taken and by whom, in lock order. -/
def Sys.takes (s : Sys T) : List (OpId × T) := s.log.filterMap Event.take?

theorem takes_values (s : Sys T) : s.taken = s.takes.map Prod.snd := by
  unfold Sys.taken Sys.takes
  rw [List.map_filterMap]
  congr 1
  funext e
  cases e <;> rfl

theorem mem_takes {s : Sys T} {i : OpId} {v : T} : (i, v) ∈ s.takes ↔ v ∈ s.takenBy i := by
  unfold Sys.takes Sys.takenBy
  rw [List.mem_filterMap, List.mem_filterMap]
  constructor
  · rintro ⟨e, he, ht⟩
    refine ⟨e, he, ?_⟩
    cases e with
    | taken j w =>
      cases ht
      simp [Event.takenBy?]
    | _ => cases ht
  · rintro ⟨e, he, ht⟩
    refine ⟨e, he, ?_⟩
    cases e with
    | taken j w =>
      simp only [Event.takenBy?, Option.ite_none_right_eq_some, Option.some.injEq] at ht
      obtain ⟨rfl, rfl⟩ := ht
      rfl
    | _ => cases ht

theorem count_takes (s : Sys T) (i : OpId) :
    (s.takes.map Prod.fst).count i = (s.takenBy i).length := by
  unfold Sys.takes Sys.takenBy
  induction s.log with
  | nil => rfl
  | cons e es ih =>
    cases e with
    | taken j v =>
      by_cases hj : j = i
      · simp [Event.take?, Event.takenBy?, hj, ih]
      · simp [Event.take?, Event.takenBy?, hj, ih]
    | _ =>
      rw [List.filterMap_cons_none rfl, List.filterMap_cons_none rfl]
      exact ih

/-- No operation takes two values, and one that has returned, unless it could not
wake the loop, has returned the value it took. -/
theorem receives_return (h : Reachable (system T) s) :
    (s.takes.map Prod.fst).Nodup ∧
      ∀ i r, s.pc i = .done r → r ≠ .thrown asyncClosingError →
        ∀ v, (i, v) ∈ s.takes ↔ r = .value (some v) := by
  refine ⟨List.nodup_iff_count_le_one.mpr fun i => ?_, fun i r hpc hne v => ?_⟩
  · rw [count_takes]
    exact (reachable_kept h i).length
  · have hh := (reachable_kept h i).holding
    rw [hpc] at hh
    have htaken : s.takenBy i = r.values := hh.resolve_right fun he => hne he.1
    rw [mem_takes, htaken]
    cases r with
    | value o => simp [Result.values, Option.mem_toList]
    | _ => simp [Result.values]

/-- Two receives wait; a sender completes the older one and `close` the other. -/
theorem receives_return_closed : ∃ s : Sys Nat, s.pc 0 = .done (.value (some 7)) ∧
    s.pc 1 = .done (.value none) ∧ (0, 7) ∈ s.takes ∧ (1, 7) ∉ s.takes := by
  obtain ⟨s, h, h₀, h₁⟩ : ∃ s : Sys Nat, Reachable (system Nat) s ∧
      s.pc 0 = .done (.value (some 7)) ∧ s.pc 1 = .done (.value none) :=
    ⟨_, (reachable_new 0).run (show run (system Nat) _ [.start 0 false .next, .run 0, .run 0,
      .start 1 false .next, .run 1, .run 1, .start 2 true (.trySend 7), .run 2, .run 2, .run 2,
      .run 2, .start 3 true .close, .run 3, .flushSwap, .flushResume 0, .flushResume 0, .run 0,
      .run 0, .run 0, .run 1, .run 1, .run 1] = some _ from rfl), rfl, rfl⟩
  obtain ⟨_, hret⟩ := receives_return h
  refine ⟨s, h₀, h₁, (hret 0 _ h₀ (by simp) 7).mpr rfl, fun hm => ?_⟩
  have hv := (hret 1 _ h₁ (by simp) 7).mp hm
  cases hv

end LuvCoro.Channel
