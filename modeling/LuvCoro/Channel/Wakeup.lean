import LuvCoro.Channel.Refinement

/-! # Wake-ups of threads blocked in `send`

A thread in `send_cv.wait` goes on only when somebody calls `notify_all`. The
receives through a waiter always do; `try_recv` and the blocking iterator do not
when they take the front of a full buffer that no parked sender refills, and
that is the only way room appears unannounced. -/
namespace LuvCoro.Channel

open Transition ParkingQueue

universe u
variable {T : Type u} {s t : Sys T} {l : Label T}

/-- `send_cv.notify_all` is still ahead of the operation. -/
def Pc.notifies : Pc T → Bool
  | .notify f _ => f.notifyBlockedSenders
  | .closeNotify _ _ => true
  | _ => false

namespace Sys

def canSend (s : Sys T) : Bool := (canSendNowLocked s.chan).1

/-- A blocked sender would go on: it can send, or throw because of `close`. -/
def Open (s : Sys T) : Prop := s.canSend = true ∨ s.chan.closed = true

/-- The step makes it so. -/
def Opens (s t : Sys T) : Prop :=
  s.canSend = false ∧ t.canSend = true ∨ s.chan.closed = false ∧ t.chan.closed = true

/-- No thread sleeps through room that everybody has finished announcing. -/
def NoLostWakeup (s : Sys T) : Prop :=
  ∀ i v, s.pc i = .sendWait v → s.Open → ∃ j, (s.pc j).notifies = true

end Sys

/-- The operation of the step goes on to `notify_all`. -/
def Announced (l : Label T) (t : Sys T) : Prop := ∃ i, l = .run i ∧ (t.pc i).notifies = true

/-- `try_recv` or the blocking iterator takes from a full buffer, with no sender
parked to fill it again. -/
def Mute (s : Sys T) (l : Label T) : Prop :=
  ∃ i, l = .run i ∧ (s.pc i = .tryRecv ∨ s.pc i = .blockingNext ∧ s.onLoop i = false) ∧
    s.chan.closed = false ∧ 0 < s.chan.capacity ∧ s.chan.messages.length = s.chan.capacity ∧
    s.chan.activeSenders = []

theorem canSend_iff (hw : WellFormed s.chan) : s.canSend = true ↔ s.chan.toQueue.Accepts := by
  obtain ⟨st', he, _⟩ := canSendNow_spec hw
  unfold Sys.canSend
  rw [he]
  exact decide_eq_true_iff

theorem canSend_false_iff (hw : WellFormed s.chan) :
    s.canSend = false ↔ ¬ s.chan.toQueue.Accepts := by
  rw [← canSend_iff hw, Bool.not_eq_true]

/-! ## Steps that make room -/

/-- Room that was not there before was made by a receive, and unless that
receive is mute it is going to say so; so is `close`. -/
theorem opens_announced (hi : Inv s) (hi' : Inv t) (h : StepSpec s l t) (ho : s.Opens t) :
    Announced l t ∨ Mute s l := by
  have hw := hi.ready.wellFormed
  have hv := hi.ready.valid
  have ho' : ¬ s.chan.toQueue.Accepts ∧ t.chan.toQueue.Accepts ∨
      s.chan.toQueue.closed = false ∧ t.chan.toQueue.closed = true :=
    ho.imp_left fun h =>
      ⟨(canSend_false_iff hw).mp h.1, (canSend_iff hi'.ready.wellFormed).mp h.2⟩
  have hquiet : ∀ {q : Queue OpId T}, t.chan.toQueue = q → q.closed = s.chan.toQueue.closed →
      (q.Accepts → s.chan.toQueue.Accepts) → Announced l t ∨ Mute s l := by
    rintro q rfl hc ha
    rcases ho' with ⟨hn, hacc⟩ | ⟨hn, hcl⟩
    · exact absurd (ha hacc) hn
    · rw [hc, hn] at hcl
      cases hcl
  have hsame : t.chan.toQueue = s.chan.toQueue → Announced l t ∨ Mute s l := fun he =>
    hquiet he rfl id
  have hgive : ∀ {v : T}, s.chan.toQueue.Accepts → t.chan.toQueue = s.chan.toQueue.give v →
      Announced l t ∨ Mute s l := fun ha he => by
    refine hquiet he ?_ fun _ => ha
    unfold Queue.give
    split <;> rfl
  have hdrop : ∀ {i : OpId}, t.chan.toQueue = s.chan.toQueue.dropTaker i →
      Announced l t ∨ Mute s l := fun he => hquiet he rfl Queue.accepts_of_dropTaker
  have hmute : ∀ {i : OpId} {v : T},
      (s.pc i = .tryRecv ∨ s.pc i = .blockingNext ∧ s.onLoop i = false) →
      s.chan.toQueue.take = some (v, t.chan.toQueue) → l = .run i → Announced l t ∨ Mute s l := by
    intro i v hpc ht hl
    rcases ho' with hopen | ⟨hn, hcl⟩
    · obtain ⟨hc, h0, hlen, hg⟩ := (Queue.take_opens hv ht).mp hopen
      exact .inr ⟨i, hl, hpc, hc, h0, hlen, hw.parked_eq_nil.mp hg⟩
    · rw [Queue.take_closed ht, hn] at hcl
      cases hcl
  cases h with
  | @start i loop call hpc =>
    refine hsame ?_
    cases call with
    | asyncSend v => exact toQueue_setSender ((hi.ready.op i).idle hpc).queue _
    | _ => rfl
  | send _ _ hs =>
    cases hs with
    | thrown hp => exact hsame ((congrArg State.toQueue (afterSend_chan ..)).trans hp.toQueue)
    | full _ _ hp => exact hsame ((congrArg State.toQueue (afterSend_chan ..)).trans hp.toQueue)
    | placed ha _ hq _ _ _ => exact hgive ha ((congrArg State.toQueue (afterSend_chan ..)).trans hq)
  | sendReady _ _ hs =>
    cases hs with
    | thrown _ hq _ _ _ => exact hsame hq
    | full _ _ hp => exact hsame hp.toQueue
    | placed ha _ hq _ _ _ _ _ _ => exact hgive ha hq
  | sendSuspend _ _ hs =>
    cases hs with
    | parked _ _ hq _ _ _ =>
      exact hquiet hq rfl fun ha => absurd ha (Queue.not_accepts_parkGiver _ _ _)
    | thrown _ hq _ _ _ => exact hsame hq
    | placed ha _ hq _ _ _ _ _ _ => exact hgive ha hq
  | recvReady _ _ _ hs =>
    cases hs with
    | nothing _ _ hp => exact hsame hp.toQueue
    | expired _ _ _ hq _ _ _ _ => exact hsame hq
    | found hf =>
      cases hf with
      | value _ _ _ hnot _ _ => exact .inl ⟨_, rfl, by rw [Sys.awaitReady, goto_self]; exact hnot⟩
      | closed _ _ _ hq _ _ _ _ => exact hsame hq
  | recvSuspend _ _ _ _ hs =>
    cases hs with
    | parked hm hc hq _ _ _ => exact hquiet hq rfl fun _ => Queue.accepts_of_parkTaker hv hm hc
    | value _ _ _ hnot _ =>
      refine .inl ⟨_, rfl, ?_⟩
      exact (congrArg Pc.notifies (goto_self ..)).trans hnot
    | closed _ _ _ hq _ _ _ => exact hsame hq
    | expired _ _ _ hq _ _ _ _ => exact hsame hq
  | tryRecv hpc hs =>
    cases hs with
    | nothing _ hp => exact hsame hp.toQueue
    | value ht _ _ _ => exact hmute (.inl hpc) ht rfl
  | next hpc hl hs =>
    cases hs with
    | value ht _ _ _ => exact hmute (.inr ⟨hpc, hl⟩) ht rfl
  | nextNothing _ _ hp _ => exact hsame hp.toQueue
  | close _ _ _ _ _ _ _ => exact .inl ⟨_, rfl, congrArg Pc.notifies (goto_self ..)⟩
  | closeTimer _ => exact hsame (congrArg State.toQueue (post_chan s _).1)
  | cancelTimer _ _ => exact hsame (congrArg State.toQueue (post_chan s _).1)
  | notify _ => exact hsame (by rw [goto_chan]; split <;> rfl)
  | postFailed _ _ hx =>
    rcases hx with rfl | ⟨hx, _⟩
    · exact hsame rfl
    · exact hdrop hx.toQueue
  | timer _ ht =>
    rcases ht.chan with he | ⟨_, _, hx, _⟩
    · exact hsame (congrArg State.toQueue he)
    · exact hdrop hx.toQueue
  | _ => exact hsame rfl

/-- A mute step makes room and goes on without saying so. -/
theorem mute_opens (hi : Inv s) (hi' : Inv t) (h : StepSpec s l t) (hm : Mute s l) :
    s.Opens t ∧ ¬ Announced l t := by
  obtain ⟨i, rfl, hpc, hc, h0, hlen, hact⟩ := hm
  have hw := hi.ready.wellFormed
  have hne : s.chan.messages ≠ [] := fun he => by
    rw [he, List.length_nil] at hlen
    omega
  have hg : s.chan.toQueue.givers = [] := hw.parked_eq_nil.mpr hact
  have hopens : ∀ {v : T}, s.chan.toQueue.take = some (v, t.chan.toQueue) → s.Opens t := by
    intro v ht
    obtain ⟨hn, ha⟩ := (Queue.take_opens hi.ready.valid ht).mpr ⟨hc, h0, hlen, hg⟩
    exact .inl ⟨(canSend_false_iff hw).mpr hn, (canSend_iff hi'.ready.wellFormed).mpr ha⟩
  have hquiet : ∀ {f : Flags} {r : Result T}, t.pc i = .notify f (.ret r) →
      f.notifyBlockedSenders = false → ¬ Announced (.run i) t := by
    rintro f r hp hf ⟨j, hj, hn⟩
    cases hj
    rw [hp] at hn
    exact absurd (hn.symm.trans hf) (by decide)
  cases h with
  | tryRecv _ hs =>
    cases hs with
    | nothing hm _ => exact absurd hm hne
    | value ht _ _ hf => exact ⟨hopens ht, hquiet (goto_self ..) hf⟩
  | next _ _ hs =>
    cases hs with
    | value ht _ _ hf => exact ⟨hopens ht, hquiet (goto_self ..) hf⟩
  | nextNothing _ hm _ _ => exact absurd hm hne
  | nextOnLoop hpc' hl =>
    rw [hpc'] at hpc
    rcases hpc with hpc | ⟨_, hl'⟩
    · cases hpc
    · rw [hl] at hl'
      cases hl'
  | timer hlab _ => rcases hlab with h | ⟨_, _, h⟩ <;> cases h
  | send hpc' _ _ => rcases hpc' with h | h | h <;> simp [h] at hpc
  | recvReady hpc' hq _ _ => cases hq <;> simp [hpc'] at hpc
  | recvSuspend hpc' hq _ _ _ => cases hq <;> simp [hpc'] at hpc
  | _ => simp_all

/-! ## Who is asleep, and who still has to speak -/

/-- The operation has been suspended and has no receive of its own to announce. -/
def Pc.settled : Pc T → Bool
  | .suspended _ | .done _ => true
  | .notify f (.resume _) => !f.notifyBlockedSenders
  | .cancelTimers _ (.resume _) | .wake _ (.resume _) => true
  | _ => false

/-- What a step does to the program point of `j`: an announcement is made before
it is forgotten, and nobody falls asleep in front of an open channel. -/
structure PcStep (s t : Sys T) (j : OpId) : Prop where
  notifies : (s.pc j).notifies = true → (t.pc j).notifies = true ∨ ∀ i v, t.pc i ≠ .sendWait v
  asleep : ∀ v, t.pc j = .sendWait v → s.pc j = .sendWait v ∨ ¬ t.Open
  settled : (s.pc j).settled = true → (t.pc j).settled = true

theorem PcStep.of_eq {j : OpId} (h : t.pc j = s.pc j) : PcStep s t j := by
  refine ⟨fun hn => .inl ?_, fun v hv => .inl ?_, fun hs => ?_⟩
  · rw [h]
    exact hn
  · rw [← h]
    exact hv
  · rw [h]
    exact hs

/-- Only `i` moves, from a point without an announcement. -/
theorem pcStep_update {i : OpId} {p : Pc T} (ht : t.pc = Function.update s.pc i p)
    (hn : (s.pc i).notifies = false) (hp : (∀ v, p ≠ .sendWait v) ∨ ¬ t.Open)
    (hs : (s.pc i).settled = true → p.settled = true) (j : OpId) : PcStep s t j := by
  by_cases hj : j = i
  · subst hj
    have hpc : t.pc j = p := by rw [ht, Function.update_self]
    refine ⟨fun h => ?_, fun v hv => .inr ?_, fun h => ?_⟩
    · rw [hn] at h
      cases h
    · rw [hpc] at hv
      exact hp.resolve_left fun h => h v hv
    · rw [hpc]
      exact hs h
  · refine PcStep.of_eq ?_
    rw [ht, Function.update_of_ne hj]

theorem notifyAll_awake (s : Sys T) (i : OpId) (v : T) : s.notifyAll.pc i ≠ .sendWait v := by
  unfold Sys.notifyAll
  dsimp only
  cases s.pc i <;> exact nofun

/-- `notify_all` wakes everybody, and the caller goes on. -/
theorem pcStep_notifyAll {i : OpId} {p : Pc T} (hp : ∀ v, p ≠ .sendWait v)
    (hs : (s.pc i).settled = true → p.settled = true) (j : OpId) :
    PcStep s (s.notifyAll.goto i p) j := by
  have hawake : ∀ k v, (s.notifyAll.goto i p).pc k ≠ .sendWait v := by
    intro k v
    by_cases hk : k = i
    · subst hk
      rw [goto_self]
      exact hp v
    · rw [show (s.notifyAll.goto i p).pc k = s.notifyAll.pc k from Function.update_of_ne hk ..]
      exact notifyAll_awake s k v
  refine ⟨fun _ => .inr hawake, fun v hv => absurd hv (hawake j v), fun h => ?_⟩
  by_cases hj : j = i
  · subst hj
    rw [goto_self]
    exact hs h
  · rw [show (s.notifyAll.goto i p).pc j = s.notifyAll.pc j from Function.update_of_ne hj ..]
    unfold Sys.notifyAll
    dsimp only
    cases hpc : s.pc j <;> rw [hpc] at h <;> exact h

/-- While its timer start is still to be posted, an operation is settled. -/
def PostingSettled (s : Sys T) : Prop := ∀ i, s.posting i = true → (s.pc i).settled = true

theorem settled_continue {f : Flags} {k : After T} {st : State T} {i : OpId}
    (h : (Pc.wake f k).settled = true) : (k.continue st i).settled = true := by
  cases k with
  | resume k => rfl
  | ret r => cases h
  | recvTask => cases h

theorem continue_awake {k : After T} {st : State T} {i : OpId} (v : T) :
    k.continue st i ≠ .sendWait v := by
  cases k <;> exact nofun

theorem not_open (hw : WellFormed t.chan) (hc : t.chan.closed = false)
    (ha : ¬ t.chan.toQueue.Accepts) : ¬ t.Open := by
  rintro (h | h)
  · exact ha ((canSend_iff hw).mp h)
  · rw [hc] at h
    cases h

theorem pcStep (hi' : Inv t) (hps : PostingSettled s) (h : StepSpec s l t) (j : OpId) :
    PcStep s t j := by
  cases h with
  | @start i loop call hpc =>
    refine pcStep_update (i := i) rfl (by rw [hpc]; rfl) (.inl ?_) (by rw [hpc]; nofun) j
    cases call <;> exact nofun
  | @send i v r full ok hpc hfull hs =>
    have hn : (s.pc i).notifies = false := by rcases hpc with h | h | h <;> rw [h] <;> rfl
    have hset : (s.pc i).settled = false := by rcases hpc with h | h | h <;> rw [h] <;> rfl
    have hvac : ∀ {p : Pc T}, (s.pc i).settled = true → p.settled = true := fun h => by
      rw [hset] at h
      cases h
    cases hs with
    | thrown _ => exact pcStep_update rfl hn (.inl (by nofun)) hvac j
    | placed _ _ _ _ _ _ => exact pcStep_update rfl hn (.inl (by nofun)) hvac j
    | full hc ha hp =>
      refine pcStep_update rfl hn (.inr ?_) hvac j
      refine not_open hi'.ready.wellFormed (hp.keeps.closed.trans hc) ?_
      rw [← hp.toQueue] at ha
      exact ha
  | @sendReady i v r hpc _ _ =>
    refine pcStep_update (i := i) rfl (by rw [hpc]; rfl) (.inl ?_) (by rw [hpc]; nofun) j
    split <;> exact nofun
  | @sendSuspend i v r hpc _ _ =>
    unfold Sys.awaitSuspend
    split <;> exact pcStep_update (i := i) rfl (by rw [hpc]; rfl) (.inl (by nofun))
      (by rw [hpc]; nofun) j
  | @recvReady i k p q r hpc hq _ _ =>
    have hn : (s.pc i).notifies = false ∧ (s.pc i).settled = false ∧ ∀ v, p ≠ .sendWait v := by
      rw [hpc]
      cases hq <;> exact ⟨rfl, rfl, nofun⟩
    refine pcStep_update (i := i) rfl hn.1 (.inl ?_) (by rw [hn.2.1]; nofun) j
    split
    · exact nofun
    · exact hn.2.2
  | @recvSuspend i k q posting r hpc hq _ _ _ =>
    have hn : (s.pc i).notifies = false ∧ (s.pc i).settled = false := by
      rw [hpc]
      cases hq <;> exact ⟨rfl, rfl⟩
    unfold Sys.awaitSuspend
    split <;> exact pcStep_update (i := i) rfl hn.1 (.inl (by nofun)) (by rw [hn.2]; nofun) j
  | tryRecv hpc _ =>
    exact pcStep_update rfl (by rw [hpc]; rfl) (.inl (by nofun)) (by rw [hpc]; nofun) j
  | next hpc _ _ =>
    exact pcStep_update rfl (by rw [hpc]; rfl) (.inl (by nofun)) (by rw [hpc]; nofun) j
  | nextNothing hpc _ _ hp =>
    refine pcStep_update rfl (by rw [hpc]; rfl) (.inl ?_) (by rw [hpc]; nofun) j
    rcases hp with ⟨_, rfl⟩ | ⟨_, rfl⟩ <;> exact nofun
  | nextOnLoop hpc _ =>
    exact pcStep_update rfl (by rw [hpc]; rfl) (.inl (by nofun)) (by rw [hpc]; nofun) j
  | close hpc _ _ _ _ _ _ =>
    exact pcStep_update rfl (by rw [hpc]; rfl) (.inl (by nofun)) (by rw [hpc]; nofun) j
  | closeNotify hpc => exact pcStep_notifyAll nofun (by rw [hpc]; nofun) j
  | @closeTimer i _ schedule timers hpc =>
    refine pcStep_update (p := .closeTimers schedule timers) ?_ (by rw [hpc]; rfl) (.inl (by nofun)) (by rw [hpc]; nofun) j
    exact congrArg (Function.update · _ _) (post_pc s _)
  | @closeTimersDone i schedule hpc =>
    refine pcStep_update (i := i) rfl (by rw [hpc]; rfl) (.inl ?_) (by rw [hpc]; nofun) j
    split <;> exact nofun
  | closePost hpc _ =>
    exact pcStep_update rfl (by rw [hpc]; rfl) (.inl (by nofun)) (by rw [hpc]; nofun) j
  | closePostFailed hpc _ =>
    exact pcStep_update rfl (by rw [hpc]; rfl) (.inl (by nofun)) (by rw [hpc]; nofun) j
  | @notify i f k hpc =>
    have hset : (s.pc i).settled = true → (Pc.cancelTimers f k).settled = true := by
      rw [hpc]
      cases k with
      | resume k => exact fun _ => rfl
      | _ => exact nofun
    cases hf : f.notifyBlockedSenders with
    | true => exact pcStep_notifyAll nofun hset j
    | false => exact pcStep_update (i := i) rfl (by rw [hpc]; exact hf) (.inl (by nofun)) hset j
  | @cancelTimer i _ ts f k hpc _ =>
    refine pcStep_update (p := .cancelTimers { f with timersToCancel := ts } k) ?_
      (by rw [hpc]; rfl) (.inl (by nofun)) ?_ j
    · exact congrArg (Function.update · _ _) (post_pc s _)
    · rw [hpc]
      cases k <;> exact id
  | @cancelTimersDone i f k hpc =>
    refine pcStep_update (i := i) rfl (by rw [hpc]; rfl) (.inl (by nofun)) ?_ j
    rw [hpc]
    cases k <;> exact id
  | wakeNothing hpc _ =>
    exact pcStep_update rfl (by rw [hpc]; rfl) (.inl continue_awake)
      (by rw [hpc]; exact settled_continue) j
  | wakeFlush hpc _ =>
    exact pcStep_update rfl (by rw [hpc]; rfl) (.inl continue_awake)
      (by rw [hpc]; exact settled_continue) j
  | wakeClosing hpc _ _ _ =>
    exact pcStep_update rfl (by rw [hpc]; rfl) (.inl (by nofun)) (fun _ => rfl) j
  | wakeAsync hpc _ _ =>
    exact pcStep_update rfl (by rw [hpc]; rfl) (.inl continue_awake)
      (by rw [hpc]; exact settled_continue) j
  | spurious hpc =>
    exact pcStep_update rfl (by rw [hpc]; rfl) (.inl (by nofun)) (by rw [hpc]; nofun) j
  | @postFailed i st' wake hp _ _ =>
    have hset := hps i hp
    refine pcStep_update (i := i) rfl ?_ (.inl (by nofun)) (fun _ => rfl) j
    cases hpc : s.pc i with
    | notify f k =>
      rw [hpc] at hset
      cases k with
      | resume k =>
        have hf : f.notifyBlockedSenders = false := by simpa [Pc.settled] using hset
        exact hf
      | _ => cases hset
    | closeNotify _ _ =>
      rw [hpc] at hset
      cases hset
    | _ => rfl
  | timer _ ht =>
    exact .of_eq (congrFun (congrArg Sys.pc ht.frame :) j)
  | flushResume _ hpc =>
    exact pcStep_update rfl (by rw [hpc]; rfl) (.inl (by nofun)) (fun _ => rfl) j
  | _ => exact .of_eq rfl

/-- What the step lemma needs of the state before. -/
structure WakeInv (s : Sys T) : Prop where
  posting : PostingSettled s
  noLostWakeup : s.NoLostWakeup

theorem posting_step (h : StepSpec s l t) (hps : PostingSettled s)
    (hpc : ∀ j, PcStep s t j) : PostingSettled t := by
  intro i hi
  rcases posting_of_step h hi with hold | ⟨_, hsus⟩
  · exact (hpc i).settled (hps i hold)
  · rw [hsus]
    rfl

theorem opens_of_not_open (ho : t.Open) (hn : ¬ s.Open) : s.Opens t := by
  have hfalse : s.canSend = false := by
    rw [← Bool.not_eq_true]
    exact fun h => hn (.inl h)
  have hclosed : s.chan.closed = false := by
    rw [← Bool.not_eq_true]
    exact fun h => hn (.inr h)
  rcases ho with h | h
  · exact .inl ⟨hfalse, h⟩
  · exact .inr ⟨hclosed, h⟩

theorem wakeInv_step (hi : Inv s) (hw : WakeInv s) (hm : ¬ Mute s l)
    (hs : step s l = some t) : WakeInv t := by
  have hspec := step_spec hi.ready hs
  have hi' := (inv_step hi hs).2
  have hpc := pcStep hi' hw.posting hspec
  refine ⟨posting_step hspec hw.posting hpc, fun i v hv ho => ?_⟩
  by_cases hso : s.Open
  · have hold : s.pc i = .sendWait v := ((hpc i).asleep v hv).resolve_right fun h => h ho
    obtain ⟨j, hj⟩ := hw.noLostWakeup i v hold hso
    exact ⟨j, ((hpc j).notifies hj).resolve_right fun h => h i v hv⟩
  · obtain ⟨j, _, hj⟩ := (opens_announced hi hi' hspec (opens_of_not_open ho hso)).resolve_right hm
    exact ⟨j, hj⟩

theorem reachable_wakeInv (h : ReachableBy (system T) (fun s l => ¬ Mute s l) s) : WakeInv s := by
  refine h.invariant ?_ fun s l t hr hI hm hs =>
    wakeInv_step (reachable_inv hr.reachable) hI hm hs
  rintro s ⟨capacity, rfl⟩
  exact ⟨nofun, nofun⟩

/-- What an announcement is for: the next step of the operation wakes everybody. -/
theorem notify_step {i : OpId} (h : (s.pc i).notifies = true) :
    ∃ t, step s (.run i) = some t ∧ ∀ j v, t.pc j ≠ .sendWait v := by
  have hawake : ∀ {p : Pc T}, (∀ v, p ≠ .sendWait v) → ∀ j v,
      (s.notifyAll.goto i p).pc j ≠ .sendWait v := by
    intro p hp j v
    by_cases hj : j = i
    · rw [hj, goto_self]
      exact hp v
    · rw [show (s.notifyAll.goto i p).pc j = s.notifyAll.pc j from Function.update_of_ne hj ..]
      exact notifyAll_awake s j v
  cases hpc : s.pc i with
  | notify f k =>
    rw [hpc] at h
    have hf : f.notifyBlockedSenders = true := h
    exact ⟨_, by simp only [step, runOp, hpc, hf, if_true],
      hawake (p := .cancelTimers f k) (by simp)⟩
  | closeNotify schedule timers =>
    exact ⟨_, by simp only [step, runOp, hpc],
      hawake (p := .closeTimers schedule timers) (by simp)⟩
  | _ =>
    rw [hpc] at h
    cases h

/-- Exactly the mute steps make room, or close, without a `notify_all` to come;
and in a run without them no blocked sender is left asleep in front of an open
channel once every operation is past its announcement. -/
theorem blocked_senders_woken :
    (∀ (s t : Sys T) (l : Label T), Reachable (system T) s → step s l = some t →
      ((s.Opens t → Announced l t) ↔ ¬ Mute s l)) ∧
    (∀ (s : Sys T) (i : OpId), (s.pc i).notifies = true →
      ∃ t, step s (.run i) = some t ∧ ∀ j v, t.pc j ≠ .sendWait v) ∧
    (∀ s : Sys T, ReachableBy (system T) (fun s l => ¬ Mute s l) s → s.NoLostWakeup) := by
  refine ⟨fun s t l hr hs => ?_, fun s i => notify_step, fun s h => (reachable_wakeInv h).noLostWakeup⟩
  have hi := reachable_inv hr
  have hi' := (inv_step hi hs).2
  have hspec := step_spec hi.ready hs
  constructor
  · intro ha hm
    obtain ⟨ho, hn⟩ := mute_opens hi hi' hspec hm
    exact hn (ha ho)
  · exact fun hm ho => (opens_announced hi hi' hspec ho).resolve_right hm

/-- Capacity 1 and full: thread 1 sleeps in `send`, thread 2 calls `try_recv` to
its end, and thread 1 sleeps on in front of an empty buffer. -/
theorem try_recv_leaves_sender_asleep :
    ¬ ∀ s : Sys Nat, Reachable (system Nat) s → s.NoLostWakeup := by
  intro hall
  have hr := (reachable_new (T := Nat) 1).run
    (show run (system Nat) _ [.start 0 false (.trySend 7), .run 0, .start 1 false (.send 8), .run 1,
      .start 2 false .tryRecv, .run 2, .run 2, .run 2, .run 2] = some _ from rfl)
  obtain ⟨j, hj⟩ := hall _ hr 1 8 rfl (.inl rfl)
  match j, hj with
  | 0, hj => cases hj
  | 1, hj => cases hj
  | 2, hj => cases hj
  | n + 3, hj => cases hj

theorem not_mute {i : OpId} (h₁ : s.pc i ≠ .tryRecv) (h₂ : s.pc i ≠ .blockingNext) :
    ¬ Mute s (.run i) := by
  rintro ⟨j, hj, hpc, _⟩
  cases hj
  exact hpc.elim h₁ fun h => h₂ h.1

/-- The same with `recv`: the operation that took the value is about to call
`notify_all`. -/
theorem recv_announces_room : ∃ s : Sys Nat, s.pc 1 = .sendWait 8 ∧ s.canSend = true ∧
    ∃ j, (s.pc j).notifies = true := by
  have h₀ : ReachableBy (system Nat) (fun s l => ¬ Mute s l) (Sys.new 1) := .init ⟨1, rfl⟩
  have h₁ := h₀.step (l := .start 0 false (.trySend 7)) nofun rfl
  have h₂ := h₁.step (l := .run 0) (not_mute (fun h => by cases h) fun h => by cases h) rfl
  have h₃ := h₂.step (l := .start 1 false (.send 8)) nofun rfl
  have h₄ := h₃.step (l := .run 1) (not_mute (fun h => by cases h) fun h => by cases h) rfl
  have h₅ := h₄.step (l := .start 2 true .recv) nofun rfl
  have h₆ := h₅.step (l := .run 2) (not_mute (fun h => by cases h) fun h => by cases h) rfl
  exact ⟨_, rfl, rfl, blocked_senders_woken.2.2 _ h₆ 1 8 rfl (.inl rfl)⟩

end LuvCoro.Channel
