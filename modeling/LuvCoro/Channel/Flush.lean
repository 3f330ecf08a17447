import LuvCoro.Channel.Resumption

/-! # A flush is due whenever somebody is ready

A section that puts a waiter into a ready queue asks for a flush, and the
request is handed on until a flush takes the queues: by the operation, by the
`uv_async_t`, or by the closing of the channel. Nobody is made ready after the
channel is closed, so the last flush before the handle goes is the last one
needed. -/
namespace LuvCoro.Channel

open Transition WaiterPool ParkingQueue

universe u
variable {T : Type u} {s t : Sys T} {l : Label T}

/-- The operation runs `close` and has not posted the closing of the handle yet. -/
def Pc.closing : Pc T → Bool
  | .closeNotify _ _ | .closeTimers _ _ | .closePost => true
  | _ => false

/-- A flush is due for whoever is ready, and closing the handle comes after. -/
structure Due (s : Sys T) : Prop where
  due : s.readyOps ≠ [] → s.FlushDue
  started : s.closeStarted = true → 0 < s.flushCalls ∨ s.readyOps = []
  asyncClosing : s.asyncClosing = true → s.readyOps = []

theorem readyOps_eq_nil (s : Sys T) : s.readyOps = [] ↔
    s.chan.readyReceivers = [] ∧ s.chan.readySenders = [] := List.append_eq_nil_iff

theorem flushDue_of_pc {i : OpId} (h : (t.pc i).flushes = true) : t.FlushDue :=
  .inr (.inr (.inr ⟨i, nofun, h⟩))

/-! ## Who becomes ready -/

theorem eq_nil_of_count {l l' : List OpId} (h : ∀ j, l.count j = l'.count j) (hl : l' = []) :
    l = [] := by
  refine List.eq_nil_iff_forall_not_mem.mpr fun j hj => ?_
  have hpos := List.count_pos_iff.mpr hj
  rw [h j, hl] at hpos
  cases hpos

theorem closed_waiting (hi : Inv s) (hc : s.chan.closed = true) :
    s.chan.activeReceivers = [] ∧ s.chan.activeSenders = [] := by
  have hv := hi.ready.valid
  refine ⟨?_, hi.ready.wellFormed.parked_eq_nil.mp ?_⟩
  · by_contra hne
    have hopen : s.chan.closed = false := (hv.takers hne).2.2
    rw [hc] at hopen
    cases hopen
  · by_contra hne
    have hopen : s.chan.closed = false := (hv.givers hne).2.2
    rw [hc] at hopen
    cases hopen

/-- Whoever a section of an open channel makes ready will be flushed. -/
def MadeReady (s t : Sys T) : Prop :=
  (s.readyOps = [] → t.readyOps = []) ∨ s.chan.closed = false ∧ t.FlushDue

theorem madeReady_same (hr : t.chan.readyReceivers = s.chan.readyReceivers)
    (hs : t.chan.readySenders = s.chan.readySenders) : MadeReady s t := by
  refine .inl ?_
  rw [readyOps_eq_nil, readyOps_eq_nil, hr, hs]
  exact id

theorem madeReady_pruned {st : State T} (h : Pruned s.chan st) (hc : t.chan = st) :
    MadeReady s t := by
  subst hc
  exact madeReady_same h.readyReceivers h.readySenders

/-- On a closed channel nobody is left to be made ready. -/
theorem madeReady_closed {own : Party → Prop} (hi : Inv s) (hc : s.chan.closed = true)
    (hr : Evolves (fun j => own (.receiver j)) s.chan.receivers t.chan.receivers)
    (hs : Evolves (fun j => own (.sender j)) s.chan.senders t.chan.senders)
    (hor : ∀ j, own (.receiver j) →
      t.chan.readyReceivers.count j = s.chan.readyReceivers.count j)
    (hos : ∀ j, own (.sender j) → t.chan.readySenders.count j = s.chan.readySenders.count j) :
    MadeReady s t := by
  obtain ⟨hnr, hns⟩ := closed_waiting hi hc
  refine .inl fun h0 => ?_
  obtain ⟨h₁, h₂⟩ := (readyOps_eq_nil s).mp h0
  refine (readyOps_eq_nil t).mpr ⟨eq_nil_of_count ?_ h₁, eq_nil_of_count ?_ h₂⟩
  · intro j
    by_cases ho : own (.receiver j)
    · exact hor j ho
    · have hw : j ∉ s.chan.receivers.waiting := by
        rw [State.waiting_receivers, hnr]
        exact List.not_mem_nil
      exact (hr.idle ho hw).2
  · intro j
    by_cases ho : own (.sender j)
    · exact hos j ho
    · have hw : j ∉ s.chan.senders.waiting := by
        rw [State.waiting_senders, hns]
        exact List.not_mem_nil
      exact (hs.idle ho hw).2

theorem madeReady_section {own : Party → Prop} {l : Locked T} (hi : Inv s)
    (h : Section own s.chan l) (hc : t.chan = l.state)
    (hor : ∀ j, own (.receiver j) →
      l.state.readyReceivers.count j = s.chan.readyReceivers.count j)
    (hos : ∀ j, own (.sender j) → l.state.readySenders.count j = s.chan.readySenders.count j)
    (hw : l.wakeLoop = true → t.FlushDue) : MadeReady s t := by
  cases hcl : s.chan.closed with
  | true =>
    exact madeReady_closed hi hcl (hc ▸ h.receivers) (hc ▸ h.senders) (hc ▸ hor) (hc ▸ hos)
  | false =>
    cases hwake : l.wakeLoop with
    | true => exact .inr ⟨hcl, hw hwake⟩
    | false =>
      refine .inl fun h0 => ?_
      obtain ⟨h₁, h₂⟩ := (readyOps_eq_nil s).mp h0
      refine (readyOps_eq_nil t).mpr ⟨eq_nil_of_count ?_ h₁, eq_nil_of_count ?_ h₂⟩
      · intro j
        rw [hc]
        by_cases ho : own (.receiver j)
        · exact hor j ho
        · exact h.quietReceivers hwake j ho
      · intro j
        rw [hc]
        by_cases ho : own (.sender j)
        · exact hos j ho
        · exact h.quietSenders hwake j ho

theorem madeReady_step (hi : Inv s) (hop : ∀ j, s.OpOnce j) (h : StepSpec s l t)
    (hcalm : Calm s l) : MadeReady s t := by
  have hsame : t.chan = s.chan → MadeReady s t := by
    intro he
    exact madeReady_same (by rw [he]) (by rw [he])
  cases h with
  | @start i loop call _ => cases call <;> exact madeReady_same rfl rfl
  | @send i v r full ok _ _ hs =>
    cases hs with
    | thrown hp => exact madeReady_pruned hp rfl
    | full _ _ hp => exact madeReady_pruned hp rfl
    | placed _ hs _ _ _ _ =>
      refine madeReady_section hi hs rfl nofun nofun fun hw => flushDue_of_pc (i := i) ?_
      exact (congrArg Pc.flushes (goto_self ..)).trans hw
  | @sendReady i v r _ _ hs =>
    cases hs with
    | full _ _ hp => exact madeReady_pruned hp rfl
    | thrown hs _ hq _ _ =>
      exact madeReady_section hi hs rfl nofun (fun j _ => congrArg _ hq) nofun
    | placed _ hs _ _ _ _ hq _ _ =>
      refine madeReady_section hi hs rfl nofun (fun j hj => by cases hj; exact hq)
        fun hw => flushDue_of_pc (i := i) ?_
      exact (congrArg Pc.flushes (goto_self ..)).trans hw
  | @sendSuspend i v r _ _ hs =>
    cases hs with
    | parked _ _ _ hs hq _ =>
      exact madeReady_section hi hs rfl nofun (fun j hj => by cases hj; exact hq) nofun
    | thrown hs _ _ hq _ =>
      exact madeReady_section hi hs rfl nofun (fun j hj => by cases hj; exact hq) nofun
    | placed _ hs _ _ _ _ hq _ _ =>
      refine madeReady_section hi hs rfl nofun (fun j hj => by cases hj; exact hq)
        fun hw => flushDue_of_pc (i := i) ?_
      exact (congrArg Pc.flushes (goto_self ..)).trans hw
  | @recvReady i k p q r _ _ hfr hs =>
    cases hs with
    | nothing _ _ hp => exact madeReady_pruned hp rfl
    | expired _ _ hs _ _ hq _ _ =>
      exact madeReady_section hi hs rfl (fun j hj => by cases hj; exact hq) nofun nofun
    | found hf =>
      cases hf with
      | value _ hs _ _ _ hq =>
        rw [hfr.record] at hq
        refine madeReady_section hi hs rfl (fun j hj => by cases hj; exact hq) nofun
          fun hw => flushDue_of_pc (i := i) ?_
        exact (congrArg Pc.flushes (goto_self ..)).trans hw
      | closed _ _ hs _ _ _ _ hq =>
        rw [hfr.record] at hq
        refine madeReady_section hi hs rfl (fun j hj => by cases hj; exact hq) nofun
          fun hw => flushDue_of_pc (i := i) ?_
        exact (congrArg Pc.flushes (goto_self ..)).trans hw
  | @recvSuspend i k q posting r hpc hq hfr hpost hs =>
    obtain ⟨hm, hopen⟩ := calm_recheck hcalm hpc hq
    cases hs with
    | parked _ _ _ hs hq' _ =>
      exact madeReady_section hi hs rfl (fun j hj => by cases hj; exact hq') nofun nofun
    | value htake _ _ _ _ =>
      have hb : s.chan.toQueue.buffer = [] := hm
      simp [Queue.take, hb] at htake
    | closed _ hcl _ _ _ _ _ =>
      rw [hopen] at hcl
      cases hcl
    | expired _ _ hs _ _ hq' _ _ =>
      exact madeReady_section hi hs rfl (fun j hj => by cases hj; exact hq') nofun nofun
  | @tryRecv i r _ hs =>
    cases hs with
    | nothing _ hp => exact madeReady_pruned hp rfl
    | value _ hs _ _ =>
      refine madeReady_section hi hs rfl nofun nofun fun hw => flushDue_of_pc (i := i) ?_
      exact (congrArg Pc.flushes (goto_self ..)).trans hw
  | @next i v r _ _ hs =>
    cases hs with
    | value _ hs _ _ =>
      refine madeReady_section hi hs rfl nofun nofun fun hw => flushDue_of_pc (i := i) ?_
      exact (congrArg Pc.flushes (goto_self ..)).trans hw
  | nextNothing _ _ hp _ => exact madeReady_pruned hp rfl
  | @close i st' timers _ hw hout hq _ _ _ =>
    cases hcl : s.chan.closed with
    | true => exact madeReady_closed hi hcl hout.receivers hout.senders nofun nofun
    | false =>
      refine .inr ⟨hcl, flushDue_of_pc (i := i) ?_⟩
      refine (congrArg Pc.flushes (goto_self ..)).trans ?_
      simp [Pc.flushes, hi.ready.wellFormed.closing, hcl]
  | closeTimer _ => exact hsame (post_chan s _).1
  | cancelTimer _ _ => exact hsame (post_chan s _).1
  | notify _ => exact hsame (by rw [goto_chan]; split <;> rfl)
  | postFailed _ hs _ => exact absurd (hs.symm.trans hcalm) (by decide)
  | @timer i _ _ _ ht =>
    rcases ht.chan with he | ⟨ha, hcm, _, hf⟩
    · exact hsame he
    · refine .inr ⟨?_, .inl hf⟩
      have hm : i ∈ s.chan.activeReceivers :=
        List.mem_filter.mpr ⟨(hop i).timed ht.timed ha hcm, ha⟩
      exact (hi.ready.valid.takers (List.ne_nil_of_mem hm)).2.2
  | flushSwap _ => exact .inl fun _ => rfl
  | _ => exact hsame rfl

/-! ## What becomes of a due flush -/

/-- The requests that are not with an operation stay, or have been carried out. -/
theorem flushDue_of {i : OpId} (hn : s.flushCalls ≤ t.flushCalls)
    (ha : s.asyncPending = true → t.asyncPending = true) (hc : t.asyncClosing = s.asyncClosing)
    (hp : ∀ x ∈ s.posted, x ∈ t.posted) (hpc : ∀ j, j ≠ i → (s.pc j).flushes = true →
      (t.pc j).flushes = true)
    (hpi : (s.pc i).flushes = true → t.FlushDue) (h : s.FlushDue) : t.FlushDue := by
  rcases h with h | ⟨h₁, h₂⟩ | h | ⟨j, _, hj⟩
  · exact .inl (Nat.lt_of_lt_of_le h hn)
  · exact .inr (.inl ⟨ha h₁, hc.trans h₂⟩)
  · exact .inr (.inr (.inl (hp _ h)))
  · by_cases he : j = i
    · subst he
      exact hpi hj
    · exact flushDue_of_pc (hpc j he hj)

/-- The same when only the program point of `i` changes. -/
theorem flushDue_update {i : OpId} {p : Pc T} (ht : t.pc = Function.update s.pc i p)
    (hn : s.flushCalls ≤ t.flushCalls) (ha : t.asyncPending = s.asyncPending)
    (hc : t.asyncClosing = s.asyncClosing) (hp : ∀ x ∈ s.posted, x ∈ t.posted)
    (hpi : (s.pc i).flushes = true → p.flushes = true) (h : s.FlushDue) : t.FlushDue := by
  refine flushDue_of (i := i) hn (by rw [ha]; exact id) hc hp ?_ ?_ h
  · intro j hj hf
    rw [ht, Function.update_of_ne hj]
    exact hf
  · intro hf
    refine flushDue_of_pc (i := i) ?_
    rw [ht, Function.update_self]
    exact hpi hf

theorem flushes_notifyAll (j : OpId) : (s.notifyAll.pc j).flushes = (s.pc j).flushes := by
  simp only [Sys.notifyAll]
  cases s.pc j <;> rfl

theorem flushDue_notify {i : OpId} {p q : Pc T} (b : Bool) (hpc : s.pc i = q)
    (hf : q.flushes = true → p.flushes = true) (h : s.FlushDue) :
    ((if b then s.notifyAll else s).goto i p).FlushDue := by
  cases b with
  | false =>
    refine @flushDue_update _ s _ i p rfl ?_ rfl rfl (fun _ => id) (by rwa [hpc]) h
    exact Nat.le_refl _
  | true =>
    refine @flushDue_of _ s _ i ?_ id rfl (fun _ => id) ?_ ?_ h
    · exact Nat.le_refl _
    · intro j hj hfj
      rw [← flushes_notifyAll (s := s) j] at hfj
      exact (congrArg Pc.flushes (Function.update_of_ne hj ..)).trans hfj
    · intro hfi
      refine flushDue_of_pc (i := i) ((congrArg Pc.flushes (goto_self ..)).trans (hf ?_))
      rwa [hpc] at hfi

/-- A request is lost only when nobody is ready any more. -/
theorem flushDue_step (hdue : Due s) (h : StepSpec s l t) (hcalm : Calm s l)
    (hd : s.FlushDue) : t.readyOps = [] ∨ t.FlushDue := by
  have hno : ∀ {p : Prop}, false = true → p := fun h => absurd h Bool.false_ne_true
  have hmove : ∀ {i : OpId} {p q : Pc T}, t.pc = Function.update s.pc i p →
      s.flushCalls = t.flushCalls → t.asyncPending = s.asyncPending →
      t.asyncClosing = s.asyncClosing → t.posted = s.posted → s.pc i = q →
      (q.flushes = true → p.flushes = true) → t.readyOps = [] ∨ t.FlushDue :=
    fun ht hn ha hc hp hpc hf => .inr (flushDue_update ht (Nat.le_of_eq hn) ha hc
      (by rw [hp]; exact fun _ => id) (by rw [hpc]; exact hf) hd)
  have hpost : ∀ {i : OpId} {p q : Pc T} {x : Posted}, t = ((s.post x).getD s).goto i p →
      s.pc i = q → (q.flushes = true → p.flushes = true) → t.readyOps = [] ∨ t.FlushDue := by
    rintro i p q x rfl hpc hf
    refine .inr (@flushDue_update _ s _ i p ?_ ?_ ?_ ?_ ?_ (by rw [hpc]; exact hf) hd)
    · exact congrArg (Function.update · _ _) (post_pc s _)
    all_goals
      unfold Sys.goto Sys.post
      split
    all_goals first | exact Nat.le_refl _ | rfl | exact fun _ => id | skip
    exact fun _ => List.mem_append_left _
  have hkeep : t.pc = s.pc → s.flushCalls ≤ t.flushCalls → t.asyncPending = s.asyncPending →
      t.asyncClosing = s.asyncClosing → (∀ x ∈ s.posted, x ∈ t.posted ∨ x ≠ .closeChannel) →
      t.readyOps = [] ∨ t.FlushDue := by
    intro hpc hn ha hc hp
    refine .inr ?_
    rcases hd with h | ⟨h₁, h₂⟩ | h | ⟨j, _, hj⟩
    · exact .inl (Nat.lt_of_lt_of_le h hn)
    · exact .inr (.inl ⟨ha.trans h₁, hc.trans h₂⟩)
    · exact .inr (.inr (.inl ((hp _ h).resolve_right (· rfl))))
    · exact flushDue_of_pc (by rw [hpc]; exact hj)
  cases h with
  | start hpc => exact hmove rfl rfl rfl rfl rfl hpc hno
  | @send i v r full ok hpc _ hs =>
    cases hs with
    | thrown _ => rcases hpc with h | h | h <;> exact hmove rfl rfl rfl rfl rfl h hno
    | full _ _ _ => rcases hpc with h | h | h <;> exact hmove rfl rfl rfl rfl rfl h hno
    | placed _ _ _ _ _ _ => rcases hpc with h | h | h <;> exact hmove rfl rfl rfl rfl rfl h hno
  | sendReady hpc _ _ => exact hmove rfl rfl rfl rfl rfl hpc hno
  | sendSuspend hpc _ hs => cases hs <;> exact hmove rfl rfl rfl rfl rfl hpc hno
  | recvReady hpc hq _ _ => cases hq <;> exact hmove rfl rfl rfl rfl rfl hpc hno
  | recvSuspend hpc hq _ _ hs => cases hs <;> cases hq <;> exact hmove rfl rfl rfl rfl rfl hpc hno
  | tryRecv hpc _ => exact hmove rfl rfl rfl rfl rfl hpc hno
  | next hpc _ _ => exact hmove rfl rfl rfl rfl rfl hpc hno
  | nextNothing hpc _ _ _ => exact hmove rfl rfl rfl rfl rfl hpc hno
  | nextOnLoop hpc _ => exact hmove rfl rfl rfl rfl rfl hpc hno
  | close hpc _ _ _ _ _ _ => exact hmove rfl rfl rfl rfl rfl hpc hno
  | closeNotify hpc => exact .inr (flushDue_notify true hpc id hd)
  | closeTimer hpc => exact hpost rfl hpc id
  | @closeTimersDone i schedule hpc =>
    exact hmove rfl rfl rfl rfl rfl hpc (by cases schedule <;> exact id)
  | closePost _ _ =>
    exact .inr (.inr (.inr (.inl (List.mem_append_right _ (List.mem_singleton.mpr rfl)))))
  | @closePostFailed i hpc hs =>
    simp only [Calm, hpc] at hcalm
    rcases hcalm with hn | h0 | h | h | h | ⟨j, hj, hf⟩
    · rw [hs] at hn
      cases hn
    · exact .inl h0
    · exact .inr (.inl h)
    · exact .inr (.inr (.inl h))
    · exact .inr (.inr (.inr (.inl h)))
    · refine .inr (flushDue_of_pc (i := j) ?_)
      have hji : j ≠ i := fun he => hj (congrArg some he)
      exact (congrArg Pc.flushes (Function.update_of_ne hji ..)).trans hf
  | notify hpc => exact .inr (flushDue_notify _ hpc id hd)
  | cancelTimer hpc _ => exact hpost rfl hpc id
  | cancelTimersDone hpc => exact hmove rfl rfl rfl rfl rfl hpc id
  | wakeNothing hpc hw => exact hmove rfl rfl rfl rfl rfl hpc fun h => by simp [Pc.flushes, hw] at h
  | wakeFlush _ _ => exact .inr (.inl (Nat.succ_pos _))
  | wakeClosing _ _ hc _ => exact .inl (hdue.asyncClosing hc)
  | wakeAsync _ _ hc => exact .inr (.inr (.inl ⟨rfl, hc⟩))
  | spurious hpc => exact hmove rfl rfl rfl rfl rfl hpc hno
  | posted _ _ => exact hkeep rfl (Nat.le_refl _) rfl rfl fun _ hx => .inl (List.mem_append_left _ hx)
  | postFailed _ hs _ => exact absurd (hs.symm.trans hcalm) (by decide)
  | timer _ ht =>
    have hpc := congrArg Sys.pc ht.frame
    have ha := congrArg Sys.asyncPending ht.frame
    have hc := congrArg Sys.asyncClosing ht.frame
    refine hkeep hpc ht.flush ha hc fun x hx => ?_
    rcases ht.posted with he | ⟨c, he⟩
    · exact .inl (he ▸ hx)
    · rw [he] at hx
      rcases List.mem_cons.mp hx with rfl | hx
      · exact .inr (by intro h; cases h)
      · exact .inl hx
  | timerCancel hps _ =>
    refine hkeep rfl (Nat.le_refl _) rfl rfl fun x hx => ?_
    rw [hps] at hx
    rcases List.mem_cons.mp hx with rfl | hx
    · exact .inr (by intro h; cases h)
    · exact .inl hx
  | closeChannel _ => exact .inr (.inl (Nat.succ_pos _))
  | onAsync _ _ => exact .inr (.inl (Nat.succ_pos _))
  | flushSwap _ => exact .inl rfl
  | flushResume _ hpc => exact hmove rfl rfl rfl rfl rfl hpc hno
  | flushStray _ _ => exact hkeep rfl (Nat.le_refl _) rfl rfl fun _ => .inl
  | closeHandle hs hn =>
    refine .inl ((hdue.started hs).resolve_left ?_)
    rw [hn]
    exact Nat.lt_irrefl 0
  | shutdown => exact hkeep rfl (Nat.le_refl _) rfl rfl fun _ => .inl

/-! ## How the handle comes to be closed -/

/-- `close` posts the closing of the handle, the posted closure starts a flush
first, and the handle is closed when no flush is due on the loop. -/
structure CloseStep (s t : Sys T) : Prop where
  closing : ∀ j, (t.pc j).closing = true → (s.pc j).closing = true ∨ t.chan.closed = true
  posted : .closeChannel ∈ t.posted → .closeChannel ∈ s.posted ∨ ∃ j, (s.pc j).closing = true
  started : t.closeStarted = true → s.closeStarted = true ∨ .closeChannel ∈ s.posted ∧ 0 < t.flushCalls
  flushCalls : s.flushCalls ≤ t.flushCalls ∨ t.readyOps = []
  asyncClosing : t.asyncClosing = true → s.asyncClosing = true ∨
    s.closeStarted = true ∧ s.flushCalls = 0 ∧ t.chan = s.chan

theorem closing_update {i : OpId} {p : Pc T} (ht : t.pc = Function.update s.pc i p)
    (hp : p.closing = true → (s.pc i).closing = true ∨ t.chan.closed = true) (j : OpId)
    (hj : (t.pc j).closing = true) : (s.pc j).closing = true ∨ t.chan.closed = true := by
  rw [ht] at hj
  by_cases he : j = i
  · subst he
    rw [Function.update_self] at hj
    exact hp hj
  · rw [Function.update_of_ne he] at hj
    exact .inl hj

theorem closing_notifyAll (j : OpId) : (s.notifyAll.pc j).closing = (s.pc j).closing := by
  simp only [Sys.notifyAll]
  cases s.pc j <;> rfl

theorem closing_continue {k : After T} {st : State T} {i : OpId} :
    (k.continue st i).closing = false := by
  cases k <;> rfl

theorem closeStep_post {i x : OpId} {p q : Pc T} (hpc : s.pc i = q)
    (hp : p.closing = true → q.closing = true) :
    CloseStep s (((s.post (.timerCancel x)).getD s).goto i p) := by
  have hclosing := @closing_update _ s (((s.post (.timerCancel x)).getD s).goto i p) i p
    (congrArg (Function.update · _ _) (post_pc s _)) fun h => .inl (by rw [hpc]; exact hp h)
  revert hclosing
  rw [Sys.post_eq]
  split
  · exact fun hc => ⟨hc, .inl, .inl, .inl (Nat.le_refl _), .inl⟩
  · refine fun hc => ⟨hc, fun h => .inl ?_, .inl, .inl (Nat.le_refl _), .inl⟩
    exact (List.mem_append.mp h).resolve_right (by simp)

theorem closeStep_notify {i : OpId} {p q : Pc T} (b : Bool) (hpc : s.pc i = q)
    (hp : p.closing = true → q.closing = true) :
    CloseStep s ((if b then s.notifyAll else s).goto i p) := by
  cases b with
  | false =>
    refine ⟨closing_update (i := i) rfl fun h => .inl (by rw [hpc]; exact hp h), .inl, .inl,
      .inl (Nat.le_refl _), .inl⟩
  | true =>
    refine ⟨fun j hj => ?_, .inl, .inl, .inl (Nat.le_refl _), .inl⟩
    have hq : p.closing = true → (s.notifyAll.pc i).closing = true := by
      rw [closing_notifyAll, hpc]
      exact hp
    rcases closing_update (s := s.notifyAll) (i := i) rfl (fun h => .inl (hq h)) j hj with h | h
    · exact .inl (by rwa [closing_notifyAll] at h)
    · exact .inr h

theorem closeStep (h : StepSpec s l t) : CloseStep s t := by
  have hfix : (∀ j, (t.pc j).closing = true → (s.pc j).closing = true ∨ t.chan.closed = true) →
      t.posted = s.posted → t.closeStarted = s.closeStarted → s.flushCalls ≤ t.flushCalls →
      t.asyncClosing = s.asyncClosing → CloseStep s t := by
    intro hpc hp hs hn ha
    exact ⟨hpc, fun h => .inl (hp ▸ h), fun h => .inl (hs ▸ h), .inl hn, fun h => .inl (ha ▸ h)⟩
  have hmove : ∀ {i : OpId} {p : Pc T}, t.pc = Function.update s.pc i p → p.closing = false →
      t.posted = s.posted → t.closeStarted = s.closeStarted → s.flushCalls ≤ t.flushCalls →
      t.asyncClosing = s.asyncClosing → CloseStep s t := by
    intro i p ht hq
    exact hfix (closing_update ht fun h => absurd (h.symm.trans hq) (by decide))
  have hkeep : t.pc = s.pc → t.posted = s.posted → t.closeStarted = s.closeStarted →
      s.flushCalls ≤ t.flushCalls → t.asyncClosing = s.asyncClosing → CloseStep s t := by
    intro hpc
    exact hfix fun j hj => .inl (hpc ▸ hj)
  cases h with
  | @start i loop call _ =>
    refine hmove (i := i) rfl ?_ rfl rfl (Nat.le_refl _) rfl
    cases call <;> rfl
  | @send i v r full ok _ hfull hs =>
    cases hs with
    | thrown _ => exact hmove (i := i) rfl rfl rfl rfl (Nat.le_refl _) rfl
    | placed _ _ _ _ _ _ => exact hmove (i := i) rfl rfl rfl rfl (Nat.le_refl _) rfl
    | full _ _ _ =>
      refine hmove (i := i) (p := full) rfl ?_ rfl rfl (Nat.le_refl _) rfl
      rcases hfull with rfl | ⟨x, rfl⟩ <;> rfl
  | @sendReady i v r _ _ _ =>
    refine hmove (i := i) rfl ?_ rfl rfl (Nat.le_refl _) rfl
    split <;> rfl
  | @sendSuspend i v r _ _ hs =>
    cases hs <;> exact hmove (i := i) rfl rfl rfl rfl (Nat.le_refl _) rfl
  | @recvReady i k p q r _ hq _ _ =>
    refine hmove (i := i) rfl ?_ rfl rfl (Nat.le_refl _) rfl
    cases hq <;> split <;> rfl
  | @recvSuspend i k q posting r _ _ _ _ hs =>
    cases hs <;> exact hmove (i := i) rfl rfl rfl rfl (Nat.le_refl _) rfl
  | @tryRecv i r _ _ => exact hmove (i := i) rfl rfl rfl rfl (Nat.le_refl _) rfl
  | @next i v l _ _ _ => exact hmove (i := i) rfl rfl rfl rfl (Nat.le_refl _) rfl
  | @nextNothing i st' p _ _ _ hq =>
    refine hmove (i := i) (p := p) rfl ?_ rfl rfl (Nat.le_refl _) rfl
    rcases hq with ⟨_, rfl⟩ | ⟨_, rfl⟩ <;> rfl
  | @nextOnLoop i _ _ => exact hmove (i := i) rfl rfl rfl rfl (Nat.le_refl _) rfl
  | @close i st' timers _ _ _ hq _ _ _ =>
    refine hfix (closing_update (i := i) rfl fun _ => .inr ?_) rfl rfl (Nat.le_refl _) rfl
    exact congrArg Queue.closed hq
  | closeNotify hpc => exact closeStep_notify true hpc fun _ => rfl
  | closeTimer hpc => exact closeStep_post hpc fun _ => rfl
  | @closeTimersDone i schedule hpc =>
    refine hfix (closing_update (i := i) rfl fun _ => .inl (by rw [hpc]; rfl)) rfl rfl
      (Nat.le_refl _) rfl
  | @closePost i hpc _ =>
    refine ⟨closing_update (i := i) rfl nofun, fun _ => .inr ⟨i, by rw [hpc]; rfl⟩, .inl,
      .inl (Nat.le_refl _), .inl⟩
  | @closePostFailed i _ _ => exact hmove (i := i) rfl rfl rfl rfl (Nat.le_refl _) rfl
  | notify hpc => exact closeStep_notify _ hpc nofun
  | cancelTimer hpc _ => exact closeStep_post hpc nofun
  | @cancelTimersDone i f k _ => exact hmove (i := i) rfl rfl rfl rfl (Nat.le_refl _) rfl
  | @wakeNothing i f k _ _ =>
    exact hmove (i := i) rfl closing_continue rfl rfl (Nat.le_refl _) rfl
  | @wakeFlush i f k _ _ => exact hmove (i := i) rfl closing_continue rfl rfl (Nat.le_succ _) rfl
  | @wakeClosing i f k _ _ _ _ => exact hmove (i := i) rfl rfl rfl rfl (Nat.le_refl _) rfl
  | @wakeAsync i f k _ _ _ =>
    exact hmove (i := i) rfl closing_continue rfl rfl (Nat.le_refl _) rfl
  | @spurious i v _ => exact hmove (i := i) rfl rfl rfl rfl (Nat.le_refl _) rfl
  | posted _ _ =>
    refine ⟨fun _ => .inl, fun h => .inl ?_, .inl, .inl (Nat.le_refl _), .inl⟩
    exact (List.mem_append.mp h).resolve_right (by simp)
  | @postFailed i _ _ _ _ _ => exact hmove (i := i) rfl rfl rfl rfl (Nat.le_refl _) rfl
  | timer _ ht =>
    have hpc := congrArg Sys.pc ht.frame
    have hs := congrArg Sys.closeStarted ht.frame
    have ha := congrArg Sys.asyncClosing ht.frame
    refine ⟨fun j hj => .inl (hpc ▸ hj), fun h => .inl ?_, fun h => .inl (hs ▸ h), .inl ht.flush,
      fun h => .inl (ha ▸ h)⟩
    rcases ht.posted with he | ⟨c, he⟩
    · exact he ▸ h
    · rw [he]
      exact List.mem_cons_of_mem _ h
  | timerCancel hps _ =>
    refine ⟨fun _ => .inl, fun h => .inl ?_, .inl, .inl (Nat.le_refl _), .inl⟩
    rw [hps]
    exact List.mem_cons_of_mem _ h
  | closeChannel hps =>
    have hm : .closeChannel ∈ s.posted := by
      rw [hps]
      exact List.mem_cons_self
    exact ⟨fun _ => .inl, fun _ => .inl hm, fun _ => .inr ⟨hm, Nat.succ_pos _⟩,
      .inl (Nat.le_succ _), .inl⟩
  | onAsync _ _ => exact hkeep rfl rfl rfl (Nat.le_succ _) rfl
  | flushSwap _ => exact ⟨fun _ => .inl, .inl, .inl, .inr rfl, .inl⟩
  | @flushResume q w ws k _ _ => exact hmove (i := w) rfl rfl rfl rfl (Nat.le_refl _) rfl
  | flushStray _ _ => exact hkeep rfl rfl rfl (Nat.le_refl _) rfl
  | closeHandle hs hn =>
    exact ⟨fun _ => .inl, .inl, .inl, .inl (Nat.le_refl _), fun _ => .inr ⟨hs, hn, rfl⟩⟩
  | shutdown => exact hkeep rfl rfl rfl (Nat.le_refl _) rfl

theorem closed_step (hi : Inv s) (hm : Moved s t) (hc : s.chan.closed = true) :
    t.chan.closed = true := by
  rcases hm with he | ⟨m, he⟩
  · have hq : t.ledger.closed = s.ledger.closed := by rw [he]
    exact hq.trans hc
  · exact (step_closed hi.sound.valid hc he).1

/-- Whatever `close` does after its section, it does on a closed channel. -/
structure Closing (s : Sys T) : Prop where
  op : ∀ j, (s.pc j).closing = true → s.chan.closed = true
  posted : .closeChannel ∈ s.posted → s.chan.closed = true
  started : s.closeStarted = true → s.chan.closed = true
  asyncClosing : s.asyncClosing = true → s.chan.closed = true

theorem closing_step (hi : Inv s) (hcl : Closing s) (hm : Moved s t) (h : StepSpec s l t) :
    Closing t := by
  have hc := closeStep h
  have hclosed := closed_step hi hm
  refine ⟨fun j hj => ?_, fun hp => ?_, fun hs => ?_, fun ha => ?_⟩
  · rcases hc.closing j hj with h | h
    · exact hclosed (hcl.op j h)
    · exact h
  · rcases hc.posted hp with h | ⟨j, hj⟩
    · exact hclosed (hcl.posted h)
    · exact hclosed (hcl.op j hj)
  · rcases hc.started hs with h | ⟨h, _⟩
    · exact hclosed (hcl.started h)
    · exact hclosed (hcl.posted h)
  · rcases hc.asyncClosing ha with h | ⟨h, _, _⟩
    · exact hclosed (hcl.asyncClosing h)
    · exact hclosed (hcl.started h)

theorem reachable_closing (h : Reachable (system T) s) : Closing s := by
  refine h.invariant ?_ ?_
  · intro s h0
    obtain ⟨capacity, rfl⟩ := h0
    exact ⟨nofun, nofun, nofun, nofun⟩
  · intro s l t hr hI hs
    have hi := reachable_inv hr
    exact closing_step hi hI (inv_step hi hs).1 (step_spec hi.ready hs)

/-! ## Every run without the slips -/

theorem due_step (hi : Inv s) (hop : ∀ j, s.OpOnce j) (hcl : Closing s) (hd : Due s)
    (hm : Moved s t) (h : StepSpec s l t) (hcalm : Calm s l) : Due t := by
  have hready := madeReady_step hi hop h hcalm
  have hc := closeStep h
  have hclosed := closed_step hi hm
  have hquiet : s.chan.closed = true → s.readyOps = [] → t.readyOps = [] := by
    intro hcl
    refine hready.resolve_right fun hn => ?_
    rw [hcl] at hn
    cases hn.1
  refine ⟨fun hne => ?_, fun hs => ?_, fun ha => ?_⟩
  · rcases hready with h0 | ⟨_, hf⟩
    · exact (flushDue_step hd h hcalm (hd.due fun he => hne (h0 he))).resolve_left hne
    · exact hf
  · rcases hc.started hs with h | ⟨h, hn⟩
    · rcases hd.started h with hf | h0
      · exact hc.flushCalls.imp_left (Nat.lt_of_lt_of_le hf)
      · exact .inr (hquiet (hcl.started h) h0)
    · exact .inl hn
  · rcases hc.asyncClosing ha with h | ⟨h, hn, _⟩
    · exact hquiet (hcl.asyncClosing h) (hd.asyncClosing h)
    · refine hquiet (hcl.started h) ((hd.started h).resolve_left ?_)
      rw [hn]
      exact Nat.lt_irrefl 0

/-- What holds in every state of a calm run. -/
structure CalmInv (s : Sys T) : Prop where
  op : ∀ i, s.OpOnce i
  due : Due s

theorem reachable_calmInv (h : ReachableBy (system T) Calm s) : CalmInv s := by
  refine h.invariant ?_ ?_
  · rintro s ⟨capacity, rfl⟩
    refine ⟨fun i => ⟨nofun, fun _ => ⟨rfl, Nat.zero_le _⟩, fun _ => rfl, nofun, nofun, ?_⟩,
      ⟨fun h => absurd rfl h, nofun, nofun⟩⟩
    rintro (h | h | ⟨c, h⟩) <;> cases h
  · intro s l t hr hI hcalm hs
    have hi := reachable_inv hr.reachable
    have hspec := step_spec hi.ready hs
    obtain ⟨hm, hi'⟩ := inv_step hi hs
    exact ⟨opOnce_step hi hi' hI.op hspec hcalm, due_step hi hI.op (reachable_closing hr.reachable) hI.due hm
      hspec hcalm⟩

/-- A completed waiter is not in a queue any more. -/
theorem completed_owed {i : OpId} {k : Resume} (hw : WellFormed s.chan) (ho : s.OpOnce i)
    (hpc : s.pc i = .suspended k) (hc : s.Completed i k) :
    i ∈ s.readyOps ∨ i ∈ s.flushing.flatten := by
  have hsus : (s.pc i).suspendedIn = some k := by rw [hpc]; rfl
  have hload := (ho.suspended k hsus).1
  have hr : i ∉ s.chan.activeReceivers := by
    intro hm
    have hk : k ≠ .asyncSend := fun he => ho.receiver hm (by rw [hsus, he])
    have hp : (s.chan.receiver i).completed = false := hw.receivers.pending i hm
    cases k with
    | asyncSend => exact hk rfl
    | recv _ | recvFor =>
      rw [show (s.chan.receiver i).completed = true from hc] at hp
      cases hp
  have hs : i ∉ s.chan.activeSenders := by
    intro hm
    have hk := ho.sender hm
    rw [hsus] at hk
    cases hk
    have hp : (s.chan.sender i).completed = false := hw.senders.pending i hm
    rw [show (s.chan.sender i).completed = true from hc] at hp
    cases hp
  rw [Sys.load_eq, List.count_eq_zero.mpr hr, List.count_eq_zero.mpr hs] at hload
  by_contra hn
  rw [not_or, Sys.readyOps, List.mem_append, not_or] at hn
  obtain ⟨⟨h₁, h₂⟩, h₃⟩ := hn
  rw [List.count_eq_zero.mpr h₁, List.count_eq_zero.mpr h₂, List.count_eq_zero.mpr h₃] at hload
  cases hload

end LuvCoro.Channel
