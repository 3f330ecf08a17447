import LuvCoro.Stream.Invariant

/-! # The read protocol of a stream

What the reads of one open stream may rely on: who owns it, what a second
reader gets, that each goes on once, and that no batch of bytes is lost. -/
namespace LuvCoro.Stream

open Transition
open Request (Error UV_ECANCELED UV_EBUSY)

variable {β : Type} {k : Kind} {s t : Sys β} {i j : Nat} {o o' : Op β} {ps : List Posted}
  {l : Label β} {b : List β}

/-! ## What a read returns -/

/-- A read without bytes returns none, if it returns. -/
theorem awaitResume_empty (h : o.nread = 0) (hb : b ≠ []) :
    o.awaitResume k ≠ .ok { bytes := b } := by
  unfold Op.awaitResume
  rw [h, List.take_zero]
  split
  · nofun
  · split
    · nofun
    · split
      · split
        · nofun
        · rename_i addr _
          cases addr with
          | other => nofun
          | _ => exact fun he => hb (congrArg Received.bytes (Except.ok.inj he)).symm
      · exact fun he => hb (congrArg Received.bytes (Except.ok.inj he)).symm

theorem complete_outcome (hc : o.completed = false) (hk : o.continuation = true) :
    (o.complete k).outcome = some (o.awaitResume k) := by
  unfold Op.complete
  rw [if_neg (by rw [hc]; nofun)]
  exact if_pos hk

/-- The read of a stream returns the batch that libuv has put into its buffer. -/
theorem record_data {bytes : List β} {addr : Option Sockaddr} (hk : k.isSocket = false)
    (hc : o.cancelRequested = false) (hr : o.record k (.data bytes addr) = some o') :
    o'.awaitResume k = .ok { bytes } := by
  cases hr
  have htake : (bytes ++ o.buffer.drop bytes.length).take bytes.length = bytes :=
    List.take_left
  simp [Op.awaitResume, hk, hc, htake, UV_ECANCELED]

/-- The reads that have returned a batch of bytes, in the order of the batches
of libuv: each has one of them, and no other read has any. -/
def Returned (s : Sys β) : Prop :=
  ∃ readers : List Nat, readers.Nodup ∧
    readers.map (fun i => (s.ops i).outcome) =
      s.delivered.map (fun bytes => some (.ok { bytes })) ∧
    ∀ i bytes, bytes ≠ [] → (s.ops i).outcome = some (.ok { bytes }) → i ∈ readers

/-- A read keeps what it has returned, or goes on without bytes. -/
def Quiet (o o' : Op β) : Prop :=
  o'.outcome = o.outcome ∨
    o.outcome = none ∧ ∀ bytes, bytes ≠ [] → o'.outcome ≠ some (.ok { bytes })

theorem reader_outcome {readers : List Nat} (h : readers.map (fun i => (s.ops i).outcome) =
    s.delivered.map (fun bytes => some (.ok { bytes }))) (hi : i ∈ readers) :
    (s.ops i).outcome ≠ none := by
  have hm : (s.ops i).outcome ∈ readers.map (fun i => (s.ops i).outcome) :=
    List.mem_map.mpr ⟨i, hi, rfl⟩
  rw [h] at hm
  obtain ⟨bytes, -, he⟩ := List.mem_map.mp hm
  rw [← he]
  nofun

theorem Returned.quiet (h : Returned s) (hd : t.delivered = s.delivered)
    (hq : ∀ i, Quiet (s.ops i) (t.ops i)) : Returned t := by
  obtain ⟨readers, hnd, hmap, hall⟩ := h
  refine ⟨readers, hnd, ?_, fun i bytes hb ho => ?_⟩
  · rw [hd, ← hmap]
    refine List.map_congr_left fun i hi => ?_
    rcases hq i with he | ⟨hn, -⟩
    · exact he
    · exact absurd hn (reader_outcome hmap hi)
  · rcases hq i with he | ⟨-, hn⟩
    · exact hall i bytes hb (he.symm.trans ho)
    · exact absurd ho (hn bytes hb)

/-- One read more has returned, and it has the batch. -/
theorem Returned.deliver (h : Returned s) (hi : (s.ops i).outcome = none)
    (hd : t.delivered = s.delivered ++ [b]) (ho : (t.ops i).outcome = some (.ok { bytes := b }))
    (hne : ∀ j, j ≠ i → (t.ops j).outcome = (s.ops j).outcome) : Returned t := by
  obtain ⟨readers, hnd, hmap, hall⟩ := h
  have hnew : i ∉ readers := fun hm => reader_outcome hmap hm hi
  refine ⟨readers ++ [i], ?_, ?_, fun j bytes hb hj => ?_⟩
  · rw [List.nodup_append]
    refine ⟨hnd, List.pairwise_singleton _ i, fun a ha c hc he => ?_⟩
    rw [List.mem_singleton.mp hc] at he
    exact hnew (he ▸ ha)
  · rw [hd, List.map_append, List.map_append, ← hmap]
    refine congrArg₂ (· ++ ·) (List.map_congr_left fun j hj => ?_) (by simp [ho])
    exact hne j fun he => hnew (he ▸ hj)
  · by_cases hji : j = i
    · exact List.mem_append_right _ (List.mem_singleton.mpr hji)
    · exact List.mem_append_left _ (hall j bytes hb ((hne j hji).symm.trans hj))

/-! ## The step lemma -/

theorem quiet_set (h : Quiet (s.ops i) o) : ∀ j, Quiet (s.ops j) ((s.set i o).ops j) := by
  intro j
  by_cases hj : j = i
  · subst hj
    rw [set_ops_self]
    exact h
  · rw [set_ops_of_ne hj]
    exact .inl rfl

/-- A read is completed that has no bytes. -/
theorem quiet_complete (hw : (s.ops i).outcome = none) (hn : o.nread = 0)
    (hc : o.completed = false) (hk : o.continuation = true) :
    Quiet (s.ops i) (o.complete k) := by
  refine .inr ⟨hw, fun bytes hb he => ?_⟩
  rw [complete_outcome hc hk] at he
  exact awaitResume_empty hn hb (Option.some.inj he)

theorem run_quiet (h : Phase (s.view i)) (hs : run k s i = some t) :
    t.delivered = s.delivered ∧ ∀ j, Quiet (s.ops j) (t.ops j) := by
  unfold run at hs
  dsimp only at hs
  split at hs
  · rename_i hpc
    have hnew : (s.ops i).outcome = none ∧ (s.ops i).nread = 0 := by
      cases h with
      | entering he => exact ⟨he.outcome, he.nread⟩
      | declined hd => exact absurd (hpc.symm.trans hd.pc) nofun
      | waiting hw => exact absurd hpc hw.pending.1
      | ended he => exact absurd hpc he.pc
    obtain ⟨hnone, hzero⟩ := hnew
    split at hs
    · cases hs
      exact ⟨rfl, quiet_set (.inr ⟨hnone, fun _ _ he => nomatch he⟩)⟩
    · split at hs
      · cases hs
        refine ⟨rfl, quiet_set (.inr ⟨hnone, fun bytes hb he => ?_⟩)⟩
        have he := Option.some.inj he
        split at he
        · cases he
        · exact hb (congrArg Received.bytes (Except.ok.inj he)).symm
      · split at hs
        · cases hs
          refine ⟨rfl, quiet_set (.inr ⟨hnone, fun bytes hb he => ?_⟩)⟩
          exact awaitResume_empty (o := { s.ops i with
            cancelRequested := true, status := UV_ECANCELED }) hzero hb (Option.some.inj he)
        · cases hs
          exact ⟨rfl, quiet_set (.inl rfl)⟩
  · split at hs <;> cases hs
    · exact ⟨rfl, quiet_set (s := s) (.inl rfl)⟩
    · exact ⟨rfl, quiet_set (.inl rfl)⟩
  · split at hs <;> cases hs
    · exact ⟨rfl, quiet_set (.inl rfl)⟩
    · exact ⟨rfl, quiet_set (s := s) (.inl rfl)⟩
  · cases hs

theorem start_quiet {rc : Int} (h : Phase (s.view i)) (hp : s.posted = .start i :: ps) :
    ({ s with posted := ps }.start k i rc).delivered = s.delivered ∧
      ∀ j, Quiet (s.ops j) (({ s with posted := ps }.start k i rc).ops j) := by
  cases start_cases (k := k) { s with posted := ps } i rc with
  | skipped _ he =>
    rw [he]
    exact ⟨rfl, fun _ => .inl rfl⟩
  | fault hc hd =>
    unfold Sys.start
    dsimp only at hc hd ⊢
    rw [if_neg (by rw [hc]; nofun), if_pos hd]
    exact ⟨rfl, fun _ => .inl rfl⟩
  | busy hc _ he =>
    obtain ⟨hw, -⟩ := start_queued h hp hc
    rw [he]
    exact ⟨rfl, quiet_set (s := s) (quiet_complete hw.outcome hw.nread hc hw.continuation)⟩
  | refused code hc _ he =>
    obtain ⟨hw, -⟩ := start_queued h hp hc
    rw [he]
    exact ⟨rfl, quiet_set (s := s) (quiet_complete hw.outcome hw.nread hc hw.continuation)⟩
  | reads hc _ he =>
    rw [he]
    exact ⟨rfl, quiet_set (s := s) (.inl rfl)⟩

theorem cancel_quiet (h : Inv k s) (hp : s.posted = .cancel i :: ps) :
    ({ s with posted := ps }.cancel k i).delivered = s.delivered ∧
      ∀ j, Quiet (s.ops j) (({ s with posted := ps }.cancel k i).ops j) := by
  cases hc : (s.ops i).completed with
  | true =>
    have he : { s with posted := ps }.cancel k i = { s with posted := ps } := cancel_over hc
    rw [he]
    exact ⟨rfl, fun _ => .inl rfl⟩
  | false =>
    have hw := (h.phase i).of_queued (.inr (decide_eq_true (hp ▸ List.mem_cons_self))) hc
    have hd : s.dangling k = false := h.stage.not_dangling hw.pending
    rw [@cancel_eq _ k { s with posted := ps } i hc hd]
    have hq := quiet_set (s := s) (quiet_complete (k := k) (o := { s.ops i with
      cancelRequested := true, status := UV_ECANCELED }) hw.outcome hw.nread hc hw.continuation)
    split
    · exact ⟨rfl, hq⟩
    · exact ⟨rfl, hq⟩

/-- A batch goes to the read that the stream belongs to. -/
theorem event_returned {e : Event β} (hk : k.isSocket = false) (h : Inv k s)
    (hret : Returned s) (hr : s.reading = true) (hs : s.event k e = some t) : Returned t := by
  obtain ⟨i, hd⟩ := Option.isSome_iff_exists.mp (h.reading.symm.trans hr)
  have hw := (h.phase i).of_owner hd
  obtain ⟨-, ⟨-, rfl⟩ | ⟨o, ho, rfl⟩⟩ := event_cases hd hs
  · exact hret
  · obtain ⟨-, hc, hcont, -⟩ := record_keeps ho
    have hc : o.completed = false := hc.trans hw.completed
    have hcont : o.continuation = true := hcont.trans hw.continuation
    have hquiet : o.nread = 0 → e.batch = [] → Returned ({ s with
        delivered := s.delivered ++ e.batch
        data := none
        reading := false }.set i (o.complete k)) := by
      intro hn hbatch
      refine hret.quiet ?_ (quiet_set (s := s) (quiet_complete hw.outcome hn hc hcont))
      show s.delivered ++ e.batch = s.delivered
      rw [hbatch, List.append_nil]
    cases e with
    | data bytes addr =>
      refine hret.deliver (i := i) hw.outcome rfl ?_ fun j hj => ?_
      · rw [set_ops_self, complete_outcome hc hcont, record_data hk hw.cancelRequested ho]
      · rw [set_ops_of_ne hj]
    | empty => cases ho
    | eof =>
      cases ho
      exact hquiet rfl rfl
    | error code =>
      cases ho
      exact hquiet rfl rfl

theorem step_returned (hk : k.isSocket = false) (h : Inv k s) (hret : Returned s)
    (hs : step k s l = some t) : Returned t := by
  cases l with
  | run i =>
    obtain ⟨hd, hq⟩ := run_quiet (h.phase i) hs
    exact hret.quiet hd hq
  | requestStop i =>
    simp only [step] at hs
    split at hs <;> cases hs
    exact hret.quiet rfl (quiet_set (.inl rfl))
  | stopCallback i =>
    simp only [step] at hs
    split at hs <;> cases hs
    exact hret.quiet rfl (quiet_set (s := s) (.inl rfl))
  | release i =>
    simp only [step] at hs
    split at hs <;> cases hs
    exact hret.quiet rfl (quiet_set (.inl rfl))
  | runPosted rc =>
    simp only [step] at hs
    split at hs
    · cases hs
    · rename_i i ps hp
      cases hs
      obtain ⟨hd, hq⟩ := start_quiet (h.phase i) hp
      exact hret.quiet hd hq
    · rename_i i ps hp
      cases hs
      obtain ⟨hd, hq⟩ := cancel_quiet h hp
      exact hret.quiet hd hq
    · cases hs
      refine hret.quiet ?_ fun _ => .inl ?_
      · unfold Sys.uvClose
        split <;> rfl
      · unfold Sys.uvClose
        split <;> rfl
  | event e =>
    simp only [step] at hs
    split at hs
    · rename_i hr
      exact event_returned hk h hret hr hs
    · cases hs
  | close =>
    simp only [step] at hs
    split at hs <;> cases hs
    refine hret.quiet ?_ fun _ => .inl ?_
    · unfold Sys.close
      split <;> rfl
    · unfold Sys.close
      split <;> rfl
  | closeCallback =>
    simp only [step] at hs
    split at hs <;> cases hs
    exact hret.quiet rfl fun _ => .inl rfl

theorem init_returned (h : (system β k).init s) : Returned s := by
  refine ⟨[], List.nodup_nil, ?_, fun i bytes _ ho => ?_⟩
  · rw [h.2]
    rfl
  · rw [(h.1 i).eq] at ho
    cases ho

theorem reachable_returned (hk : k.isSocket = false)
    (h : ReachableBy (system β k) (Harmless k) s) : Returned s :=
  h.invariant (fun _ h0 => init_returned h0) fun _ _ _ hr hret _ hs =>
    step_returned hk (reachable_inv hr) hret hs

/-! ## The contract -/

/-- A started read that is not completed, and no other, owns the stream. -/
theorem owner_iff (h : Inv k s) :
    s.data = some i ↔ (s.ops i).started = true ∧ (s.ops i).completed = false := by
  constructor
  · intro hd
    have hw := (h.phase i).of_owner hd
    have howner : (s.view i).owner = true := decide_eq_true hd
    refine ⟨?_, hw.completed⟩
    by_cases hp : (s.view i).op.pc = .suspended
    · cases hw.suspended hp with
      | queued _ _ hown => exact absurd (howner.symm.trans hown) nofun
      | reading _ hst => exact hst
    · exact absurd (howner.symm.trans (hw.early hp).2.2) nofun
  · rintro ⟨hst, hc⟩
    have hst : (s.view i).op.started = true := hst
    cases h.phase i with
    | entering he => exact absurd (hst.symm.trans he.started) nofun
    | declined hd => exact absurd (hst.symm.trans hd.started) nofun
    | ended he => exact absurd (hc.symm.trans he.completed) nofun
    | waiting hw =>
      by_cases hp : (s.view i).op.pc = .suspended
      · cases hw.suspended hp with
        | queued _ hns => exact absurd (hst.symm.trans hns) nofun
        | reading _ _ hown => exact of_decide_eq_true hown
      · exact absurd (hst.symm.trans (hw.early hp).2.1) nofun

/-- The coroutine of a read has nothing to do, and no closure of a read is left:
only libuv, or a stop that is requested later, can still come. -/
structure AtRest (k : Kind) (s : Sys β) (i : Nat) : Prop where
  run : step k s (.run i) = none
  stopCallback : step k s (.stopCallback i) = none
  posted : s.posted = []

theorem atRest_completes (h : Inv k s) (hr : AtRest k s i) : (s.ops i).resumed = 1 ∨
    s.data = some i ∧ ((s.ops i).stopPossible = true → (s.ops i).stopRequested = false) := by
  have hrun : run k s i = none := hr.run
  have hstarts : (s.view i).starts = 0 := by
    show s.posted.count _ = 0
    rw [hr.posted]
    rfl
  have hcancels : (s.view i).cancels = false :=
    decide_eq_false (by rw [hr.posted]; nofun)
  cases h.phase i with
  | entering he =>
    have hpc : (s.ops i).pc = .entering := he.pc
    unfold run at hrun
    dsimp only at hrun
    rw [hpc] at hrun
    dsimp only at hrun
    split at hrun
    · cases hrun
    · split at hrun
      · cases hrun
      · split at hrun <;> cases hrun
  | declined hd => exact .inl hd.resumed
  | ended he => exact .inl he.resumed
  | waiting hw =>
    have hsusp : (s.ops i).pc = .suspended := by
      rcases hw.pc with hp | hp | hp
      · have hp : (s.ops i).pc = .registering := hp
        unfold run at hrun
        dsimp only at hrun
        rw [hp] at hrun
        dsimp only at hrun
        split at hrun <;> cases hrun
      · have hp : (s.ops i).pc = .posting := hp
        unfold run at hrun
        dsimp only at hrun
        rw [hp] at hrun
        dsimp only at hrun
        split at hrun <;> cases hrun
      · exact hp
    cases hw.suspended hsusp with
    | queued hone =>
      rw [hstarts] at hone
      cases hone
    | reading _ _ hown =>
      refine .inr ⟨of_decide_eq_true hown, fun hsp => ?_⟩
      have hcb : (s.ops i).stopCallback = true := by
        rcases hw.stops (by rw [show (s.view i).op.pc = _ from hsusp]; nofun) hsp with hcb | hcan
        · exact hcb
        · exact absurd (hcancels.symm.trans hcan) nofun
      cases hreq : (s.ops i).stopRequested with
      | false => rfl
      | true =>
        have hstop := hr.stopCallback
        simp [step, hreq, hcb] at hstop

theorem completed_once (h : Inv k s) (i : Nat) : (s.ops i).resumed ≤ 1 := by
  cases h.phase i with
  | entering he => exact Nat.le_trans (Nat.le_of_eq he.resumed) (Nat.zero_le 1)
  | declined hd => exact Nat.le_of_eq hd.resumed
  | waiting hw => exact Nat.le_trans (Nat.le_of_eq hw.resumed) (Nat.zero_le 1)
  | ended he => exact Nat.le_of_eq he.resumed

/-- What libuv reports to the owner of the stream, other than that there is
nothing to read, completes its read. -/
theorem event_completes {e : Event β} (h : Inv k s) (hd : s.data = some i)
    (hfits : e.fits (s.ops i) = true) (hne : e ≠ .empty) :
    ∃ t, step k s (.event e) = some t ∧ (t.ops i).completed = true ∧ (t.ops i).resumed = 1 := by
  have hr : s.reading = true := by
    rw [h.reading, hd]
    rfl
  obtain ⟨o, ho⟩ : ∃ o, (s.ops i).record k e = some o := by
    cases e with
    | empty => exact absurd rfl hne
    | _ => exact ⟨_, rfl⟩
  have hstep : s.event k e = some ({ s with
      delivered := s.delivered ++ e.batch
      data := none
      reading := false }.set i (o.complete k)) := by
    unfold Sys.event
    rw [hd]
    dsimp only
    rw [if_pos hfits, ho]
  have hended : Ended ((({ s with
      delivered := s.delivered ++ e.batch
      data := none
      reading := false } : Sys β).set i (o.complete k)).view i) := by
    obtain ⟨hpc, hc, hk, hres⟩ := record_keeps ho
    rw [view_set_self]
    exact ((h.phase i).of_owner hd).complete rfl hpc hc hk hres rfl
  refine ⟨_, (if_pos hr).trans hstep, hended.completed, hended.resumed⟩

/-- A second reader gets `UV_EBUSY`, and nothing else changes. -/
theorem start_busy {a b : Nat} {rc : Int} (h : Inv k s) (hd : s.data = some a)
    (hp : s.posted = .start b :: ps) (hc : (s.ops b).completed = false) :
    a ≠ b ∧ ∃ t, step k s (.runPosted rc) = some t ∧ (t.ops b).completed = true ∧
      (t.ops b).outcome = some (.error (.uvError UV_EBUSY)) ∧ t.data = some a ∧
      t.reading = s.reading ∧ ∀ j, j ≠ b → t.ops j = s.ops j := by
  obtain ⟨hw, -, -, -, hown⟩ := start_queued (h.phase b) hp hc
  have hab : a ≠ b := fun he => hown (he ▸ hd)
  have hstep : step k s (.runPosted rc) = some ({ s with posted := ps }.start k b rc) := by
    simp only [step]
    rw [hp]
  refine ⟨hab, _, hstep, ?_⟩
  cases start_cases (k := k) { s with posted := ps } b rc with
  | skipped hc' => exact absurd (hc.symm.trans hc') (by simp)
  | fault _ hf =>
    exact absurd (hf.symm.trans (h.stage.not_dangling hw.pending)) (by simp)
  | refused _ _ hnone => exact absurd (hd.symm.trans hnone) (by simp)
  | reads _ hnone => exact absurd (hd.symm.trans hnone) (by simp)
  | busy _ _ he =>
    rw [he]
    have hcr : (s.ops b).cancelRequested = false := hw.cancelRequested
    refine ⟨?_, ?_, hd, rfl, fun j hj => set_ops_of_ne hj⟩
    · rw [set_ops_self]
      unfold Op.complete
      split
      · assumption
      · rfl
    · rw [set_ops_self]
      refine (complete_outcome (o := { s.ops b with status := UV_EBUSY }) hc
        hw.continuation).trans ?_
      simp [Op.awaitResume, hcr, UV_EBUSY, UV_ECANCELED, UV_EOF]

/-- What the reads of a stream may rely on. -/
structure ReadProtocol (k : Kind) (s : Sys β) : Prop where
  awaiters : ∀ i, (s.ops i).stale = false
  owner : ∀ i, s.data = some i ↔ (s.ops i).started = true ∧ (s.ops i).completed = false
  listens : s.reading = s.data.isSome
  sound : s.fault = false
  busy : ∀ a b ps rc, s.data = some a → s.posted = .start b :: ps →
    (s.ops b).completed = false →
      a ≠ b ∧ ∃ t, step k s (.runPosted rc) = some t ∧ (t.ops b).completed = true ∧
        (t.ops b).outcome = some (.error (.uvError UV_EBUSY)) ∧ t.data = some a ∧
        t.reading = s.reading ∧ ∀ j, j ≠ b → t.ops j = s.ops j
  once : ∀ i, (s.ops i).resumed ≤ 1
  completes : ∀ i, AtRest k s i → (s.ops i).resumed = 1 ∨
    s.data = some i ∧ ((s.ops i).stopPossible = true → (s.ops i).stopRequested = false)
  answers : ∀ i e, s.data = some i → e.fits (s.ops i) = true → e ≠ .empty →
    ∃ t, step k s (.event e) = some t ∧ (t.ops i).completed = true ∧ (t.ops i).resumed = 1
  returned : Returned s

/-- The protocol holds in every run in which the stream is not closed, and no read is
cancelled before its `await_suspend` is over. -/
theorem read_protocol (hk : k ≠ .udpSocket)
    (h : ReachableBy (system β k) (fun s l => l ≠ .close ∧ Orderly s l) s) :
    ReadProtocol k s := by
  have hstream : k.isSocket = false := by
    cases k with
    | udpSocket => exact absurd rfl hk
    | _ => rfl
  have hsound : ReachableBy (system β k) (fun s l => Harmless k s l ∧ Orderly s l) s :=
    h.mono fun _ _ hl => ⟨fun hc => absurd hc hl.1, hl.2⟩
  have hharmless : ReachableBy (system β k) (Harmless k) s := hsound.mono fun _ _ hl => hl.1
  have hI := reachable_inv hharmless
  exact {
    awaiters := reachable_sound hsound
    owner := fun _ => owner_iff hI
    listens := hI.reading
    sound := hI.fault
    busy := fun _ _ _ _ => start_busy hI
    once := completed_once hI
    completes := fun _ => atRest_completes hI
    answers := fun _ _ => event_completes hI
    returned := reachable_returned hstream hharmless }

/-- One read gets the batch; a second one finds the stream busy, and a stop comes
too late for it. -/
theorem read_protocol_second : ∃ s : Sys Nat, s.delivered = [[7]] ∧
    (s.ops 0).outcome = some (.ok { bytes := [7] }) ∧
    (s.ops 1).outcome = some (.error (.uvError UV_EBUSY)) ∧ ReadProtocol .tcpClient s := by
  have h0 : ReachableBy (system Nat .tcpClient) (fun s l => l ≠ .close ∧ Orderly s l)
      { ops := fun _ => { buffer := [0, 0], stopPossible := true, stopRequested := false } } :=
    .init ⟨fun _ => ⟨nofun, rfl⟩, rfl⟩
  have h1 := ((h0.step (l := .run 0) ⟨by simp, by intro rc i ps hl; cases hl⟩ rfl).step
    (l := .run 0) ⟨by simp, by intro rc i ps hl; cases hl⟩ rfl).step
    (l := .run 0) ⟨by simp, by intro rc i ps hl; cases hl⟩ rfl
  have h2 := ((h1.step (l := .run 1) ⟨by simp, by intro rc i ps hl; cases hl⟩ rfl).step
    (l := .run 1) ⟨by simp, by intro rc i ps hl; cases hl⟩ rfl).step
    (l := .run 1) ⟨by simp, by intro rc i ps hl; cases hl⟩ rfl
  have h3 := (h2.step (l := .runPosted 0) ⟨by simp, by intro rc i ps _ hp; cases hp⟩ rfl).step
    (l := .runPosted 0) ⟨by simp, by intro rc i ps _ hp; cases hp⟩ rfl
  have h4 := ((h3.step (l := .event .empty) ⟨by simp, by intro rc i ps hl; cases hl⟩ rfl).step
    (l := .requestStop 1) ⟨by simp, by intro rc i ps hl; cases hl⟩ rfl).step
    (l := .stopCallback 1) ⟨by simp, by intro rc i ps hl; cases hl⟩ rfl
  have h5 := h4.step (l := .runPosted 0)
    ⟨by simp, by intro rc i ps _ hp; cases hp; exact .inr rfl⟩ rfl
  have h6 := (h5.step (l := .event (.data [7] none)) ⟨by simp, by intro rc i ps hl; cases hl⟩
    rfl).step (l := .release 0) ⟨by simp, by intro rc i ps hl; cases hl⟩ rfl
  exact ⟨_, rfl, rfl, rfl, read_protocol nofun h6⟩

/-- The token is stopped, and its closure run, while another thread is about to post
the start: it does so through an awaiter that is gone. -/
theorem read_uses_dead_awaiter : ∃ s : Sys Nat,
    ReachableBy (system Nat .tcpClient) (fun _ l => l ≠ .close) s ∧
      (s.ops 0).outcome = some (.error .operationCancelled) ∧ (s.ops 0).stale = true ∧
      ¬ ReadProtocol .tcpClient s := by
  have h0 : ReachableBy (system Nat .tcpClient) (fun _ l => l ≠ .close)
      { ops := fun _ => { buffer := [0, 0], stopPossible := true, stopRequested := false } } :=
    .init ⟨fun _ => ⟨nofun, rfl⟩, rfl⟩
  have hrun : Transition.run (system Nat .tcpClient)
      { ops := fun _ => { buffer := [0, 0], stopPossible := true, stopRequested := false } }
      [.run 0, .run 0, .requestStop 0, .stopCallback 0, .runPosted 0, .run 0] = some _ := rfl
  have h := h0.run (fun _ l hl => by rintro rfl; simp at hl) hrun
  exact ⟨_, h, rfl, rfl, fun hp => absurd (hp.awaiters 0) (by simp)⟩

end LuvCoro.Stream
