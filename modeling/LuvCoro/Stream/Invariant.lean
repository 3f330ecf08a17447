import LuvCoro.Stream.Phases

/-! # The invariant of a handle that is read from

It holds in every run in which `close` harms no reader, so in every run in which
the handle is not closed. -/
namespace LuvCoro.Stream

open Transition

variable {β : Type} {k : Kind} {s t : Sys β} {i j : Nat} {o : Op β} {p : Posted}
  {ps qs : List Posted} {l : Label β}

/-! ## What is under way -/

theorem not_pending_of_completed (h : o.completed = true) : ¬ o.Pending := fun hp =>
  absurd (h.symm.trans hp.2.2) nofun

theorem complete_not_pending : ¬ (o.complete k).Pending := by
  unfold Op.complete
  split
  · rename_i hc
    exact not_pending_of_completed hc
  · exact not_pending_of_completed rfl

/-- Only the read that is touched may have changed. -/
theorem pending_of_set (h : o.Pending → (s.ops i).Pending) :
    ∀ j, ((s.set i o).ops j).Pending → (s.ops j).Pending := by
  intro j hp
  by_cases hj : j = i
  · subst hj
    rw [set_ops_self] at hp
    exact h hp
  · rwa [set_ops_of_ne hj] at hp

theorem run_pending (ha : s.attached = false) (hs : run k s i = some t) :
    ∀ j, (t.ops j).Pending → (s.ops j).Pending := by
  unfold run at hs
  dsimp only at hs
  split at hs
  · rw [if_pos (by rw [ha]; rfl)] at hs
    cases hs
    exact pending_of_set fun hp => absurd rfl hp.2.1
  · rename_i hpc
    split at hs <;> cases hs
    · exact pending_of_set (s := s) fun hp => ⟨by rw [hpc]; nofun, by rw [hpc]; nofun, hp.2.2⟩
    · exact pending_of_set fun hp => ⟨by rw [hpc]; nofun, by rw [hpc]; nofun, hp.2.2⟩
  · rename_i hpc
    split at hs <;> cases hs
    · exact pending_of_set fun hp => absurd rfl hp.2.1
    · exact pending_of_set (s := s) fun hp => ⟨by rw [hpc]; nofun, by rw [hpc]; nofun, hp.2.2⟩
  · cases hs

theorem start_pending {rc : Int} : ∀ j, ((s.start k i rc).ops j).Pending → (s.ops j).Pending := by
  cases start_cases (k := k) s i rc with
  | skipped _ he =>
    rw [he]
    exact fun _ => id
  | fault hc hd =>
    unfold Sys.start
    dsimp only
    rw [if_neg (by rw [hc]; nofun), if_pos hd]
    exact fun _ => id
  | busy _ _ he =>
    rw [he]
    exact pending_of_set fun hp => absurd hp complete_not_pending
  | refused _ _ _ he =>
    rw [he]
    exact pending_of_set fun hp => absurd hp complete_not_pending
  | reads _ _ he =>
    rw [he]
    exact pending_of_set (s := { s with data := some i, reading := true }) id

/-- A read is not under way any more when the closure that cancels it has run. -/
theorem cancel_pending (hd : (s.ops i).Pending → s.dangling k = false)
    (hw : (s.ops i).completed = false → (s.ops i).Pending) :
    ∀ j, ((s.cancel k i).ops j).Pending → (s.ops j).Pending ∧ j ≠ i := by
  intro j hp
  cases hc : (s.ops i).completed with
  | true =>
    rw [cancel_over hc] at hp
    refine ⟨hp, fun hj => ?_⟩
    subst hj
    exact not_pending_of_completed hc hp
  | false =>
    rw [cancel_eq hc (hd (hw hc))] at hp
    by_cases hj : j = i
    · subst hj
      rw [set_ops_self] at hp
      exact absurd hp complete_not_pending
    · rw [set_ops_of_ne hj] at hp
      refine ⟨?_, hj⟩
      split at hp <;> exact hp

theorem event_pending {e : Event β} (hd : s.data = some i) (hs : s.event k e = some t) :
    ∀ j, (t.ops j).Pending → (s.ops j).Pending := by
  obtain ⟨-, ⟨-, rfl⟩ | ⟨o, hr, rfl⟩⟩ := event_cases hd hs
  · exact fun _ => id
  · exact pending_of_set (s := { s with
      delivered := s.delivered ++ e.batch, data := none, reading := false })
      fun hp => absurd hp complete_not_pending

/-! ## The stage of the handle -/

theorem Stage.not_dangling (h : Stage k s) (hp : (s.ops i).Pending) : s.dangling k = false := by
  unfold Sys.dangling
  cases h with
  | opened ha hh =>
    rw [ha, hh]
    split <;> rfl
  | closing _ _ _ hh _ _ hcan =>
    rw [(hcan i hp).1, hh]
    rfl
  | closed _ _ hover => exact absurd hp (hover i)

/-- Something is posted that is not the closure of `close`. -/
theorem Stage.grow (h : Stage k s) (ha : t.attached = s.attached) (hh : t.handle = s.handle)
    (hp : t.posted = s.posted ++ qs) (hq : Posted.close ∉ qs)
    (hpend : s.attached = false → ∀ i, (t.ops i).Pending → (s.ops i).Pending) : Stage k t := by
  cases h with
  | opened ha' hh' hnone =>
    refine .opened (ha.trans ha') (hh.trans hh') fun hm => ?_
    rw [hp, List.mem_append] at hm
    exact hm.elim hnone hq
  | closing pre post ha' hh' hp' honce hcan =>
    refine .closing pre (post ++ qs) (ha.trans ha') (hh.trans hh') ?_ honce fun i hi =>
      hcan i (hpend ha' i hi)
    rw [hp, hp', List.append_assoc]
    rfl
  | closed ha' hh' hover =>
    exact .closed (ha.trans ha') (hh ▸ hh') fun i hi => hover i (hpend ha' i hi)

/-- A closure of a read is run. -/
theorem Stage.pop (h : Stage k s) (hp : s.posted = p :: ps) (hne : p ≠ .close)
    (ha : t.attached = s.attached) (hh : t.handle = s.handle) (ht : t.posted = ps)
    (hpend : ∀ i, (t.ops i).Pending → (s.ops i).Pending ∧ p ≠ .cancel i) : Stage k t := by
  cases h with
  | opened ha' hh' hnone =>
    refine .opened (ha.trans ha') (hh.trans hh') fun hm => hnone ?_
    rw [hp]
    exact List.mem_cons_of_mem _ (ht ▸ hm)
  | closing pre post ha' hh' hp' honce hcan =>
    rw [hp] at hp'
    cases pre with
    | nil => exact absurd (List.cons.inj hp').1 hne
    | cons q pre =>
      obtain ⟨rfl, hps⟩ := List.cons.inj hp'
      refine .closing pre post (ha.trans ha') (hh.trans hh') (ht.trans hps)
        (fun hm => honce (List.mem_cons_of_mem _ hm)) fun i hi => ?_
      obtain ⟨hi, hne⟩ := hpend i hi
      obtain ⟨hk, hm⟩ := hcan i hi
      exact ⟨hk, (List.mem_cons.mp hm).resolve_left hne.symm⟩
  | closed ha' hh' hover =>
    exact .closed (ha.trans ha') (hh ▸ hh') fun i hi => hover i (hpend i hi).1

/-- `close` posts its closure behind the ones that cancel what waits. -/
theorem Stage.close (h : Stage k s)
    (hg : ∀ i, (s.ops i).Pending → k.isSocket = false ∧ Posted.cancel i ∈ s.posted) :
    Stage k s.close := by
  unfold Sys.close
  cases h with
  | opened ha hh hnone =>
    rw [if_pos ha]
    exact .closing s.posted [] rfl hh rfl hnone hg
  | closing pre post ha hh hp honce hcan =>
    rw [if_neg (by rw [ha]; nofun)]
    exact .closing pre post ha hh hp honce hcan
  | closed ha hh hover =>
    rw [if_neg (by rw [ha]; nofun)]
    exact .closed ha hh hover

/-- No read waits when the closure of `close` runs. -/
theorem Stage.uvClose (h : Stage k s) (hp : s.posted = .close :: ps) :
    (∀ i, ¬ (s.ops i).Pending) ∧ Stage k ({ s with posted := ps }.uvClose) := by
  unfold Sys.uvClose
  cases h with
  | opened _ _ hnone => exact absurd (hp ▸ List.mem_cons_self) hnone
  | closing pre post ha hh hp' honce hcan =>
    have hnil : pre = [] := by
      rw [hp] at hp'
      cases pre with
      | nil => rfl
      | cons q pre =>
        have hq := (List.cons.inj hp').1
        exact absurd (hq ▸ List.mem_cons_self) honce
    subst hnil
    have hover : ∀ i, ¬ (s.ops i).Pending := fun i hi => absurd (hcan i hi).2 nofun
    rw [if_pos hh]
    exact ⟨hover, .closed ha nofun hover⟩
  | closed ha hh hover =>
    rw [if_neg hh]
    exact ⟨hover, .closed ha hh hover⟩

/-- The handle is deleted once it is closing. -/
theorem Stage.closeCallback (h : Stage k s) (hc : s.handle = .closing) :
    Stage k { s with handle := .deleted } := by
  cases h with
  | opened _ hh => exact absurd (hc.symm.trans hh) nofun
  | closing _ _ _ hh => exact absurd (hc.symm.trans hh) nofun
  | closed ha _ hover => exact .closed ha nofun hover

/-! ## The step lemma -/

/-- What a step that touches the coroutine of one read leaves alone. -/
structure Handled (s t : Sys β) (qs : List Posted) : Prop where
  attached : t.attached = s.attached
  handle : t.handle = s.handle
  data : t.data = s.data
  reading : t.reading = s.reading
  fault : t.fault = s.fault
  posted : t.posted = s.posted ++ qs
  close : Posted.close ∉ qs

theorem handled_set : Handled s (s.set i o) [] :=
  ⟨rfl, rfl, rfl, rfl, rfl, (List.append_nil _).symm, nofun⟩

theorem handled_post (h : p ≠ .close) : Handled s ((s.set i o).post p) [p] :=
  ⟨rfl, rfl, rfl, rfl, rfl, rfl, fun hm => h (List.mem_singleton.mp hm).symm⟩

theorem run_handled (hs : run k s i = some t) : ∃ qs, Handled s t qs := by
  unfold run at hs
  dsimp only at hs
  split at hs
  · split at hs
    · cases hs
      exact ⟨[], handled_set⟩
    · split at hs
      · cases hs
        exact ⟨[], handled_set⟩
      · split at hs <;> cases hs <;> exact ⟨[], handled_set⟩
  · split at hs <;> cases hs
    · exact ⟨_, handled_post nofun⟩
    · exact ⟨[], handled_set⟩
  · split at hs <;> cases hs
    · exact ⟨[], handled_set⟩
    · exact ⟨_, handled_post nofun⟩
  · cases hs

theorem Inv.handled (h : Inv k s) (ht : Handled s t qs) (hphase : ∀ i, Phase (t.view i))
    (hpend : s.attached = false → ∀ i, (t.ops i).Pending → (s.ops i).Pending) : Inv k t := by
  refine ⟨hphase, ?_, ht.fault.trans h.fault,
    h.stage.grow ht.attached ht.handle ht.posted ht.close hpend⟩
  rw [ht.reading, ht.data]
  exact h.reading

theorem requestStop_phase (h : Phase (s.view i)) :
    Phase ((s.set i { s.ops i with stopRequested := true }).view i) := by
  rw [view_set_self]
  cases h with
  | entering he => exact .entering ⟨⟨he.starts, he.cancels, he.owner, he.stopCallback, he.started,
      he.completed⟩, he.pc, he.cancelRequested, he.nread, he.resumed, he.outcome⟩
  | declined hd => exact .declined ⟨⟨hd.starts, hd.cancels, hd.owner, hd.stopCallback, hd.started,
      hd.completed⟩, hd.pc, hd.resumed⟩
  | waiting hw =>
    refine .waiting ⟨hw.pc, hw.continuation, hw.keepAlive, hw.completed, hw.cancelRequested,
      hw.nread, hw.resumed, hw.outcome, hw.early, fun hp => ?_, hw.stops⟩
    cases hw.suspended hp with
    | queued hone hst hown => exact .queued hone hst hown
    | reading hzero hst hown => exact .reading hzero hst hown
  | ended he => exact .ended ⟨he.pc, he.completed, he.resumed, he.owner⟩

theorem stopCallback_phase (h : Phase (s.view i)) (hcb : (s.ops i).stopCallback = true) :
    Phase (((s.set i { s.ops i with stopCallback := false }).post (.cancel i)).view i) := by
  rw [view_post_cancel, view_set_self]
  cases h with
  | entering he => exact absurd (hcb.symm.trans he.stopCallback) nofun
  | declined hd => exact absurd (hcb.symm.trans hd.stopCallback) nofun
  | waiting hw =>
    refine .waiting ⟨hw.pc, hw.continuation, hw.keepAlive, hw.completed, hw.cancelRequested,
      hw.nread, hw.resumed, hw.outcome, hw.early, fun hp => ?_, fun _ _ => .inr rfl⟩
    cases hw.suspended hp with
    | queued hone hst hown => exact .queued hone hst hown
    | reading hzero hst hown => exact .reading hzero hst hown
  | ended he => exact .ended ⟨he.pc, he.completed, he.resumed, he.owner⟩

theorem release_phase (h : Phase (s.view i)) (hc : (s.ops i).completed = true) :
    Phase ((s.set i (s.ops i).release).view i) := by
  rw [view_set_self]
  cases h with
  | entering he => exact absurd (hc.symm.trans he.completed) nofun
  | declined hd => exact absurd (hc.symm.trans hd.completed) nofun
  | waiting hw => exact absurd (hc.symm.trans hw.completed) nofun
  | ended he => exact .ended ⟨he.pc, he.completed, he.resumed, he.owner⟩

/-- The closure that starts a read is run. -/
theorem start_inv {rc : Int} (h : Inv k s) (hp : s.posted = .start i :: ps) :
    Inv k ({ s with posted := ps }.start k i rc) := by
  have hdang : (s.ops i).Pending → s.dangling k = false := h.stage.not_dangling
  have hphase : ∀ j, Phase (({ s with posted := ps }.start k i rc).view j) := by
    refine phases_of h.phase (fun j hj => ?_) (start_phase (h.phase i) hp hdang)
    exact (start_elsewhere _ j hj).trans (view_pop_of_ne hp (isOf_start hj))
  have hpend := @start_pending _ k { s with posted := ps } i rc
  have hstage : ∀ {u}, u = { s with posted := ps }.start k i rc → u.attached = s.attached →
      u.handle = s.handle → u.posted = ps → Stage k u := fun hu ha hh hq =>
    h.stage.pop hp nofun ha hh hq fun j hj => ⟨hpend j (hu ▸ hj), nofun⟩
  cases start_cases (k := k) { s with posted := ps } i rc with
  | skipped _ he =>
    rw [he] at hphase ⊢
    exact ⟨hphase, h.reading, h.fault, hstage he.symm rfl rfl rfl⟩
  | fault hc hd =>
    obtain ⟨hw, -⟩ := start_queued (h.phase i) hp hc
    exact absurd (hd.symm.trans (hdang hw.pending)) nofun
  | busy _ _ he =>
    rw [he] at hphase ⊢
    exact ⟨hphase, h.reading, h.fault, hstage he.symm rfl rfl rfl⟩
  | refused _ _ _ he =>
    rw [he] at hphase ⊢
    exact ⟨hphase, h.reading, h.fault, hstage he.symm rfl rfl rfl⟩
  | reads _ _ he =>
    rw [he] at hphase ⊢
    exact ⟨hphase, rfl, h.fault, hstage he.symm rfl rfl rfl⟩

/-- What letting go of a read leaves alone. -/
theorem letGo_handled (s : Sys β) (i : Nat) : (s.letGo i).attached = s.attached ∧
    (s.letGo i).handle = s.handle ∧ (s.letGo i).posted = s.posted ∧ (s.letGo i).fault = s.fault := by
  unfold Sys.letGo
  split <;> exact ⟨rfl, rfl, rfl, rfl⟩

theorem letGo_reading (h : s.reading = s.data.isSome) :
    (s.letGo i).reading = (s.letGo i).data.isSome := by
  unfold Sys.letGo
  split
  · rfl
  · exact h

/-- The closure that cancels a read is run. -/
theorem cancel_inv (h : Inv k s) (hp : s.posted = .cancel i :: ps) :
    Inv k ({ s with posted := ps }.cancel k i) := by
  have hdang : (s.ops i).Pending → s.dangling k = false := h.stage.not_dangling
  have hwait : (s.ops i).completed = false → (s.ops i).Pending := fun hc =>
    ((h.phase i).of_queued (.inr (decide_eq_true (hp ▸ List.mem_cons_self))) hc).pending
  have hphase : ∀ j, Phase (({ s with posted := ps }.cancel k i).view j) := by
    refine phases_of h.phase (fun j hj => ?_) (cancel_phase (h.phase i) hp hdang)
    exact (cancel_elsewhere _ j hj).trans (view_pop_of_ne hp (isOf_cancel hj))
  have hpend : ∀ j, (({ s with posted := ps }.cancel k i).ops j).Pending →
      (s.ops j).Pending ∧ Posted.cancel i ≠ .cancel j := fun j hj => by
    obtain ⟨hj, hne⟩ := @cancel_pending _ k { s with posted := ps } i hdang hwait j hj
    exact ⟨hj, fun he => hne (Posted.cancel.inj he).symm⟩
  cases hc : (s.ops i).completed with
  | true =>
    have he : { s with posted := ps }.cancel k i = { s with posted := ps } := cancel_over hc
    rw [he] at hphase hpend ⊢
    exact ⟨hphase, h.reading, h.fault, h.stage.pop hp nofun rfl rfl rfl hpend⟩
  | false =>
    have he := @cancel_eq _ k { s with posted := ps } i hc (hdang (hwait hc))
    obtain ⟨ha, hh, hq, hf⟩ := letGo_handled { s with posted := ps } i
    have hread := @letGo_reading _ { s with posted := ps } i h.reading
    rw [he] at hphase hpend ⊢
    exact ⟨hphase, hread, hf.trans h.fault, h.stage.pop hp nofun ha hh hq hpend⟩

/-- A handle that points to a read points to one that is under way. -/
theorem Inv.owner_pending (h : Inv k s) (hd : s.data = some i) : (s.ops i).Pending :=
  ((h.phase i).of_owner hd).pending

theorem uvClose_inv (h : Inv k s) (hp : s.posted = .close :: ps) :
    Inv k ({ s with posted := ps }.uvClose) := by
  obtain ⟨hover, hstage⟩ := h.stage.uvClose hp
  have hphase : ∀ j, Phase ({ s with posted := ps }.view j) := by
    intro j
    rw [view_pop_of_ne hp isOf_close]
    exact h.phase j
  have hdata : s.data = none := by
    cases hd : s.data with
    | none => rfl
    | some i => exact absurd (h.owner_pending hd) (hover i)
  by_cases hh : s.handle = .opened
  · have he : { s with posted := ps }.uvClose =
        { s with posted := ps, handle := .closing, reading := false } := if_pos hh
    rw [he] at hstage ⊢
    refine ⟨hphase, ?_, h.fault, hstage⟩
    show false = s.data.isSome
    rw [hdata]
    rfl
  · have he : { s with posted := ps }.uvClose = { s with posted := ps } := if_neg hh
    rw [he] at hstage ⊢
    exact ⟨hphase, h.reading, h.fault, hstage⟩

theorem event_inv {e : Event β} (h : Inv k s) (hr : s.reading = true)
    (hs : s.event k e = some t) : Inv k t := by
  obtain ⟨i, hd⟩ := Option.isSome_iff_exists.mp (h.reading.symm.trans hr)
  have hphase := phases_of h.phase (event_elsewhere hd hs) (event_phase (h.phase i) hd hs)
  have hpend := event_pending hd hs
  obtain ⟨-, ⟨-, rfl⟩ | ⟨o, -, rfl⟩⟩ := event_cases hd hs
  · exact h
  · exact ⟨hphase, rfl, h.fault,
      h.stage.grow rfl rfl (List.append_nil _).symm nofun fun _ => hpend⟩

theorem close_inv (h : Inv k s)
    (hg : ∀ i, (s.ops i).Pending → k.isSocket = false ∧ Posted.cancel i ∈ s.posted) :
    Inv k s.close := by
  have hstage := h.stage.close hg
  by_cases ha : s.attached = true
  · have he : s.close = { s with attached := false }.post .close := if_pos ha
    rw [he] at hstage ⊢
    refine ⟨fun j => ?_, h.reading, h.fault, hstage⟩
    rw [view_post_of_ne isOf_close]
    exact h.phase j
  · have he : s.close = s := if_neg ha
    rw [he]
    exact h

/-- Every step keeps the invariant, unless `close` harms a reader. -/
theorem inv_step (h : Inv k s) (hg : Harmless k s l) (hs : step k s l = some t) : Inv k t := by
  cases l with
  | run i =>
    obtain ⟨qs, ht⟩ := run_handled hs
    exact h.handled ht (phases_of h.phase (run_elsewhere hs) (run_phase (h.phase i) hs))
      fun ha => run_pending ha hs
  | requestStop i =>
    simp only [step] at hs
    split at hs <;> cases hs
    exact h.handled handled_set
      (phases_of h.phase (fun j => view_set_of_ne) (requestStop_phase (h.phase i)))
      fun _ => pending_of_set id
  | stopCallback i =>
    simp only [step] at hs
    split at hs <;> cases hs
    rename_i hcb
    rw [Bool.and_eq_true] at hcb
    refine h.handled (handled_post nofun)
      (phases_of h.phase (fun j hj => ?_) (stopCallback_phase (h.phase i) hcb.2))
      fun _ => pending_of_set (s := s) id
    exact (view_post_of_ne (isOf_cancel hj)).trans (view_set_of_ne hj)
  | release i =>
    simp only [step] at hs
    split at hs <;> cases hs
    rename_i hc
    exact h.handled handled_set
      (phases_of h.phase (fun j => view_set_of_ne) (release_phase (h.phase i) hc))
      fun _ => pending_of_set id
  | runPosted rc =>
    simp only [step] at hs
    split at hs
    · cases hs
    · rename_i i ps hp
      cases hs
      exact start_inv h hp
    · rename_i i ps hp
      cases hs
      exact cancel_inv h hp
    · rename_i ps hp
      cases hs
      exact uvClose_inv h hp
  | event e =>
    simp only [step] at hs
    split at hs
    · rename_i hr
      exact event_inv h hr hs
    · cases hs
  | close =>
    simp only [step] at hs
    split at hs <;> cases hs
    exact close_inv h (hg rfl)
  | closeCallback =>
    simp only [step] at hs
    split at hs <;> cases hs
    rename_i hc
    exact ⟨h.phase, h.reading, h.fault, h.stage.closeCallback hc⟩

theorem inv_init (h : (system β k).init s) : Inv k s := by
  obtain ⟨hinit, hs⟩ := h
  have hentering : ∀ i, Entering (s.view i) := by
    intro i
    have he : ∀ {γ : Type} (f : Op β → γ), f (s.ops i) = f {
        buffer := (s.ops i).buffer
        stopPossible := (s.ops i).stopPossible
        stopRequested := (s.ops i).stopRequested } := fun f => congrArg f (hinit i).eq
    have hposted : s.posted = [] := by rw [hs]
    have hdata : s.data = none := by rw [hs]
    refine ⟨⟨?_, ?_, ?_, he Op.stopCallback, he Op.started, he Op.completed⟩, he Op.pc,
      he Op.cancelRequested, he Op.nread, he Op.resumed, he Op.outcome⟩
    · show s.posted.count _ = 0
      rw [hposted]
      rfl
    · exact decide_eq_false (by rw [hposted]; nofun)
    · exact decide_eq_false (by rw [hdata]; nofun)
  rw [hs]
  refine ⟨fun i => ?_, rfl, rfl, .opened rfl rfl nofun⟩
  have hi := hentering i
  rw [hs] at hi
  exact .entering hi

theorem reachable_inv (h : ReachableBy (system β k) (Harmless k) s) : Inv k s :=
  h.invariant (fun _ h0 => inv_init h0) fun _ _ _ _ hI hg hs => inv_step hI hg hs

/-! ## The awaiter of a read that is over -/

/-- `await_suspend` has used nothing that is gone, and has nothing to do once the
read is over. -/
structure Op.Sound (o : Op β) : Prop where
  stale : o.stale = false
  returned : o.completed = true → o.pc = .done

theorem Op.Sound.complete (h : o.Sound) (hpc : o.pc = .suspended ∨ o.pc = .done) :
    (o.complete k).Sound := by
  unfold Op.complete
  split
  · exact h
  · refine ⟨h.stale, fun _ => ?_⟩
    rcases hpc with hp | hp <;> simp [hp]

theorem sound_set (h : ∀ j, (s.ops j).Sound) (ho : o.Sound) :
    ∀ j, ((s.set i o).ops j).Sound := by
  intro j
  by_cases hj : j = i
  · subst hj
    rw [set_ops_self]
    exact ho
  · rw [set_ops_of_ne hj]
    exact h j

theorem run_sound (h : ∀ j, (s.ops j).Sound) (hs : run k s i = some t) :
    ∀ j, (t.ops j).Sound := by
  have hopen : ∀ pc, (s.ops i).pc = pc → pc ≠ .done → (s.ops i).completed ≠ true :=
    fun pc hpc hne hc => hne (hpc.symm.trans ((h i).returned hc))
  unfold run at hs
  dsimp only at hs
  split at hs
  · rename_i hpc
    have hnot := hopen _ hpc nofun
    split at hs
    · cases hs
      exact sound_set h ⟨(h i).stale, fun _ => rfl⟩
    · split at hs
      · cases hs
        exact sound_set h ⟨(h i).stale, fun _ => rfl⟩
      · split at hs <;> cases hs
        · exact sound_set h ⟨(h i).stale, fun _ => rfl⟩
        · exact sound_set h ⟨(h i).stale, fun hc => absurd hc hnot⟩
  · rename_i hpc
    have hnot := hopen _ hpc nofun
    split at hs <;> cases hs
    · exact sound_set (s := s) h ⟨(h i).stale, fun hc => absurd hc hnot⟩
    · exact sound_set h ⟨(h i).stale, fun hc => absurd hc hnot⟩
  · rename_i hpc
    rw [if_neg (hopen _ hpc nofun)] at hs
    cases hs
    exact sound_set (s := s) h ⟨(h i).stale, fun hc => absurd hc (hopen _ hpc nofun)⟩
  · cases hs

theorem start_sound {rc : Int} (h : ∀ j, (s.ops j).Sound)
    (hpc : (s.ops i).completed = false → (s.ops i).pc = .suspended) :
    ∀ j, ((s.start k i rc).ops j).Sound := by
  cases start_cases (k := k) s i rc with
  | skipped _ he =>
    rw [he]
    exact h
  | fault hc hd =>
    unfold Sys.start
    dsimp only
    rw [if_neg (by rw [hc]; nofun), if_pos hd]
    exact h
  | busy hc _ he =>
    have ho : ({ s.ops i with status := Request.UV_EBUSY } : Op β).Sound :=
      ⟨(h i).stale, (h i).returned⟩
    rw [he]
    exact sound_set h (ho.complete (.inl (hpc hc)))
  | refused code hc _ he =>
    have ho : ({ s.ops i with status := code } : Op β).Sound := ⟨(h i).stale, (h i).returned⟩
    rw [he]
    exact sound_set h (ho.complete (.inl (hpc hc)))
  | reads _ _ he =>
    rw [he]
    exact sound_set (s := { s with data := some i, reading := true }) h
      ⟨(h i).stale, (h i).returned⟩

theorem cancel_sound (h : ∀ j, (s.ops j).Sound)
    (hpc : (s.ops i).pc = .suspended ∨ (s.ops i).pc = .done) :
    ∀ j, ((s.cancel k i).ops j).Sound := by
  cases hc : (s.ops i).completed with
  | true =>
    rw [cancel_over hc]
    exact h
  | false =>
    cases hd : s.dangling k with
    | true =>
      rw [cancel_fault hc hd]
      exact h
    | false =>
      have ho : ({ s.ops i with cancelRequested := true, status := Request.UV_ECANCELED } :
          Op β).Sound := ⟨(h i).stale, (h i).returned⟩
      rw [cancel_eq hc hd]
      refine sound_set (fun j => ?_) (ho.complete hpc)
      split <;> exact h j

theorem event_sound {e : Event β} (hI : Inv k s) (h : ∀ j, (s.ops j).Sound)
    (hd : s.data = some i) (hs : s.event k e = some t) : ∀ j, (t.ops j).Sound := by
  have hw := (hI.phase i).of_owner hd
  have howner : (s.view i).owner = true := decide_eq_true hd
  have hpc : (s.ops i).pc = .suspended := by
    by_contra hne
    exact absurd (howner.symm.trans (hw.early hne).2.2) nofun
  obtain ⟨-, ⟨-, rfl⟩ | ⟨o, hr, rfl⟩⟩ := event_cases hd hs
  · exact h
  · obtain ⟨hrpc, hc, -, -⟩ := record_keeps hr
    have ho : o.Sound := ⟨(record_stale hr).trans (h i).stale, fun ht =>
      hrpc.trans ((h i).returned (hc.symm.trans ht))⟩
    exact sound_set (s := { s with
      delivered := s.delivered ++ e.batch, data := none, reading := false }) h
      (ho.complete (.inl (hrpc.trans hpc)))

/-- Unless a closure cancels a read too early, every step keeps what `await_suspend`
uses. -/
theorem step_sound (hI : Inv k s) (h : ∀ j, (s.ops j).Sound) (hl : Orderly s l)
    (hs : step k s l = some t) : ∀ j, (t.ops j).Sound := by
  cases l with
  | run i => exact run_sound h hs
  | requestStop i =>
    simp only [step] at hs
    split at hs <;> cases hs
    exact sound_set h ⟨(h i).stale, (h i).returned⟩
  | stopCallback i =>
    simp only [step] at hs
    split at hs <;> cases hs
    exact sound_set (s := s) h ⟨(h i).stale, (h i).returned⟩
  | release i =>
    simp only [step] at hs
    split at hs <;> cases hs
    exact sound_set h ⟨(h i).stale, (h i).returned⟩
  | runPosted rc =>
    simp only [step] at hs
    split at hs
    · cases hs
    · rename_i i ps hp
      cases hs
      exact start_sound (s := { s with posted := ps }) h fun hc =>
        (start_queued (hI.phase i) hp hc).2.1
    · rename_i i ps hp
      cases hs
      exact cancel_sound (s := { s with posted := ps }) h (hl rc i ps rfl hp)
    · rename_i ps hp
      cases hs
      unfold Sys.uvClose
      split <;> exact h
  | event e =>
    simp only [step] at hs
    split at hs
    · rename_i hr
      obtain ⟨i, hd⟩ := Option.isSome_iff_exists.mp (hI.reading.symm.trans hr)
      exact event_sound hI h hd hs
    · cases hs
  | close =>
    simp only [step] at hs
    split at hs <;> cases hs
    unfold Sys.close
    split <;> exact h
  | closeCallback =>
    simp only [step] at hs
    split at hs <;> cases hs
    exact h

theorem reachable_sound
    (h : ReachableBy (system β k) (fun s l => Harmless k s l ∧ Orderly s l) s) :
    ∀ i, (s.ops i).stale = false := by
  have hI : ∀ i, (s.ops i).Sound := by
    refine h.invariant (I := fun s => ∀ i, (s.ops i).Sound) (fun s h0 i => ?_)
      fun s l t hr hI hl hs => ?_
    · rw [(h0.1 i).eq]
      exact ⟨rfl, nofun⟩
    · exact step_sound (reachable_inv (hr.mono fun _ _ hg => hg.1)) hI hl.2 hs
  exact fun i => (hI i).stale

/-- A closure that cancels a read too early leaves the rest of its `await_suspend`
without the awaiter. -/
theorem early_cancel_stale {u : Sys β} (hd : s.dangling k = false)
    (hpc : (s.ops i).pc = .posting) (hu : run k (s.cancel k i) i = some u) :
    (u.ops i).stale = true := by
  have hover : ((s.cancel k i).ops i).pc = .posting ∧
      ((s.cancel k i).ops i).completed = true := by
    cases hc : (s.ops i).completed with
    | true =>
      rw [cancel_over hc]
      exact ⟨hpc, hc⟩
    | false =>
      rw [cancel_eq hc hd, set_ops_self]
      simp [Op.complete, hc, hpc]
  simp only [run, hover.1, hover.2, if_true] at hu
  cases hu
  rw [set_ops_self]

end LuvCoro.Stream
