import LuvCoro.Process.Pending

/-! # What a wait for a process is answered with

A wait that is pending ends with what came first: the exit, its token or `close`. -/
namespace LuvCoro.Process.Lifecycle

open Transition WaiterSlot

variable {s t : Life} {i j : CallId} {l : Label}

/-! ## The tokens -/

theorem CallInv.request (h : CallInv s i)
    (hb : t.call i = { s.call i with stopped := true })
    (hp : (s.call i).stage = .idle ∨ (s.call i).possible = true)
    (hf : t.first i = (s.first i).or (some .stop)) (hr : t.resumes i = s.resumes i)
    (ho : t.proc.outcome i = s.proc.outcome i) (hc : t.slot.cancels = s.slot.cancels)
    (hsame : t.closing = s.closing ∧ t.generation = s.generation ∧ t.running = s.running ∧
      t.proc.exited = s.proc.exited)
    (haw : (s.call i).stage = .resumed → (t.proc.awaitResume i).1 = (s.proc.awaitResume i).1) :
    CallInv t i := by
  obtain ⟨hcl, hg, hrun, hex⟩ := hsame
  have hsome : ∀ c, s.first i = some c → t.first i = some c := by
    intro c he
    rw [hf, he]
    rfl
  have hback : ∀ c, t.first i = some c → s.first i = some c ∨ c = .stop := by
    intro c he
    rw [hf] at he
    cases hs : s.first i with
    | none =>
      rw [hs] at he
      exact .inr (Option.some.inj he).symm
    | some d =>
      rw [hs] at he
      exact .inl he
  refine ⟨?_, ?_, ?_, ?_, ?_, ?_, ?_, ?_, ?_, ?_, ?_, ?_⟩
  · rw [hb, hr]
    exact h.before
  · rw [hb, hf]
    intro hi
    rcases h.idle hi with he | he
    · exact .inr (by rw [he]; rfl)
    · exact .inr (by rw [he]; rfl)
  · rw [hb]
    intro ha st he
    rcases hback _ he with he | he
    · exact h.causes ha st he
    · cases he
  · intro _ he
    rw [hf] at he
    cases hs : s.first i <;> rw [hs] at he <;> cases he
  · intro _
    rw [hb]
  · rw [hb, hcl, hg]
    intro ha he
    rcases hback _ he with he | he
    · exact h.closing ha he
    · cases he
  · rw [hb]
    intro ha _
    refine hp.resolve_left fun hi => ?_
    change active (s.call i).stage = true at ha
    rw [hi] at ha
    cases ha
  · rw [hb, hc]
    exact h.listens
  · rw [hb, hrun, hex]
    exact h.ready
  · rw [hb, hrun, hex]
    exact h.committed
  · rw [hb, hr]
    intro hres
    obtain ⟨h1, c, hc, ha⟩ := h.resumed hres
    exact ⟨h1, c, hsome c hc, (haw hres).trans ha⟩
  · rw [hb, hr, ho]
    intro hend
    obtain ⟨h1, hans⟩ := h.ended hend
    refine ⟨h1, fun he => ?_⟩
    obtain ⟨c, hc, ha⟩ := hans he
    exact ⟨c, hsome c hc, ha⟩

/-- The callback has posted the closure of the call. -/
theorem CallInv.callback (h : CallInv s i) (hb : t.call i = { s.call i with registered := false })
    (hf : t.first i = s.first i) (hr : t.resumes i = s.resumes i)
    (ho : t.proc.outcome i = s.proc.outcome i) (hq : i ∈ t.slot.cancels)
    (hsame : t.closing = s.closing ∧ t.generation = s.generation ∧ t.running = s.running ∧
      t.proc.exited = s.proc.exited)
    (haw : (s.call i).stage = .resumed → (t.proc.awaitResume i).1 = (s.proc.awaitResume i).1) :
    CallInv t i := by
  obtain ⟨hcl, hg, hrun, hex⟩ := hsame
  refine ⟨?_, ?_, ?_, ?_, ?_, ?_, ?_, fun _ _ => .inr hq, ?_, ?_, ?_, ?_⟩
  · rw [hb, hr]
    exact h.before
  · rw [hb, hf]
    exact h.idle
  · rw [hb, hf]
    exact h.causes
  · rw [hb, hf]
    exact h.noted
  · rw [hb, hf]
    exact h.stopped
  · rw [hb, hf, hcl, hg]
    exact h.closing
  · rw [hb]
    exact h.possible
  · rw [hb, hrun, hex]
    exact h.ready
  · rw [hb, hrun, hex]
    exact h.committed
  · rw [hb, hf, hr]
    intro hres
    rw [haw hres]
    exact h.resumed hres
  · rw [hb, hf, hr, ho]
    exact h.ended

theorem awaitResume_cancelled {p : State}
    (h : p.waitStatus = UV_ECANCELED ∨ (p.call i).stopped = true) :
    (p.awaitResume i).1 = .error .operationCancelled := by
  unfold State.awaitResume
  rw [if_pos h]

theorem kept_requestStop (h : Kept s) (hg : Orderly s (.requestStop i))
    (hs : step s (.requestStop i) = some t) : Kept t := by
  obtain ⟨q, hq, rfl⟩ := Option.map_eq_some_iff.mp hs
  have htook := step_took hq
  have hslot := inv_step h.slot htook
  have hgood : Punctual s.proc (.requestStop i) := trivial
  have hfresh := fresh_step h.slot h.fresh hgood htook
  obtain ⟨hp, hq⟩ := Option.ite_none_right_eq_some.mp hq
  cases hq
  have hcall : (s.proc.slot.requestStop i).call i = { s.call i with stopped := true } := by
    simp [Slot.requestStop, Life.call]
  have hother : ∀ j, j ≠ i → (s.proc.slot.requestStop i).call j = s.call j := fun j hj =>
    (Slot.same_requestStop hj).call
  have hstage : ∀ j, ((s.proc.slot.requestStop i).call j).stage = (s.call j).stage := by
    intro j
    by_cases he : j = i
    · rw [he, hcall]
    · rw [hother j he]
  have hres : ∀ j, ((s.note .stop fun j => j = i).follow
      { s.proc with slot := s.proc.slot.requestStop i }).resumes j = s.resumes j := by
    intro j
    refine if_neg fun hn => hn.2 ?_
    exact (hstage j).symm.trans hn.1
  refine h.of_call (i := i) ⟨rfl, rfl, rfl, rfl, rfl, rfl, rfl⟩ hslot hfresh
    ((h.calls i).request hcall hp ?_ (hres i) rfl rfl ⟨rfl, rfl, rfl, rfl⟩ fun hr => ?_)
    (fun j hj => ?_) ?_ fun ha _ => ⟨?_, ?_⟩
  · simp [Life.follow, Life.note]
  · -- the call has not looked yet, and it is cancelled whether its token is stopped or not
    have hst' : ((s.proc.slot.requestStop i).call i).stopped = true := by rw [hcall]
    have hnew : (({ s.proc with slot := s.proc.slot.requestStop i } : State).awaitResume i).1 =
        .error .operationCancelled := awaitResume_cancelled (.inr hst')
    refine hnew.trans (awaitResume_cancelled ?_).symm
    cases hst : (s.call i).stopped with
    | true => exact .inr hst
    | false => exact .inl (hg hr hst)
  · refine ⟨hother j hj, ?_, hres j, rfl, fun _ hc => hc, fun _ hc => hc, fun _ => ⟨rfl, rfl⟩,
      fun _ => awaitResume_fst ?_ rfl rfl rfl rfl⟩
    · simp [Life.follow, Life.note, hj]
    · exact congrArg Call.stopped (hother j hj)
  · refine h.status.imp_right fun hx => ⟨hx.1, ?_⟩
    obtain ⟨j, hj⟩ := hx.2
    refine ⟨j, ?_⟩
    change ((s.proc.slot.requestStop i).call j).stage = _ ∨
      ((s.proc.slot.requestStop i).call j).stage = _
    rw [hstage j]
    exact hj
  · have ha' : active ((s.proc.slot.requestStop i).call i).stage = true := ha
    rw [hstage i] at ha'
    exact ha'
  · intro _ he
    simp [Life.follow, Life.note] at he

theorem kept_stopCallback (h : Kept s) (hg : Orderly s (.stopCallback i))
    (hs : step s (.stopCallback i) = some t) : Kept t := by
  obtain ⟨q, hq, rfl⟩ := Option.map_eq_some_iff.mp hs
  have htook := step_took hq
  have hslot := inv_step h.slot htook
  have hgood : Punctual s.proc (.stopCallback i) := hg
  have hfresh := fresh_step h.slot h.fresh hgood htook
  obtain ⟨⟨hreg, hst⟩, hq⟩ := Option.ite_none_right_eq_some.mp hq
  cases hq
  have hlistens := (h.slot.valid.call i).registered hreg
  have hcall : (s.proc.slot.callback i).call i = { s.call i with registered := false } := by
    simp [Slot.callback, Life.call]
  have hqueued : i ∈ (s.proc.slot.callback i).cancels := by simp [Slot.callback, Slot.cancels]
  have hstage : ∀ j, ((s.proc.slot.callback i).call j).stage = (s.call j).stage := by
    intro j
    by_cases he : j = i
    · rw [he, hcall]
    · rw [(Slot.same_callback he).call]
      rfl
  have hres : ∀ j, (s.follow { s.proc with slot := s.proc.slot.callback i }).resumes j =
      s.resumes j := fun j => if_neg fun hn => hn.2 ((hstage j).symm.trans hn.1)
  refine h.of_call (i := i) ⟨rfl, rfl, rfl, rfl, rfl, rfl, ?_⟩ hslot hfresh
    ((h.calls i).callback hcall rfl (hres i) rfl hqueued ⟨rfl, rfl, rfl, rfl⟩ fun _ => ?_)
    (fun j hj => ?_) ?_ fun ha _ => ⟨?_, id⟩
  · exact List.count_append.trans (by simp [Life.slot])
  · have hst' : ((s.proc.slot.callback i).call i).stopped = (s.call i).stopped := by rw [hcall]
    exact awaitResume_fst hst' rfl rfl rfl rfl
  · have hsame := Slot.same_callback (s := s.proc.slot) hj
    exact ⟨hsame.call, rfl, hres j, rfl, fun _ hc => hsame.queued.mpr hc, fun _ hc => hc,
      fun _ => ⟨rfl, rfl⟩,
      fun _ => awaitResume_fst (congrArg Call.stopped hsame.call) rfl rfl rfl rfl⟩
  · refine h.status.imp_right fun hx => ⟨hx.1, ?_⟩
    obtain ⟨j, hj⟩ := hx.2
    refine ⟨j, ?_⟩
    change ((s.proc.slot.callback i).call j).stage = _ ∨ ((s.proc.slot.callback i).call j).stage = _
    rw [hstage j]
    exact hj
  · have ha' : active ((s.proc.slot.callback i).call i).stage = true := ha
    rw [hstage i] at ha'
    exact ha'

/-! ## Whoever waits goes on -/

theorem SameCall.of_inactive (hcall : t.call j = s.call j) (hfirst : t.first j = s.first j)
    (hresumes : t.resumes j = s.resumes j) (houtcome : t.proc.outcome j = s.proc.outcome j)
    (ha : active (s.call j).stage = false) (hr : (s.call j).stage ≠ .resumed) : SameCall s t j where
  call := hcall
  first := hfirst
  resumes := hresumes
  outcome := houtcome
  queued hw := by
    cases hs : (s.call j).stage <;> rw [hs] at ha hw <;> cases ha <;> cases hw
  closing hact := by
    rw [ha] at hact
    cases hact
  running hact := by
    rw [ha] at hact
    cases hact
  awaitResume h := absurd h hr

/-- The call that was waiting has an answer. -/
theorem CallInv.wake (h : CallInv s i) (hp : (s.call i).stage = .parked)
    (hb : t.call i = { s.call i with stage := .resumed }) (hr : t.resumes i = s.resumes i + 1)
    (hst : t.first i = some .stop → (s.call i).stopped = true)
    (hc : ∃ c, t.first i = some c ∧ (t.proc.awaitResume i).1 = c.answer) : CallInv t i := by
  have hres : (t.call i).stage = .resumed := by rw [hb]
  have hzero := h.before (by rw [hp]; simp) (by rw [hp]; simp)
  have hno : ∀ {p : Prop}, active (t.call i).stage = true → p := by
    intro p hact
    rw [hres] at hact
    cases hact
  refine ⟨fun hn => absurd hres hn, fun hi => ?_, hno, fun _ hn => ?_, ?_, hno, hno, fun hw => ?_,
    fun hi => ?_, fun hcom => hno (committed_active hcom), fun _ => ⟨by rw [hr, hzero], hc⟩,
    fun hi => ?_⟩
  · rw [hres] at hi
    cases hi
  · obtain ⟨c, hfirst, _⟩ := hc
    rw [hn] at hfirst
    cases hfirst
  · rw [hb]
    exact hst
  · rw [hres] at hw
    cases hw
  · rw [hres] at hi
    cases hi
  · rw [hres] at hi
    cases hi

/-- A step that takes whoever waits out of the slot, while no call runs. -/
structure Wakes (s t : Life) : Prop where
  idle : s.slot.running = none
  call : ∀ j, t.call j =
    if s.slot.waiter = some j then { s.call j with stage := .resumed } else s.call j
  resumes : ∀ j, t.resumes j = if s.slot.waiter = some j then s.resumes j + 1 else s.resumes j
  first : ∀ j, s.slot.waiter ≠ some j → t.first j = s.first j
  outcome : t.proc.outcome = s.proc.outcome
  answer : ∀ i, s.slot.waiter = some i → (t.first i = some .stop → (s.call i).stopped = true) ∧
    ∃ c, t.first i = some c ∧ (t.proc.awaitResume i).1 = c.answer
  status : t.proc.waitStatus = 0 ∨ t.proc.waitStatus < 0 ∧ ∃ i, s.slot.waiter = some i

theorem Kept.inactive (h : Kept s) (hr : s.slot.running = none) (hw : s.slot.waiter ≠ some j) :
    active (s.call j).stage = false ∧ (s.call j).stage ≠ .resumed := by
  constructor
  · cases ha : active (s.call j).stage with
    | false => rfl
    | true => exact absurd (h.active_waits hr ha) hw
  · intro hs
    have hrun := (h.slot.valid.call j).running.mpr (by
      change (s.call j).stage.runs = true
      rw [hs]
      rfl)
    rw [hr] at hrun
    cases hrun

theorem Kept.woken (h : Kept s) (hw : Wakes s t) (hslot : Inv t.slot) (hfresh : t.slot.Fresh)
    (hqueue : t.slot.posted.count none = t.closing.length)
    (hhandle : t.proc.handle = true → t.running = true ∨ t.proc.exited = true)
    (htaken : ∀ c ∈ t.closing, c.state = t.generation → t.proc.handle = false ∧
      ∀ x, t.child = some x → x.closed = true)
    (hold : ∀ c ∈ t.closing, c.state ≤ t.generation) : Kept t where
  slot := hslot
  fresh := hfresh
  calls j := by
    by_cases hj : s.slot.waiter = some j
    · have hp : (s.call j).stage = .parked := (h.slot.valid.call j).waiter.mp hj
      obtain ⟨hst, hc⟩ := hw.answer j hj
      exact (h.calls j).wake hp ((hw.call j).trans (if_pos hj))
        ((hw.resumes j).trans (if_pos hj)) hst hc
    · obtain ⟨ha, hr⟩ := h.inactive hw.idle hj
      exact (h.calls j).frame (.of_inactive ((hw.call j).trans (if_neg hj)) (hw.first j hj)
        ((hw.resumes j).trans (if_neg hj)) (congrFun hw.outcome j) ha hr)
  queue := hqueue
  status := by
    refine hw.status.imp_right fun hx => ⟨hx.1, ?_⟩
    obtain ⟨i, hi⟩ := hx.2
    refine ⟨i, .inr ?_⟩
    rw [hw.call, if_pos hi]
  handle := hhandle
  taken c hm hc := by
    obtain ⟨hh, hchild⟩ := htaken c hm hc
    refine ⟨hh, fun j ha => ?_, hchild⟩
    rw [hw.call] at ha
    by_cases hj : s.slot.waiter = some j
    · rw [if_pos hj] at ha
      cases ha
    · rw [if_neg hj, (h.inactive hw.idle hj).1] at ha
      cases ha
  old := hold

theorem wake_call {a : Slot CallId} (j : CallId) : a.wake.call j =
    if a.waiter = some j then { a.call j with stage := .resumed } else a.call j := by
  by_cases hj : a.waiter = some j
  · rw [if_pos hj]
    exact Slot.wake_call_self hj
  · rw [if_neg hj]
    exact Slot.wake_call_of_ne hj

/-- `follow` counts the call that is taken out of the slot. -/
theorem Kept.wake_resumes (h : Kept s) (hr : s.slot.running = none) {q : State}
    (hq : ∀ j, q.slot.call j =
      if s.slot.waiter = some j then { s.call j with stage := .resumed } else s.call j)
    {u : Life} (hu : u.resumes = s.resumes) (hc : u.call = s.call) (j : CallId) :
    (u.follow q).resumes j = if s.slot.waiter = some j then s.resumes j + 1 else s.resumes j := by
  by_cases hj : s.slot.waiter = some j
  · have hp : (s.call j).stage = .parked := (h.slot.valid.call j).waiter.mp hj
    rw [if_pos hj, follow_woken, hu]
    · rw [State.call, hq, if_pos hj]
    · rw [hc, hp]
      simp
  · rw [if_neg hj, follow_resumes, hu]
    refine .inl ?_
    rw [State.call, hq, if_neg hj]
    exact (h.inactive hr hj).2

theorem wake_posted {a : Slot CallId} : a.wake.posted = a.posted := by
  unfold Slot.wake
  split
  · rfl
  · rfl

/-- What is cancelled has come first: the token of the call or a `close`. -/
theorem CallInv.cancels (h : CallInv s i) (ha : active (s.call i).stage = true)
    (hn : s.first i ≠ none) : ∃ c, s.first i = some c ∧ .error .operationCancelled = c.answer := by
  cases hf : s.first i with
  | none => exact absurd hf hn
  | some c =>
    refine ⟨c, rfl, ?_⟩
    cases c with
    | exit status => exact absurd hf (h.causes ha status)
    | stop => rfl
    | close => rfl

theorem kept_cancel (h : Kept s) (hr : s.slot.running = none) {rest : List (Option CallId)}
    (hp : s.slot.posted = some i :: rest) (hit : Bool) :
    Kept (s.follow (({ s.proc with slot := s.proc.slot.pop } : State).cancel i hit)) := by
  obtain ⟨hw, hparked⟩ := h.fresh.waiter h.slot.valid hr hp
  have hstage : (s.call i).stage = .parked := hparked
  have hq : ({ s.proc with slot := s.proc.slot.pop } : State).cancel i hit =
      { s.proc with waitStatus := UV_ECANCELED, slot := s.proc.slot.pop.wake } := by
    unfold State.cancel
    have hne : ¬ (s.proc.slot.pop.call i).stage = .ended := by
      change ¬ (s.call i).stage = .ended
      rw [hstage]
      simp
    have hw' : s.proc.slot.pop.waiter = some i := hw
    dsimp only
    rw [State.call, if_neg hne, hw']
    simp
  rw [hq]
  have hci := h.calls i
  have hact : active (s.call i).stage = true := by rw [hstage]; rfl
  have hqueued : i ∈ s.slot.cancels := by simp [Slot.cancels, hp]
  have hst := ((h.slot.valid.call i).queued hqueued).2.1
  have hcall : ∀ j, s.proc.slot.pop.wake.call j =
      if s.slot.waiter = some j then { s.call j with stage := .resumed } else s.call j :=
    fun j => wake_call j
  have htook : Took s.proc (.drain hit) s.proc.slot.pop.wake := .cancelled hr hp
  have hneg : UV_ECANCELED < 0 := by decide
  refine h.woken ⟨hr, hcall, h.wake_resumes hr hcall rfl rfl, fun _ _ => rfl, rfl, fun j hj => ?_,
    .inr ⟨hneg, i, hw⟩⟩ (inv_step h.slot htook) (h.fresh.cancel h.slot.valid hr hp) ?_ h.handle
    (fun c hm hc => ?_) h.old
  · have hij : i = j := Option.some.inj (hw.symm.trans hj)
    subst hij
    obtain ⟨c, hf, hc⟩ := hci.cancels hact (hci.noted hst)
    exact ⟨fun _ => hst, c, hf, (awaitResume_cancelled (.inl rfl)).trans hc⟩
  · have hlen := h.queue
    have hpop : s.proc.slot.pop.posted = rest := congrArg List.tail hp
    rw [hp] at hlen
    change s.proc.slot.pop.wake.posted.count none = s.closing.length
    rw [wake_posted, hpop]
    simpa using hlen
  · obtain ⟨hh, _, hchild⟩ := h.taken c hm hc
    exact ⟨hh, hchild⟩

/-- The closure of a `close` has another `process::state`. -/
theorem kept_closed_other (h : Kept s) (hr : s.slot.running = none) {rest : List (Option CallId)}
    (hp : s.slot.posted = none :: rest) {c : Closing} {cs : List Closing}
    (hcs : s.closing = c :: cs)
    (hc : c.state ≠ s.generation) : Kept { s.follow (s.closed c) with closing := cs } := by
  have hq : s.closed c = { s.proc with
      gone := s.proc.gone || c.child = s.spawned, slot := s.proc.slot.pop } := by
    unfold Life.closed
    dsimp only
    rw [if_neg hc]
  rw [hq]
  have hsub : ∀ {d}, d ∈ cs → d ∈ s.closing := fun hd => hcs ▸ List.mem_cons_of_mem c hd
  have hno : ∀ j, (s.call j).stage ≠ .resumed := by
    intro j hj
    have hrun := (h.slot.valid.call j).running.mpr (by
      change (s.call j).stage.runs = true
      rw [hj]
      rfl)
    rw [hr] at hrun
    cases hrun
  have htook : Took s.proc (.drain false) s.proc.slot.pop := .drained hr
  refine ⟨inv_step h.slot htook, h.fresh.pop, fun j => (h.calls j).frame ?_, ?_, h.status, h.handle,
    fun d hd hdc => h.taken d (hsub hd) hdc, fun d hd => h.old d (hsub hd)⟩
  · refine ⟨rfl, rfl, follow_resumes (.inl (hno j)), rfl, fun _ hm => ?_, fun _ hcur => ?_,
      fun _ => ⟨rfl, rfl⟩, fun hj => absurd hj (hno j)⟩
    · change j ∈ s.slot.posted.tail.filterMap id
      have hm' : j ∈ s.slot.posted.filterMap id := hm
      rw [hp] at hm' ⊢
      simpa using hm'
    · obtain ⟨d, hd, hdc⟩ := hcur
      rw [hcs, List.mem_cons] at hd
      obtain rfl | hd := hd
      · exact absurd hdc hc
      · exact ⟨d, hd, hdc⟩
  · have hlen := h.queue
    rw [hp, hcs] at hlen
    have hpop : s.proc.slot.pop.posted = rest := congrArg List.tail hp
    change s.proc.slot.pop.posted.count none = cs.length
    rw [hpop]
    simpa using hlen

/-- The closure of a `close` of this `process::state` cancels whoever waits. -/
theorem kept_closed_same (h : Kept s) {hit : Bool} (hg : Orderly s (.drain hit))
    (hr : s.slot.running = none) {rest : List (Option CallId)}
    (hp : s.slot.posted = none :: rest) {c : Closing} {cs : List Closing}
    (hcs : s.closing = c :: cs)
    (hc : c.state = s.generation) : Kept { s.follow (s.closed c) with closing := cs } := by
  have hq : s.closed c = { s.proc with
      gone := s.proc.gone || c.child = s.spawned
      waitStatus := if s.slot.waiter.isSome then UV_ECANCELED else s.proc.waitStatus
      slot := s.proc.slot.pop.wake } := by
    unfold Life.closed State.closed
    dsimp only
    rw [if_pos hc]
    cases hw : s.slot.waiter with
    | none =>
      have hw' : s.proc.slot.pop.waiter = none := hw
      rw [hw', if_neg (by simp), if_neg (by simp)]
      unfold Slot.wake
      rw [hw']
    | some i =>
      have hw' : s.proc.slot.pop.waiter = some i := hw
      rw [hw']
      rfl
  rw [hq]
  have hmem : c ∈ s.closing := hcs ▸ List.mem_cons_self
  have hsub : ∀ {d}, d ∈ cs → d ∈ s.closing := fun hd => hcs ▸ List.mem_cons_of_mem c hd
  obtain ⟨hh, hfirst, hchild⟩ := h.taken c hmem hc
  have hcall : ∀ j, s.proc.slot.pop.wake.call j =
      if s.slot.waiter = some j then { s.call j with stage := .resumed } else s.call j :=
    fun j => wake_call j
  have htook : Took s.proc (.drain hit) s.proc.slot.pop.wake := .closed hr hp
  have hgood : Punctual s.proc (.drain hit) := hg
  refine h.woken ⟨hr, hcall, h.wake_resumes hr hcall rfl rfl, fun _ _ => rfl, rfl,
    fun i hi => ?_, ?_⟩
    (inv_step h.slot htook) (fresh_step h.slot h.fresh hgood htook) ?_ h.handle
    (fun d _ _ => ⟨hh, hchild⟩) (fun d hd => h.old d (hsub hd))
  · have hci := h.calls i
    have hparked : (s.call i).stage = .parked := (h.slot.valid.call i).waiter.mp hi
    have hact : active (s.call i).stage = true := by rw [hparked]; rfl
    obtain ⟨d, hf, hd⟩ := hci.cancels hact (hfirst i hact)
    exact ⟨hci.stopped, d, hf, (awaitResume_cancelled (.inl (if_pos (by rw [hi]; rfl)))).trans hd⟩
  · cases hw : s.slot.waiter with
    | none => exact .inl (h.clear hr)
    | some i =>
      have hneg : UV_ECANCELED < 0 := by decide
      exact .inr ⟨hneg, i, rfl⟩
  · have hlen := h.queue
    rw [hp, hcs] at hlen
    have hpop : s.proc.slot.pop.posted = rest := congrArg List.tail hp
    change s.proc.slot.pop.wake.posted.count none = cs.length
    rw [wake_posted, hpop]
    simpa using hlen

theorem kept_drain (h : Kept s) {hit : Bool} (hg : Orderly s (.drain hit))
    (hs : step s (.drain hit) = some t) : Kept t := by
  obtain ⟨hr, hs⟩ := Option.ite_none_right_eq_some.mp hs
  unfold Life.drain at hs
  split at hs
  · rename_i i rest hp
    unfold State.drain at hs
    rw [hp] at hs
    cases hs
    exact kept_cancel h hr hp hit
  · rename_i rest hp
    split at hs
    · rename_i c cs hcs
      cases hs
      by_cases hc : c.state = s.generation
      · exact kept_closed_same h hg hr hp hcs hc
      · exact kept_closed_other h hr hp hcs hc
    · cases hs
  · cases hs

theorem kept_exit (h : Kept s) {e x : Int} (hg : Orderly s (.exit e x))
    (hs : step s (.exit e x) = some t) : Kept t := by
  obtain ⟨⟨hr, hlive⟩, hs⟩ := Option.ite_none_right_eq_some.mp hs
  cases hs
  obtain ⟨hopen, hqueued⟩ := hg
  have hcall : ∀ j, s.proc.slot.wake.call j =
      if s.slot.waiter = some j then { s.call j with stage := .resumed } else s.call j :=
    fun j => wake_call j
  have htook : Took s.proc (.exit e x) s.proc.slot.wake := .exited hr
  have hgood : Punctual s.proc (.exit e x) := hqueued
  have hnone : ∀ c ∈ s.closing, c.state ≠ s.generation := by
    intro c hm hc
    unfold Life.live at hlive
    cases hchild : s.child with
    | none =>
      rw [hchild] at hlive
      cases hlive
    | some d =>
      have hclosed := (h.taken c hm hc).2.2 d hchild
      rw [hopen d hchild] at hclosed
      cases hclosed
  refine h.woken ⟨hr, hcall, h.wake_resumes hr hcall rfl rfl, fun j hj => ?_, rfl, fun i hi => ?_,
    .inl (h.clear hr)⟩ (inv_step h.slot htook) (fresh_step h.slot h.fresh hgood htook) ?_
    (fun _ => .inr rfl) (fun c hm hc => absurd hc (hnone c hm)) h.old
  · exact if_neg (by simpa using hj)
  · have hci := h.calls i
    have hparked : (s.call i).stage = .parked := (h.slot.valid.call i).waiter.mp hi
    have hact : active (s.call i).stage = true := by rw [hparked]; rfl
    have hfirst : (s.exitCb e x).first i = (s.first i).or (some (.exit ⟨e, x⟩)) :=
      if_pos (decide_eq_true hi)
    have hkeep : ∀ c, s.first i = some c → (s.exitCb e x).first i = some c := by
      intro c hc
      rw [hfirst, hc]
      rfl
    have hst' : ((s.exitCb e x).proc.call i).stopped = (s.call i).stopped := by
      change (s.proc.slot.wake.call i).stopped = _
      rw [hcall, if_pos hi]
    refine ⟨fun hstop => ?_, ?_⟩
    · cases hf : s.first i with
      | none =>
        rw [hfirst, hf] at hstop
        cases hstop
      | some c =>
        rw [hkeep c hf] at hstop
        rw [← hf] at hstop
        exact hci.stopped hstop
    · cases hst : (s.call i).stopped with
      | true =>
        obtain ⟨c, hf, hc⟩ := hci.cancels hact (hci.noted hst)
        exact ⟨c, hkeep c hf, (awaitResume_cancelled (.inr (hst'.trans hst))).trans hc⟩
      | false =>
        have hf : s.first i = none := by
          cases hf : s.first i with
          | none => rfl
          | some c =>
            cases c with
            | exit status => exact absurd hf (hci.causes hact status)
            | stop =>
              have := hci.stopped hf
              rw [hst] at this
              cases this
            | close =>
              obtain ⟨c, hm, hc⟩ := hci.closing hact hf
              exact absurd hc (hnone c hm)
        refine ⟨.exit ⟨e, x⟩, by rw [hfirst, hf]; rfl, ?_⟩
        have hw : (s.exitCb e x).proc.waitStatus = 0 := h.clear hr
        have hcan : ¬ (0 = UV_ECANCELED ∨ ((s.exitCb e x).proc.call i).stopped = true) := by
          rw [hst', hst]
          decide
        unfold State.awaitResume
        rw [hw, if_neg hcan]
        rfl
  · change s.proc.slot.wake.posted.count none = s.closing.length
    rw [wake_posted]
    exact h.queue

/-! ## `close` and `spawn` -/

theorem CallInv.close (h : CallInv s i) (hb : t.call i = s.call i)
    (hf : t.first i = if active (s.call i).stage then (s.first i).or (some .close) else s.first i)
    (hr : t.resumes i = s.resumes i) (ho : t.proc.outcome i = s.proc.outcome i)
    (hq : t.slot.cancels = s.slot.cancels) (hcl : ∃ c ∈ t.closing, c.state = t.generation)
    (hsame : t.running = s.running ∧ t.proc.exited = s.proc.exited)
    (haw : (t.proc.awaitResume i).1 = (s.proc.awaitResume i).1) : CallInv t i := by
  obtain ⟨hrun, hex⟩ := hsame
  have hfirst : ∀ c, t.first i = some c →
      s.first i = some c ∨ c = .close ∧ active (s.call i).stage = true := by
    intro c hc
    rw [hf] at hc
    split at hc
    · rename_i ha
      cases hs : s.first i with
      | none =>
        rw [hs] at hc
        exact .inr ⟨(Option.some.inj hc).symm, ha⟩
      | some d =>
        rw [hs] at hc
        exact .inl hc
    · exact .inl hc
  have hquiet : active (s.call i).stage = false → t.first i = s.first i := by
    intro ha
    rw [hf, ha, if_neg (by simp)]
  refine ⟨?_, ?_, ?_, ?_, ?_, fun _ _ => hcl, ?_, ?_, ?_, ?_, ?_, ?_⟩
  · rw [hb, hr]
    exact h.before
  · rw [hb]
    intro hi
    rw [hquiet (by rw [hi]; rfl)]
    exact h.idle hi
  · rw [hb]
    intro ha status he
    rcases hfirst _ he with he | ⟨he, _⟩
    · exact h.causes ha status he
    · cases he
  · rw [hb]
    intro hst he
    refine h.noted hst ?_
    rw [hf] at he
    split at he
    · cases hs : s.first i with
      | none => rfl
      | some c =>
        rw [hs] at he
        cases he
    · exact he
  · rw [hb]
    intro he
    rcases hfirst _ he with he | ⟨he, _⟩
    · exact h.stopped he
    · cases he
  · rw [hb]
    exact h.possible
  · rw [hb, hq]
    exact h.listens
  · rw [hb, hrun, hex]
    exact h.ready
  · rw [hb, hrun, hex]
    exact h.committed
  · rw [hb, hr, haw]
    intro hres
    rw [hquiet (by rw [hres]; rfl)]
    exact h.resumed hres
  · rw [hb, hr, ho]
    intro hend
    rw [hquiet (by rw [hend]; rfl)]
    exact h.ended hend

theorem close_idle (s : Life) : s.close.slot.running = s.slot.running := by
  unfold Life.close
  split
  · change s.proc.close.slot.running = _
    unfold State.close
    split
    · rfl
    · rfl
  · rfl

theorem kept_close (h : Kept s) : Kept s.close := by
  unfold Life.close
  split
  · rename_i hh
    have hq : s.proc.close = { s.proc with handle := false, slot := s.proc.slot.post } := by
      unfold State.close
      rw [hh]
      rfl
    rw [hq]
    have htook : Took s.proc .close s.proc.slot.post := .posted
    have hgood : Punctual s.proc .close := trivial
    have hnew : ∃ c ∈ s.closing ++ [{ state := s.generation, child := s.spawned : Closing }],
        c.state = s.generation :=
      ⟨_, List.mem_append_right _ (List.mem_singleton_self _), rfl⟩
    refine ⟨inv_step h.slot htook, fresh_step h.slot h.fresh hgood htook, fun j => ?_, ?_, h.status,
      fun hf => ?_, fun c _ _ => ⟨rfl, fun j ha he => ?_, fun x hx => ?_⟩, fun c hm => ?_⟩
    · exact (h.calls j).close rfl rfl rfl rfl Slot.cancels_post hnew ⟨rfl, rfl⟩
        (awaitResume_fst rfl rfl rfl rfl rfl)
    · change (s.slot.posted ++ [none]).count none = (s.closing ++ [_]).length
      rw [List.count_append, h.queue, List.length_append]
      rfl
    · cases hf
    · have he' : (if active (s.call j).stage then (s.first j).or (some .close)
          else s.first j) = none := he
      have ha' : active (s.call j).stage = true := ha
      rw [if_pos ha'] at he'
      cases hs : s.first j <;> rw [hs] at he' <;> cases he'
    · obtain ⟨d, _, rfl⟩ := Option.map_eq_some_iff.mp hx
      rfl
    · rw [List.mem_append, List.mem_singleton] at hm
      obtain hm | rfl := hm
      · exact h.old c hm
      · exact Nat.le_refl _
  · exact h

/-- While no call runs and no child does, nobody waits. -/
theorem Kept.nobody (h : Kept s) (hrun : s.running = false) (j : CallId) :
    s.slot.waiter ≠ some j := by
  intro hw
  have hp : (s.call j).stage = .parked := (h.slot.valid.call j).waiter.mp hw
  have hcom := (h.calls j).committed (by rw [hp]; rfl)
  rw [hrun] at hcom
  cases hcom.1

theorem kept_renew (h : Kept s) (hr : s.slot.running = none) (hrun : s.running = false) :
    Kept s.renew := by
  have hslot : ({ s.proc.slot with waiter := none } : Slot CallId) = s.slot := by
    have hw : s.slot.waiter = none := by
      cases hw : s.slot.waiter with
      | none => rfl
      | some j => exact absurd hw (h.nobody hrun j)
    rw [← hw]
    rfl
  have hnew : ∀ c ∈ s.closing, c.state ≠ s.generation + 1 := by
    intro c hm hc
    have := h.old c hm
    omega
  unfold Life.renew
  rw [hslot]
  refine ⟨h.slot, h.fresh, fun j => (h.calls j).frame ?_, h.queue, .inl rfl, fun hf => ?_,
    fun c hm hc => absurd hc (hnew c hm), fun c hm => Nat.le_succ_of_le (h.old c hm)⟩
  · obtain ⟨ha, hres⟩ := h.inactive hr (h.nobody hrun j)
    exact .of_inactive rfl rfl rfl rfl ha hres
  · cases hf

theorem kept_spawnClosure (h : Kept s) (hr : s.slot.running = none) (hrun : s.running = false)
    {rc : Int} (hno : ¬ rc < 0 → ∀ c ∈ s.closing, c.state ≠ s.generation) :
    Kept (s.spawnClosure rc).2 := by
  have hcalls : ∀ {t : Life}, t.slot = s.slot → t.first = s.first → t.resumes = s.resumes →
      t.proc.outcome = s.proc.outcome → ∀ j, CallInv t j := by
    intro t hslot hfirst hres hout j
    obtain ⟨ha, hnr⟩ := h.inactive hr (h.nobody hrun j)
    refine (h.calls j).frame (.of_inactive ?_ (congrFun hfirst j) (congrFun hres j)
      (congrFun hout j) ha hnr)
    exact congrFun (congrArg Slot.call hslot) j
  have hquiet : ∀ j, active (s.call j).stage = true → s.first j ≠ none := by
    intro j ha
    rw [(h.inactive hr (h.nobody hrun j)).1] at ha
    cases ha
  unfold Life.spawnClosure
  dsimp only
  split
  · refine ⟨h.slot, h.fresh, hcalls rfl rfl rfl rfl, h.queue, .inl rfl, fun hf => ?_,
      fun c hm hc => ⟨rfl, hquiet, (h.taken c hm hc).2.2⟩, h.old⟩
    cases hf
  · rename_i hrc
    exact ⟨h.slot, h.fresh, hcalls rfl rfl rfl rfl, h.queue, .inl rfl, fun _ => .inl rfl,
      fun c hm hc => absurd hc (hno hrc c hm), h.old⟩

theorem kept_spawn (h : Kept s) {o : Spawn} (hg : Orderly s (.spawn o))
    (hr : s.slot.running = none) : Kept (s.spawn o).2 := by
  obtain hs | ⟨hrun, u, hu, hs⟩ := spawn_cases s o
  · rw [hs]
    exact h
  -- either a new state, which no closure holds, or the one that `hg` is about
  have hku : Kept u ∧ u.slot.running = none ∧ u.running = false ∧
      (o.Reaches → ¬ o.rc < 0 → ∀ c ∈ u.closing, c.state ≠ u.generation) := by
    rw [hu]
    split
    · have hclose := kept_close h
      have hidle := (close_idle s).trans hr
      refine ⟨kept_renew hclose hidle ((close_running s).trans hrun), hidle, rfl,
        fun _ _ c hm hc => ?_⟩
      have hold : c.state ≤ s.close.generation := hclose.old c hm
      have hc' : c.state = s.close.generation + 1 := hc
      omega
    · exact ⟨h, hr, hrun, fun hreach hrc => hg hreach hrc hrun⟩
  obtain ⟨hk, hidle, hrun', hno⟩ := hku
  obtain hs | ⟨hreach, hs⟩ := hs
  · rw [hs]
    exact hk
  · rw [hs]
    exact kept_spawnClosure hk hidle hrun' (hno hreach)

/-! ## Every orderly run -/

theorem step_kept (h : Kept s) (hg : Orderly s l) (hs : step s l = some t) : Kept t := by
  cases l with
  | spawn o =>
    obtain ⟨hr, hs⟩ := Option.ite_none_right_eq_some.mp hs
    cases hs
    exact kept_spawn h hg hr
  | kill rc =>
    cases hs
    unfold Life.kill
    split
    · exact h
    · split
      · exact h
      · exact h
  | close =>
    cases hs
    exact kept_close h
  | exit e x => exact kept_exit h hg hs
  | wait i p => exact kept_wait h hs
  | run i => exact kept_run h hs
  | requestStop i => exact kept_requestStop h hg hs
  | stopCallback i => exact kept_stopCallback h hg hs
  | drain hit => exact kept_drain h hg hs

theorem kept (h : ReachableBy system Orderly s) : Kept s := by
  refine h.invariant ?_ fun s l t _ hI hg hs => step_kept hI hg hs
  intro s h0
  cases h0
  refine ⟨⟨Slot.Valid.init, fun i hi => ?_⟩, fun i hi => ?_, fun i => ?_, rfl, .inl rfl,
    fun hf => ?_,
    fun c hm => ?_, fun c hm => ?_⟩
  · rcases hi with hi | hi <;> cases hi
  · cases hi
  · constructor <;> simp [Life.call, active, committed, Stage.waits]
  · cases hf
  · cases hm
  · cases hm

/-- What `running` says where a child is closed only when it does not run any more, and
what the waits are answered with in every orderly run. -/
theorem process_life_cycle (s : Life) :
    (ReachableBy system QuietClose s → Runs s ∧ (Runs s.close ↔ s.running = false)) ∧
      (ReachableBy system Orderly s → Answered s) := by
  constructor
  · intro h
    have hruns := runs_of_quiet h
    exact ⟨hruns, close_runs_iff hruns⟩
  · exact fun h => (kept h).answered

/-- A child that is waited for until it exits. -/
theorem process_life_cycle_exit : ∃ s : Life, Runs s ∧ Answered s ∧
    s.proc.outcome 0 = some (.ok ⟨7, 0⟩) := by
  have hinit : system.init {} := rfl
  have hstart : ReachableBy system QuietClose {} := .init hinit
  have hquiet := hstart.run
    (show ∀ u, ∀ l ∈ [Label.spawn {}, .wait 0 false, .run 0, .run 0, .run 0, .run 0, .exit 7 0,
        .run 0],
      QuietClose u l by
        intro u l hl
        simp only [List.mem_cons, List.not_mem_nil, or_false] at hl
        rcases hl with rfl | rfl | rfl | rfl | rfl | rfl | rfl | rfl <;> trivial) rfl
  have h₀ : ReachableBy system Orderly {} := .init hinit
  have h₁ := h₀.step (l := .spawn {}) (by exact fun _ _ _ c hm => absurd hm List.not_mem_nil) rfl
  have h₂ := h₁.step (l := .wait 0 false) (by exact trivial) rfl
  have h₃ := h₂.step (l := .run 0) (by exact trivial) rfl
  have h₄ := h₃.step (l := .run 0) (by exact trivial) rfl
  have h₅ := h₄.step (l := .run 0) (by exact trivial) rfl
  have h₆ := h₅.step (l := .run 0) (by exact trivial) rfl
  have hopen : ∀ c, some ({} : Child) = some c → c.closed = false := by
    intro c hc
    cases hc
    rfl
  have h₇ := h₆.step (l := .exit 7 0) (by exact ⟨hopen, fun i _ => List.not_mem_nil⟩) rfl
  have h₈ := h₇.step (l := .run 0) (by exact trivial) rfl
  exact ⟨_, ((process_life_cycle _).1 hquiet).1, (process_life_cycle _).2 h₈, rfl⟩

/-- A child that is closed while it runs stays `running` without a handle, and no other
can be spawned; and the closure of a `close` cancels a wait for the child that was
spawned after it. -/
theorem close_leaves_running :
    (∃ s : Life, Reachable system s ∧ s.child = some { closed := true } ∧ s.running = true ∧
      s.proc.handle = false ∧ (s.spawn {}).1 = .error Life.alreadyRunning) ∧
    ∃ s : Life, Reachable system s ∧ s.resumes 0 = 1 ∧ s.first 0 = none ∧
      s.proc.outcome 0 = some (.error .operationCancelled) := by
  have h0 : Reachable system {} := .init rfl
  refine ⟨⟨_, h0.run (show run system {} [.spawn {}, .close] = some _ from rfl), rfl, rfl, rfl,
      rfl⟩,
    _, h0.run (show run system {} [.spawn {}, .exit 0 0, .close, .spawn {}, .wait 0 false,
      .run 0, .run 0, .run 0, .run 0, .drain false, .run 0] = some _ from rfl), rfl, rfl, rfl⟩

end LuvCoro.Process.Lifecycle
