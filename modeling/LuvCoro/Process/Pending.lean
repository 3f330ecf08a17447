import LuvCoro.Process.Lifecycle

/-! # Waits that are pending

What holds of each call of `wait` in orderly runs, in which a closure of the queue still
finds the call and the child that it was posted for; and the calls as they run. -/
namespace LuvCoro.Process.Lifecycle

open Transition WaiterSlot

/-- A pending wait is resumed once, with what came first; when no closure is left and
its stop callback need not run, nothing has come to it. -/
structure Answered (s : Life) : Prop where
  once : ∀ i, s.resumes i ≤ 1
  answer : ∀ i, s.resumes i = 1 → (s.call i).stage = .ended →
    ∃ c, s.first i = some c ∧ s.proc.outcome i = some c.answer
  pending : ∀ i, (s.call i).stage = .parked → s.resumes i = 0
  owed : s.slot.posted = [] → ∀ i, (s.call i).stage = .parked →
    ¬ ((s.call i).registered = true ∧ (s.call i).stopped = true) → s.first i = none

/-- No child is started in a `process::state` that a closure of `close` still holds, no
exit comes between a `close` and its closure, neither of them resumes a call whose own
closure is in the queue, and the token of a call that an exit has resumed is not stopped
before the call has looked. -/
def Orderly (s : Life) : Label → Prop
  | .spawn o => o.Reaches → ¬ o.rc < 0 → s.running = false →
      ∀ c ∈ s.closing, c.state ≠ s.generation
  | .exit _ _ => (∀ c, s.child = some c → c.closed = false) ∧
      ∀ i, s.slot.waiter = some i → i ∉ s.slot.cancels
  | .drain _ => ∀ rest, s.slot.posted = none :: rest →
      ∀ i, s.slot.waiter = some i → i ∉ s.slot.cancels
  | .stopCallback i => (s.call i).stage ≠ .resumed
  | .requestStop i => (s.call i).stage = .resumed → (s.call i).stopped = false →
      s.proc.waitStatus = UV_ECANCELED
  | _ => True

/-! ## The invariant -/

/-- The call has not found that the child is gone, and is going to wait or waits. -/
def committed : Stage → Bool
  | .suspend | .register | .park | .parked => true
  | _ => false

structure CallInv (s : Life) (i : CallId) : Prop where
  before : (s.call i).stage ≠ .resumed → (s.call i).stage ≠ .ended → s.resumes i = 0
  idle : (s.call i).stage = .idle → s.first i = none ∨ s.first i = some .stop
  causes : active (s.call i).stage = true → ∀ status, s.first i ≠ some (.exit status)
  noted : (s.call i).stopped = true → s.first i ≠ none
  stopped : s.first i = some .stop → (s.call i).stopped = true
  closing : active (s.call i).stage = true → s.first i = some .close →
    ∃ c ∈ s.closing, c.state = s.generation
  possible : active (s.call i).stage = true → (s.call i).stopped = true → (s.call i).possible = true
  listens : (s.call i).stage.waits = true → (s.call i).possible = true →
    (s.call i).registered = true ∨ i ∈ s.slot.cancels
  ready : (s.call i).stage = .ready → s.running = true ∨ s.proc.exited = true
  committed : committed (s.call i).stage = true → s.running = true ∧ s.proc.exited = false
  resumed : (s.call i).stage = .resumed → s.resumes i = 1 ∧
    ∃ c, s.first i = some c ∧ (s.proc.awaitResume i).1 = c.answer
  ended : (s.call i).stage = .ended → s.resumes i ≤ 1 ∧
    (s.resumes i = 1 → ∃ c, s.first i = some c ∧ s.proc.outcome i = some c.answer)

structure Kept (s : Life) : Prop where
  slot : Inv s.slot
  fresh : s.slot.Fresh
  calls : ∀ i, CallInv s i
  queue : s.slot.posted.count none = s.closing.length
  status : s.proc.waitStatus = 0 ∨ s.proc.waitStatus < 0 ∧
    ∃ i, (s.call i).stage = .skipped ∨ (s.call i).stage = .resumed
  handle : s.proc.handle = true → s.running = true ∨ s.proc.exited = true
  taken : ∀ c ∈ s.closing, c.state = s.generation → s.proc.handle = false ∧
    (∀ i, active (s.call i).stage = true → s.first i ≠ none) ∧
    ∀ x, s.child = some x → x.closed = true
  old : ∀ c ∈ s.closing, c.state ≤ s.generation

variable {s t : Life} {i j : CallId} {l : Label}

/-- A call that a step has nothing to do with. -/
structure SameCall (s t : Life) (j : CallId) : Prop where
  call : t.call j = s.call j
  first : t.first j = s.first j
  resumes : t.resumes j = s.resumes j
  outcome : t.proc.outcome j = s.proc.outcome j
  queued : (s.call j).stage.waits = true → j ∈ s.slot.cancels → j ∈ t.slot.cancels
  closing : active (s.call j).stage = true → (∃ c ∈ s.closing, c.state = s.generation) →
    ∃ c ∈ t.closing, c.state = t.generation
  running : active (s.call j).stage = true →
    t.running = s.running ∧ t.proc.exited = s.proc.exited
  awaitResume : (s.call j).stage = .resumed →
    (t.proc.awaitResume j).1 = (s.proc.awaitResume j).1

theorem committed_active {stage : Stage} (h : committed stage = true) : active stage = true := by
  cases stage with
  | suspend | register | park | parked => rfl
  | _ => cases h

theorem CallInv.frame (h : CallInv s j) (hs : SameCall s t j) : CallInv t j where
  before := by rw [hs.call, hs.resumes]; exact h.before
  idle := by rw [hs.call, hs.first]; exact h.idle
  causes := by rw [hs.call, hs.first]; exact h.causes
  noted := by rw [hs.call, hs.first]; exact h.noted
  stopped := by rw [hs.call, hs.first]; exact h.stopped
  closing := by
    rw [hs.call, hs.first]
    exact fun ha hc => hs.closing ha (h.closing ha hc)
  possible := by rw [hs.call]; exact h.possible
  listens := by
    rw [hs.call]
    exact fun hw hp => (h.listens hw hp).imp_right (hs.queued hw)
  ready := by
    rw [hs.call]
    intro hr
    obtain ⟨hrun, hex⟩ := hs.running (by rw [hr]; rfl)
    rw [hrun, hex]
    exact h.ready hr
  committed := by
    rw [hs.call]
    intro hc
    obtain ⟨hrun, hex⟩ := hs.running (committed_active hc)
    rw [hrun, hex]
    exact h.committed hc
  resumed := by
    rw [hs.call, hs.first, hs.resumes]
    intro hr
    rw [hs.awaitResume hr]
    exact h.resumed hr
  ended := by rw [hs.call, hs.first, hs.resumes, hs.outcome]; exact h.ended

/-- Where the invariant gives the result. -/
theorem Kept.answered (h : Kept s) : Answered s where
  once i := by
    have hc := h.calls i
    by_cases hr : (s.call i).stage = .resumed
    · exact Nat.le_of_eq (hc.resumed hr).1
    by_cases he : (s.call i).stage = .ended
    · exact (hc.ended he).1
    · rw [hc.before hr he]
      exact Nat.zero_le 1
  answer i h1 he := ((h.calls i).ended he).2 h1
  pending i hp := (h.calls i).before (by rw [hp]; simp) (by rw [hp]; simp)
  owed hq i hp hd := by
    have hc := h.calls i
    have hactive : active (s.call i).stage = true := by rw [hp]; rfl
    have hempty : s.closing = [] := by
      have hlen := h.queue
      rw [hq] at hlen
      exact List.length_eq_zero_iff.mp hlen.symm
    cases hf : s.first i with
    | none => rfl
    | some c =>
      cases c with
      | exit status => exact absurd hf (hc.causes hactive status)
      | stop =>
        have hst := hc.stopped hf
        obtain hr | hm := hc.listens (by rw [hp]; rfl) (hc.possible hactive hst)
        · exact absurd ⟨hr, hst⟩ hd
        · unfold Slot.cancels at hm
          rw [hq] at hm
          cases hm
      | close =>
        obtain ⟨c, hm, _⟩ := hc.closing hactive hf
        rw [hempty] at hm
        cases hm

/-! ## Steps of one call -/

/-- What a step of one call does not change. -/
structure Fixed (s t : Life) : Prop where
  closing : t.closing = s.closing
  generation : t.generation = s.generation
  handle : t.proc.handle = s.proc.handle
  running : t.running = s.running
  exited : t.proc.exited = s.proc.exited
  child : t.child = s.child
  posted : t.slot.posted.count none = s.slot.posted.count none

theorem Kept.of_call (h : Kept s) (hf : Fixed s t) (hslot : Inv t.slot) (hfresh : t.slot.Fresh)
    (hi : CallInv t i) (hj : ∀ j, j ≠ i → SameCall s t j)
    (hstatus : t.proc.waitStatus = 0 ∨ t.proc.waitStatus < 0 ∧
      ∃ j, (t.call j).stage = .skipped ∨ (t.call j).stage = .resumed)
    (hact : active (t.call i).stage = true → s.proc.handle = false →
      active (s.call i).stage = true ∧ (s.first i ≠ none → t.first i ≠ none)) : Kept t where
  slot := hslot
  fresh := hfresh
  calls j := by
    by_cases he : j = i
    · rw [he]
      exact hi
    · exact (h.calls j).frame (hj j he)
  queue := by rw [hf.posted, hf.closing]; exact h.queue
  status := hstatus
  handle := by rw [hf.handle, hf.running, hf.exited]; exact h.handle
  taken c hm hc := by
    rw [hf.closing] at hm
    rw [hf.generation] at hc
    obtain ⟨hh, hfirst, hchild⟩ := h.taken c hm hc
    refine ⟨hf.handle.trans hh, fun j ha => ?_, by rw [hf.child]; exact hchild⟩
    by_cases he : j = i
    · subst he
      obtain ⟨hs, hn⟩ := hact ha hh
      exact hn (hfirst j hs)
    · have hsame := hj j he
      rw [hsame.call] at ha
      rw [hsame.first]
      exact hfirst j ha
  old := by rw [hf.closing, hf.generation]; exact h.old

theorem follow_resumes {q : State} (h : (q.call j).stage ≠ .resumed ∨ (s.call j).stage = .resumed) :
    (s.follow q).resumes j = s.resumes j := by
  unfold Life.follow
  refine if_neg fun hn => ?_
  rcases h with h | h
  · exact h hn.1
  · exact hn.2 h

theorem follow_woken {q : State} (h : (q.call j).stage = .resumed)
    (hs : (s.call j).stage ≠ .resumed) :
    (s.follow q).resumes j = s.resumes j + 1 := if_pos ⟨h, hs⟩

theorem same_follow {q : State} (hs : Slot.Same s.slot q.slot j)
    (ho : q.outcome j = s.proc.outcome j) (hex : q.exited = s.proc.exited)
    (hr : (s.call j).stage ≠ .resumed) : SameCall s (s.follow q) j where
  call := hs.call
  first := rfl
  resumes := follow_resumes (.inl (by
    have hc : q.call j = s.call j := hs.call
    rw [hc]
    exact hr))
  outcome := ho
  queued _ hq := hs.queued.mpr hq
  closing _ h := h
  running _ := ⟨rfl, hex⟩
  awaitResume h := absurd h hr

theorem Kept.not_runs (h : Kept s) (hr : s.slot.running = none ∨ s.slot.running = some i)
    (hj : j ≠ i) : (s.call j).stage.runs = false := by
  cases hc : (s.call j).stage.runs with
  | false => rfl
  | true =>
    have hrun := (h.slot.valid.call j).running.mpr hc
    rcases hr with hr | hr
    · rw [hr] at hrun
      cases hrun
    · rw [hr] at hrun
      exact absurd (Option.some.inj hrun).symm hj

theorem not_resumed {stage : Stage} (h : stage.runs = false) : stage ≠ .resumed := by
  rintro rfl
  cases h

/-- Nobody runs, so `wait_status` is clear. -/
theorem Kept.clear (h : Kept s) (hr : s.slot.running = none) : s.proc.waitStatus = 0 := by
  rcases h.status with h0 | ⟨_, i, hi⟩
  · exact h0
  · have hrun := (h.slot.valid.call i).running.mpr (by
      change (s.call i).stage.runs = true
      rcases hi with hi | hi <;> rw [hi] <;> rfl)
    rw [hr] at hrun
    cases hrun

/-- Nobody runs, and whoever is active is in the slot. -/
theorem Kept.active_waits (h : Kept s) (hr : s.slot.running = none)
    (ha : active (s.call i).stage = true) : s.slot.waiter = some i := by
  have hn : (s.call i).stage.runs = false := by
    cases hc : (s.call i).stage.runs with
    | false => rfl
    | true =>
      have hrun := (h.slot.valid.call i).running.mpr hc
      rw [hr] at hrun
      cases hrun
  refine (h.slot.valid.call i).waiter.mpr ?_
  change (s.call i).stage = .parked
  cases hs : (s.call i).stage with
  | parked => rfl
  | idle | ended =>
    rw [hs] at ha
    cases ha
  | _ =>
    rw [hs] at hn
    cases hn

/-- From one active stage to the next. -/
theorem CallInv.advance (h : CallInv s i) (ha : active (s.call i).stage = true)
    (hb : active (t.call i).stage = true) (hready : (t.call i).stage ≠ .ready)
    (hst : (t.call i).stopped = (s.call i).stopped)
    (hp : (t.call i).possible = (s.call i).possible) (hf : t.first i = s.first i)
    (hr : t.resumes i = s.resumes i)
    (hclosing : t.closing = s.closing ∧ t.generation = s.generation)
    (hl : (t.call i).stage.waits = true → (s.call i).possible = true →
      (t.call i).registered = true ∨ i ∈ t.slot.cancels)
    (hc : t.running = true ∧ t.proc.exited = false) : CallInv t i := by
  have hs : (s.call i).stage ≠ .resumed ∧ (s.call i).stage ≠ .ended := by
    constructor <;> intro he <;> rw [he] at ha <;> cases ha
  refine ⟨fun _ _ => hr.trans (h.before hs.1 hs.2), fun hi => ?_, fun _ => hf ▸ h.causes ha, ?_, ?_,
    fun _ hcl => ?_, fun _ => ?_, ?_, fun hi => absurd hi hready, fun _ => hc, fun hi => ?_,
    fun hi => ?_⟩
  · rw [hi] at hb
    cases hb
  · rw [hst, hf]
    exact h.noted
  · rw [hst, hf]
    exact h.stopped
  · rw [hclosing.1, hclosing.2]
    exact h.closing ha (hf ▸ hcl)
  · rw [hst, hp]
    exact h.possible ha
  · rw [hp]
    exact hl
  · rw [hi] at hb
    cases hb
  · rw [hi] at hb
    cases hb

/-- A call that is made. -/
theorem CallInv.enter (h : CallInv s i) (hs : (s.call i).stage = .idle) {p : Bool}
    (hb : t.call i = { s.call i with stage := .ready, possible := p }) (hf : t.first i = s.first i)
    (hr : t.resumes i = s.resumes i) (hp : (s.call i).stopped = true → p = true)
    (hh : t.running = true ∨ t.proc.exited = true) : CallInv t i := by
  have hfirst := h.idle hs
  have hzero : s.resumes i = 0 := h.before (by rw [hs]; simp) (by rw [hs]; simp)
  refine ⟨fun _ _ => hr.trans hzero, fun hi => ?_, fun _ st he => ?_, ?_, ?_, fun _ hcl => ?_,
    fun _ => ?_, fun hw => ?_, fun _ => hh, fun hc => ?_, fun hi => ?_, fun hi => ?_⟩
  · rw [hb] at hi
    cases hi
  · rw [hf] at he
    rw [he] at hfirst
    simp at hfirst
  · rw [hb, hf]
    exact h.noted
  · rw [hb, hf]
    exact h.stopped
  · rw [hf] at hcl
    rw [hcl] at hfirst
    simp at hfirst
  · rw [hb]
    exact hp
  · rw [hb] at hw
    cases hw
  · rw [hb] at hc
    cases hc
  · rw [hb] at hi
    cases hi
  · rw [hb] at hi
    cases hi

/-- A call that does not wait, or not any more. -/
theorem CallInv.past (h : CallInv s i)
    (hb : (t.call i).stage = .skipped ∨ (t.call i).stage = .ended)
    (hst : (t.call i).stopped = (s.call i).stopped) (hf : t.first i = s.first i)
    (hbefore : (t.call i).stage = .skipped → t.resumes i = 0)
    (hended : (t.call i).stage = .ended → t.resumes i ≤ 1 ∧
      (t.resumes i = 1 → ∃ c, s.first i = some c ∧ t.proc.outcome i = some c.answer)) :
    CallInv t i := by
  have hno : ∀ {p : Prop}, active (t.call i).stage = true → p := by
    intro p hp
    rcases hb with hb | hb <;> rw [hb] at hp <;> cases hp
  have hstage : ∀ {p : Prop} {stage : Stage}, (t.call i).stage = stage → stage ≠ .skipped →
      stage ≠ .ended → p := by
    intro p stage hi hskip hend
    rw [hi] at hb
    exact absurd hb (not_or.mpr ⟨hskip, hend⟩)
  refine ⟨fun _ he => hbefore (hb.resolve_right he), fun hi => hstage hi (by simp) (by simp), hno,
    ?_, ?_, hno, hno, fun hw => ?_, fun hi => hstage hi (by simp) (by simp),
    fun hc => hno (committed_active hc), fun hi => hstage hi (by simp) (by simp), fun he => ?_⟩
  · rw [hst, hf]
    exact h.noted
  · rw [hst, hf]
    exact h.stopped
  · rcases hb with hb | hb <;> rw [hb] at hw <;> cases hw
  · rw [hf]
    exact hended he

/-- A call that does not wait goes on to its end. -/
theorem CallInv.skip (h : CallInv s i) (ha : active (s.call i).stage = true)
    (hb : (t.call i).stage = .skipped) (hst : (t.call i).stopped = (s.call i).stopped)
    (hf : t.first i = s.first i) (hr : t.resumes i = s.resumes i) : CallInv t i := by
  have hs : (s.call i).stage ≠ .resumed ∧ (s.call i).stage ≠ .ended := by
    constructor <;> intro he <;> rw [he] at ha <;> cases ha
  refine h.past (.inl hb) hst hf (fun _ => hr.trans (h.before hs.1 hs.2)) fun he => ?_
  cases hb.symm.trans he

/-- A call that is left. -/
theorem CallInv.leave (h : CallInv s i) (hb : (t.call i).stage = .ended)
    (hst : (t.call i).stopped = (s.call i).stopped) (hf : t.first i = s.first i)
    (hr : t.resumes i ≤ 1 ∧
      (t.resumes i = 1 → ∃ c, s.first i = some c ∧ t.proc.outcome i = some c.answer)) :
    CallInv t i := by
  refine h.past (.inr hb) hst hf (fun he => ?_) fun _ => hr
  cases hb.symm.trans he

/-! ## The calls -/

theorem kept_wait (h : Kept s) {p : Bool} (hs : step s (.wait i p) = some t) : Kept t := by
  obtain ⟨q, hq, rfl⟩ := Option.map_eq_some_iff.mp hs
  have htook := step_took hq
  have hslot := inv_step h.slot htook
  have hgood : Punctual s.proc (.wait i p) := trivial
  have hfresh := fresh_step h.slot h.fresh hgood htook
  obtain ⟨⟨hr, hidle, hp⟩, hq⟩ := Option.ite_none_right_eq_some.mp hq
  have hci := h.calls i
  have hidle' : (s.call i).stage = .idle := hidle
  have hzero : s.resumes i = 0 := hci.before (by rw [hidle']; simp) (by rw [hidle']; simp)
  have hstatus := h.clear hr
  have hne : ∀ j, j ≠ i → (s.call j).stage ≠ .resumed := fun j hj =>
    not_resumed (h.not_runs (.inl hr) hj)
  cases hq
  unfold State.wait at hslot hfresh ⊢
  cases hh : s.proc.handle with
  | false =>
    rw [hh, if_pos (by simp)] at hslot hfresh
    rw [if_pos (by simp)]
    have hend : ((s.proc.leave i (.error (.runtimeError "process has not been spawned"))).call
        i).stage = .ended := by simp [State.leave, State.call, Slot.leave]
    refine h.of_call (i := i) ⟨rfl, rfl, rfl, rfl, rfl, rfl, rfl⟩ hslot hfresh
      (hci.leave hend ?_ rfl ?_) (fun j hj => ?_) (.inl hstatus) fun ha => ?_
    · simp [Life.call, Life.follow, State.leave, Slot.leave]
    · rw [follow_resumes (.inl (by rw [hend]; simp)), hzero]
      exact ⟨Nat.zero_le 1, fun h1 => by cases h1⟩
    · exact same_follow (Slot.same_leave (.inr hr) hj) (Function.update_of_ne hj ..) rfl (hne j hj)
    · change active ((s.proc.leave i _).call i).stage = true at ha
      rw [hend] at ha
      cases ha
  | true =>
    rw [hh, if_neg (by simp)] at hslot hfresh
    rw [if_neg (by simp)]
    have hcall : (s.proc.slot.enter i p).call i =
        { s.call i with stage := .ready, possible := p } := by
      simp [Slot.enter, Life.call]
    refine h.of_call (i := i) ⟨rfl, rfl, hh.symm, rfl, rfl, rfl, rfl⟩ hslot hfresh ?_
      (fun j hj => ?_)
      (.inl hstatus) fun _ hf => ?_
    · exact hci.enter hidle' hcall rfl (follow_resumes (.inl (by
        change ((s.proc.slot.enter i p).call i).stage ≠ _
        rw [hcall]
        simp))) hp (h.handle hh)
    · exact same_follow (Slot.same_enter hr hj) rfl rfl (hne j hj)
    · rw [hh] at hf
      cases hf

/-- What the answer of `await_resume` depends on. -/
theorem awaitResume_fst {p q : State} (hst : (q.call i).stopped = (p.call i).stopped)
    (hw : q.waitStatus = p.waitStatus) (he : q.exited = p.exited)
    (hx : q.exitStatus = p.exitStatus) (ht : q.termSignal = p.termSignal) :
    (q.awaitResume i).1 = (p.awaitResume i).1 := by
  unfold State.awaitResume
  rw [hst, hw, he, hx, ht]
  split
  · rfl
  · split
    · rfl
    · split
      · rfl
      · rfl

theorem awaitResume_waitStatus {p : State} (h : p.waitStatus ≤ 0) :
    (p.awaitResume i).2.waitStatus = 0 := by
  unfold State.awaitResume
  split
  · rfl
  · split
    · rfl
    · have h0 : p.waitStatus = 0 := by omega
      split
      · exact h0
      · exact h0

theorem awaitResume_exited {p : State} : (p.awaitResume i).2.exited = p.exited := by
  obtain ⟨w, hw⟩ := awaitResume_only
  rw [hw]

theorem awaitResume_outcome {p : State} : (p.awaitResume i).2.outcome = p.outcome := by
  obtain ⟨w, hw⟩ := awaitResume_only
  rw [hw]

theorem count_register {a : Slot CallId} :
    (a.register i).posted.count none = a.posted.count none := by
  unfold Slot.register
  split_ifs
  · exact List.count_append.trans (by simp)
  · rfl
  · rfl

/-- `await_resume` of a call, and the call is over. -/
theorem kept_leave (h : Kept s) (hs : (s.call i).stage = .skipped ∨ (s.call i).stage = .resumed)
    (hslot : Inv ((s.proc.awaitResume i).2.leave i (s.proc.awaitResume i).1).slot)
    (hfresh : ((s.proc.awaitResume i).2.leave i (s.proc.awaitResume i).1).slot.Fresh) :
    Kept (s.follow ((s.proc.awaitResume i).2.leave i (s.proc.awaitResume i).1)) := by
  have hci := h.calls i
  have hrun : s.slot.running = some i := (h.slot.valid.call i).running.mpr (by
    change (s.call i).stage.runs = true
    rcases hs with hs | hs <;> rw [hs] <;> rfl)
  generalize hq : (s.proc.awaitResume i).2.leave i (s.proc.awaitResume i).1 = q at hslot hfresh ⊢
  have hqs : q.slot = s.slot.leave i := by rw [← hq, State.leave, awaitResume_slot]; rfl
  have hqo : q.outcome = Function.update s.proc.outcome i (some (s.proc.awaitResume i).1) := by
    rw [← hq, State.leave, awaitResume_outcome]
  have hqc : q.call i = { s.call i with stage := .ended, registered := false } := by
    rw [State.call, hqs]
    simp [Slot.leave, Life.call, Life.slot]
  have hend : (q.call i).stage = .ended := by rw [hqc]
  have hst : (q.call i).stopped = (s.call i).stopped := by rw [hqc]
  have hres : (s.follow q).resumes i = s.resumes i :=
    follow_resumes (.inl (by rw [hend]; simp))
  refine h.of_call (i := i) ⟨rfl, rfl, ?_, rfl, ?_, rfl, ?_⟩ hslot hfresh
    (hci.leave hend hst rfl ?_)
    (fun j hj => ?_) (.inl ?_) fun ha => ?_
  · rw [← hq]
    exact awaitResume_handle
  · rw [← hq]
    exact awaitResume_exited
  · change q.slot.posted.count none = _
    rw [hqs]
    rfl
  · rw [hres]
    change s.resumes i ≤ 1 ∧
      (s.resumes i = 1 → ∃ c, s.first i = some c ∧ q.outcome i = some c.answer)
    rw [hqo, Function.update_self]
    rcases hs with hs | hs
    · rw [hci.before (by rw [hs]; simp) (by rw [hs]; simp)]
      exact ⟨Nat.zero_le 1, fun h1 => by cases h1⟩
    · obtain ⟨h1, c, hc, ha⟩ := hci.resumed hs
      exact ⟨Nat.le_of_eq h1, fun _ => ⟨c, hc, congrArg some ha⟩⟩
  · refine same_follow ?_ ?_ ?_ (not_resumed (h.not_runs (.inr hrun) hj))
    · rw [hqs]
      exact Slot.same_leave (.inl hrun) hj
    · rw [hqo]
      exact Function.update_of_ne hj ..
    · rw [← hq]
      exact awaitResume_exited
  · rw [← hq]
    refine awaitResume_waitStatus ?_
    rcases h.status with h0 | ⟨hneg, _⟩
    · exact Int.le_of_eq h0
    · exact Int.le_of_lt hneg
  · change active (q.call i).stage = true at ha
    rw [hend] at ha
    cases ha

/-- A step of the call that runs, which stays where it is asked for or does not wait. -/
theorem kept_stage (h : Kept s) {q : State} (hr : s.slot.running = some i)
    (hslot : Inv q.slot) (hfresh : q.slot.Fresh) (hs : ∀ j, j ≠ i → Slot.Same s.slot q.slot j)
    (ho : q.outcome = s.proc.outcome) (hh : q.handle = s.proc.handle)
    (hex : q.exited = s.proc.exited) (hp : q.slot.posted.count none = s.slot.posted.count none)
    (hw : q.waitStatus = s.proc.waitStatus ∨ q.waitStatus < 0 ∧ (q.call i).stage = .skipped)
    (ha : active (s.call i).stage = true) (hi : CallInv (s.follow q) i) : Kept (s.follow q) := by
  refine h.of_call (i := i) ⟨rfl, rfl, hh, rfl, hex, rfl, hp⟩ hslot hfresh hi (fun j hj => ?_) ?_
    fun _ _ => ⟨ha, id⟩
  · exact same_follow (hs j hj) (congrFun ho j) hex (not_resumed (h.not_runs (.inr hr) hj))
  · rcases hw with hw | ⟨hneg, hsk⟩
    · refine .inl (hw.trans ?_)
      rcases h.status with h0 | ⟨_, j, hj⟩
      · exact h0
      · exfalso
        have hrun := (h.slot.valid.call j).running.mpr (by
          change (s.call j).stage.runs = true
          rcases hj with hj | hj <;> rw [hj] <;> rfl)
        have hij : i = j := Option.some.inj (hr.symm.trans hrun)
        subst hij
        rcases hj with hj | hj <;> rw [hj] at ha <;> cases ha
    · exact .inr ⟨hneg, i, .inl hsk⟩

theorem kept_skipped (h : Kept s) (hr : s.slot.running = some i)
    (ha : active (s.call i).stage = true) {w : Int} (hw : w = s.proc.waitStatus ∨ w < 0)
    (hslot : Inv (s.proc.slot.moveTo i .skipped)) (hfresh : (s.proc.slot.moveTo i .skipped).Fresh) :
    Kept (s.follow { s.proc with waitStatus := w, slot := s.proc.slot.moveTo i .skipped }) := by
  have hci := h.calls i
  have hskip : ((s.proc.slot.moveTo i .skipped).call i).stage = .skipped := by simp
  refine kept_stage h hr hslot hfresh (fun j hj => Slot.same_moveTo hj) rfl rfl rfl rfl
    (hw.imp_right fun hneg => ⟨hneg, hskip⟩) ha
    (hci.skip ha hskip ?_ rfl (follow_resumes (.inl ?_)))
  · simp [Life.call, Life.follow]
  · simp [State.call]

theorem kept_moved (h : Kept s) (hr : s.slot.running = some i)
    (ha : active (s.call i).stage = true) (hcom : s.running = true ∧ s.proc.exited = false)
    {stage : Stage} (hstage : stage = .suspend ∨ stage = .register)
    (hslot : Inv (s.proc.slot.moveTo i stage)) (hfresh : (s.proc.slot.moveTo i stage).Fresh) :
    Kept (s.follow { s.proc with slot := s.proc.slot.moveTo i stage }) := by
  have hci := h.calls i
  have hcall : (s.proc.slot.moveTo i stage).call i = { s.call i with stage := stage } :=
    Slot.moveTo_call_self
  have hnew : active stage = true ∧ stage ≠ .ready ∧ stage ≠ .resumed ∧ stage.waits = false := by
    rcases hstage with rfl | rfl <;> simp [active, Stage.waits]
  obtain ⟨hactive, hready, hresumed, hwaits⟩ := hnew
  generalize hq : s.proc.slot.moveTo i stage = slot at hslot hfresh hcall ⊢
  have hstage' : (slot.call i).stage = stage := by rw [hcall]
  refine kept_stage h hr hslot hfresh (fun j hj => hq ▸ Slot.same_moveTo hj) rfl rfl rfl ?_
    (.inl rfl) ha (hci.advance ha ?_ ?_ ?_ ?_ rfl (follow_resumes (.inl ?_)) ⟨rfl, rfl⟩ ?_ hcom)
  · rw [← hq]
    rfl
  · change active (slot.call i).stage = true
    rw [hstage']
    exact hactive
  · change (slot.call i).stage ≠ .ready
    rw [hstage']
    exact hready
  · change (slot.call i).stopped = _
    rw [hcall]
  · change (slot.call i).possible = _
    rw [hcall]
  · change (slot.call i).stage ≠ .resumed
    rw [hstage']
    exact hresumed
  · intro hw
    change (slot.call i).stage.waits = true at hw
    rw [hstage', hwaits] at hw
    cases hw

theorem kept_register (h : Kept s) (hr : s.slot.running = some i)
    (ha : active (s.call i).stage = true) (hcom : s.running = true ∧ s.proc.exited = false)
    (hslot : Inv (s.proc.slot.register i)) (hfresh : (s.proc.slot.register i).Fresh) :
    Kept (s.follow { s.proc with slot := s.proc.slot.register i }) := by
  have hci := h.calls i
  have hpark : ((s.proc.slot.register i).call i).stage = .park := Slot.register_stage
  refine kept_stage h hr hslot hfresh (fun j hj => Slot.same_register hj) rfl rfl rfl
    count_register (.inl rfl) ha (hci.advance ha ?_ ?_ Slot.register_stopped ?_ rfl
      (follow_resumes (.inl ?_)) ⟨rfl, rfl⟩ ?_ hcom)
  · change active ((s.proc.slot.register i).call i).stage = true
    rw [hpark]
    rfl
  · change ((s.proc.slot.register i).call i).stage ≠ .ready
    rw [hpark]
    simp
  · change ((s.proc.slot.register i).call i).possible = _
    unfold Slot.register
    split_ifs <;> simp [Life.call]
  · change ((s.proc.slot.register i).call i).stage ≠ .resumed
    rw [hpark]
    simp
  · intro _ hp
    change ((s.proc.slot.register i).call i).registered = true ∨
      i ∈ (s.proc.slot.register i).cancels
    have hp' : (s.proc.slot.call i).possible = true := hp
    unfold Slot.register
    dsimp only
    rw [if_pos hp']
    split_ifs
    · exact .inr (by simp [Slot.cancels])
    · exact .inl (by simp)

theorem kept_park (h : Kept s) (hr : s.slot.running = some i) (hs : (s.call i).stage = .park)
    (hslot : Inv (s.proc.slot.park i)) (hfresh : (s.proc.slot.park i).Fresh) :
    Kept (s.follow { s.proc with slot := s.proc.slot.park i }) := by
  have hci := h.calls i
  have ha : active (s.call i).stage = true := by rw [hs]; rfl
  have hcom := hci.committed (by rw [hs]; rfl)
  have hfree := h.slot.free i (.inr hs)
  refine kept_stage h hr hslot hfresh (fun j hj => Slot.same_park hfree hr hj) rfl rfl rfl rfl
    (.inl rfl) ha (hci.advance ha ?_ ?_ ?_ ?_ rfl (follow_resumes (.inl ?_)) ⟨rfl, rfl⟩ ?_ hcom)
  · simp [Life.call, Life.follow, Slot.park, active]
  · simp [Life.call, Life.follow, Slot.park]
  · simp [Life.call, Life.follow, Slot.park]
  · simp [Life.call, Life.follow, Slot.park]
  · simp [State.call, Slot.park]
  · intro _ hp
    have hl := hci.listens (by rw [hs]; rfl) hp
    change ((s.proc.slot.park i).call i).registered = true ∨ i ∈ s.slot.cancels
    simpa [Slot.park, Life.call] using hl

theorem kept_run (h : Kept s) (hs : step s (.run i) = some t) : Kept t := by
  obtain ⟨q, hq, rfl⟩ := Option.map_eq_some_iff.mp hs
  have htook := step_took hq
  have hslot := inv_step h.slot htook
  have hgood : Punctual s.proc (.run i) := trivial
  have hfresh := fresh_step h.slot h.fresh hgood htook
  obtain ⟨hr, hq⟩ := Option.ite_none_right_eq_some.mp hq
  have hci := h.calls i
  unfold State.run at hq
  cases hstage : (s.proc.call i).stage with
  | ready =>
    have hat : (s.call i).stage = .ready := hstage
    have ha : active (s.call i).stage = true := by rw [hat]; rfl
    rw [hstage] at hq
    cases hq
    cases hready : s.proc.awaitReady i with
    | true =>
      rw [hready, if_pos rfl] at hslot hfresh
      exact kept_skipped h hr ha (.inl rfl) hslot hfresh
    | false =>
      rw [hready, if_neg (by simp)] at hslot hfresh
      unfold State.awaitReady at hready
      have hex : s.proc.exited = false := (Bool.or_eq_false_iff.mp hready).2
      have hrunning := (hci.ready hat).resolve_right (by rw [hex]; simp)
      exact kept_moved h hr ha ⟨hrunning, hex⟩ (.inl rfl) hslot hfresh
  | suspend =>
    have hat : (s.call i).stage = .suspend := hstage
    have ha : active (s.call i).stage = true := by rw [hat]; rfl
    have hcom := hci.committed (by rw [hat]; rfl)
    rw [hstage] at hq
    cases hq
    unfold State.awaitSuspend at hslot hfresh ⊢
    by_cases hst : (s.proc.call i).stopped = true
    · rw [if_pos hst] at hslot hfresh ⊢
      exact kept_skipped h hr ha (.inr (by decide)) hslot hfresh
    rw [if_neg hst] at hslot hfresh ⊢
    by_cases hw : s.proc.slot.waiter.isSome = true
    · rw [if_pos hw] at hslot hfresh ⊢
      exact kept_skipped h hr ha (.inr (by decide)) hslot hfresh
    · rw [if_neg hw] at hslot hfresh ⊢
      exact kept_moved h hr ha hcom (.inr rfl) hslot hfresh
  | register =>
    have hat : (s.call i).stage = .register := hstage
    have ha : active (s.call i).stage = true := by rw [hat]; rfl
    rw [hstage] at hq
    cases hq
    exact kept_register h hr ha (hci.committed (by rw [hat]; rfl)) hslot hfresh
  | park =>
    rw [hstage] at hq
    cases hq
    exact kept_park h hr hstage hslot hfresh
  | skipped =>
    rw [hstage] at hq
    cases hq
    exact kept_leave h (.inl hstage) hslot hfresh
  | resumed =>
    rw [hstage] at hq
    cases hq
    exact kept_leave h (.inr hstage) hslot hfresh
  | idle | parked | ended =>
    rw [hstage] at hq
    cases hq

end LuvCoro.Process.Lifecycle
