import Mathlib.Data.List.Nodup
import Mathlib.Logic.Function.Basic

/-! # One slot for a waiter, and cancellations posted to it

Calls that run on one thread share a slot in which at most one of them waits. A
call whose token may be stopped registers a callback; the callback runs on any
thread, and posts a closure that is to take the call out of the slot. The closures
wait in a queue, in which `none` is one that belongs to something else. -/
namespace WaiterSlot

universe u

/-- Where a call is. `ready`, `suspend`, `register` and `park` come one after the
other; one that does not wait goes on as `skipped`, one that has waited as `resumed`. -/
inductive Stage
  | idle | ready | suspend | register | park | parked | skipped | resumed | ended
  deriving DecidableEq

namespace Stage

/-- The thread is busy with the call. -/
def runs : Stage → Bool
  | ready | suspend | register | park | skipped | resumed => true
  | _ => false

/-- The callback may be registered. -/
def listens : Stage → Bool
  | park | parked | resumed => true
  | _ => false

/-- The awaiter of the call is still going to be, or is, in the slot. -/
def waits : Stage → Bool
  | park | parked => true
  | _ => false

end Stage

structure Call where
  stage : Stage := .idle
  possible : Bool := false
  stopped : Bool := false
  registered : Bool := false

structure Slot (ι : Type u) where
  waiter : Option ι := none
  running : Option ι := none
  posted : List (Option ι) := []
  call : ι → Call := fun _ => {}

variable {ι : Type u} [DecidableEq ι] {s t : Slot ι} {i j : ι}

namespace Slot

/-- The cancellations in the queue. -/
def cancels (s : Slot ι) : List ι := s.posted.filterMap id

def set (s : Slot ι) (i : ι) (c : Call) : Slot ι := { s with call := Function.update s.call i c }

def moveTo (s : Slot ι) (i : ι) (stage : Stage) : Slot ι := s.set i { s.call i with stage := stage }

/-- The call is made, with a token that can be stopped or one that cannot. -/
def enter (s : Slot ι) (i : ι) (possible : Bool) : Slot ι :=
  { s.set i { s.call i with stage := .ready, possible := possible } with running := some i }

/-- The callback is registered; where the token is already stopped it runs at once. -/
def register (s : Slot ι) (i : ι) : Slot ι :=
  let c := { s.call i with stage := .park }
  if (s.call i).possible then
    if (s.call i).stopped then { s.set i c with posted := s.posted ++ [some i] }
    else s.set i { c with registered := true }
  else s.set i c

def park (s : Slot ι) (i : ι) : Slot ι :=
  { s.moveTo i .parked with waiter := some i, running := none }

/-- Whoever waits is taken out of the slot and goes on. -/
def wake (s : Slot ι) : Slot ι :=
  match s.waiter with
  | none => s
  | some i => { s.moveTo i .resumed with waiter := none, running := some i }

/-- The call is left, and its callback with it. -/
def leave (s : Slot ι) (i : ι) : Slot ι :=
  { s.set i { s.call i with stage := .ended, registered := false } with running := none }

def requestStop (s : Slot ι) (i : ι) : Slot ι := s.set i { s.call i with stopped := true }

/-- The callback runs, and posts a closure. -/
def callback (s : Slot ι) (i : ι) : Slot ι :=
  { s.set i { s.call i with registered := false } with posted := s.posted ++ [some i] }

def post (s : Slot ι) : Slot ι := { s with posted := s.posted ++ [none] }

/-- A closure is taken from the queue. -/
def pop (s : Slot ι) : Slot ι := { s with posted := s.posted.tail }

@[simp] theorem set_waiter {c : Call} : (s.set i c).waiter = s.waiter := rfl
@[simp] theorem set_running {c : Call} : (s.set i c).running = s.running := rfl
@[simp] theorem set_cancels {c : Call} : (s.set i c).cancels = s.cancels := rfl
@[simp] theorem set_call_self {c : Call} : (s.set i c).call i = c := Function.update_self ..

theorem set_call_of_ne {c : Call} (h : j ≠ i) : (s.set i c).call j = s.call j :=
  Function.update_of_ne h ..

@[simp] theorem moveTo_call_self {stage : Stage} :
    (s.moveTo i stage).call i = { s.call i with stage := stage } := Function.update_self ..

@[simp] theorem requestStop_stage : ((s.requestStop i).call j).stage = (s.call j).stage := by
  rcases eq_or_ne j i with rfl | hne
  · simp [requestStop]
  · rw [requestStop, set_call_of_ne hne]

theorem requestStop_stopped (h : (s.call j).stopped = true) :
    ((s.requestStop i).call j).stopped = true := by
  rcases eq_or_ne j i with rfl | hne
  · simp [requestStop]
  · rwa [requestStop, set_call_of_ne hne]

/-- A callback touches no call but its own, and there only its registration. -/
theorem callback_call : ((s.callback i).call j).stage = (s.call j).stage ∧
    ((s.callback i).call j).stopped = (s.call j).stopped := by
  have hcall : (s.callback i).call = (s.set i { s.call i with registered := false }).call := rfl
  rw [hcall]
  rcases eq_or_ne j i with rfl | hne
  · simp
  · rw [set_call_of_ne hne]
    exact ⟨rfl, rfl⟩

@[simp] theorem callback_stage : ((s.callback i).call j).stage = (s.call j).stage :=
  callback_call.1

@[simp] theorem callback_stopped : ((s.callback i).call j).stopped = (s.call j).stopped :=
  callback_call.2

theorem register_stage : ((s.register i).call i).stage = .park := by
  unfold register
  split_ifs <;> simp

@[simp] theorem register_stopped : ((s.register i).call i).stopped = (s.call i).stopped := by
  unfold register
  split_ifs <;> simp

@[simp] theorem register_waiter : (s.register i).waiter = s.waiter := by
  unfold register
  split_ifs <;> rfl

theorem wake_call_self (h : s.waiter = some i) :
    s.wake.call i = { s.call i with stage := .resumed } := by simp [wake, h, moveTo]

theorem wake_call_of_ne (h : s.waiter ≠ some i) : s.wake.call i = s.call i := by
  unfold wake
  cases hw : s.waiter with
  | none => rfl
  | some j =>
    rw [hw] at h
    exact set_call_of_ne fun he => h (congrArg some he.symm)

@[simp] theorem wake_waiter : s.wake.waiter = none := by
  unfold wake
  cases hw : s.waiter with
  | none => exact hw
  | some j => rfl

/-! ## What every operation keeps -/

structure ValidAt (s : Slot ι) (i : ι) : Prop where
  waiter : s.waiter = some i ↔ (s.call i).stage = .parked
  running : s.running = some i ↔ (s.call i).stage.runs = true
  registered : (s.call i).registered = true → (s.call i).stage.listens = true
  queued : i ∈ s.cancels → (s.call i).registered = false ∧ (s.call i).stopped = true ∧
    ((s.call i).stage.listens = true ∨ (s.call i).stage = .ended)

structure Valid (s : Slot ι) : Prop where
  call : ∀ i, s.ValidAt i
  nodup : s.cancels.Nodup

/-- The awaiter that a queued closure points to is still going to be cancelled. -/
def Fresh (s : Slot ι) : Prop := ∀ i ∈ s.cancels, (s.call i).stage.waits = true

omit [DecidableEq ι] in
theorem Valid.init : Valid ({} : Slot ι) where
  call i := by constructor <;> simp [cancels, Stage.runs]
  nodup := List.nodup_nil

/-- Nothing that has to do with `j` has changed. -/
structure Same (s t : Slot ι) (j : ι) : Prop where
  call : t.call j = s.call j
  waiter : t.waiter = some j ↔ s.waiter = some j
  running : t.running = some j ↔ s.running = some j
  queued : j ∈ t.cancels ↔ j ∈ s.cancels

omit [DecidableEq ι] in
theorem ValidAt.of_same (h : s.ValidAt j) (hs : Same s t j) : t.ValidAt j where
  waiter := by rw [hs.waiter, hs.call, h.waiter]
  running := by rw [hs.running, hs.call, h.running]
  registered := by rw [hs.call]; exact h.registered
  queued := by rw [hs.queued, hs.call]; exact h.queued

/-- An operation on `i` has to be looked at where `i` is concerned. -/
theorem Valid.of_same (h : s.Valid) (hs : ∀ j, j ≠ i → Same s t j) (hi : t.ValidAt i)
    (hn : t.cancels.Nodup) : t.Valid where
  call j := by
    by_cases hj : j = i
    · rw [hj]
      exact hi
    · exact (h.call j).of_same (hs j hj)
  nodup := hn

theorem Fresh.of_same (h : s.Fresh) (hs : ∀ j, j ≠ i → Same s t j)
    (hi : i ∈ t.cancels → (t.call i).stage.waits = true) : t.Fresh := by
  intro j hj
  by_cases he : j = i
  · rw [he] at hj ⊢
    exact hi hj
  · rw [(hs j he).call]
    exact h j ((hs j he).queued.mp hj)

theorem same_moveTo {stage : Stage} (hj : j ≠ i) : Same s (s.moveTo i stage) j where
  call := set_call_of_ne hj
  waiter := Iff.rfl
  running := Iff.rfl
  queued := Iff.rfl

theorem same_enter {possible : Bool} (hr : s.running = none) (hj : j ≠ i) :
    Same s (s.enter i possible) j where
  call := set_call_of_ne hj
  waiter := Iff.rfl
  running := by simp [enter, hr, hj.symm]
  queued := Iff.rfl

theorem same_park (hw : s.waiter = none) (hr : s.running = some i) (hj : j ≠ i) :
    Same s (s.park i) j where
  call := set_call_of_ne hj
  waiter := by simp [park, hw, hj.symm]
  running := by simp [park, hr, hj.symm]
  queued := Iff.rfl

theorem same_leave (hr : s.running = some i ∨ s.running = none) (hj : j ≠ i) :
    Same s (s.leave i) j where
  call := set_call_of_ne hj
  waiter := Iff.rfl
  running := by rcases hr with hr | hr <;> simp [leave, hr, hj.symm]
  queued := Iff.rfl

theorem same_requestStop (hj : j ≠ i) : Same s (s.requestStop i) j where
  call := set_call_of_ne hj
  waiter := Iff.rfl
  running := Iff.rfl
  queued := Iff.rfl

theorem same_callback (hj : j ≠ i) : Same s (s.callback i) j where
  call := set_call_of_ne hj
  waiter := Iff.rfl
  running := Iff.rfl
  queued := by simp [callback, cancels, set, hj]

theorem same_register (hj : j ≠ i) : Same s (s.register i) j := by
  unfold register
  split
  · split
    · exact ⟨set_call_of_ne hj, Iff.rfl, Iff.rfl, by simp [cancels, hj]⟩
    · exact ⟨set_call_of_ne hj, Iff.rfl, Iff.rfl, Iff.rfl⟩
  · exact ⟨set_call_of_ne hj, Iff.rfl, Iff.rfl, Iff.rfl⟩

theorem same_wake (hw : s.waiter = some i) (hr : s.running = none) (hj : j ≠ i) :
    Same s s.wake j := by
  unfold wake
  rw [hw]
  exact ⟨set_call_of_ne hj, by simp [hw, hj.symm], by simp [hr, hj.symm], Iff.rfl⟩

/-! ## Each operation -/

omit [DecidableEq ι] in
theorem Valid.quiet (h : s.Valid) (hl : (s.call i).stage.listens = false)
    (ho : (s.call i).stage ≠ .ended) : (s.call i).registered = false ∧ i ∉ s.cancels := by
  constructor
  · cases hreg : (s.call i).registered with
    | false => rfl
    | true =>
      rw [(h.call i).registered hreg] at hl
      cases hl
  · intro hi
    rcases ((h.call i).queued hi).2.2 with hs | hs
    · rw [hs] at hl
      cases hl
    · exact ho hs

omit [DecidableEq ι] in
theorem nodup_posted (hn : s.cancels.Nodup) (hq : i ∉ s.cancels) :
    ((s.posted ++ [some i]).filterMap id).Nodup := by
  have he : (s.posted ++ [some i]).filterMap id = s.cancels.concat i := by simp [cancels]
  rw [he]
  exact hn.concat hq

theorem Valid.moveTo {stage : Stage} (h : s.Valid) (hr : (s.call i).stage.runs = true)
    (hl : (s.call i).stage.listens = false) (hs : stage.runs = true) : (s.moveTo i stage).Valid := by
  have ho : (s.call i).stage ≠ .ended := by
    intro ho
    rw [ho] at hr
    cases hr
  obtain ⟨hreg, hq⟩ := h.quiet hl ho
  have hrun := (h.call i).running.mpr hr
  have hw : s.waiter ≠ some i := by
    intro hw
    rw [(h.call i).waiter.mp hw] at hr
    cases hr
  refine h.of_same (fun j hj => same_moveTo hj) ⟨?_, ?_, ?_, ?_⟩ h.nodup
  · rw [Slot.moveTo, set_call_self]
    refine iff_of_false hw ?_
    rintro rfl
    cases hs
  · rw [Slot.moveTo, set_call_self]
    exact iff_of_true hrun hs
  · rw [Slot.moveTo, set_call_self]
    intro hreg'
    rw [hreg] at hreg'
    cases hreg'
  · intro hi
    exact absurd hi hq

theorem Valid.enter {possible : Bool} (h : s.Valid) (hr : s.running = none)
    (hs : (s.call i).stage = .idle) : (s.enter i possible).Valid := by
  obtain ⟨hreg, hq⟩ := h.quiet (i := i) (by rw [hs]; rfl) (by rw [hs]; simp)
  have hw : s.waiter ≠ some i := by
    intro hw
    rw [(h.call i).waiter.mp hw] at hs
    cases hs
  refine h.of_same (fun j hj => same_enter hr hj) ⟨?_, ?_, ?_, ?_⟩ h.nodup
  · simpa [Slot.enter] using hw
  · simp [Slot.enter, Stage.runs]
  · simp [Slot.enter, hreg]
  · intro hi
    exact absurd hi hq

theorem Valid.park (h : s.Valid) (hs : (s.call i).stage = .park) (hw : s.waiter = none) :
    (s.park i).Valid := by
  have hr := (h.call i).running.mpr (by rw [hs]; rfl)
  refine h.of_same (fun j hj => same_park hw hr hj) ⟨?_, ?_, ?_, ?_⟩ h.nodup
  · simp [Slot.park, Slot.moveTo]
  · simp [Slot.park, Slot.moveTo, Stage.runs]
  · simp [Slot.park, Slot.moveTo, Stage.listens]
  · intro hi
    obtain ⟨hreg, hst, _⟩ := (h.call i).queued hi
    simp [Slot.park, Slot.moveTo, Stage.listens, hreg, hst]

theorem Valid.register (h : s.Valid) (hs : (s.call i).stage = .register) :
    (s.register i).Valid := by
  obtain ⟨hreg, hq⟩ := h.quiet (i := i) (by rw [hs]; rfl) (by rw [hs]; simp)
  have hr := (h.call i).running.mpr (by rw [hs]; rfl)
  have hw : s.waiter ≠ some i := by
    intro hw
    rw [(h.call i).waiter.mp hw] at hs
    cases hs
  refine h.of_same (fun j hj => same_register hj) ⟨?_, ?_, ?_, ?_⟩ ?_
  · unfold Slot.register
    split_ifs <;> simpa using hw
  · unfold Slot.register
    split_ifs <;> simpa [Stage.runs] using hr
  · unfold Slot.register
    split_ifs <;> simp [Stage.listens]
  · unfold Slot.register
    split_ifs with hp hst
    · simp [hreg, hst, Stage.listens]
    · intro hi
      exact absurd hi hq
    · intro hi
      exact absurd hi hq
  · unfold Slot.register
    split_ifs
    · exact nodup_posted h.nodup hq
    · exact h.nodup
    · exact h.nodup

theorem Valid.leave (h : s.Valid)
    (hs : (s.call i).stage.runs = true ∨ s.running = none ∧ (s.call i).stage = .idle) :
    (s.leave i).Valid := by
  have hr : s.running = some i ∨ s.running = none := hs.imp (h.call i).running.mpr And.left
  have hw : s.waiter ≠ some i := by
    intro hw
    rw [(h.call i).waiter.mp hw] at hs
    simp [Stage.runs] at hs
  refine h.of_same (fun j hj => same_leave hr hj) ⟨?_, ?_, ?_, ?_⟩ h.nodup
  · simpa [Slot.leave] using hw
  · simp [Slot.leave, Stage.runs]
  · simp [Slot.leave]
  · intro hi
    simpa [Slot.leave] using ((h.call i).queued hi).2.1

theorem Valid.requestStop (h : s.Valid) : (s.requestStop i).Valid := by
  refine h.of_same (fun j hj => same_requestStop hj) ⟨?_, ?_, ?_, ?_⟩ h.nodup
  · simpa [Slot.requestStop] using (h.call i).waiter
  · simpa [Slot.requestStop] using (h.call i).running
  · simpa [Slot.requestStop] using (h.call i).registered
  · intro hi
    obtain ⟨hreg, _, hstage⟩ := (h.call i).queued hi
    simpa [Slot.requestStop, hreg] using hstage

theorem Valid.callback (h : s.Valid) (hreg : (s.call i).registered = true)
    (hst : (s.call i).stopped = true) : (s.callback i).Valid := by
  have hq : i ∉ s.cancels := by
    intro hi
    rw [((h.call i).queued hi).1] at hreg
    cases hreg
  have hl := (h.call i).registered hreg
  refine h.of_same (fun j hj => same_callback hj) ⟨?_, ?_, ?_, ?_⟩ ?_
  · simpa [Slot.callback] using (h.call i).waiter
  · simpa [Slot.callback] using (h.call i).running
  · simp [Slot.callback]
  · simp [Slot.callback, hst, hl]
  · exact nodup_posted h.nodup hq

theorem Valid.wake (h : s.Valid) (hr : s.running = none) : s.wake.Valid := by
  cases hw : s.waiter with
  | none =>
    rw [Slot.wake, hw]
    exact h
  | some i =>
    have hs := (h.call i).waiter.mp hw
    refine h.of_same (fun j hj => same_wake hw hr hj) ⟨?_, ?_, ?_, ?_⟩ ?_
    · simp [Slot.wake, hw, Slot.moveTo]
    · simp [Slot.wake, hw, Slot.moveTo, Stage.runs]
    · simp [Slot.wake, hw, Slot.moveTo, Stage.listens]
    · simp only [Slot.wake, hw]
      intro hi
      obtain ⟨hreg, hst, _⟩ := (h.call i).queued hi
      simp [Slot.moveTo, Stage.listens, hreg, hst]
    · simp only [Slot.wake, hw]
      exact h.nodup

omit [DecidableEq ι] in
theorem cancels_post : s.post.cancels = s.cancels := by simp [post, cancels]

omit [DecidableEq ι] in
theorem Valid.post (h : s.Valid) : s.post.Valid where
  call i := (h.call i).of_same ⟨rfl, Iff.rfl, Iff.rfl, by rw [cancels_post]⟩
  nodup := by rw [cancels_post]; exact h.nodup

omit [DecidableEq ι] in
theorem cancels_pop : s.pop.cancels.Sublist s.cancels := (List.tail_sublist _).filterMap _

omit [DecidableEq ι] in
theorem Valid.pop (h : s.Valid) : s.pop.Valid where
  call i := {
    waiter := (h.call i).waiter
    running := (h.call i).running
    registered := (h.call i).registered
    queued := fun hi => (h.call i).queued (cancels_pop.subset hi) }
  nodup := h.nodup.sublist cancels_pop

/-! ## Closures that come in time -/

theorem Fresh.moveTo {stage : Stage} (h : s.Fresh) (hv : s.Valid)
    (hl : (s.call i).stage.listens = false) (ho : (s.call i).stage ≠ .ended) :
    (s.moveTo i stage).Fresh := by
  refine h.of_same (fun j hj => same_moveTo hj) ?_
  intro hi
  exact absurd hi (hv.quiet hl ho).2

theorem Fresh.enter {possible : Bool} (h : s.Fresh) (hv : s.Valid) (hr : s.running = none)
    (hs : (s.call i).stage = .idle) : (s.enter i possible).Fresh := by
  refine h.of_same (fun j hj => same_enter hr hj) ?_
  intro hi
  exact absurd hi (hv.quiet (i := i) (by rw [hs]; rfl) (by rw [hs]; simp)).2

theorem Fresh.park (h : s.Fresh) (hr : s.running = some i) (hw : s.waiter = none) :
    (s.park i).Fresh := by
  refine h.of_same (fun j hj => same_park hw hr hj) ?_
  intro _
  simp [Slot.park, Slot.moveTo, Stage.waits]

theorem Fresh.register (h : s.Fresh) : (s.register i).Fresh := by
  refine h.of_same (fun j hj => same_register hj) ?_
  intro _
  unfold Slot.register
  split_ifs <;> simp [Stage.waits]

/-- Where nobody's closure is in the queue, a call may be left. -/
theorem Fresh.leave (h : s.Fresh) (hr : s.running = some i ∨ s.running = none)
    (hw : (s.call i).stage.waits = false) : (s.leave i).Fresh := by
  refine h.of_same (fun j hj => same_leave hr hj) ?_
  intro hi
  rw [h i hi] at hw
  cases hw

theorem Fresh.requestStop (h : s.Fresh) : (s.requestStop i).Fresh := by
  refine h.of_same (fun j hj => same_requestStop hj) ?_
  intro hi
  simpa [Slot.requestStop] using h i hi

/-- The callback comes before the call is resumed. -/
theorem Fresh.callback (h : s.Fresh) (hs : (s.call i).stage.waits = true) :
    (s.callback i).Fresh := by
  refine h.of_same (fun j hj => same_callback hj) ?_
  intro _
  simpa [Slot.callback] using hs

/-- A callback that is registered comes in time, unless its call has been resumed. -/
theorem Fresh.callback_of_registered (h : s.Fresh) (hv : s.Valid)
    (hreg : (s.call i).registered = true) (hs : (s.call i).stage ≠ .resumed) :
    (s.callback i).Fresh := by
  have hl := (hv.call i).registered hreg
  refine h.callback ?_
  generalize (s.call i).stage = stage at hl hs ⊢
  cases stage with
  | park => rfl
  | parked => rfl
  | resumed => exact absurd rfl hs
  | _ => cases hl

/-- Whoever is taken out of the slot has no closure in the queue. -/
theorem Fresh.wake (h : s.Fresh) (hr : s.running = none) (hw : ∀ i, s.waiter = some i → i ∉ s.cancels) :
    s.wake.Fresh := by
  cases hi : s.waiter with
  | none =>
    rw [Slot.wake, hi]
    exact h
  | some i =>
    refine h.of_same (fun j hj => same_wake hi hr hj) ?_
    simp only [Slot.wake, hi]
    intro hq
    exact absurd hq (hw i hi)

omit [DecidableEq ι] in
theorem Fresh.post (h : s.Fresh) : s.post.Fresh := by
  intro i hi
  rw [cancels_post] at hi
  exact h i hi

omit [DecidableEq ι] in
theorem Fresh.pop (h : s.Fresh) : s.pop.Fresh := by
  intro i hi
  exact h i (cancels_pop.subset hi)

omit [DecidableEq ι] in
/-- The closure that comes next finds its awaiter in the slot. -/
theorem Fresh.waiter {rest : List (Option ι)} (h : s.Fresh) (hv : s.Valid)
    (hr : s.running = none) (hp : s.posted = some i :: rest) :
    s.waiter = some i ∧ (s.call i).stage = .parked := by
  have hi : i ∈ s.cancels := by simp [cancels, hp]
  have hwaits := h i hi
  cases hs : (s.call i).stage with
  | parked => exact ⟨(hv.call i).waiter.mpr hs, rfl⟩
  | park =>
    have hrun := (hv.call i).running.mpr (by rw [hs]; rfl)
    rw [hr] at hrun
    cases hrun
  | _ =>
    rw [hs] at hwaits
    cases hwaits

omit [DecidableEq ι] in
/-- And it is the only one of its call. -/
theorem Valid.not_mem_pop {rest : List (Option ι)} (hv : s.Valid) (hp : s.posted = some i :: rest) :
    i ∉ s.pop.cancels := by
  have hn := hv.nodup
  simp only [cancels, hp, List.filterMap_cons, id, List.nodup_cons] at hn
  simpa [Slot.pop, cancels, hp] using hn.1

/-- The closure that comes next takes its own call out of the slot. -/
theorem Fresh.cancel {rest : List (Option ι)} (h : s.Fresh) (hv : s.Valid)
    (hr : s.running = none) (hp : s.posted = some i :: rest) : s.pop.wake.Fresh := by
  have hw := (h.waiter hv hr hp).1
  refine h.pop.wake hr ?_
  intro j hj
  have he : i = j := Option.some.inj (hw.symm.trans hj)
  subst he
  exact hv.not_mem_pop hp

end Slot

end WaiterSlot
