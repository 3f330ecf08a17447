import Mathlib.Data.List.Count
import Mathlib.Logic.Function.Basic
import LuvCoro.Lib.Transition

/-! # `wait_for_stop` and `sleep_for`

Translated from `src/runtime.cpp`. The awaiting coroutine and whoever completes
the wait share the flag `resumed`: it lets only one of them post the resumption,
and the last thing `await_suspend` does is to read it. The coroutine may run on
a thread of its own, so every other step can come between two of its steps.
Posts are accepted: the runtime is not being shut down. -/
namespace LuvCoro.Runtime

open Transition

/-- The awaiting coroutine: before `await_suspend` has set the continuation, in
it, suspended, gone on without having been suspended, or resumed. -/
inductive AwaitPc
  | ready
  | checking (k : Nat)
  | registering (k : Nat)
  | posting
  | loading
  | suspended
  | passed
  | resumed
  deriving DecidableEq

/-- From when `continuation` has been set. -/
def AwaitPc.late : AwaitPc → Bool
  | .ready | .checking _ | .passed => false
  | _ => true

/-- What is posted to the loop: `start`, `cancel` and `resume_on_runtime`. -/
inductive Closure
  | start | cancel | resume
  deriving DecidableEq

/-- What both kinds of wait have; the stop tokens have numbers. `continued`
counts how often the coroutine goes on behind the `co_await`. -/
structure Wait where
  pc : AwaitPc := .ready
  resumed : Bool := false
  continuation : Bool := false
  posted : List Closure := []
  continued : Nat := 0
  stopRequested : Nat → Bool := fun _ => false
  registered : Nat → Bool := fun _ => false

namespace Wait

def goto (w : Wait) (pc : AwaitPc) : Wait := { w with pc := pc }

def post (w : Wait) (c : Closure) : Wait := { w with posted := w.posted ++ [c] }

/-- `await_ready` is true, or `await_suspend` false. -/
def pass (w : Wait) : Wait := { w with pc := .passed, continued := w.continued + 1 }

def register (w : Wait) (k : Nat) : Wait :=
  { w with registered := Function.update w.registered k true }

/-- The callback is taken out to be run. -/
def unregister (w : Wait) (k : Nat) : Wait :=
  { w with registered := Function.update w.registered k false }

def requestStop (w : Wait) (k : Nat) : Wait :=
  { w with stopRequested := Function.update w.stopRequested k true }

/-- `resume_on_runtime`. -/
def resumeOnRuntime (w : Wait) : Wait :=
  if w.resumed then w else { w with resumed := true }.post .resume

/-- The end of `await_suspend`. -/
def load (w : Wait) : Wait := if w.resumed then w.pass else w.goto .suspended

/-- The closure of `resume_on_runtime`. -/
def resume (w : Wait) : Wait :=
  if w.continuation then
    { w with
      continuation := false
      continued := w.continued + 1
      pc := if w.pc = .suspended then .resumed else w.pc }
  else w

end Wait

/-! ## `wait_for_stop` -/

inductive StopWaitResult
  | requested | cancelled

/-- The first token asks to stop, the second one to give up waiting for it. -/
def stopWaitResult : Nat → StopWaitResult
  | 0 => .requested
  | _ => .cancelled

structure StopWait extends Wait where
  result : StopWaitResult := .requested

namespace StopWait

inductive Label
  | run
  | requestStop (k : Nat)
  | stopCallback (k : Nat)
  | runPosted

/-- What is registered for token `k`. -/
def callback (s : StopWait) (k : Nat) : StopWait :=
  { s with result := stopWaitResult k, toWait := s.toWait.resumeOnRuntime }

/-- `await_ready` and `await_suspend`, for `n` tokens. -/
def run (n : Nat) (s : StopWait) : Option StopWait :=
  match s.pc with
  | .ready =>
    if (List.range n).any s.stopRequested then some { s with toWait := s.toWait.pass }
    else some { s with toWait := s.toWait.goto (.checking 0) }
  | .checking k =>
    if n ≤ k then
      some { s with toWait := { s.toWait with continuation := true, pc := .registering 0 } }
    else if s.stopRequested k then
      some { s with result := stopWaitResult k, toWait := s.toWait.pass }
    else some { s with toWait := s.toWait.goto (.checking (k + 1)) }
  | .registering k =>
    if n ≤ k then some { s with toWait := s.toWait.goto .loading }
    else
      let s := if s.stopRequested k then s.callback k else { s with toWait := s.toWait.register k }
      some { s with toWait := s.toWait.goto (.registering (k + 1)) }
  | .loading => some { s with toWait := s.toWait.load }
  | _ => none

def step (n : Nat) (s : StopWait) : Label → Option StopWait
  | .run => run n s
  | .requestStop k => some { s with toWait := s.toWait.requestStop k }
  | .stopCallback k =>
    if s.stopRequested k && s.registered k then
      some ({ s with toWait := s.toWait.unregister k }.callback k)
    else none
  | .runPosted =>
    match s.posted with
    | [] => none
    | _ :: cs => some { s with toWait := { s.toWait with posted := cs }.resume }

def system (n : Nat) : System StopWait Label where
  init s := s = {}
  step := step n

end StopWait

/-- `wait_for_stop` with one token. -/
def waitForStop : System StopWait StopWait.Label := StopWait.system 1

/-- `wait_for_stop` with two tokens. -/
def waitForStopOrCancel : System StopWait StopWait.Label := StopWait.system 2

/-- `await_resume` with two tokens. -/
def StopWait.awaitResume (s : StopWait) : StopWaitResult :=
  if s.stopRequested 0 then .requested
  else if s.stopRequested 1 && !s.resumed then .cancelled
  else s.result

/-! ## `sleep_for` -/

/-- The `uv_timer_t` of `timer_ctx`. -/
inductive Timer
  | absent | active | closing
  deriving DecidableEq

structure Sleep extends Wait where
  timer : Timer := .absent
  completed : Bool := false
  cancelled : Bool := false
  status : Int := 0

namespace Sleep

/-- A closure of the loop is run with what `uv_timer_init` and `uv_timer_start`
will answer. -/
inductive Label
  | run
  | requestStop
  | stopCallback
  | runPosted (initRc startRc : Int)
  | fire

def closeTimer (s : Sleep) : Sleep := if s.timer = .active then { s with timer := .closing } else s

/-- What `fire`, `cancel` and `fail` have in common. -/
def complete (s : Sleep) (cancelled : Bool) (status : Int) : Sleep :=
  if s.completed then s
  else
    let s := { s with completed := true, cancelled := cancelled, status := status }.closeTimer
    { s with toWait := s.toWait.resumeOnRuntime }

def fire (s : Sleep) : Sleep := s.complete s.cancelled 0

def cancel (s : Sleep) : Sleep := s.complete true s.status

def fail (s : Sleep) (rc : Int) : Sleep := s.complete s.cancelled rc

def start (s : Sleep) (initRc startRc : Int) : Sleep :=
  if s.completed then s
  else if initRc < 0 then s.fail initRc
  else
    let s := { s with timer := .active }
    if startRc < 0 then s.closeTimer.fail startRc else s

/-- `await_ready` and `await_suspend`. -/
def run (delay : Int) (stopPossible : Bool) (s : Sleep) : Option Sleep :=
  match s.pc with
  | .ready =>
    if delay ≤ 0 && !s.stopRequested 0 then some { s with toWait := s.toWait.pass }
    else some { s with toWait := s.toWait.goto (.checking 0) }
  | .checking _ =>
    if s.stopRequested 0 then
      some { s with cancelled := true, completed := true, toWait := s.toWait.pass }
    else
      some { s with toWait :=
        { s.toWait with
          continuation := true
          pc := if stopPossible then .registering 0 else .posting } }
  | .registering _ =>
    if s.stopRequested 0 then some { s with toWait := (s.toWait.post .cancel).goto .posting }
    else some { s with toWait := (s.toWait.register 0).goto .posting }
  | .posting => some { s with toWait := (s.toWait.post .start).goto .loading }
  | .loading => some { s with toWait := s.toWait.load }
  | _ => none

def runPosted (s : Sleep) (initRc startRc : Int) : Option Sleep :=
  match s.posted with
  | [] => none
  | c :: cs =>
    let s := { s with toWait := { s.toWait with posted := cs } }
    match c with
    | .start => some (s.start initRc startRc)
    | .cancel => some s.cancel
    | .resume => some { s with toWait := s.toWait.resume }

def step (delay : Int) (stopPossible : Bool) (s : Sleep) : Label → Option Sleep
  | .run => run delay stopPossible s
  | .requestStop =>
    if stopPossible then some { s with toWait := s.toWait.requestStop 0 } else none
  | .stopCallback =>
    if s.stopRequested 0 && s.registered 0 then
      some { s with toWait := (s.toWait.unregister 0).post .cancel }
    else none
  | .runPosted initRc startRc => runPosted s initRc startRc
  | .fire => if s.timer = .active then some s.fire else none

/-- `await_resume`; `none` is an `operation_cancelled`. -/
def awaitResume (s : Sleep) : Option Int :=
  if s.cancelled || s.stopRequested 0 then none else some s.status

end Sleep

def sleepFor (delay : Int) (stopPossible : Bool) : System Sleep Sleep.Label where
  init s := s = {}
  step := Sleep.step delay stopPossible

/-! ## The flag -/

/-- The coroutine goes on once: the resumption is posted at most once, and only
a coroutine which has not passed by itself has anything posted. -/
structure Wait.Sound (w : Wait) : Prop where
  early : w.pc.late = false → w.resumed = false ∧ w.posted = [] ∧ (∀ k, w.registered k = false) ∧
    w.continued = if w.pc = .passed then 1 else 0
  balance : w.pc.late = true → w.continued + w.posted.count .resume = w.resumed.toNat
  continuation : w.pc.late = true → w.continued = 0 → w.continuation = true
  resumed : w.pc = .resumed → w.continued = 1

/-- The final load finds nothing: what the handshake needs. -/
def Wait.Unresumed (w : Wait) : Prop := w.pc = .loading → w.resumed = false

section
variable {w : Wait} {k : Nat} {pc : AwaitPc} {c : Closure}

open Wait

theorem sound_init : Sound {} :=
  ⟨fun _ => ⟨rfl, rfl, fun _ => rfl, rfl⟩, nofun, nofun, nofun⟩

theorem Wait.Sound.continued_le (h : Sound w) : w.continued ≤ 1 := by
  cases hl : w.pc.late with
  | false =>
    rw [(h.early hl).2.2.2]
    split <;> omega
  | true =>
    have hb := h.balance hl
    have hr := Bool.toNat_le w.resumed
    omega

theorem sound_pass (h : Sound w) (hl : w.pc.late = false) (hp : w.pc ≠ .passed) :
    Sound w.pass := by
  obtain ⟨hr, hpost, hreg, hc⟩ := h.early hl
  rw [if_neg hp] at hc
  exact ⟨fun _ => ⟨hr, hpost, hreg, congrArg (· + 1) hc⟩, nofun, nofun, nofun⟩

theorem sound_early (h : Sound w) (hl : w.pc.late = false) (hp : w.pc ≠ .passed)
    (hl' : pc.late = false) (hp' : pc ≠ .passed) : Sound (w.goto pc) := by
  obtain ⟨hr, hpost, hreg, hc⟩ := h.early hl
  rw [if_neg hp] at hc
  refine ⟨fun _ => ⟨hr, hpost, hreg, ?_⟩, fun hlate => ?_, fun hlate => ?_, fun he => ?_⟩
  · show w.continued = if pc = .passed then 1 else 0
    rw [if_neg hp', hc]
  · exact absurd (hlate.symm.trans hl') nofun
  · exact absurd (hlate.symm.trans hl') nofun
  · rw [show pc = .resumed from he] at hl'
    cases hl'

/-- `continuation` is set, and nothing has been registered. -/
theorem sound_armed (h : Sound w) (hl : w.pc.late = false) (hp : w.pc ≠ .passed)
    (hl' : pc.late = true) (hp' : pc ≠ .resumed) :
    Sound { w with continuation := true, pc := pc } := by
  obtain ⟨hr, hpost, hreg, hc⟩ := h.early hl
  rw [if_neg hp] at hc
  refine ⟨fun hearly => ?_, fun _ => ?_, fun _ _ => rfl, fun he => absurd he hp'⟩
  · exact absurd (hl'.symm.trans hearly) nofun
  · show w.continued + w.posted.count .resume = w.resumed.toNat
    rw [hc, hpost, hr]
    rfl

theorem sound_late (h : Sound w) (hl : w.pc.late = true) (hl' : pc.late = true)
    (hp' : pc ≠ .resumed) : Sound (w.goto pc) :=
  ⟨fun hearly => absurd (hl'.symm.trans hearly) nofun, fun _ => h.balance hl,
    fun _ => h.continuation hl, fun he => absurd he hp'⟩

theorem sound_register (h : Sound w) (hl : w.pc.late = true) : Sound (w.register k) :=
  ⟨fun hearly => absurd (hl.symm.trans hearly) nofun, h.balance, h.continuation, h.resumed⟩

theorem sound_unregister (h : Sound w) (hl : w.pc.late = true) : Sound (w.unregister k) :=
  ⟨fun hearly => absurd (hl.symm.trans hearly) nofun, h.balance, h.continuation, h.resumed⟩

theorem sound_requestStop (h : Sound w) : Sound (w.requestStop k) :=
  ⟨h.early, h.balance, h.continuation, h.resumed⟩

theorem sound_post (h : Sound w) (hl : w.pc.late = true) (hc : c ≠ .resume) :
    Sound (w.post c) := by
  refine ⟨fun hearly => absurd (hl.symm.trans hearly) nofun, fun _ => ?_, h.continuation, h.resumed⟩
  show w.continued + (w.posted ++ [c]).count .resume = w.resumed.toNat
  rw [List.count_append, List.count_singleton, if_neg (by simpa using hc)]
  exact h.balance hl

theorem sound_pop {cs : List Closure} (h : Sound w) (hp : w.posted = c :: cs)
    (hc : c ≠ .resume) : Sound { w with posted := cs } := by
  refine ⟨fun hearly => ?_, fun hl => ?_, h.continuation, h.resumed⟩
  · have hnil := (h.early hearly).2.1
    rw [hp] at hnil
    cases hnil
  · have hb := h.balance hl
    rw [hp, List.count_cons, if_neg (by simpa using hc)] at hb
    exact hb

theorem sound_resumeOnRuntime (h : Sound w) (hl : w.pc.late = true) :
    Sound w.resumeOnRuntime := by
  unfold Wait.resumeOnRuntime
  split
  · exact h
  · rename_i hr
    refine ⟨fun hearly => absurd (hl.symm.trans hearly) nofun, fun _ => ?_, h.continuation,
      h.resumed⟩
    have hb := h.balance hl
    rw [Bool.not_eq_true] at hr
    rw [hr] at hb
    show w.continued + (w.posted ++ [Closure.resume]).count Closure.resume = 1
    rw [List.count_append, ← Nat.add_assoc, hb]
    rfl

theorem sound_load (h : Sound w) (hpc : w.pc = .loading) (hr : w.resumed = false) :
    Sound w.load := by
  unfold Wait.load
  rw [hr]
  exact sound_late h (by rw [hpc]; rfl) rfl nofun

/-- A load which finds the flag set lets the coroutine pass beside a resumption
that has been run or posted. -/
theorem load_twice (h : Sound w) (hpc : w.pc = .loading) (hr : w.resumed = true) :
    w.load.continued + w.load.posted.count .resume = 2 := by
  have hb := h.balance (by rw [hpc]; rfl)
  unfold Wait.load
  rw [hr] at hb ⊢
  show w.continued + 1 + w.posted.count .resume = 2
  have hone : w.continued + w.posted.count .resume = 1 := hb
  omega

/-- The posted resumption finds the continuation, and is the only one. -/
theorem sound_resume {cs : List Closure} (h : Sound w) (hp : w.posted = .resume :: cs) :
    Sound { w with posted := cs }.resume ∧
      { w with posted := cs }.resume.continued = 1 ∧ Closure.resume ∉ cs := by
  have hl : w.pc.late = true := by
    cases hl : w.pc.late with
    | true => rfl
    | false =>
      have hnil := (h.early hl).2.1
      rw [hp] at hnil
      cases hnil
  have hb := h.balance hl
  rw [hp, List.count_cons_self] at hb
  have hle := Bool.toNat_le w.resumed
  have hc : w.continued = 0 := by omega
  have hcs : cs.count .resume = 0 := by omega
  have hcont := h.continuation hl hc
  have hlate : ∀ pc : AwaitPc, (if w.pc = .suspended then .resumed else w.pc) = pc →
      pc.late = true := by
    intro pc he
    rw [← he]
    split
    · rfl
    · exact hl
  unfold Wait.resume
  rw [if_pos (by exact hcont)]
  refine ⟨⟨fun hearly => ?_, fun _ => ?_, fun _ h0 => absurd h0 (Nat.succ_ne_zero _), fun _ => ?_⟩,
    ?_, List.count_eq_zero.mp hcs⟩
  · exact absurd ((hlate _ rfl).symm.trans hearly) nofun
  · show w.continued + 1 + cs.count .resume = w.resumed.toNat
    omega
  · show w.continued + 1 = 1
    omega
  · show w.continued + 1 = 1
    omega

/-- The callback for token `k` has been registered. -/
def AwaitPc.Armed (pc : AwaitPc) (k : Nat) : Prop :=
  pc.late = true ∧ ∀ j, pc = .registering j → k < j

theorem resumeOnRuntime_pc (w : Wait) : w.resumeOnRuntime.pc = w.pc := by
  unfold Wait.resumeOnRuntime
  split <;> rfl

theorem resumeOnRuntime_resumed (w : Wait) : w.resumeOnRuntime.resumed = true := by
  unfold Wait.resumeOnRuntime
  split
  · assumption
  · rfl

@[simp] theorem resume_posted (w : Wait) : w.resume.posted = w.posted := by
  unfold Wait.resume
  split <;> rfl

@[simp] theorem resume_registered (w : Wait) : w.resume.registered = w.registered := by
  unfold Wait.resume
  split <;> rfl

@[simp] theorem resume_resumed (w : Wait) : w.resume.resumed = w.resumed := by
  unfold Wait.resume
  split <;> rfl

theorem resume_pc (w : Wait) : w.resume.pc = w.pc ∨
    w.pc = .suspended ∧ w.resume.pc = .resumed := by
  unfold Wait.resume
  split
  · by_cases hp : w.pc = .suspended
    · exact .inr ⟨hp, if_pos hp⟩
    · exact .inl (if_neg hp)
  · exact .inl rfl

/-- A callback which has been registered is still there, or has resumed the wait. -/
structure StopWait.Base (n : Nat) (s : StopWait) : Prop where
  sound : s.toWait.Sound
  posted : ∀ c ∈ s.posted, c = .resume
  heard : ∀ k < n, s.pc.Armed k → s.registered k = true ∨ s.resumed = true

end

namespace StopWait

section
variable {n : Nat} {s t : StopWait} {l : Label}

theorem base_callback {k : Nat} (hs : s.toWait.Sound) (hp : ∀ c ∈ s.posted, c = .resume)
    (hl : s.pc.late = true) : Base n (s.callback k) := by
  refine ⟨sound_resumeOnRuntime hs hl, fun c hc => ?_,
    fun j _ _ => .inr (resumeOnRuntime_resumed _)⟩
  have hc' : c ∈ s.toWait.resumeOnRuntime.posted := hc
  unfold Wait.resumeOnRuntime at hc'
  split at hc'
  · exact hp c hc'
  · rcases List.mem_append.mp hc' with hm | hm
    · exact hp c hm
    · exact List.mem_singleton.mp hm

theorem run_base (hb : Base n s) (hgood : s.Unresumed) (h : run n s = some t) : Base n t := by
  have hs := hb.sound
  unfold run at h
  split at h
  · rename_i hpc
    have hlate : s.pc.late = false := by rw [hpc]; rfl
    have hnp : s.pc ≠ .passed := by rw [hpc]; nofun
    split at h <;> cases h
    · exact ⟨sound_pass hs hlate hnp, hb.posted, fun k _ ha => absurd ha.1 nofun⟩
    · exact ⟨sound_early hs hlate hnp rfl nofun, hb.posted, fun k _ ha => absurd ha.1 nofun⟩
  · rename_i k hpc
    have hlate : s.pc.late = false := by rw [hpc]; rfl
    have hnp : s.pc ≠ .passed := by rw [hpc]; nofun
    split at h
    · cases h
      refine ⟨sound_armed hs hlate hnp rfl nofun, hb.posted, fun j _ ha => ?_⟩
      exact absurd (ha.2 0 rfl) (Nat.not_lt_zero j)
    · split at h <;> cases h
      · exact ⟨sound_pass hs hlate hnp, hb.posted, fun k _ ha => absurd ha.1 nofun⟩
      · exact ⟨sound_early hs hlate hnp rfl nofun, hb.posted, fun k _ ha => absurd ha.1 nofun⟩
  · rename_i k hpc
    have hlate : s.pc.late = true := by rw [hpc]; rfl
    split at h
    · rename_i hn
      cases h
      refine ⟨sound_late hs hlate rfl nofun, hb.posted, fun j hj _ => hb.heard j hj ⟨hlate, ?_⟩⟩
      intro i hi
      cases hpc.symm.trans hi
      exact Nat.lt_of_lt_of_le hj hn
    · cases h
      split
      · have hcb := base_callback (n := n) (k := k) hs hb.posted hlate
        have hcl : (s.callback k).pc.late = true := by
          show s.toWait.resumeOnRuntime.pc.late = true
          rw [resumeOnRuntime_pc]
          exact hlate
        exact ⟨sound_late hcb.sound hcl rfl nofun, hcb.posted,
          fun _ _ _ => .inr (resumeOnRuntime_resumed _)⟩
      · have hreg := sound_register (k := k) hs hlate
        refine ⟨sound_late hreg hlate rfl nofun, hb.posted, fun j hj ha => ?_⟩
        show Function.update s.registered k true j = true ∨ s.resumed = true
        by_cases hjk : j = k
        · subst hjk
          exact .inl (Function.update_self ..)
        · rw [Function.update_of_ne hjk]
          refine hb.heard j hj ⟨hlate, fun i hi => ?_⟩
          cases hpc.symm.trans hi
          have hlt := ha.2 (k + 1) rfl
          omega
  · rename_i hpc
    cases h
    have hr := hgood hpc
    have hlate : s.pc.late = true := by rw [hpc]; rfl
    have hload : s.toWait.load = s.toWait.goto .suspended := by
      unfold Wait.load
      rw [hr]
      rfl
    refine ⟨sound_load hs hpc hr, ?_, fun k hk _ => ?_⟩
    · rw [hload]
      exact hb.posted
    · rw [hload]
      refine hb.heard k hk ⟨hlate, fun j hj => ?_⟩
      cases hpc.symm.trans hj
  · cases h

theorem step_base (hb : Base n s) (hgood : l = .run → s.Unresumed) (h : step n s l = some t) :
    Base n t := by
  cases l with
  | run => exact run_base hb (hgood rfl) h
  | requestStop k =>
    cases h
    exact ⟨sound_requestStop hb.sound, hb.posted, hb.heard⟩
  | stopCallback k =>
    simp only [step] at h
    split at h
    · rename_i hk
      cases h
      have hl : s.pc.late = true := by
        cases hl : s.pc.late with
        | true => rfl
        | false =>
          rw [Bool.and_eq_true, (hb.sound.early hl).2.2.1 k] at hk
          cases hk.2
      exact base_callback (sound_unregister hb.sound hl) hb.posted hl
    · cases h
  | runPosted =>
    simp only [step] at h
    split at h
    · cases h
    · rename_i c cs hp
      cases h
      cases hb.posted c (hp ▸ List.mem_cons_self)
      obtain ⟨hs, _, _⟩ := sound_resume hb.sound hp
      refine ⟨hs, fun c hc => ?_, fun k hk ha => ?_⟩
      · have hc' : c ∈ { s.toWait with posted := cs }.resume.posted := hc
        rw [resume_posted] at hc'
        exact hb.posted c (hp ▸ List.mem_cons_of_mem _ hc')
      · show { s.toWait with posted := cs }.resume.registered k = true ∨
          { s.toWait with posted := cs }.resume.resumed = true
        rw [resume_registered, resume_resumed]
        rcases resume_pc { s.toWait with posted := cs } with he | ⟨he, _⟩
        · exact hb.heard k hk (he ▸ ha)
        · exact hb.heard k hk (show s.pc.Armed k from by rw [show s.pc = .suspended from he]; exact ⟨rfl, nofun⟩)

/-- In a run whose final load finds nothing. -/
def Good (s : StopWait) (l : Label) : Prop := l = .run → s.Unresumed

theorem reachable_base (h : ReachableBy (system n) Good s) : Base n s := by
  refine h.invariant (fun s hs => ?_) fun s l t _ hb hg hs => step_base hb hg hs
  cases hs
  exact ⟨sound_init, nofun, fun k _ ha => absurd ha.1 nofun⟩

/-- Nothing but a stop request is left to happen. -/
def Settled (n : Nat) (s : StopWait) : Prop := ∀ l, (∀ k, l ≠ .requestStop k) → step n s l = none

/-- A coroutine whose stop has been requested does not stay suspended. -/
theorem continued_of_settled (hb : Base n s) (hq : Settled n s) {k : Nat} (hk : k < n)
    (hstop : s.stopRequested k = true) : s.continued = 1 := by
  have hrun : run n s = none := hq .run fun _ => nofun
  have hposted : s.posted = [] := by
    have hp := hq .runPosted fun _ => nofun
    simp only [step] at hp
    split at hp
    · assumption
    · cases hp
  have hwaits : s.pc.Armed k → s.continued = 1 := by
    intro ha
    have hr : s.resumed = true := by
      rcases hb.heard k hk ha with hreg | hr
      · have hcb := hq (.stopCallback k) fun _ => nofun
        simp [step, hstop, hreg] at hcb
      · exact hr
    have hbal := hb.sound.balance ha.1
    rw [hposted, hr] at hbal
    exact hbal
  cases hpc : s.pc with
  | passed => exact (hb.sound.early (by rw [hpc]; rfl)).2.2.2.trans (if_pos hpc)
  | resumed => exact hb.sound.resumed hpc
  | suspended => exact hwaits ⟨by rw [hpc]; rfl, fun j hj => by rw [hpc] at hj; cases hj⟩
  | posting => exact hwaits ⟨by rw [hpc]; rfl, fun j hj => by rw [hpc] at hj; cases hj⟩
  | _ =>
    simp only [run, hpc] at hrun
    repeat' split at hrun
    all_goals cases hrun

end

end StopWait

namespace Sleep

/-- `start` has been posted. -/
def Started (pc : AwaitPc) : Prop := pc = .loading ∨ pc = .suspended ∨ pc = .resumed

/-- A wait whose `start` has been posted is on its way: the closure is queued, the
timer is running, or it is completed, which resumes it. -/
structure Base (s : Sleep) : Prop where
  sound : s.toWait.Sound
  fresh : s.pc.late = false → s.timer = .absent ∧ (s.pc ≠ .passed → s.completed = false)
  resumed : s.pc.late = true → s.completed = true → s.resumed = true
  started : Started s.pc → Closure.start ∈ s.posted ∨ s.timer = .active ∨ s.completed = true

section
variable {delay : Int} {stopPossible : Bool} {s t : Sleep} {l : Label}

theorem complete_base {cancelled : Bool} {status : Int} (hs : s.toWait.Sound)
    (hl : s.pc.late = true) (hr : s.completed = true → s.resumed = true) :
    Base (s.complete cancelled status) := by
  unfold Sleep.complete
  split
  · rename_i hc
    exact ⟨hs, fun hearly => absurd (hl.symm.trans hearly) nofun, fun _ => hr,
      fun _ => .inr (.inr hc)⟩
  · dsimp only
    have hw : ({ s with completed := true, cancelled := cancelled, status := status } :
        Sleep).closeTimer.toWait = s.toWait := by
      unfold Sleep.closeTimer
      split <;> rfl
    have hc : ({ s with completed := true, cancelled := cancelled, status := status } :
        Sleep).closeTimer.completed = true := by
      unfold Sleep.closeTimer
      split <;> rfl
    rw [hw]
    refine ⟨sound_resumeOnRuntime hs hl, fun hearly => ?_, fun _ _ => resumeOnRuntime_resumed _,
      fun _ => .inr (.inr hc)⟩
    have he : s.toWait.resumeOnRuntime.pc.late = false := hearly
    rw [resumeOnRuntime_pc, hl] at he
    cases he

theorem start_base {initRc startRc : Int} (hs : s.toWait.Sound) (hl : s.pc.late = true)
    (hr : s.completed = true → s.resumed = true) : Base (s.start initRc startRc) := by
  unfold Sleep.start
  split
  · rename_i hc
    exact ⟨hs, fun hearly => absurd (hl.symm.trans hearly) nofun, fun _ => hr,
      fun _ => .inr (.inr hc)⟩
  · split
    · exact complete_base hs hl hr
    · dsimp only
      split
      · exact complete_base (s := { s with timer := .closing }) hs hl hr
      · exact ⟨hs, fun hearly => absurd (hl.symm.trans hearly) nofun, fun _ => hr,
          fun _ => .inr (.inl rfl)⟩

theorem run_base (hb : Base s) (hgood : s.Unresumed)
    (h : run delay stopPossible s = some t) : Base t := by
  have hs := hb.sound
  unfold run at h
  split at h
  · rename_i hpc
    have hlate : s.pc.late = false := by rw [hpc]; rfl
    have hnp : s.pc ≠ .passed := by rw [hpc]; nofun
    obtain ⟨htimer, hc⟩ := hb.fresh hlate
    split at h <;> cases h
    · exact ⟨sound_pass hs hlate hnp, fun _ => ⟨htimer, fun hn => absurd rfl hn⟩, nofun, nofun⟩
    · exact ⟨sound_early hs hlate hnp rfl nofun, fun _ => ⟨htimer, fun _ => hc hnp⟩, nofun, nofun⟩
  · rename_i k hpc
    have hlate : s.pc.late = false := by rw [hpc]; rfl
    have hnp : s.pc ≠ .passed := by rw [hpc]; nofun
    obtain ⟨htimer, hc⟩ := hb.fresh hlate
    split at h <;> cases h
    · exact ⟨sound_pass hs hlate hnp, fun _ => ⟨htimer, fun hn => absurd rfl hn⟩, nofun, nofun⟩
    · cases stopPossible with
      | true =>
        exact ⟨sound_armed hs hlate hnp rfl nofun, nofun,
          fun _ hcomp => absurd (hcomp.symm.trans (hc hnp)) nofun, nofun⟩
      | false =>
        exact ⟨sound_armed hs hlate hnp rfl nofun, nofun,
          fun _ hcomp => absurd (hcomp.symm.trans (hc hnp)) nofun, nofun⟩
  · rename_i k hpc
    have hlate : s.pc.late = true := by rw [hpc]; rfl
    split at h <;> cases h
    · exact ⟨sound_late (sound_post hs hlate nofun) hlate rfl nofun, nofun,
        fun _ => hb.resumed hlate, nofun⟩
    · exact ⟨sound_late (sound_register hs hlate) hlate rfl nofun, nofun,
        fun _ => hb.resumed hlate, nofun⟩
  · rename_i hpc
    have hlate : s.pc.late = true := by rw [hpc]; rfl
    cases h
    exact ⟨sound_late (sound_post hs hlate nofun) hlate rfl nofun, nofun,
      fun _ => hb.resumed hlate,
      fun _ => .inl (List.mem_append_right _ (List.mem_singleton_self _))⟩
  · rename_i hpc
    cases h
    have hr := hgood hpc
    have hlate : s.pc.late = true := by rw [hpc]; rfl
    have hload : s.toWait.load = s.toWait.goto .suspended := by
      unfold Wait.load
      rw [hr]
      rfl
    refine ⟨sound_load hs hpc hr, ?_, ?_, ?_⟩
    · rw [hload]
      exact nofun
    · rw [hload]
      exact fun _ => hb.resumed hlate
    · rw [hload]
      exact fun _ => hb.started (.inl hpc)
  · cases h

theorem late_of_posted (hb : Base s) {c : Closure} {cs : List Closure} (hp : s.posted = c :: cs) :
    s.pc.late = true := by
  cases hl : s.pc.late with
  | true => rfl
  | false =>
    have hnil := (hb.sound.early hl).2.1
    rw [hp] at hnil
    cases hnil

theorem runPosted_base {initRc startRc : Int} (hb : Base s)
    (h : runPosted s initRc startRc = some t) : Base t := by
  unfold runPosted at h
  split at h
  · cases h
  · rename_i c cs hp
    have hl := late_of_posted hb hp
    cases c with
    | start =>
      cases h
      exact start_base (sound_pop hb.sound hp nofun) hl (hb.resumed hl)
    | cancel =>
      cases h
      exact complete_base (sound_pop hb.sound hp nofun) hl (hb.resumed hl)
    | resume =>
      cases h
      obtain ⟨hs, _, _⟩ := sound_resume hb.sound hp
      have hlate : { s.toWait with posted := cs }.resume.pc.late = true := by
        rcases resume_pc { s.toWait with posted := cs } with he | ⟨_, he⟩
        · rw [he]
          exact hl
        · rw [he]
          rfl
      refine ⟨hs, fun hearly => absurd (hlate.symm.trans hearly) nofun, fun _ hc => ?_,
        fun hst => ?_⟩
      · exact (resume_resumed _).trans (hb.resumed hl hc)
      · have hold : Started s.pc := by
          rcases resume_pc { s.toWait with posted := cs } with he | ⟨he, _⟩
          · exact he ▸ hst
          · exact .inr (.inl he)
        rcases hb.started hold with hm | hrest
        · rw [hp] at hm
          refine .inl ?_
          show Closure.start ∈ { s.toWait with posted := cs }.resume.posted
          rw [resume_posted]
          exact (List.mem_cons.mp hm).resolve_left nofun
        · exact .inr hrest

theorem step_base (hb : Base s) (hgood : l = .run → s.Unresumed)
    (h : step delay stopPossible s l = some t) : Base t := by
  cases l with
  | run => exact run_base hb (hgood rfl) h
  | requestStop =>
    simp only [step] at h
    split at h <;> cases h
    exact ⟨sound_requestStop hb.sound, hb.fresh, hb.resumed, hb.started⟩
  | stopCallback =>
    simp only [step] at h
    split at h
    · rename_i hk
      cases h
      have hl : s.pc.late = true := by
        cases hl : s.pc.late with
        | true => rfl
        | false =>
          rw [Bool.and_eq_true, (hb.sound.early hl).2.2.1 0] at hk
          cases hk.2
      refine ⟨sound_post (sound_unregister hb.sound hl) hl nofun, hb.fresh, hb.resumed,
        fun hst => ?_⟩
      rcases hb.started hst with hm | hrest
      · exact .inl (List.mem_append_left _ hm)
      · exact .inr hrest
    · cases h
  | runPosted initRc startRc => exact runPosted_base hb h
  | fire =>
    simp only [step] at h
    split at h
    · rename_i htimer
      cases h
      have hl : s.pc.late = true := by
        cases hl : s.pc.late with
        | true => rfl
        | false =>
          rw [(hb.fresh hl).1] at htimer
          cases htimer
      exact complete_base hb.sound hl (hb.resumed hl)
    · cases h

/-- In a run whose final load finds nothing. -/
def Good (s : Sleep) (l : Label) : Prop := l = .run → s.Unresumed

theorem reachable_base (h : ReachableBy (sleepFor delay stopPossible) Good s) : Base s := by
  refine h.invariant (fun s hs => ?_) fun s l t _ hb hg hs => step_base hb hg hs
  cases hs
  exact ⟨sound_init, fun _ => ⟨rfl, fun _ => rfl⟩, nofun, nofun⟩

/-- Nothing but a stop request is left to happen. -/
def Settled (delay : Int) (stopPossible : Bool) (s : Sleep) : Prop :=
  ∀ l, l ≠ .requestStop → step delay stopPossible s l = none

/-- A coroutine does not sleep on once the timer has fired. -/
theorem continued_of_settled (hb : Base s) (hq : Settled delay stopPossible s) :
    s.continued = 1 := by
  have hrun : run delay stopPossible s = none := hq .run nofun
  have hposted : s.posted = [] := by
    have hp : runPosted s 0 0 = none := hq (.runPosted 0 0) nofun
    unfold runPosted at hp
    split at hp
    · assumption
    · rename_i c cs _
      cases c <;> cases hp
  cases hpc : s.pc with
  | passed => exact (hb.sound.early (by rw [hpc]; rfl)).2.2.2.trans (if_pos hpc)
  | resumed => exact hb.sound.resumed hpc
  | suspended =>
    have hlate : s.pc.late = true := by rw [hpc]; rfl
    have hr : s.resumed = true := by
      rcases hb.started (.inr (.inl hpc)) with hm | htimer | hc
      · rw [hposted] at hm
        cases hm
      · have hfire := hq .fire nofun
        simp [step, htimer] at hfire
      · exact hb.resumed hlate hc
    have hbal := hb.sound.balance hlate
    rw [hposted, hr] at hbal
    exact hbal
  | _ =>
    simp only [run, hpc] at hrun
    repeat' split at hrun
    all_goals cases hrun

end

end Sleep

/-! ## The coroutine goes on once -/

/-- In every run whose final load of `resumed` finds it unset, the coroutine goes
on at most once, and it has gone on when nothing is left to be done about its
stop requests, or its timer. -/
theorem handshake_once {n : Nat} {delay : Int} {stopPossible : Bool} {s : StopWait}
    {t : Sleep}
    (hs : ReachableBy (StopWait.system n) StopWait.Good s)
    (ht : ReachableBy (sleepFor delay stopPossible) Sleep.Good t) :
    (s.continued ≤ 1 ∧
      (StopWait.Settled n s → ∀ k < n, s.stopRequested k = true → s.continued = 1)) ∧
    t.continued ≤ 1 ∧ (Sleep.Settled delay stopPossible t → t.continued = 1) := by
  have hb := StopWait.reachable_base hs
  have hc := Sleep.reachable_base ht
  constructor
  · exact ⟨hb.sound.continued_le, fun hq k hk hstop => StopWait.continued_of_settled hb hq hk hstop⟩
  · exact ⟨hc.sound.continued_le, fun hq => Sleep.continued_of_settled hc hq⟩

/-- A stop request after `await_suspend`, and a sleep of a millisecond. -/
theorem handshake_once_resumed : ∃ (s : StopWait) (t : Sleep), s.continued = 1 ∧
    t.continued = 1 ∧ s.continued ≤ 1 ∧ t.continued ≤ 1 := by
  have h0 : ReachableBy waitForStop StopWait.Good {} := .init rfl
  have h1 := h0.step (l := .run) (fun _ _ => rfl) rfl
  have h2 := h1.step (l := .run) (fun _ _ => rfl) rfl
  have h3 := h2.step (l := .run) (fun _ _ => rfl) rfl
  have h4 := h3.step (l := .run) (fun _ _ => rfl) rfl
  have h5 := h4.step (l := .run) (fun _ _ => rfl) rfl
  have h6 := h5.step (l := .run) (fun _ _ => rfl) rfl
  have h7 := h6.step (l := .requestStop 0) nofun rfl
  have h8 := h7.step (l := .stopCallback 0) nofun rfl
  have h9 := h8.step (l := .runPosted) nofun rfl
  have k0 : ReachableBy (sleepFor 1 false) Sleep.Good {} := .init rfl
  have k1 := k0.step (l := .run) (fun _ _ => rfl) rfl
  have k2 := k1.step (l := .run) (fun _ _ => rfl) rfl
  have k3 := k2.step (l := .run) (fun _ _ => rfl) rfl
  have k4 := k3.step (l := .run) (fun _ _ => rfl) rfl
  have k5 := k4.step (l := .runPosted 0 0) nofun rfl
  have k6 := k5.step (l := .fire) nofun rfl
  have k7 := k6.step (l := .runPosted 0 0) nofun rfl
  exact ⟨_, _, rfl, rfl, (handshake_once h9 k7).1.1, (handshake_once h9 k7).2.1⟩

/-- The stop is requested between the check and the registration: `await_suspend`
lets the coroutine go on, and the posted closure resumes it again. -/
theorem stopped_while_registering : ∃ s, Reachable waitForStop s ∧ s.continued = 2 := by
  have h0 : Reachable waitForStop {} := .init rfl
  have h := h0.run (show run waitForStop {} [.run, .run, .run, .requestStop 0, .run, .run, .run,
    .runPosted] = some _ from rfl)
  exact ⟨_, h, rfl⟩

end LuvCoro.Runtime
