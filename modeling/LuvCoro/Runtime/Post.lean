import Mathlib.Data.List.Nodup
import Mathlib.Logic.Function.Basic
import LuvCoro.Lib.Transition

/-! # `uv_runtime::post`, `drain` and the destructor

Translated from `src/runtime.cpp`. Closures are pushed to `queue_` under its lock
by any thread and run by the loop thread, which a wake-up of `async_` sends into
`drain`. The lock is held for one step; everything between two locks, and
`uv_async_send`, is a step of its own. -/
namespace LuvCoro.Runtime

open Transition

abbrev CallId := Nat

/-- The closure of a call of `post`, or the one the destructor pushes, which
closes all handles. -/
inductive Job
  | call (i : CallId)
  | close
  deriving DecidableEq

/-- A call of `post`: `failed` is an error of `uv_async_send`. -/
inductive CallPc
  | new | pushed | returned | rejected | failed
  deriving DecidableEq

inductive DestructorPc
  | notCalled | flagged | pushed | sent | joined
  deriving DecidableEq

/-- The loop thread: in `uv_run`; in `drain` before the lock; at the head of its
loop, with what is left in `local`; or in a closure. -/
inductive LoopPc
  | idle
  | waking
  | draining (batch : List Job)
  | running (job : Job) (batch : List Job)

/-- `pending` and `closed` are the state of `async_`. `pushes` and `ran` record
the pushes, and the closures that have been begun. -/
structure UvRuntime where
  queue : List Job := []
  shuttingDown : Bool := false
  pending : Bool := false
  closed : Bool := false
  loop : LoopPc := .idle
  call : CallId → CallPc := fun _ => .new
  destructor : DestructorPc := .notCalled
  pushes : List Job := []
  ran : List Job := []

inductive Label
  | post (i : CallId)
  | send (i : CallId) (rc : Int)
  | shutdown | pushClose | sendClose | join
  | onAsync | swap | runNext | finish | endDrain

/-- The steps of the loop thread. -/
def Label.isLoop : Label → Bool
  | .onAsync | .swap | .runNext | .finish | .endDrain => true
  | _ => false

def UvRuntime.push (s : UvRuntime) (j : Job) : UvRuntime :=
  { s with queue := s.queue ++ [j], pushes := s.pushes ++ [j] }

def UvRuntime.setCall (s : UvRuntime) (i : CallId) (pc : CallPc) : UvRuntime :=
  { s with call := Function.update s.call i pc }

/-- The locked section of `post`. -/
def post (s : UvRuntime) (i : CallId) : Option UvRuntime :=
  if s.call i = .new then
    if s.shuttingDown then some (s.setCall i .rejected)
    else some ((s.push (.call i)).setCall i .pushed)
  else none

/-- `uv_async_send`, and the end of `post`. -/
def send (s : UvRuntime) (i : CallId) (rc : Int) : Option UvRuntime :=
  if s.call i = .pushed then
    if rc < 0 then some (s.setCall i .failed)
    else some ({ s with pending := true }.setCall i .returned)
  else none

/-- The steps of `~uv_runtime`. -/
def shutdown (s : UvRuntime) : Option UvRuntime :=
  if s.destructor = .notCalled then
    some { s with shuttingDown := true, destructor := .flagged }
  else none

def pushClose (s : UvRuntime) : Option UvRuntime :=
  if s.destructor = .flagged then some { s.push .close with destructor := .pushed } else none

def sendClose (s : UvRuntime) : Option UvRuntime :=
  if s.destructor = .pushed then some { s with pending := true, destructor := .sent } else none

def join (s : UvRuntime) : Option UvRuntime :=
  match s.loop with
  | .idle => if s.destructor = .sent ∧ s.closed then some { s with destructor := .joined } else none
  | _ => none

/-- libuv takes the wake-up and calls `on_async`. -/
def onAsync (s : UvRuntime) : Option UvRuntime :=
  match s.loop with
  | .idle => if s.pending ∧ !s.closed then some { s with pending := false, loop := .waking } else none
  | _ => none

def swap (s : UvRuntime) : Option UvRuntime :=
  match s.loop with
  | .waking => some { s with queue := [], loop := .draining s.queue }
  | _ => none

def runNext (s : UvRuntime) : Option UvRuntime :=
  match s.loop with
  | .draining (j :: batch) => some { s with loop := .running j batch, ran := s.ran ++ [j] }
  | _ => none

/-- The closure returns; the destructor's has closed `async_`. -/
def finish (s : UvRuntime) : Option UvRuntime :=
  match s.loop with
  | .running j batch => some { s with loop := .draining batch, closed := s.closed || j == .close }
  | _ => none

def endDrain (s : UvRuntime) : Option UvRuntime :=
  match s.loop with
  | .draining [] => some { s with loop := .idle }
  | _ => none

def step (s : UvRuntime) : Label → Option UvRuntime
  | .post i => post s i
  | .send i rc => send s i rc
  | .shutdown => shutdown s
  | .pushClose => pushClose s
  | .sendClose => sendClose s
  | .join => join s
  | .onAsync => onAsync s
  | .swap => swap s
  | .runNext => runNext s
  | .finish => finish s
  | .endDrain => endDrain s

def system : System UvRuntime Label where
  init s := s = {}
  step := step

/-- `local` in `drain`. -/
def LoopPc.batch : LoopPc → List Job
  | .draining batch | .running _ batch => batch
  | _ => []

/-- The closures that are still to be run, in order. -/
def UvRuntime.waiting (s : UvRuntime) : List Job := s.loop.batch ++ s.queue

/-! ## What holds in every reachable state -/

structure Base (s : UvRuntime) : Prop where
  order : s.ran ++ s.waiting = s.pushes
  nodup : s.pushes.Nodup
  accepted : ∀ i, .call i ∈ s.pushes ↔ s.call i ≠ .new ∧ s.call i ≠ .rejected
  shuttingDown : s.shuttingDown = true ↔ s.destructor ≠ .notCalled
  closing : .close ∈ s.pushes ↔ s.destructor ≠ .notCalled ∧ s.destructor ≠ .flagged
  last : ∀ l r, s.pushes = l ++ .close :: r → r = []
  running : ∀ j batch, s.loop = .running j batch → ∃ l, s.ran = l ++ [j]
  closed : s.closed = true → s.waiting = [] ∧ .close ∈ s.pushes
  woken : ∀ i, s.call i = .returned → .call i ∈ s.queue → s.pending = true ∨ s.loop = .waking

section
variable {s t : UvRuntime} {i : CallId} {j : Job} {l : Label}

theorem base_init : Base {} := by
  refine ⟨rfl, List.nodup_nil, fun i => ?_, ?_, ?_, ?_, nofun, nofun, nofun⟩
  · exact ⟨nofun, fun h => absurd rfl h.1⟩
  · exact ⟨nofun, fun h => absurd rfl h⟩
  · exact ⟨nofun, fun h => absurd rfl h.1⟩
  · intro l r h
    cases l <;> cases h

@[simp] theorem waiting_push (s : UvRuntime) (j : Job) :
    (s.push j).waiting = s.waiting ++ [j] := by
  simp [UvRuntime.waiting, UvRuntime.push, List.append_assoc]

@[simp] theorem push_call (s : UvRuntime) (j : Job) : (s.push j).call = s.call := rfl

@[simp] theorem push_destructor (s : UvRuntime) (j : Job) :
    (s.push j).destructor = s.destructor := rfl

@[simp] theorem setCall_destructor (s : UvRuntime) (i : CallId) (pc : CallPc) :
    (s.setCall i pc).destructor = s.destructor := rfl

@[simp] theorem setCall_pushes (s : UvRuntime) (i : CallId) (pc : CallPc) :
    (s.setCall i pc).pushes = s.pushes := rfl

theorem setCall_self (s : UvRuntime) (i : CallId) (pc : CallPc) : (s.setCall i pc).call i = pc :=
  Function.update_self ..

theorem setCall_of_ne (s : UvRuntime) (pc : CallPc) {i j : CallId} (h : j ≠ i) :
    (s.setCall i pc).call j = s.call j := Function.update_of_ne h ..

theorem waiting_subset (hb : Base s) (hj : j ∈ s.waiting) : j ∈ s.pushes :=
  hb.order ▸ List.mem_append_right _ hj

/-- A push is behind all others, and none comes after that of the destructor. -/
theorem ordered_push (hb : Base s) (hj : j ∉ s.pushes) (hlast : .close ∉ s.pushes) :
    s.ran ++ (s.push j).waiting = (s.push j).pushes ∧ (s.push j).pushes.Nodup ∧
      ∀ l r, (s.push j).pushes = l ++ .close :: r → r = [] := by
  refine ⟨?_, ?_, fun l r h => ?_⟩
  · rw [waiting_push, ← List.append_assoc, hb.order]
    rfl
  · refine List.nodup_append.mpr ⟨hb.nodup, List.nodup_singleton j, fun a ha b hm he => ?_⟩
    rw [List.mem_singleton] at hm
    rw [he, hm] at ha
    exact hj ha
  · have h' : s.pushes ++ [j] = l ++ .close :: r := h
    rcases List.eq_nil_or_concat r with hr | ⟨r', k, hr⟩
    · exact hr
    · subst hr
      have hsplit : s.pushes = l ++ .close :: r' := by
        rw [List.concat_eq_append, ← List.cons_append, ← List.append_assoc] at h'
        exact (List.append_inj' h' rfl).1
      exact absurd (hsplit ▸ List.mem_append_right _ List.mem_cons_self) hlast

/-- No closure is pushed behind the destructor's, so none can be while it is
waiting to be pushed or has run. -/
theorem base_push (hb : Base s) (hj : j ∉ s.pushes) (hlast : .close ∉ s.pushes)
    (ht : t = { s.push j with call := t.call, destructor := t.destructor })
    (haccepted : ∀ i, .call i ∈ t.pushes ↔ t.call i ≠ .new ∧ t.call i ≠ .rejected)
    (hflag : t.shuttingDown = true ↔ t.destructor ≠ .notCalled)
    (hclosing : .close ∈ t.pushes ↔ t.destructor ≠ .notCalled ∧ t.destructor ≠ .flagged)
    (hreturned : ∀ i, t.call i = .returned → s.call i = .returned ∧ .call i ≠ j) : Base t := by
  obtain ⟨horder, hnodup, hend⟩ := ordered_push hb hj hlast
  have hw : t.waiting = (s.push j).waiting := by rw [ht]; rfl
  have hp : t.pushes = (s.push j).pushes := by rw [ht]
  have hr : t.ran = s.ran := by rw [ht]; rfl
  have hq : t.queue = s.queue ++ [j] := by rw [ht]; rfl
  have hl : t.loop = s.loop := by rw [ht]; rfl
  have hpend : t.pending = s.pending := by rw [ht]; rfl
  have hcl : t.closed = s.closed := by rw [ht]; rfl
  refine ⟨?_, hp ▸ hnodup, haccepted, hflag, hclosing, hp ▸ hend, ?_, fun hc => ?_, fun i hi hm => ?_⟩
  · rw [hr, hw, hp]
    exact horder
  · rw [hl, hr]
    exact hb.running
  · exact absurd (hb.closed (hcl ▸ hc)).2 hlast
  · rw [hpend, hl]
    obtain ⟨hret, hne⟩ := hreturned i hi
    rw [hq] at hm
    rcases List.mem_append.mp hm with hm | hm
    · exact hb.woken i hret hm
    · exact absurd (List.mem_singleton.mp hm) hne

theorem post_base (hb : Base s) (h : post s i = some t) : Base t := by
  unfold post at h
  split at h
  · rename_i hnew
    have hfresh : .call i ∉ s.pushes := fun hm => ((hb.accepted i).mp hm).1 hnew
    split at h <;> cases h
    · refine { hb with accepted := fun k => ?_, woken := fun k hk hm => ?_ }
      · by_cases hki : k = i
        · subst hki
          rw [setCall_self]
          exact ⟨fun hm => absurd hm hfresh, fun hn => absurd rfl hn.2⟩
        · rw [setCall_of_ne s _ hki]
          exact hb.accepted k
      · by_cases hki : k = i
        · subst hki
          rw [setCall_self] at hk
          cases hk
        · rw [setCall_of_ne s _ hki] at hk
          exact hb.woken k hk hm
    · rename_i hdown
      have hdtor : s.destructor = .notCalled := by
        by_contra hne
        exact hdown (hb.shuttingDown.mpr hne)
      have hclose : .close ∉ s.pushes := fun hm => (hb.closing.mp hm).1 hdtor
      refine base_push hb hfresh hclose rfl (fun k => ?_) hb.shuttingDown ?_ fun k hk => ?_
      · show .call k ∈ s.pushes ++ [.call i] ↔ _
        by_cases hki : k = i
        · subst hki
          rw [setCall_self]
          simp
        · rw [setCall_of_ne _ _ hki]
          simpa [hki] using hb.accepted k
      · show .close ∈ s.pushes ++ [.call i] ↔ _
        simpa using hb.closing
      · by_cases hki : k = i
        · subst hki
          rw [setCall_self] at hk
          cases hk
        · rw [setCall_of_ne _ _ hki] at hk
          exact ⟨hk, fun he => hki (Job.call.inj he)⟩
  · cases h

theorem send_base {rc : Int} (hb : Base s) (h : send s i rc = some t) : Base t := by
  unfold send at h
  split at h
  · rename_i hpushed
    split at h <;> cases h
    · refine { hb with accepted := fun k => ?_, woken := fun k hk hm => ?_ }
      · have ha := hb.accepted k
        by_cases hki : k = i
        · subst hki
          rw [hpushed] at ha
          rw [setCall_self]
          simpa using ha
        · rw [setCall_of_ne s _ hki]
          exact ha
      · by_cases hki : k = i
        · subst hki
          rw [setCall_self] at hk
          cases hk
        · rw [setCall_of_ne s _ hki] at hk
          exact hb.woken k hk hm
    · refine { hb with accepted := fun k => ?_, woken := fun _ _ _ => .inl rfl }
      have ha := hb.accepted k
      by_cases hki : k = i
      · subst hki
        rw [hpushed] at ha
        rw [setCall_self]
        simpa using ha
      · rw [setCall_of_ne _ _ hki]
        exact ha
  · cases h

theorem shutdown_base (hb : Base s) (h : shutdown s = some t) : Base t := by
  unfold shutdown at h
  split at h <;> cases h
  rename_i hd
  have hc := hb.closing
  rw [hd] at hc
  exact { hb with
    shuttingDown := ⟨fun _ => nofun, fun _ => rfl⟩
    closing := ⟨fun hm => absurd rfl (hc.mp hm).1, fun hn => absurd rfl hn.2⟩ }

theorem pushClose_base (hb : Base s) (h : pushClose s = some t) : Base t := by
  unfold pushClose at h
  split at h <;> cases h
  rename_i hd
  have hclose : .close ∉ s.pushes := fun hm => (hb.closing.mp hm).2 hd
  refine base_push hb hclose hclose rfl (fun k => ?_) ?_ ?_ fun k hk => ⟨hk, nofun⟩
  · show .call k ∈ s.pushes ++ [.close] ↔ _
    simpa using hb.accepted k
  · have hs := hb.shuttingDown
    rw [hd] at hs
    exact ⟨fun _ => nofun, fun _ => hs.mpr nofun⟩
  · show .close ∈ s.pushes ++ [.close] ↔ _
    simp

theorem sendClose_base (hb : Base s) (h : sendClose s = some t) : Base t := by
  unfold sendClose at h
  split at h <;> cases h
  rename_i hd
  have hs := hb.shuttingDown
  have hc := hb.closing
  rw [hd] at hs hc
  exact { hb with
    shuttingDown := ⟨fun _ => nofun, fun _ => hs.mpr nofun⟩
    closing := ⟨fun _ => ⟨nofun, nofun⟩, fun _ => hc.mpr ⟨nofun, nofun⟩⟩
    woken := fun _ _ _ => .inl rfl }

theorem join_base (hb : Base s) (h : join s = some t) : Base t := by
  unfold join at h
  split at h
  · split at h <;> cases h
    rename_i hd
    have hs := hb.shuttingDown
    have hc := hb.closing
    rw [hd.1] at hs hc
    exact { hb with
      shuttingDown := ⟨fun _ => nofun, fun _ => hs.mpr nofun⟩
      closing := ⟨fun _ => ⟨nofun, nofun⟩, fun _ => hc.mpr ⟨nofun, nofun⟩⟩ }
  · cases h

theorem onAsync_base (hb : Base s) (h : onAsync s = some t) : Base t := by
  unfold onAsync at h
  split at h
  · rename_i hl
    split at h <;> cases h
    have hw : s.waiting = s.queue := by
      unfold UvRuntime.waiting
      rw [hl]
      rfl
    refine { hb with
      order := ?_, running := nofun, closed := fun hc => ?_, woken := fun _ _ _ => .inr rfl }
    · exact hw ▸ hb.order
    · exact hw ▸ hb.closed hc
  · cases h

theorem swap_base (hb : Base s) (h : swap s = some t) : Base t := by
  unfold swap at h
  split at h
  · rename_i hl
    cases h
    have hw : s.waiting = s.queue := by
      unfold UvRuntime.waiting
      rw [hl]
      rfl
    have hw' : { s with queue := [], loop := .draining s.queue : UvRuntime }.waiting = s.queue :=
      List.append_nil _
    refine { hb with order := ?_, running := nofun, closed := fun hc => ?_, woken := nofun }
    · rw [hw']
      exact hw ▸ hb.order
    · rw [hw']
      exact hw ▸ hb.closed hc
  · cases h

theorem runNext_base (hb : Base s) (h : runNext s = some t) : Base t := by
  unfold runNext at h
  split at h
  · rename_i j batch hl
    cases h
    have hw : s.waiting = j :: (batch ++ s.queue) := by
      unfold UvRuntime.waiting
      rw [hl]
      rfl
    refine { hb with order := ?_, running := fun k b hk => ?_, closed := fun hc => ?_, woken := ?_ }
    · have ho := hb.order
      rw [hw] at ho
      simpa [UvRuntime.waiting, LoopPc.batch] using ho
    · cases hk
      exact ⟨s.ran, rfl⟩
    · have hnil := (hb.closed hc).1
      rw [hw] at hnil
      cases hnil
    · intro k hk hm
      rcases hb.woken k hk hm with hp | hp
      · exact .inl hp
      · rw [hl] at hp
        cases hp
  · cases h

/-- The destructor's closure is the last one. -/
theorem finish_base (hb : Base s) (h : finish s = some t) : Base t := by
  unfold finish at h
  split at h
  · rename_i j batch hl
    cases h
    have hw : s.waiting = batch ++ s.queue := by
      unfold UvRuntime.waiting
      rw [hl]
      rfl
    refine { hb with order := ?_, running := nofun, closed := fun hc => ?_, woken := ?_ }
    · show s.ran ++ (batch ++ s.queue) = s.pushes
      rw [← hw]
      exact hb.order
    · show batch ++ s.queue = [] ∧ _
      rw [Bool.or_eq_true, beq_iff_eq] at hc
      rcases hc with hc | rfl
      · rw [← hw]
        exact hb.closed hc
      · obtain ⟨l, hran⟩ := hb.running _ _ hl
        have ho := hb.order
        rw [hran, hw, List.append_assoc] at ho
        exact ⟨hb.last _ _ ho.symm, ho ▸ List.mem_append_right _ List.mem_cons_self⟩
    · intro k hk hm
      rcases hb.woken k hk hm with hp | hp
      · exact .inl hp
      · rw [hl] at hp
        cases hp
  · cases h

theorem endDrain_base (hb : Base s) (h : endDrain s = some t) : Base t := by
  unfold endDrain at h
  split at h
  · rename_i hl
    cases h
    have hw : s.waiting = s.queue := by
      unfold UvRuntime.waiting
      rw [hl]
      rfl
    refine { hb with order := ?_, running := nofun, closed := fun hc => ?_, woken := ?_ }
    · exact hw ▸ hb.order
    · exact hw ▸ hb.closed hc
    · intro k hk hm
      rcases hb.woken k hk hm with hp | hp
      · exact .inl hp
      · rw [hl] at hp
        cases hp
  · cases h

/-- The step lemma. -/
theorem step_base (hb : Base s) (h : step s l = some t) : Base t := by
  cases l with
  | post i => exact post_base hb h
  | send i rc => exact send_base hb h
  | shutdown => exact shutdown_base hb h
  | pushClose => exact pushClose_base hb h
  | sendClose => exact sendClose_base hb h
  | join => exact join_base hb h
  | onAsync => exact onAsync_base hb h
  | swap => exact swap_base hb h
  | runNext => exact runNext_base hb h
  | finish => exact finish_base hb h
  | endDrain => exact endDrain_base hb h

theorem reachable_base (h : Reachable system s) : Base s := by
  refine h.invariant (fun s hs => ?_) fun s l t _ hb hs => step_base hb hs
  cases hs
  exact base_init

/-! ## Every closure is run -/

/-- The steps of the loop thread until a waiting closure has been begun. -/
def UvRuntime.remaining (s : UvRuntime) (j : Job) : Nat :=
  2 * s.waiting.idxOf j +
    match s.loop with
    | .idle => 3
    | .waking => 2
    | .draining batch => if j ∈ batch then 1 else 4
    | .running _ batch => if j ∈ batch then 2 else 5

/-- A step either begins the closure, or brings it nearer if it is one of the
loop thread; the others do not put it back. -/
structure Served (s t : UvRuntime) (l : Label) (j : Job) : Prop where
  waiting : j ∈ t.waiting
  nearer : t.remaining j + (if l.isLoop then 1 else 0) ≤ s.remaining j

theorem served_quiet (hj : j ∈ s.waiting) (hl : l.isLoop = false) (hloop : t.loop = s.loop)
    (hq : ∃ js, t.queue = s.queue ++ js) : Served s t l j := by
  obtain ⟨js, hq⟩ := hq
  have hw : t.waiting = s.waiting ++ js := by
    unfold UvRuntime.waiting
    rw [hloop, hq, List.append_assoc]
  refine ⟨hw ▸ List.mem_append_left _ hj, ?_⟩
  unfold UvRuntime.remaining
  rw [hl, hw, hloop, List.idxOf_append_of_mem hj]
  exact Nat.le_refl _

theorem served_loop (hj : j ∈ s.waiting) (hw : t.waiting = s.waiting)
    (hn : t.remaining j + 1 ≤ s.remaining j) : Served s t l j := by
  refine ⟨hw ▸ hj, ?_⟩
  split <;> omega

theorem runNext_served (hj : j ∈ s.waiting) (h : runNext s = some t) :
    j ∈ t.ran ∨ Served s t .runNext j := by
  unfold runNext at h
  split at h
  · rename_i k batch hl
    cases h
    have hw : s.waiting = k :: (batch ++ s.queue) := by
      unfold UvRuntime.waiting
      rw [hl]
      rfl
    by_cases hk : k = j
    · exact .inl (hk ▸ List.mem_append_right _ List.mem_cons_self)
    · rw [hw] at hj
      have hrest : j ∈ batch ++ s.queue := by
        rcases List.mem_cons.mp hj with he | he
        · exact absurd he.symm hk
        · exact he
      refine .inr ⟨hrest, ?_⟩
      have hidx : s.waiting.idxOf j = (batch ++ s.queue).idxOf j + 1 := by
        rw [hw]
        exact List.idxOf_cons_ne _ hk
      have hmem : j ∈ k :: batch ↔ j ∈ batch := by
        rw [List.mem_cons]
        exact ⟨fun h => h.resolve_left fun he => hk he.symm, .inr⟩
      unfold UvRuntime.remaining
      rw [hidx, hl]
      simp only [hmem, UvRuntime.waiting, LoopPc.batch, Label.isLoop]
      split <;> simp <;> omega
  · cases h

theorem step_served (hj : j ∈ s.waiting) (h : step s l = some t) :
    j ∈ t.ran ∨ Served s t l j := by
  cases l with
  | post i =>
    simp only [step, post] at h
    split at h
    · split at h <;> cases h
      · exact .inr (served_quiet hj rfl rfl ⟨[], (List.append_nil _).symm⟩)
      · exact .inr (served_quiet hj rfl rfl ⟨_, rfl⟩)
    · cases h
  | send i rc =>
    simp only [step, send] at h
    split at h
    · split at h <;> cases h
      · exact .inr (served_quiet hj rfl rfl ⟨[], (List.append_nil _).symm⟩)
      · exact .inr (served_quiet hj rfl rfl ⟨[], (List.append_nil _).symm⟩)
    · cases h
  | shutdown =>
    simp only [step, shutdown] at h
    split at h <;> cases h
    exact .inr (served_quiet hj rfl rfl ⟨[], (List.append_nil _).symm⟩)
  | pushClose =>
    simp only [step, pushClose] at h
    split at h <;> cases h
    exact .inr (served_quiet hj rfl rfl ⟨_, rfl⟩)
  | sendClose =>
    simp only [step, sendClose] at h
    split at h <;> cases h
    exact .inr (served_quiet hj rfl rfl ⟨[], (List.append_nil _).symm⟩)
  | join =>
    simp only [step, join] at h
    split at h
    · split at h <;> cases h
      exact .inr (served_quiet hj rfl rfl ⟨[], (List.append_nil _).symm⟩)
    · cases h
  | onAsync =>
    simp only [step, onAsync] at h
    split at h
    · rename_i hl
      split at h <;> cases h
      refine .inr (served_loop hj ?_ ?_) <;>
        simp [UvRuntime.remaining, UvRuntime.waiting, hl, LoopPc.batch]
    · cases h
  | swap =>
    simp only [step, swap] at h
    split at h
    · rename_i hl
      cases h
      have hq : j ∈ s.queue := by simpa [UvRuntime.waiting, hl, LoopPc.batch] using hj
      refine .inr (served_loop hj ?_ ?_) <;>
        simp [UvRuntime.remaining, UvRuntime.waiting, hl, LoopPc.batch, hq]
    · cases h
  | runNext => exact runNext_served hj h
  | finish =>
    simp only [step, finish] at h
    split at h
    · rename_i hl
      cases h
      refine .inr (served_loop hj ?_ ?_)
      · simp [UvRuntime.waiting, hl, LoopPc.batch]
      · simp only [UvRuntime.remaining, UvRuntime.waiting, hl, LoopPc.batch]
        split <;> omega
    · cases h
  | endDrain =>
    simp only [step, endDrain] at h
    split at h
    · rename_i hl
      cases h
      refine .inr (served_loop hj ?_ ?_) <;>
        simp [UvRuntime.remaining, UvRuntime.waiting, hl, LoopPc.batch]
    · cases h

theorem ran_mono (h : step s l = some t) (hj : j ∈ s.ran) : j ∈ t.ran := by
  cases l with
  | runNext =>
    simp only [step, runNext] at h
    split at h <;> cases h
    exact List.mem_append_left _ hj
  | _ =>
    simp only [step, post, send, shutdown, pushClose, sendClose, join, onAsync, swap, finish,
      endDrain] at h
    repeat' split at h
    all_goals first | cases h; exact hj | cases h

theorem run_ran {ls : List Label} (h : Reachable system s) (hj : j ∈ s.ran)
    (hr : run system s ls = some t) : j ∈ t.ran :=
  @Reachable.run_invariant _ _ _ (fun t => j ∈ t.ran) _ _ _ h hj
    (fun _ _ _ _ hm hs => ran_mono hs hm) hr

/-- A waiting closure is begun by the time the loop thread has taken as many
steps as remain until then. -/
theorem run_served {ls : List Label} (h : Reachable system s) (hj : j ∈ s.waiting)
    (hr : run system s ls = some t) (hn : s.remaining j ≤ ls.countP Label.isLoop) :
    j ∈ t.ran := by
  induction ls generalizing s with
  | nil =>
    exfalso
    have hpos : 0 < s.remaining j := by
      unfold UvRuntime.remaining
      repeat' split
      all_goals omega
    exact absurd hn (Nat.not_le_of_lt hpos)
  | cons l ls ih =>
    simp only [run, Option.bind_eq_some_iff] at hr
    obtain ⟨u, hs, hr⟩ := hr
    rcases step_served hj hs with hran | hserved
    · exact run_ran (h.next hs) hran hr
    · refine ih (h.next hs) hserved.waiting hr ?_
      have hnear := hserved.nearer
      rw [List.countP_cons] at hn
      omega

/-! ## The contract -/

/-- What `post` promises: `ran` is the run part of the pushes in their order,
each once, and the destructor's closure is the last of them; a push after the
shutdown is rejected; and an accepted closure which has not been run gets its
turn, after a number of steps of the loop thread that is known, and that thread
has a step to take. -/
structure PostContract (s : UvRuntime) : Prop where
  order : s.ran ++ s.waiting = s.pushes
  once : s.pushes.Nodup
  accepted : ∀ i, s.call i = .returned → .call i ∈ s.pushes
  last : ∀ l r, s.pushes = l ++ .close :: r → r = []
  closed : s.closed = true → s.ran = s.pushes
  rejected : ∀ i t, s.shuttingDown = true → step s (.post i) = some t →
    t.call i = .rejected ∧ t.queue = s.queue ∧ t.pushes = s.pushes
  enabled : ∀ i, s.call i = .returned → .call i ∉ s.ran → ∃ l, l.isLoop = true ∧ (step s l).isSome
  served : ∀ i ls t, s.call i = .returned → run system s ls = some t →
    s.remaining (.call i) ≤ ls.countP Label.isLoop → .call i ∈ t.ran

theorem rejected_of_shuttingDown (hs : s.shuttingDown = true) (h : step s (.post i) = some t) :
    t.call i = .rejected ∧ t.queue = s.queue ∧ t.pushes = s.pushes := by
  simp only [step, post, hs, if_true] at h
  split at h
  · cases h
    exact ⟨setCall_self .., rfl, rfl⟩
  · cases h

theorem ran_or_waiting (hb : Base s) (hi : s.call i = .returned) :
    .call i ∈ s.ran ∨ .call i ∈ s.waiting := by
  have hm : .call i ∈ s.pushes := (hb.accepted i).mpr ⟨by rw [hi]; nofun, by rw [hi]; nofun⟩
  rw [← hb.order] at hm
  exact List.mem_append.mp hm

/-- No wake-up is lost: while a closure waits whose `post` has returned, the loop
thread is in `drain` or will be called. -/
theorem loop_enabled (hb : Base s) (hi : s.call i = .returned) (hn : .call i ∉ s.ran) :
    ∃ l, l.isLoop = true ∧ (step s l).isSome := by
  have hw := (ran_or_waiting hb hi).resolve_left hn
  have hopen : s.closed = false := by
    cases hc : s.closed with
    | false => rfl
    | true =>
      rw [(hb.closed hc).1] at hw
      cases hw
  cases hl : s.loop with
  | idle =>
    have hq : .call i ∈ s.queue := by simpa [UvRuntime.waiting, hl, LoopPc.batch] using hw
    have hp : s.pending = true := by
      rcases hb.woken i hi hq with hp | hp
      · exact hp
      · rw [hl] at hp
        cases hp
    exact ⟨.onAsync, rfl, by simp [step, onAsync, hl, hp, hopen]⟩
  | waking => exact ⟨.swap, rfl, by simp [step, swap, hl]⟩
  | draining batch =>
    cases batch with
    | nil => exact ⟨.endDrain, rfl, by simp [step, endDrain, hl]⟩
    | cons j batch => exact ⟨.runNext, rfl, by simp [step, runNext, hl]⟩
  | running j batch => exact ⟨.finish, rfl, by simp [step, finish, hl]⟩

/-- In every reachable state of the runtime the contract of `post` holds. -/
theorem post_contract (h : Reachable system s) : PostContract s := by
  have hb := reachable_base h
  refine ⟨hb.order, hb.nodup, fun i hi => ?_, hb.last, fun hc => ?_,
    fun i t hs ht => rejected_of_shuttingDown hs ht, fun i hi hn => loop_enabled hb hi hn,
    fun i ls t hi hr hn => ?_⟩
  · rcases ran_or_waiting hb hi with hm | hm
    · exact hb.order ▸ List.mem_append_left _ hm
    · exact waiting_subset hb hm
  · rw [← hb.order, (hb.closed hc).1, List.append_nil]
  · rcases ran_or_waiting hb hi with hm | hm
    · exact run_ran h hm hr
    · exact run_served h hm hr hn

/-- A closure posts another one while it runs, and the destructor comes before
the wake-up for it. -/
theorem post_contract_shutdown : ∃ s, s.ran = [.call 0, .call 1] ∧ s.waiting = [.close] ∧
    PostContract s := by
  have h0 : Reachable system {} := .init rfl
  have h := h0.run (show run system {} [.post 0, .send 0 0, .onAsync, .swap, .runNext, .post 1,
    .shutdown, .send 1 0, .pushClose, .finish, .endDrain, .onAsync, .sendClose, .swap,
    .runNext] = some _ from rfl)
  exact ⟨_, rfl, rfl, post_contract h⟩

end

end LuvCoro.Runtime
