import Mathlib.Tactic.Tauto
import LuvCoro.Lib.Linear
import LuvCoro.Runtime.Post

/-! # `uv_runtime::call`

Translated from `include/luvcoro/runtime.hpp`. Off the loop thread `call` posts a
closure that keeps what `fn` returns or throws in a promise, and waits for it; on
the loop thread it runs `fn` at once. What belongs to the loop thread (the loop,
its handles, the state the closures capture) is one state here, which only
closures change. -/
namespace LuvCoro.Runtime

open Transition Linearization

/-- The `fn` of a call. It may use what belongs to the loop thread, and it may
call `call` again, on the loop thread, and go on with what that returns or throws. -/
inductive Fn (σ ε α : Type)
  | run (f : σ → Except ε α × σ)
  | call (fn : Fn σ ε α) (rest : Except ε α → Fn σ ε α)

/-- `fn(&loop_)` on the loop thread: `call` finds itself there and runs its `fn`. -/
def Fn.apply {σ ε α : Type} : Fn σ ε α → σ → Except ε α × σ
  | .run f, s => f s
  | .call fn rest, s => (rest (fn.apply s).1).apply (fn.apply s).2

/-- What a thread hands to the runtime: the `fn` of a `call`, or a closure that it
posts without waiting, and that does not throw. -/
inductive Posted (σ ε α : Type)
  | call (fn : Fn σ ε α)
  | post (f : σ → σ)

/-- What a closure does to the state, and what its promise gets. -/
def Posted.act {σ ε α : Type} : Posted σ ε α → σ → Option (Except ε α) × σ
  | .call fn, s => (some (fn.apply s).1, (fn.apply s).2)
  | .post f, s => (none, f s)

/-- Where a call is: it has run on the loop thread, or it posts. -/
inductive Caller
  | idle | direct | posting
  deriving DecidableEq

/-- `history` and `order` record what has been invoked and answered, and the
closures that have been run, in order. -/
structure Calls (σ ε α : Type) where
  runtime : UvRuntime := {}
  state : σ
  promise : CallId → Option (Except ε α) := fun _ => none
  caller : CallId → Caller := fun _ => .idle
  answer : CallId → Option (Except ε α) := fun _ => none
  history : List (Event CallId (Option (Except ε α))) := []
  order : List CallId := []

inductive CallLabel
  /-- `call` or `post` off the loop thread, and `call` in a callback of libuv. -/
  | begin (i : CallId)
  | direct (i : CallId)
  | runtime (l : Label)
  /-- `future.get()`. -/
  | get (i : CallId)

/-- The step of the runtime, if it is one. -/
def CallLabel.runtime? : CallLabel → Option Label
  | .runtime l => some l
  | _ => none

variable {σ ε α : Type}

namespace Calls

def begin (c : Calls σ ε α) (i : CallId) : Option (Calls σ ε α) :=
  if c.caller i = .idle then
    some { c with
      caller := Function.update c.caller i .posting, history := c.history ++ [.invoked i] }
  else none

/-- A closure is run. -/
def effect (closures : CallId → Posted σ ε α) (c : Calls σ ε α) (i : CallId) : Calls σ ε α :=
  let r := (closures i).act c.state
  { c with state := r.2, promise := Function.update c.promise i r.1, order := c.order ++ [i] }

def answerWith (c : Calls σ ε α) (i : CallId) (r : Except ε α) : Calls σ ε α :=
  { c with
    answer := Function.update c.answer i (some r), history := c.history ++ [.answered i (some r)] }

/-- The loop thread is in no closure of `drain`, but in a callback of libuv. -/
def direct (closures : CallId → Posted σ ε α) (c : Calls σ ε α) (i : CallId) :
    Option (Calls σ ε α) :=
  match closures i, c.runtime.loop with
  | .call fn, .idle =>
    if c.caller i = .idle ∧ c.runtime.closed = false then
      let c := { c with
        caller := Function.update c.caller i .direct, history := c.history ++ [Event.invoked i] }
      some ((c.effect closures i).answerWith i (fn.apply c.state).1)
    else none
  | _, _ => none

def get (closures : CallId → Posted σ ε α) (c : Calls σ ε α) (i : CallId) :
    Option (Calls σ ε α) :=
  match closures i, c.promise i with
  | .call _, some r =>
    if c.runtime.call i = .returned ∧ c.answer i = none then some (c.answerWith i r) else none
  | _, _ => none

/-- The end of a closure is where it has its effect: nothing else of the loop
thread comes between. -/
def runtimeStep (closures : CallId → Posted σ ε α) (c : Calls σ ε α) :
    Label → Option (Calls σ ε α)
  | .post i =>
    if c.caller i = .posting then
      (post c.runtime i).map fun r => { c with runtime := r }
    else none
  | .finish =>
    match c.runtime.loop with
    | .running (.call i) _ =>
      (finish c.runtime).map fun r => { c.effect closures i with runtime := r }
    | _ => (finish c.runtime).map fun r => { c with runtime := r }
  | l => (Runtime.step c.runtime l).map fun r => { c with runtime := r }

def step (closures : CallId → Posted σ ε α) (c : Calls σ ε α) :
    CallLabel → Option (Calls σ ε α)
  | .begin i => c.begin i
  | .direct i => c.direct closures i
  | .runtime l => c.runtimeStep closures l
  | .get i => c.get closures i

end Calls

def calls (closures : CallId → Posted σ ε α) (s₀ : σ) : System (Calls σ ε α) CallLabel where
  init c := c = { state := s₀ }
  step := Calls.step closures

/-! ## The runtime in it -/

section
variable {closures : CallId → Posted σ ε α} {s₀ : σ} {c d : Calls σ ε α} {i j : CallId}
  {l : Label} {s t : UvRuntime}

/-- What a step of the runtime is, in terms of its own system. -/
theorem runtimeStep_cases (h : c.runtimeStep closures l = some d) :
    Runtime.step c.runtime l = some d.runtime ∧
      ((∃ i batch, l = .finish ∧ c.runtime.loop = .running (.call i) batch ∧
          d = { c.effect closures i with runtime := d.runtime }) ∨
        ((∀ i batch, l = .finish → c.runtime.loop ≠ .running (.call i) batch) ∧
          (∀ i, l = .post i → c.caller i = .posting) ∧ d = { c with runtime := d.runtime })) := by
  cases l with
  | post i =>
    simp only [Calls.runtimeStep] at h
    split at h
    · rename_i hp
      obtain ⟨r, hr, rfl⟩ := Option.map_eq_some_iff.mp h
      refine ⟨hr, .inr ⟨by simp, fun j hj => ?_, rfl⟩⟩
      cases hj
      exact hp
    · cases h
  | finish =>
    dsimp only [Calls.runtimeStep] at h
    split at h
    · rename_i i batch hl
      obtain ⟨r, hr, rfl⟩ := Option.map_eq_some_iff.mp h
      exact ⟨hr, .inl ⟨i, batch, rfl, hl, rfl⟩⟩
    · rename_i hne
      obtain ⟨r, hr, rfl⟩ := Option.map_eq_some_iff.mp h
      exact ⟨hr, .inr ⟨fun i batch _ => hne i batch, by simp, rfl⟩⟩
  | _ =>
    obtain ⟨r, hr, rfl⟩ := Option.map_eq_some_iff.mp h
    exact ⟨hr, .inr ⟨by simp, by simp, rfl⟩⟩

/-- The other steps leave the runtime alone. -/
theorem step_runtime {l : CallLabel} (h : Calls.step closures c l = some d) :
    (d.runtime = c.runtime ∧ ∀ m, l ≠ .runtime m) ∨
      ∃ m, l = .runtime m ∧ Runtime.step c.runtime m = some d.runtime := by
  cases l with
  | begin i =>
    simp only [Calls.step, Calls.begin] at h
    split at h <;> cases h
    exact .inl ⟨rfl, by simp⟩
  | direct i =>
    dsimp only [Calls.step, Calls.direct] at h
    split at h
    · split at h <;> cases h
      exact .inl ⟨rfl, by simp⟩
    · cases h
  | runtime l => exact .inr ⟨l, rfl, (runtimeStep_cases h).1⟩
  | get i =>
    dsimp only [Calls.step, Calls.get] at h
    split at h
    · split at h <;> cases h
      exact .inl ⟨rfl, by simp⟩
    · cases h

theorem calls_refines (closures : CallId → Posted σ ε α) (s₀ : σ) :
    Refines (calls closures s₀) system Calls.runtime where
  init c h := by
    cases h
    exact rfl
  step c l d _ h := by
    rcases step_runtime h with ⟨he, -⟩ | ⟨m, -, hm⟩
    · exact .inl he
    · exact .inr ⟨m, hm⟩

/-! ## Calls and their closures -/

/-- The closures that have returned. -/
def UvRuntime.finished (s : UvRuntime) : List Job :=
  match s.loop with
  | .running _ _ => s.ran.dropLast
  | _ => s.ran

theorem finished_of_idle (h : ∀ j batch, s.loop ≠ .running j batch) : s.finished = s.ran := by
  unfold UvRuntime.finished
  split
  · rename_i j batch hl
    exact absurd hl (h j batch)
  · rfl

theorem finished_running {k : Job} {batch : List Job} (hb : Base s) (hl : s.loop = .running k batch) :
    s.ran = s.finished ++ [k] := by
  obtain ⟨l, hran⟩ := hb.running k batch hl
  unfold UvRuntime.finished
  rw [hl, hran]
  simp

/-- Only the end of a closure adds to what has returned. -/
theorem step_finished (hb : Base s) (h : Runtime.step s l = some t) :
    (t.finished = s.finished ∧ (l = .finish → False)) ∨
      ∃ k batch, l = .finish ∧ s.loop = .running k batch ∧ t.finished = s.finished ++ [k] := by
  cases l with
  | finish =>
    simp only [Runtime.step, finish] at h
    split at h
    · rename_i k batch hl
      cases h
      refine .inr ⟨k, batch, rfl, hl, ?_⟩
      rw [finished_of_idle (by simp)]
      exact finished_running hb hl
    · cases h
  | runNext =>
    simp only [Runtime.step, runNext] at h
    split at h
    · rename_i k batch hl
      cases h
      refine .inl ⟨?_, by simp⟩
      rw [finished_of_idle (s := s) (by simp [hl])]
      simp [UvRuntime.finished]
    · cases h
  | post i =>
    simp only [Runtime.step, post] at h
    split at h
    · split at h <;> cases h <;> exact .inl ⟨rfl, by simp⟩
    · cases h
  | send i rc =>
    simp only [Runtime.step, send] at h
    split at h
    · split at h <;> cases h <;> exact .inl ⟨rfl, by simp⟩
    · cases h
  | shutdown | pushClose | sendClose =>
    simp only [Runtime.step, shutdown, pushClose, sendClose] at h
    split at h <;> cases h
    exact .inl ⟨rfl, by simp⟩
  | join | onAsync | swap | endDrain =>
    simp only [Runtime.step, join, onAsync, swap, endDrain] at h
    split at h
    · rename_i hl
      repeat' split at h
      all_goals cases h
      all_goals
        refine .inl ⟨?_, by simp⟩
        rw [finished_of_idle (s := s) (by simp [hl])]
        refine finished_of_idle ?_
        simp [hl]
    · cases h

/-- A call leaves `new` in its own post, and does not come back. -/
theorem step_call (h : Runtime.step s l = some t) (i : CallId) :
    (t.call i ≠ .new → s.call i ≠ .new ∨ l = .post i) ∧ (s.call i ≠ .new → t.call i ≠ .new) ∧
      (s.call i = .rejected → t.call i = .rejected) := by
  cases l with
  | post j =>
    simp only [Runtime.step, post] at h
    split at h
    · rename_i hn
      by_cases hj : i = j
      · subst hj
        refine ⟨fun _ => .inr rfl, fun hs => absurd hn hs, fun hs => ?_⟩
        rw [hn] at hs
        cases hs
      · split at h <;> cases h <;>
          simp only [setCall_of_ne _ _ hj, push_call]
        all_goals exact ⟨.inl, id, id⟩
    · cases h
  | send j rc =>
    simp only [Runtime.step, send] at h
    split at h
    · rename_i hn
      by_cases hj : i = j
      · subst hj
        refine ⟨fun _ => .inl (by rw [hn]; simp), fun _ => ?_, fun hs => ?_⟩
        · split at h <;> cases h <;> simp [setCall_self]
        · rw [hn] at hs
          cases hs
      · split at h <;> cases h <;> simp only [setCall_of_ne _ _ hj]
        all_goals exact ⟨.inl, id, id⟩
    · cases h
  | _ =>
    simp only [Runtime.step, shutdown, pushClose, sendClose, join, onAsync, swap, runNext, finish,
      endDrain] at h
    repeat' split at h
    all_goals first | cases h; exact ⟨.inl, id, id⟩ | cases h

/-- The closures that have been run are those of the runtime and those of the
callbacks; the promise of each has got what it answered. -/
structure CallInv (closures : CallId → Posted σ ε α) (s₀ : σ) (c : Calls σ ε α) : Prop where
  linear : Linearizes (fun i => (closures i).act) s₀ c.history c.order c.state
  invoked : ∀ i, c.caller i ≠ .idle → .invoked i ∈ c.history
  posted : ∀ i, c.runtime.call i ≠ .new → c.caller i = .posting
  order : ∀ i, i ∈ c.order ↔ .call i ∈ c.runtime.finished ∨ c.caller i = .direct
  fifo : (c.order.filter fun i => c.caller i = .posting).map Job.call =
    c.runtime.finished.filter (· ≠ .close)
  promise : ∀ i r, c.promise i = some r →
    (i, some r) ∈ (replay (fun i => (closures i).act) s₀ c.order).1
  kept : ∀ i fn, closures i = .call fn → i ∈ c.order → c.promise i ≠ none
  answer : ∀ i r, c.answer i = some r ↔ .answered i (some r) ∈ c.history

theorem callInv_init : CallInv closures s₀ { state := s₀ } where
  linear := linearizes_init
  invoked i h := absurd rfl h
  posted i h := absurd rfl h
  order i := by simp [UvRuntime.finished]
  fifo := rfl
  promise i r h := by cases h
  kept i fn _ h := by cases h
  answer i r := by simp

theorem finished_subset {k : Job} (hb : Base s) (hk : k ∈ s.finished) : k ∈ s.pushes := by
  rw [← hb.order]
  refine List.mem_append_left _ ?_
  unfold UvRuntime.finished at hk
  split at hk
  · exact List.dropLast_subset _ hk
  · exact hk

theorem new_of_idle (hi : CallInv closures s₀ c) (h : c.caller i ≠ .posting) :
    c.runtime.call i = .new := by
  by_contra hn
  exact h (hi.posted i hn)

theorem not_finished (hb : Base c.runtime) (hi : CallInv closures s₀ c)
    (h : c.caller i ≠ .posting) : .call i ∉ c.runtime.finished := by
  intro hm
  exact ((hb.accepted i).mp (finished_subset hb hm)).1 (new_of_idle hi h)

/-- Who is not in the order may change its place. -/
theorem posting_update (h : i ∉ c.order) (p : Caller) :
    (c.order.filter fun j => Function.update c.caller i p j = .posting).map Job.call =
      (c.order.filter fun j => c.caller j = .posting).map Job.call := by
  congr 1
  refine List.filter_congr fun j hj => ?_
  have hne : j ≠ i := fun he => h (he ▸ hj)
  simp only [Function.update_of_ne hne]

/-- A call that begins off the loop thread. -/
theorem begin_inv (hi : CallInv closures s₀ c) (hb : Base c.runtime) (h : c.begin i = some d) :
    CallInv closures s₀ d := by
  unfold Calls.begin at h
  split at h
  · rename_i hidle
    cases h
    have hnot : i ∉ c.order := by
      rw [hi.order i, hidle]
      simp [not_finished hb hi (by rw [hidle]; simp : c.caller i ≠ .posting)]
    refine { hi with
      linear := hi.linear.invoke hnot, invoked := fun j hj => ?_, posted := fun j hj => ?_,
      order := fun j => ?_, fifo := (posting_update hnot .posting).trans hi.fifo,
      answer := fun j r => ?_ }
    · by_cases hji : j = i
      · exact List.mem_append_right _ (hji ▸ List.mem_singleton_self _)
      · simp only [Function.update_of_ne hji] at hj
        exact List.mem_append_left _ (hi.invoked j hj)
    · by_cases hji : j = i
      · simp only [hji, Function.update_self]
      · simp only [Function.update_of_ne hji]
        exact hi.posted j hj
    · by_cases hji : j = i
      · have ho := hi.order i
        rw [hidle] at ho
        simpa [hji] using ho
      · simp only [hi.order j, Function.update_of_ne hji]
    · rw [hi.answer j r]
      simp
  · cases h

/-- A closure that has been invoked takes effect. -/
theorem effect_linear (hi : CallInv closures s₀ c) (hinv : .invoked i ∈ c.history)
    (hn : i ∉ c.order) : Linearizes (fun i => (closures i).act) s₀ c.history
      (c.effect closures i).order (c.effect closures i).state := hi.linear.effect hinv hn

theorem effect_promise (hi : CallInv closures s₀ c) (j : CallId) (r : Except ε α)
    (hj : (c.effect closures i).promise j = some r) : (j, some r) ∈
      (replay (fun i => (closures i).act) s₀ (c.effect closures i).order).1 := by
  by_cases hji : j = i
  · subst hji
    have he : ((closures j).act c.state).1 = some r := by
      simpa [Calls.effect, Function.update_self] using hj
    rw [← he]
    exact hi.linear.effect_answers j
  · simp only [Calls.effect, Function.update_of_ne hji] at hj
    exact Linearizes.replay_mono (hi.promise j r hj) i

theorem effect_kept (hi : CallInv closures s₀ c) (j : CallId) {fn : Fn σ ε α}
    (hc : closures j = .call fn) (hj : j ∈ (c.effect closures i).order) :
    (c.effect closures i).promise j ≠ none := by
  by_cases hji : j = i
  · subst hji
    simp [Calls.effect, hc, Posted.act]
  · simp only [Calls.effect, Function.update_of_ne hji]
    have hm : j ∈ c.order ++ [i] := hj
    simp only [List.mem_append, List.mem_singleton, hji, or_false] at hm
    exact hi.kept j fn hc hm

/-- A call in a callback of libuv is answered at once. -/
theorem direct_inv (hi : CallInv closures s₀ c) (hb : Base c.runtime)
    (h : c.direct closures i = some d) : CallInv closures s₀ d := by
  unfold Calls.direct at h
  split at h
  · rename_i fn hc hl
    split at h
    · rename_i hidle
      obtain ⟨hidle, -⟩ := hidle
      cases h
      have hpc : c.caller i ≠ .posting := by rw [hidle]; simp
      have hnot : i ∉ c.order := by
        rw [hi.order i, hidle]
        simp [not_finished hb hi hpc]
      -- the call begins, and then it takes effect
      have hbegun : CallInv closures s₀ { c with history := c.history ++ [.invoked i] } :=
        { hi with
          linear := hi.linear.invoke hnot
          invoked := fun j hj => List.mem_append_left _ (hi.invoked j hj)
          answer := fun j r => by rw [hi.answer j r]; simp }
      have hinv : .invoked i ∈ c.history ++ [Event.invoked (ρ := Option (Except ε α)) i] :=
        List.mem_append_right _ (List.mem_singleton_self _)
      have hact : ((closures i).act c.state).1 = some (fn.apply c.state).1 := by
        rw [hc]
        rfl
      refine ⟨?_, fun j hj => ?_, fun j hj => ?_, fun j => ?_, ?_, ?_, ?_, fun j r => ?_⟩
      · refine (effect_linear hbegun hinv hnot).answer ?_
        rw [← hact]
        exact hi.linear.effect_answers i
      · refine List.mem_append_left _ ?_
        by_cases hji : j = i
        · exact List.mem_append_right _ (hji ▸ List.mem_singleton_self _)
        · refine List.mem_append_left _ (hi.invoked j ?_)
          simpa only [Calls.answerWith, Calls.effect, Function.update_of_ne hji] using hj
      · have hpost := hi.posted j hj
        by_cases hji : j = i
        · exact absurd (hji ▸ hpost) hpc
        · simpa only [Calls.answerWith, Calls.effect, Function.update_of_ne hji] using hpost
      · by_cases hji : j = i
        · simp [Calls.answerWith, Calls.effect, hji]
        · simpa [Calls.answerWith, Calls.effect, hji] using hi.order j
      · have hold := (posting_update hnot .direct).trans hi.fifo
        simpa [Calls.answerWith, Calls.effect, List.filter_append] using hold
      · exact fun j r hj => effect_promise hbegun j r hj
      · exact fun j fn hcj hj => effect_kept hbegun j hcj hj
      · by_cases hji : j = i
        · subst hji
          have hna : ∀ r', .answered j r' ∉ c.history := fun r' hm =>
            hnot (hi.linear.mem_of_answered hm)
          simp [Calls.answerWith, Calls.effect, hna, eq_comm]
        · simp [Calls.answerWith, Calls.effect, hji, hi.answer j r]
    · cases h
  · cases h

/-- The end of a closure of the queue. -/
theorem finish_inv {batch : List Job} {r : UvRuntime} (hi : CallInv closures s₀ c)
    (hb : Base c.runtime) (hl : c.runtime.loop = .running (.call i) batch)
    (h : Runtime.step c.runtime .finish = some r) :
    CallInv closures s₀ { c.effect closures i with runtime := r } := by
  have hmem : Job.call i ∈ c.runtime.pushes := by
    rw [← hb.order, finished_running hb hl]
    simp
  have hpc : c.caller i = .posting := hi.posted i ((hb.accepted i).mp hmem).1
  have hnodup : (c.runtime.finished ++ [Job.call i]).Nodup := by
    rw [← finished_running hb hl]
    exact (List.nodup_append.mp (hb.order ▸ hb.nodup)).1
  have hnot : i ∉ c.order := by
    rw [hi.order i, hpc]
    intro hm
    have hfin := hm.resolve_right (by simp)
    exact (List.nodup_append.mp hnodup).2.2 _ hfin _ (List.mem_singleton_self _) rfl
  have hfin : r.finished = c.runtime.finished ++ [.call i] := by
    rcases step_finished hb h with ⟨-, hf⟩ | ⟨k, b, -, hk, he⟩
    · exact absurd rfl hf
    · rw [hl] at hk
      cases hk
      exact he
  refine ⟨effect_linear hi (hi.invoked i (by rw [hpc]; simp)) hnot, hi.invoked, fun j hj => ?_,
    fun j => ?_, ?_, effect_promise hi, fun j fn hcj hj => effect_kept hi j hcj hj, hi.answer⟩
  · rcases (step_call h j).1 hj with hs | hs
    · exact hi.posted j hs
    · cases hs
  · have ho := hi.order j
    simp only [Calls.effect, List.mem_append, List.mem_singleton, hfin, Job.call.injEq, ho]
    tauto
  · show ((c.order ++ [i]).filter fun j => c.caller j = .posting).map Job.call =
      r.finished.filter (· ≠ .close)
    rw [hfin, List.filter_append, List.filter_append, List.map_append, hi.fifo]
    simp [hpc]

/-- The other steps of the runtime. -/
theorem runtime_inv {r : UvRuntime} (hi : CallInv closures s₀ c) (hb : Base c.runtime)
    (h : Runtime.step c.runtime l = some r)
    (hne : ∀ i batch, l = .finish → c.runtime.loop ≠ .running (.call i) batch)
    (hpost : ∀ i, l = .post i → c.caller i = .posting) :
    CallInv closures s₀ { c with runtime := r } := by
  refine { hi with posted := fun j hj => ?_, order := fun j => ?_, fifo := ?_ }
  · rcases (step_call h j).1 hj with hs | hs
    · exact hi.posted j hs
    · exact hpost j hs
  · rw [hi.order j]
    rcases step_finished hb h with ⟨he, -⟩ | ⟨k, batch, hlf, hl, he⟩
    · simp only [he]
    · have hk : Job.call j ≠ k := fun hk => hne j batch hlf (hk ▸ hl)
      simp [he, hk]
  · rw [hi.fifo]
    rcases step_finished hb h with ⟨he, -⟩ | ⟨k, batch, hlf, hl, he⟩
    · rw [he]
    · cases k with
      | call j => exact absurd hl (hne j batch hlf)
      | close => simp [he, List.filter_append]

/-- `future.get()` answers with what the promise has. -/
theorem get_inv (hi : CallInv closures s₀ c) (h : c.get closures i = some d) :
    CallInv closures s₀ d := by
  unfold Calls.get at h
  split at h
  · rename_i fn r hc hp
    split at h
    · rename_i hnone
      obtain ⟨-, hnone⟩ := hnone
      cases h
      refine { hi with
        linear := hi.linear.answer (hi.promise i r hp)
        invoked := fun j hj => List.mem_append_left _ (hi.invoked j hj)
        answer := fun j r' => ?_ }
      by_cases hji : j = i
      · subst hji
        have hna : ∀ r', .answered j (some r') ∉ c.history := by
          intro r' hm
          rw [← hi.answer j r', hnone] at hm
          cases hm
        simp [Calls.answerWith, hna, eq_comm]
      · simp [Calls.answerWith, hji, hi.answer j r']
    · cases h
  · cases h

theorem reachable_runtime (h : Reachable (calls closures s₀) c) : Reachable system c.runtime :=
  (calls_refines closures s₀).reachable h

theorem callInv_of_reachable (h : Reachable (calls closures s₀) c) : CallInv closures s₀ c := by
  refine h.invariant (fun c h0 => ?_) fun c l d hr hi hs => ?_
  · cases h0
    exact callInv_init
  · have hb := reachable_base (reachable_runtime hr)
    cases l with
    | begin i => exact begin_inv hi hb hs
    | direct i => exact direct_inv hi hb hs
    | runtime l =>
      obtain ⟨hrt, ⟨i, batch, rfl, hl, he⟩ | ⟨hne, hpost, he⟩⟩ := runtimeStep_cases hs
      · rw [he]
        exact finish_inv hi hb hl hrt
      · rw [he]
        exact runtime_inv hi hb hrt hne hpost
    | get i => exact get_inv hi hs

/-! ## What `call` promises -/

/-- The calls are linearizable: the state of the loop thread and all answers are
those of the closures run one after the other, no call comes before one that was
answered before it was made, and what is posted comes in the order of the queue.
A caller gets an answer that its own closure gave, and a refused call has no
effect. -/
structure CallContract (closures : CallId → Posted σ ε α) (s₀ : σ) (c : Calls σ ε α) : Prop where
  linear : Linearizes (fun i => (closures i).act) s₀ c.history c.order c.state
  answers : ∀ i r, c.answer i = some r →
    (i, some r) ∈ (replay (fun i => (closures i).act) s₀ c.order).1
  fifo : (c.order.filter fun i => c.caller i = .posting).map Job.call <+:
    c.runtime.pushes.filter (· ≠ .close)
  rejected : ∀ i, c.runtime.call i = .rejected → i ∉ c.order

theorem finished_first (hb : Base s) : s.finished <+: s.pushes := by
  rw [← hb.order]
  refine List.IsPrefix.trans ?_ (List.prefix_append s.ran s.waiting)
  unfold UvRuntime.finished
  split
  · exact List.dropLast_prefix s.ran
  · exact List.prefix_rfl

/-- In every reachable state of a runtime whose calls may come from any thread,
and from closures that run. -/
theorem call_linearizable (h : Reachable (calls closures s₀) c) : CallContract closures s₀ c := by
  have hi := callInv_of_reachable h
  have hb := reachable_base (reachable_runtime h)
  refine ⟨hi.linear, fun i r ha => hi.linear.answered i _ ((hi.answer i r).mp ha), ?_,
    fun i hr hm => ?_⟩
  · rw [hi.fifo]
    exact (finished_first hb).filter _
  · have hposting := hi.posted i (by rw [hr]; simp)
    rcases (hi.order i).mp hm with hf | hd
    · exact ((hb.accepted i).mp (finished_subset hb hf)).2 hr
    · rw [hposting] at hd
      cases hd

/-- Two threads call while a posted closure is queued; a callback of libuv calls
before the queue is drained, with a nested call. -/
theorem call_linearizable_threads : ∃ c : Calls Nat Unit Nat, c.order = [3, 0, 1] ∧ c.state = 22 ∧
    CallContract (fun i => if i = 0 then .post fun n => 2 * n
      else if i = 3 then .call (.call (.run fun n => (.ok n, n + 10)) fun _ =>
        .run fun n => (.ok n, n))
      else .call (.run fun n => (.ok n, n + 2))) 0 c := by
  have h₀ : Reachable (calls (fun i => if i = 0 then Posted.post fun n => 2 * n
      else if i = 3 then .call (.call (.run fun n => (.ok n, n + 10)) fun _ =>
        .run fun n => (.ok n, n))
      else .call (.run fun n => (.ok n, n + 2))) 0) ({ state := 0 } : Calls Nat Unit Nat) :=
    .init rfl
  have h := h₀.run (show run _ _ [.begin 0, .runtime (.post 0), .runtime (.send 0 0), .direct 3,
    .begin 1, .begin 2, .runtime (.post 1), .runtime .onAsync, .runtime .swap, .runtime .runNext,
    .runtime .finish, .runtime (.send 1 0), .runtime .runNext, .runtime .finish, .get 1] =
      some _ from rfl)
  exact ⟨_, rfl, rfl, call_linearizable h⟩

/-! ## Every call is answered -/

/-- What a caller that waits can count on: until its promise is set the loop
thread has a step to take, and it takes no more of them than are known until it
is in the closure; then `future.get()` returns. A runtime that has been destroyed
leaves nobody waiting. -/
structure CallAnswered (closures : CallId → Posted σ ε α) (s₀ : σ) (c : Calls σ ε α)
    (i : CallId) : Prop where
  enabled : c.promise i = none →
    ∃ l : Label, l.isLoop = true ∧ (Calls.step closures c (.runtime l)).isSome
  served : ∀ ls d, run (calls closures s₀) c ls = some d →
    c.runtime.remaining (.call i) ≤ (ls.filterMap CallLabel.runtime?).countP Label.isLoop →
    d.promise i ≠ none ∨ ∃ batch, d.runtime.loop = .running (.call i) batch
  returns : c.promise i ≠ none → c.answer i = none →
    (Calls.step closures c (.get i)).isSome
  joined : c.runtime.destructor = .joined → c.promise i ≠ none

theorem run_runtime {ls : List CallLabel} (h : run (calls closures s₀) c ls = some d) :
    run system c.runtime (ls.filterMap CallLabel.runtime?) = some d.runtime := by
  induction ls generalizing c with
  | nil =>
    cases h
    rfl
  | cons l ls ih =>
    simp only [run, Option.bind_eq_some_iff] at h
    obtain ⟨e, hs, hr⟩ := h
    rcases step_runtime hs with ⟨he, hne⟩ | ⟨m, rfl, hm⟩
    · have hn : CallLabel.runtime? l = none := by
        cases l with
        | runtime m => exact absurd rfl (hne m)
        | _ => rfl
      rw [List.filterMap_cons_none hn, ← he]
      exact ih hr
    · rw [List.filterMap_cons_some (f := CallLabel.runtime?) (b := m) rfl]
      simp only [run, Option.bind_eq_some_iff]
      exact ⟨_, hm, ih hr⟩

/-- After the join of the destructor the loop thread is at rest. -/
theorem joined_closed (h : Reachable system s) (hj : s.destructor = .joined) :
    s.closed = true ∧ s.loop = .idle := by
  refine h.invariant (I := fun s => s.destructor = .joined → s.closed = true ∧ s.loop = .idle)
    (fun s h0 hj => ?_) (fun s l t _ hI hs hj => ?_) hj
  · cases h0
    cases hj
  · change Runtime.step s l = some t at hs
    cases l with
    | join =>
      simp only [Runtime.step, join] at hs
      split at hs
      · rename_i hl
        split at hs
        · rename_i hc
          cases hs
          exact ⟨hc.2, hl⟩
        · cases hs
      · cases hs
    | _ =>
      simp only [Runtime.step, post, send, shutdown, pushClose, sendClose, onAsync, swap, runNext,
        finish, endDrain] at hs
      repeat' split at hs
      all_goals cases hs
      all_goals first
        | cases hj
        | exact hI hj
        | (obtain ⟨hc, hl⟩ := hI hj; simp_all)

theorem promise_of_finished {fn : Fn σ ε α} (hi : CallInv closures s₀ c)
    (hc : closures i = .call fn) (hf : .call i ∈ c.runtime.finished) : c.promise i ≠ none :=
  hi.kept i fn hc ((hi.order i).mpr (.inl hf))

/-- A step of the loop thread can be taken with the calls. -/
theorem runtime_isSome (hl : l.isLoop = true) (h : (Runtime.step c.runtime l).isSome) :
    (Calls.step closures c (.runtime l)).isSome := by
  cases l with
  | post i => cases hl
  | finish =>
    dsimp only [Calls.step, Calls.runtimeStep]
    split <;> rw [Option.isSome_map] <;> exact h
  | _ =>
    dsimp only [Calls.step, Calls.runtimeStep]
    rw [Option.isSome_map]
    exact h

/-- In every reachable state, for every call whose post has returned. -/
theorem call_answered {fn : Fn σ ε α} (h : Reachable (calls closures s₀) c)
    (hc : closures i = .call fn) (hr : c.runtime.call i = .returned) :
    CallAnswered closures s₀ c i := by
  have hi := callInv_of_reachable h
  have hrt := reachable_runtime h
  have hb := reachable_base hrt
  refine ⟨fun hp => ?_, fun ls d hrun hn => ?_, fun hp ha => ?_, fun hj => ?_⟩
  · by_cases hran : .call i ∈ c.runtime.ran
    · -- it has been begun and has not returned: the loop thread is in it
      have hnf := mt (promise_of_finished hi hc) (by simp [hp])
      cases hl : c.runtime.loop with
      | running k batch =>
        exact ⟨.finish, rfl, runtime_isSome rfl (by simp [Runtime.step, finish, hl])⟩
      | _ =>
        rw [finished_of_idle (by simp [hl])] at hnf
        exact absurd hran hnf
    · obtain ⟨l, hl, hs⟩ := loop_enabled hb hr hran
      exact ⟨l, hl, runtime_isSome hl hs⟩
  · have hran : .call i ∈ d.runtime.ran := by
      rcases ran_or_waiting hb hr with hm | hm
      · exact run_ran hrt hm (run_runtime hrun)
      · exact run_served hrt hm (run_runtime hrun) hn
    have hd := h.run hrun
    have hdi := callInv_of_reachable hd
    have hdb := reachable_base (reachable_runtime hd)
    by_cases hf : .call i ∈ d.runtime.finished
    · exact .inl (promise_of_finished hdi hc hf)
    · cases hl : d.runtime.loop with
      | running k batch =>
        rw [finished_running hdb hl] at hran
        have hk := (List.mem_append.mp hran).resolve_left hf
        rw [List.mem_singleton] at hk
        exact .inr ⟨batch, by rw [hk]⟩
      | _ =>
        rw [finished_of_idle (by simp [hl])] at hf
        exact absurd hran hf
  · obtain ⟨r, hr'⟩ := Option.ne_none_iff_exists'.mp hp
    simp [Calls.step, Calls.get, hc, hr', hr, ha]
  · obtain ⟨hclosed, hidle⟩ := joined_closed hrt hj
    refine promise_of_finished hi hc ?_
    rw [finished_of_idle (by simp [hidle])]
    refine (ran_or_waiting hb hr).resolve_right fun hm => ?_
    rw [(hb.closed hclosed).1] at hm
    cases hm

/-- The destructor has taken its flag, and the closure of the call is queued
before its own. -/
theorem call_answered_shutdown : ∃ c : Calls Nat Unit Nat,
    c.runtime.shuttingDown = true ∧ c.promise 0 = none ∧
      CallAnswered (fun _ => .call (.run fun n => (.ok n, n))) 5 c 0 := by
  have h₀ : Reachable (calls (fun _ => Posted.call (.run fun n => (.ok n, n))) 5)
    ({ state := 5 } : Calls Nat Unit Nat) := .init rfl
  have h := h₀.run (show run _ _ [.begin 0, .runtime (.post 0), .runtime (.send 0 0),
    .runtime .shutdown, .runtime .pushClose] = some _ from rfl)
  exact ⟨_, rfl, rfl, call_answered h rfl rfl⟩

end

end LuvCoro.Runtime
