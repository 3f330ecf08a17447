import Mathlib.Logic.Function.Basic
import LuvCoro.Lib.Transition

/-! # Coroutines that ask their environment

A coroutine returns, throws, or asks a question and goes on with the answer. What
serves the questions has a state of its own, and may have several answers to one.
`Leads` is a run of one coroutine with the environment to itself; `pool` is the
system in which any number of them take turns at it. -/
namespace Coroutine

inductive Coro (Q A ε α : Type)
  | done (a : α)
  | fails (e : ε)
  | asks (q : Q) (next : A → Coro Q A ε α)

variable {Q A ε α β σ ι : Type} {c : Coro Q A ε α} {f : α → Coro Q A ε β} {a : α} {e : ε}
  {q : Q} {next : A → Coro Q A ε α}

namespace Coro

def bind : Coro Q A ε α → (α → Coro Q A ε β) → Coro Q A ε β
  | done a, f => f a
  | fails e, _ => fails e
  | asks q next, f => asks q fun a => (next a).bind f

def catches : Coro Q A ε α → (ε → Coro Q A ε α) → Coro Q A ε α
  | done a, _ => done a
  | fails e, h => h e
  | asks q next, h => asks q fun a => (next a).catches h

end Coro

instance : Monad (Coro Q A ε) where
  pure := .done
  bind := .bind

instance : MonadExcept ε (Coro Q A ε) where
  throw := .fails
  tryCatch := .catches

def ask (q : Q) : Coro Q A ε A := .asks q .done

/-- `h` runs when `c` throws, and what was thrown goes on. -/
def unwinding (h : Coro Q A ε Unit) (c : Coro Q A ε α) : Coro Q A ε α :=
  tryCatch c fun e => do
    h
    throw e

@[simp] theorem pure_eq : (pure a : Coro Q A ε α) = .done a := rfl
@[simp] theorem throw_eq : (throw e : Coro Q A ε α) = .fails e := rfl
@[simp] theorem done_bind : (.done a : Coro Q A ε α) >>= f = f a := rfl
@[simp] theorem fails_bind : (.fails e : Coro Q A ε α) >>= f = .fails e := rfl
@[simp] theorem asks_bind : (.asks q next : Coro Q A ε α) >>= f = .asks q fun a => next a >>= f :=
  rfl
@[simp] theorem ask_bind {g : A → Coro Q A ε β} : ask q >>= g = .asks q g := rfl
@[simp] theorem tryCatch_done {h : ε → Coro Q A ε α} :
    tryCatch (.done a : Coro Q A ε α) h = .done a := rfl
@[simp] theorem tryCatch_fails {h : ε → Coro Q A ε α} :
    tryCatch (.fails e : Coro Q A ε α) h = h e := rfl
@[simp] theorem tryCatch_asks {h : ε → Coro Q A ε α} :
    tryCatch (.asks q next : Coro Q A ε α) h = .asks q fun a => tryCatch (next a) h := rfl

/-! ## A coroutine alone -/

/-- `c` runs from `s` to `t`, asks what `trace` has, and returns or throws. -/
inductive Leads (serve : σ → Q → A → Option σ) :
    Coro Q A ε α → σ → List (Q × A) → Except ε α → σ → Prop
  | done {a : α} {s : σ} : Leads serve (.done a) s [] (.ok a) s
  | fails {e : ε} {s : σ} : Leads serve (.fails e) s [] (.error e) s
  | asks {q : Q} {next : A → Coro Q A ε α} {s u t : σ} {a : A} {trace : List (Q × A)}
      {r : Except ε α} :
      serve s q a = some u → Leads serve (next a) u trace r t →
      Leads serve (.asks q next) s ((q, a) :: trace) r t

variable {serve : σ → Q → A → Option σ} {s t : σ} {trace : List (Q × A)} {r : Except ε α}

@[simp] theorem leads_done :
    Leads serve (.done a) s trace r t ↔ trace = [] ∧ r = .ok a ∧ t = s := by
  constructor
  · intro h
    cases h
    simp
  · rintro ⟨rfl, rfl, rfl⟩
    exact .done

@[simp] theorem leads_fails :
    Leads serve (.fails e : Coro Q A ε α) s trace r t ↔
      trace = [] ∧ r = .error e ∧ t = s := by
  constructor
  · intro h
    cases h
    simp
  · rintro ⟨rfl, rfl, rfl⟩
    exact .fails

theorem leads_asks :
    Leads serve (.asks q next) s trace r t ↔
      ∃ a u rest, serve s q a = some u ∧ Leads serve (next a) u rest r t ∧
        trace = (q, a) :: rest := by
  constructor
  · intro h
    cases h with
    | asks hs hl => exact ⟨_, _, _, hs, hl, rfl⟩
  · rintro ⟨a, u, rest, hs, hl, rfl⟩
    exact .asks hs hl

theorem leads_bind {x : Except ε β} :
    Leads serve (c >>= f) s trace x t ↔
      (∃ a u before after, Leads serve c s before (.ok a) u ∧ Leads serve (f a) u after x t ∧
        trace = before ++ after) ∨
      ∃ e, x = .error e ∧ Leads serve c s trace (.error e) t := by
  induction c generalizing s trace with
  | done a =>
    constructor
    · intro h
      exact .inl ⟨a, s, [], trace, .done, h, rfl⟩
    · rintro (⟨b, u, before, after, hb, ha, rfl⟩ | ⟨e, _, he⟩)
      · cases hb
        exact ha
      · cases he
  | fails e =>
    constructor
    · intro h
      cases h
      exact .inr ⟨e, rfl, .fails⟩
    · rintro (⟨b, u, before, after, hb, _, _⟩ | ⟨e, rfl, he⟩)
      · cases hb
      · cases he
        exact .fails
  | asks q next ih =>
    simp only [asks_bind, leads_asks]
    constructor
    · rintro ⟨a, u, rest, hs, hl, rfl⟩
      rcases (ih a).mp hl with ⟨b, v, before, after, hb, ha, rfl⟩ | ⟨e, rfl, he⟩
      · exact .inl ⟨b, v, (q, a) :: before, after, ⟨a, u, before, hs, hb, rfl⟩, ha, rfl⟩
      · exact .inr ⟨e, rfl, a, u, rest, hs, he, rfl⟩
    · rintro (⟨b, v, before, after, ⟨a, u, rest, hs, hb, rfl⟩, ha, rfl⟩ |
        ⟨e, rfl, a, u, rest, hs, he, rfl⟩)
      · exact ⟨a, u, rest ++ after, hs, (ih a).mpr (.inl ⟨b, v, rest, after, hb, ha, rfl⟩), rfl⟩
      · exact ⟨a, u, rest, hs, (ih a).mpr (.inr ⟨e, rfl, he⟩), rfl⟩

theorem leads_bind_ok {b : β} :
    Leads serve (c >>= f) s trace (.ok b) t ↔
      ∃ a u before after, Leads serve c s before (.ok a) u ∧
        Leads serve (f a) u after (.ok b) t ∧ trace = before ++ after := by
  rw [leads_bind]
  constructor
  · rintro (h | ⟨e, he, _⟩)
    · exact h
    · cases he
  · exact .inl

theorem leads_tryCatch {h : ε → Coro Q A ε α} :
    Leads serve (tryCatch c h) s trace r t ↔
      (∃ a, r = .ok a ∧ Leads serve c s trace (.ok a) t) ∨
      ∃ e u before after, Leads serve c s before (.error e) u ∧
        Leads serve (h e) u after r t ∧ trace = before ++ after := by
  induction c generalizing s trace with
  | done a =>
    constructor
    · intro hl
      cases hl
      exact .inl ⟨a, rfl, .done⟩
    · rintro (⟨a, rfl, ha⟩ | ⟨e, u, before, after, he, _, _⟩)
      · exact ha
      · cases he
  | fails e =>
    constructor
    · intro hl
      exact .inr ⟨e, s, [], trace, .fails, hl, rfl⟩
    · rintro (⟨a, rfl, ha⟩ | ⟨e, u, before, after, he, hh, rfl⟩)
      · cases ha
      · cases he
        exact hh
  | asks q next ih =>
    simp only [tryCatch_asks, leads_asks]
    constructor
    · rintro ⟨a, u, rest, hs, hl, rfl⟩
      rcases (ih a).mp hl with ⟨b, rfl, hb⟩ | ⟨e, v, before, after, he, hh, rfl⟩
      · exact .inl ⟨b, rfl, a, u, rest, hs, hb, rfl⟩
      · exact .inr ⟨e, v, (q, a) :: before, after, ⟨a, u, before, hs, he, rfl⟩, hh, rfl⟩
    · rintro (⟨b, rfl, a, u, rest, hs, hb, rfl⟩ |
        ⟨e, v, before, after, ⟨a, u, rest, hs, he, rfl⟩, hh, rfl⟩)
      · exact ⟨a, u, rest, hs, (ih a).mpr (.inl ⟨b, rfl, hb⟩), rfl⟩
      · exact ⟨a, u, rest ++ after, hs,
          (ih a).mpr (.inr ⟨e, v, rest, after, he, hh, rfl⟩), rfl⟩

/-- What unwinds throws in the end. -/
theorem leads_unwinding_ok {h : Coro Q A ε Unit} :
    Leads serve (unwinding h c) s trace (.ok a) t ↔ Leads serve c s trace (.ok a) t := by
  unfold unwinding
  rw [leads_tryCatch]
  constructor
  · rintro (⟨b, hb, hl⟩ | ⟨e, u, before, after, _, hl, _⟩)
    · cases hb
      exact hl
    · obtain ⟨_, _, _, _, _, hf, _⟩ := leads_bind_ok.mp hl
      cases hf
  · intro hl
    exact .inl ⟨a, rfl, hl⟩

/-- The run in which the answers are `as`. -/
def replay (serve : σ → Q → A → Option σ) :
    Coro Q A ε α → σ → List A → Option (List (Q × A) × Except ε α × σ)
  | .done a, s, [] => some ([], .ok a, s)
  | .fails e, s, [] => some ([], .error e, s)
  | .asks q next, s, a :: as => do
    let u ← serve s q a
    let (trace, x) ← replay serve (next a) u as
    pure ((q, a) :: trace, x)
  | _, _, _ => none

theorem leads_of_replay (serve : σ → Q → A → Option σ) (c : Coro Q A ε α) (s : σ) (as : List A)
    (h : replay serve c s as = some (trace, r, t)) : Leads serve c s trace r t := by
  induction c generalizing s as trace with
  | done a =>
    cases as with
    | nil =>
      cases h
      exact .done
    | cons b bs => cases h
  | fails e =>
    cases as with
    | nil =>
      cases h
      exact .fails
    | cons b bs => cases h
  | asks q next ih =>
    cases as with
    | nil => cases h
    | cons b bs =>
      simp only [replay, Option.bind_eq_bind, Option.bind_eq_some_iff] at h
      obtain ⟨u, hs, ⟨rest, x⟩, hr, he⟩ := h
      cases he
      exact .asks hs (ih b u bs hr)

/-! ## Coroutines that return -/

/-- However the environment answers, as long as each answer is good, it has a good
answer to the next question, and `c` returns in the end with what `P` says. -/
def Returns (good : Q × A → Prop) (serve : σ → Q → A → Option σ) :
    Coro Q A ε α → σ → (α → σ → Prop) → Prop
  | .done a, s, P => P a s
  | .fails _, _, _ => False
  | .asks q next, s, P =>
    (∃ a u, good (q, a) ∧ serve s q a = some u) ∧
      ∀ a u, good (q, a) → serve s q a = some u → Returns good serve (next a) u P

variable {good : Q × A → Prop} {P : α → σ → Prop}

@[simp] theorem returns_done : Returns good serve (.done a : Coro Q A ε α) s P ↔ P a s := Iff.rfl

theorem returns_asks :
    Returns good serve (.asks q next) s P ↔
      (∃ a u, good (q, a) ∧ serve s q a = some u) ∧
        ∀ a u, good (q, a) → serve s q a = some u → Returns good serve (next a) u P := Iff.rfl

theorem Returns.imp {P' : α → σ → Prop} (h : Returns good serve c s P)
    (hP : ∀ a t, P a t → P' a t) : Returns good serve c s P' := by
  induction c generalizing s with
  | done a => exact hP a s h
  | fails e => cases h
  | asks q next ih =>
    obtain ⟨hsome, hnext⟩ := h
    refine ⟨hsome, ?_⟩
    intro a u hg hs
    exact ih a (hnext a u hg hs)

theorem returns_bind {P : β → σ → Prop}
    (h : Returns good serve c s fun a t => Returns good serve (f a) t P) :
    Returns good serve (c >>= f) s P := by
  induction c generalizing s with
  | done a => exact h
  | fails e => exact h
  | asks q next ih =>
    obtain ⟨hsome, hnext⟩ := h
    refine ⟨hsome, ?_⟩
    intro a u hg hs
    exact ih a (hnext a u hg hs)

theorem returns_unwinding {h : Coro Q A ε Unit} (hc : Returns good serve c s P) :
    Returns good serve (unwinding h c) s P := by
  induction c generalizing s with
  | done a => exact hc
  | fails e => cases hc
  | asks q next ih =>
    obtain ⟨hsome, hnext⟩ := hc
    refine ⟨hsome, ?_⟩
    intro a u hg hs
    exact ih a (hnext a u hg hs)

theorem Returns.run (h : Returns good serve c s P) :
    ∃ trace a t, (∀ x ∈ trace, good x) ∧ Leads serve c s trace (.ok a) t ∧ P a t := by
  induction c generalizing s with
  | done a => exact ⟨[], a, s, by simp, .done, h⟩
  | fails e => cases h
  | asks q next ih =>
    obtain ⟨⟨a, u, hg, hs⟩, hnext⟩ := h
    obtain ⟨trace, b, t, hall, hl, hP⟩ := ih a (hnext a u hg hs)
    refine ⟨(q, a) :: trace, b, t, ?_, .asks hs hl, hP⟩
    intro x hx
    rcases List.mem_cons.mp hx with rfl | hx
    · exact hg
    · exact hall x hx

theorem Returns.every (h : Returns good serve c s P) (hg : ∀ x ∈ trace, good x)
    (hl : Leads serve c s trace r t) : ∃ a, r = .ok a ∧ P a t := by
  induction hl with
  | done => exact ⟨_, rfl, h⟩
  | fails => cases h
  | asks hs _ ih =>
    obtain ⟨_, hnext⟩ := h
    refine ih (hnext _ _ (hg _ List.mem_cons_self) hs) ?_
    intro x hx
    exact hg x (List.mem_cons_of_mem _ hx)

/-! ## Coroutines that take turns -/

structure Pool (ι Q A ε α σ : Type) where
  state : σ
  coros : ι → Coro Q A ε α

variable [DecidableEq ι] {p p' : Pool ι Q A ε α σ} {i j : ι}

/-- `l` has whose question is served, and the answer. -/
def Pool.step (serve : σ → Q → A → Option σ) (p : Pool ι Q A ε α σ) (l : ι × A) :
    Option (Pool ι Q A ε α σ) :=
  match p.coros l.1 with
  | .asks q next => (serve p.state q l.2).map fun s =>
      { state := s, coros := Function.update p.coros l.1 (next l.2) }
  | _ => none

def pool (serve : σ → Q → A → Option σ) (init : Pool ι Q A ε α σ → Prop) :
    Transition.System (Pool ι Q A ε α σ) (ι × A) where
  init := init
  step := Pool.step serve

theorem Pool.step_cases {x : A} (h : p.step serve (i, x) = some p') :
    ∃ q next u, p.coros i = .asks q next ∧ serve p.state q x = some u ∧
      p' = { state := u, coros := Function.update p.coros i (next x) } := by
  unfold Pool.step at h
  split at h
  · rename_i q next hc
    obtain ⟨u, hu, rfl⟩ := Option.map_eq_some_iff.mp h
    exact ⟨q, next, u, hc, hu, rfl⟩
  · cases h

end Coroutine
