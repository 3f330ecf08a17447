import Mathlib.Logic.Relation

/-! # Labelled transition systems with a computable step

A system is a set of initial states and a partial step function: a label that
is not enabled answers `none`. Reachability is relative to a condition on the
state before a step and its label, so that "in every run whose steps all meet
the condition" is reachability under it, and plain reachability is the case
where the condition always holds. -/
namespace Transition

universe u v

/-- Initial states, and the state a label leads to when it is enabled. -/
structure System (S : Type u) (L : Type v) where
  init : S → Prop
  step : S → L → Option S

variable {S S' : Type u} {L L' : Type v} {A : System S L} {B : System S' L'}

/-- States reached by runs whose steps all meet `good`. -/
inductive ReachableBy (A : System S L) (good : S → L → Prop) : S → Prop
  | init {s : S} : A.init s → ReachableBy A good s
  | step {s t : S} {l : L} :
      ReachableBy A good s → good s l → A.step s l = some t → ReachableBy A good t

/-- States reached by any run. -/
def Reachable (A : System S L) : S → Prop := ReachableBy A fun _ _ => True

theorem ReachableBy.mono {good good' : S → L → Prop} {s : S}
    (h : ReachableBy A good s) (hg : ∀ s l, good s l → good' s l) : ReachableBy A good' s := by
  induction h with
  | init h0 => exact .init h0
  | step _ hl hs ih => exact .step ih (hg _ _ hl) hs

theorem ReachableBy.reachable {good : S → L → Prop} {s : S}
    (h : ReachableBy A good s) : Reachable A s := h.mono fun _ _ _ => trivial

theorem Reachable.next {s t : S} {l : L} (h : Reachable A s) (hs : A.step s l = some t) :
    Reachable A t := .step h trivial hs

/-- The induction every invariant goes through: it holds at the start, and a
step that meets the condition keeps it. The step may use that the state before
it is itself reached by such a run. -/
theorem ReachableBy.invariant {good : S → L → Prop} {I : S → Prop} {s : S}
    (h : ReachableBy A good s) (h0 : ∀ s, A.init s → I s)
    (hstep : ∀ s l t, ReachableBy A good s → I s → good s l → A.step s l = some t → I t) :
    I s := by
  induction h with
  | init hi => exact h0 _ hi
  | step hr hl hs ih => exact hstep _ _ _ hr ih hl hs

theorem Reachable.invariant {I : S → Prop} {s : S} (h : Reachable A s)
    (h0 : ∀ s, A.init s → I s)
    (hstep : ∀ s l t, Reachable A s → I s → A.step s l = some t → I t) : I s :=
  ReachableBy.invariant h h0 fun s l t hr hI _ hs => hstep s l t hr hI hs

/-- Follow a list of labels; `none` as soon as one is not enabled. -/
def run (A : System S L) : S → List L → Option S
  | s, [] => some s
  | s, l :: ls => (A.step s l).bind fun t => run A t ls

theorem ReachableBy.run {good : S → L → Prop} {s t : S} {ls : List L} (h : ReachableBy A good s)
    (hg : ∀ u, ∀ l ∈ ls, good u l) (hr : Transition.run A s ls = some t) :
    ReachableBy A good t := by
  induction ls generalizing s with
  | nil => cases hr; exact h
  | cons l ls ih =>
    simp only [Transition.run, Option.bind_eq_some_iff] at hr
    obtain ⟨u, hs, hr⟩ := hr
    have hu := ReachableBy.step h (hg s l List.mem_cons_self) hs
    exact ih hu (fun u l hl => hg u l (List.mem_cons_of_mem _ hl)) hr

theorem Reachable.run {s t : S} {ls : List L} (h : Reachable A s)
    (hr : Transition.run A s ls = some t) : Reachable A t :=
  ReachableBy.run h (fun _ _ _ => trivial) hr

/-- A component of a system goes through a run of its own when each step is a stutter
of it or one of its steps. -/
theorem ReachableBy.component {good : S → L → Prop} {good' : S' → L' → Prop} {f : S → S'} {s : S}
    (h : ReachableBy A good s) (h0 : ∀ s, A.init s → B.init (f s))
    (hstep : ∀ s l t, ReachableBy A good s → good s l → A.step s l = some t →
      f t = f s ∨ ∃ m, good' (f s) m ∧ B.step (f s) m = some (f t)) :
    ReachableBy B good' (f s) := by
  refine h.invariant (I := fun s => ReachableBy B good' (f s)) (fun s hs => .init (h0 s hs)) ?_
  intro s l t hr hB hl hs
  rcases hstep s l t hr hl hs with he | ⟨m, hm, hms⟩
  · rw [he]
    exact hB
  · exact hB.step hm hms

/-- The run lemma: what each step from a reachable state keeps, a run keeps. -/
theorem Reachable.run_invariant {I : S → Prop} {s t : S} {ls : List L} (h : Reachable A s)
    (h0 : I s) (hstep : ∀ s l t, Reachable A s → I s → A.step s l = some t → I t)
    (hr : Transition.run A s ls = some t) : I t := by
  induction ls generalizing s with
  | nil => cases hr; exact h0
  | cons l ls ih =>
    simp only [Transition.run, Option.bind_eq_some_iff] at hr
    obtain ⟨u, hs, hr⟩ := hr
    exact ih (h.next hs) (hstep s l u h h0 hs) hr

/-- A run along which a measure decreases comes to its end. -/
theorem Reachable.halts {f : S → Nat} {s : S} (h : Reachable A s)
    (hf : ∀ s l t, Reachable A s → A.step s l = some t → f t < f s) :
    ∃ t, Reachable A t ∧ ∀ l, A.step t l = none := by
  induction hn : f s using Nat.strongRecOn generalizing s with
  | ind n ih =>
    by_cases hs : ∃ l t, A.step s l = some t
    · obtain ⟨l, t, hs⟩ := hs
      exact ih (f t) (hn ▸ hf s l t h hs) (h.next hs) rfl
    · refine ⟨s, h, fun l => ?_⟩
      cases hl : A.step s l with
      | none => rfl
      | some t => exact absurd ⟨l, t, hl⟩ hs

theorem run_snoc {s t u : S} {ls : List L} {l : L} (h : run A s ls = some t)
    (hs : A.step t l = some u) : run A s (ls ++ [l]) = some u := by
  induction ls generalizing s with
  | nil =>
    cases h
    simp [run, hs]
  | cons m ms ih =>
    simp only [run, Option.bind_eq_some_iff] at h
    obtain ⟨v, hv, h⟩ := h
    simp only [List.cons_append, run, Option.bind_eq_some_iff]
    exact ⟨v, hv, ih h⟩

theorem Reachable.path {t : S} (h : Reachable A t) : ∃ s ls, A.init s ∧ Transition.run A s ls = some t := by
  induction h with
  | init h0 => exact ⟨_, [], h0, rfl⟩
  | step _ _ hs ih =>
    obtain ⟨s, ls, h0, hr⟩ := ih
    exact ⟨s, ls ++ [_], h0, run_snoc hr hs⟩

/-- Where there is only one run, every state of it comes before its last one. -/
theorem Reachable.before_end {s t : S} (h : Reachable A s) (ht : Reachable A t)
    (hinit : ∀ s t, A.init s → A.init t → s = t)
    (hstep : ∀ s l m t u, A.step s l = some t → A.step s m = some u → t = u)
    (hend : ∀ l, A.step t l = none) : ∃ ls, Transition.run A s ls = some t := by
  induction h with
  | init h0 =>
    obtain ⟨u, ls, hu, hr⟩ := ht.path
    cases hinit _ _ h0 hu
    exact ⟨ls, hr⟩
  | step _ _ hs ih =>
    obtain ⟨ls, hr⟩ := ih
    cases ls with
    | nil =>
      cases hr
      rw [hend] at hs
      cases hs
    | cons l ls =>
      simp only [Transition.run, Option.bind_eq_some_iff] at hr
      obtain ⟨u, hu, hr⟩ := hr
      cases hstep _ _ _ _ _ hs hu
      exact ⟨ls, hr⟩

/-- A step of `A` is a stutter or one step of `B`, seen through `f`. -/
structure Refines (A : System S L) (B : System S' L') (f : S → S') : Prop where
  init : ∀ s, A.init s → B.init (f s)
  step : ∀ s l t, Reachable A s → A.step s l = some t →
    f t = f s ∨ ∃ m, B.step (f s) m = some (f t)

/-- Reachable states of a refinement are reachable states of what it refines. -/
theorem Refines.reachable {f : S → S'} (hf : Refines A B f) {s : S} (h : Reachable A s) :
    Reachable B (f s) := by
  refine h.invariant (I := fun s => Reachable B (f s)) (fun s h0 => .init (hf.init s h0)) ?_
  intro s l t hr hB hs
  rcases hf.step s l t hr hs with he | ⟨m, hm⟩
  · rw [he]; exact hB
  · exact hB.next hm

end Transition
