import Mathlib.Data.List.Basic
import Mathlib.Data.List.Nodup
import Mathlib.Data.List.Count
import Mathlib.Logic.Function.Basic
import Mathlib.Tactic.Common

/-! # Pools of one-shot waiters

A pool holds the records of waiters of one kind, a queue of waiters that may
contain dead ones, and the resumptions that are owed, here called tokens.
Whatever runs on a pool can do one thing to a waiter it does not own: leave it
alone, or, if it is waiting, complete it and owe it exactly one token. This is
`Advance`; it composes, so it only has to be shown of the single operations. -/
namespace WaiterPool

universe u v

/-- The flags of a waiter record that the protocol looks at. -/
class Waiter (ρ : Type v) where
  active : ρ → Bool
  completed : ρ → Bool

structure Pool (ι : Type u) (ρ : Type v) where
  record : ι → ρ
  queue : List ι
  tokens : List ι

variable {ι : Type u} {ρ : Type v} [Waiter ρ]

namespace Pool

def active (p : Pool ι ρ) (j : ι) : Bool := Waiter.active (p.record j)

def completed (p : Pool ι ρ) (j : ι) : Bool := Waiter.completed (p.record j)

/-- The live part of the queue, oldest first. -/
def waiting (p : Pool ι ρ) : List ι := p.queue.filter p.active

theorem mem_waiting {p : Pool ι ρ} {j : ι} :
    j ∈ p.waiting ↔ j ∈ p.queue ∧ p.active j = true := List.mem_filter

/-- A queued waiter is not queued twice, and a live one is not yet completed. -/
structure WellFormed (p : Pool ι ρ) : Prop where
  nodup : p.queue.Nodup
  pending : ∀ j ∈ p.waiting, p.completed j = false

end Pool

/-! ## Dropping the dead front -/

theorem dropWhile_eq_nil {live : ι → Bool} {l : List ι} (h : l.filter live = []) :
    l.dropWhile (fun w => !live w) = [] := by
  induction l with
  | nil => rfl
  | cons x xs ih =>
    obtain ⟨hx, hxs⟩ := List.forall_mem_cons.mp (List.filter_eq_nil_iff.mp h)
    simpa [hx] using ih (List.filter_eq_nil_iff.mpr hxs)

theorem dropWhile_eq_cons {live : ι → Bool} {l : List ι} {w : ι} {ws : List ι}
    (h : l.filter live = w :: ws) :
    ∃ q, l.dropWhile (fun w => !live w) = w :: q ∧ q.filter live = ws ∧ (w :: q) <:+ l := by
  induction l with
  | nil => cases h
  | cons x xs ih =>
    by_cases hx : live x = true
    · rw [List.filter_cons_of_pos hx, List.cons.injEq] at h
      obtain ⟨rfl, hf⟩ := h
      exact ⟨xs, by simp [hx], hf, List.suffix_refl _⟩
    · rw [List.filter_cons_of_neg hx] at h
      obtain ⟨q, hq, hf, hs⟩ := ih h
      exact ⟨q, by simpa [hx] using hq, hf, hs.trans (List.suffix_cons x xs)⟩

theorem filter_dropWhile (live : ι → Bool) (l : List ι) :
    (l.dropWhile fun w => !live w).filter live = l.filter live := by
  induction l with
  | nil => rfl
  | cons x xs ih =>
    by_cases hx : live x = true
    · simp [hx]
    · simpa [hx] using ih

/-! ## What happens to a waiter -/

section
variable [DecidableEq ι]

/-- Either nothing happens to `j`, or `j` was waiting, is completed now, and one
more token is owed to it. -/
inductive Advance (p p' : Pool ι ρ) (j : ι) : Prop
  | same (record : p'.record j = p.record j)
      (tokens : p'.tokens.count j = p.tokens.count j)
      (queue : j ∈ p.waiting → j ∈ p'.queue)
  | completed (waiting : j ∈ p.waiting)
      (inactive : p'.active j = false) (completed : p'.completed j = true)
      (tokens : p'.tokens.count j = p.tokens.count j + 1)

/-- Every waiter outside `own` advances, and none of them joins the queue. -/
structure Evolves (own : ι → Prop) (p p' : Pool ι ρ) : Prop where
  mem : ∀ j, ¬ own j → j ∈ p'.queue → j ∈ p.queue
  advance : ∀ j, ¬ own j → Advance p p' j

theorem Advance.refl (p : Pool ι ρ) (j : ι) : Advance p p j :=
  .same rfl rfl fun h => (Pool.mem_waiting.mp h).1

theorem Advance.active_of {p p' : Pool ι ρ} {j : ι} (h : Advance p p' j)
    (ha : p'.active j = true) : p'.record j = p.record j := by
  cases h with
  | same record _ _ => exact record
  | completed _ inactive _ _ => rw [inactive] at ha; cases ha

theorem Advance.trans {p q r : Pool ι ρ} {j : ι} (h : Advance p q j) (h' : Advance q r j)
    (hs : j ∈ q.queue → j ∈ p.queue) : Advance p r j := by
  cases h with
  | same record tokens queue =>
    have hact : q.active j = p.active j := by simp [Pool.active, record]
    have hwait : j ∈ p.waiting → j ∈ q.waiting := fun hw =>
      Pool.mem_waiting.mpr ⟨queue hw, by rw [hact]; exact (Pool.mem_waiting.mp hw).2⟩
    cases h' with
    | same record' tokens' queue' =>
      exact .same (record'.trans record) (tokens'.trans tokens) fun hw => queue' (hwait hw)
    | completed waiting inactive completed tokens' =>
      obtain ⟨hq, ha⟩ := Pool.mem_waiting.mp waiting
      exact .completed (Pool.mem_waiting.mpr ⟨hs hq, hact ▸ ha⟩) inactive completed
        (by rw [tokens', tokens])
  | completed waiting inactive completed tokens =>
    cases h' with
    | same record' tokens' _ =>
      exact .completed waiting (by simpa [Pool.active, record'] using inactive)
        (by simpa [Pool.completed, record'] using completed) (by rw [tokens', tokens])
    | completed waiting' _ _ _ =>
      rw [(Pool.mem_waiting.mp waiting').2] at inactive
      cases inactive

theorem Evolves.refl (own : ι → Prop) (p : Pool ι ρ) : Evolves own p p :=
  ⟨fun _ _ h => h, fun j _ => .refl p j⟩

theorem Evolves.trans {own : ι → Prop} {p q r : Pool ι ρ} (h : Evolves own p q)
    (h' : Evolves own q r) : Evolves own p r :=
  ⟨fun j hj hr => h.mem j hj (h'.mem j hj hr), fun j hj =>
    (h.advance j hj).trans (h'.advance j hj) (h.mem j hj)⟩

theorem Evolves.mono {own own' : ι → Prop} {p q : Pool ι ρ} (h : Evolves own p q)
    (ho : ∀ j, own j → own' j) : Evolves own' p q :=
  ⟨fun j hj => h.mem j fun ho' => hj (ho j ho'), fun j hj => h.advance j fun ho' => hj (ho j ho')⟩

/-- A waiter still waiting was waiting with the same record. -/
theorem Evolves.waiting_of {own : ι → Prop} {p q : Pool ι ρ} (h : Evolves own p q) {j : ι}
    (hj : ¬ own j) (hw : j ∈ q.waiting) : j ∈ p.waiting ∧ q.record j = p.record j := by
  obtain ⟨hq, ha⟩ := Pool.mem_waiting.mp hw
  have hr := (h.advance j hj).active_of ha
  exact ⟨Pool.mem_waiting.mpr ⟨h.mem j hj hq, by simpa [Pool.active, hr] using ha⟩, hr⟩

/-- A waiter that is not waiting, and is not owned, is left alone. -/
theorem Evolves.idle {own : ι → Prop} {p q : Pool ι ρ} (h : Evolves own p q) {j : ι}
    (hj : ¬ own j) (hw : j ∉ p.waiting) :
    q.record j = p.record j ∧ q.tokens.count j = p.tokens.count j := by
  cases h.advance j hj with
  | same record tokens _ => exact ⟨record, tokens⟩
  | completed waiting _ _ _ => exact absurd waiting hw

theorem Evolves.wellFormed {own : ι → Prop} {p q : Pool ι ρ} (h : Evolves own p q)
    (hp : p.WellFormed) (hn : q.queue.Nodup) (hown : ∀ j ∈ q.waiting, own j → q.completed j = false) :
    q.WellFormed := by
  refine ⟨hn, fun j hj => ?_⟩
  by_cases ho : own j
  · exact hown j hj ho
  · obtain ⟨hw, hr⟩ := h.waiting_of ho hj
    simpa [Pool.completed, hr] using hp.pending j hw

/-- What is owed to a waiter, or will be once it is completed. -/
def Pool.load (p : Pool ι ρ) (j : ι) : Nat := p.tokens.count j + p.waiting.count j

theorem Pool.WellFormed.count_waiting {p : Pool ι ρ} (hp : p.WellFormed) {j : ι} :
    p.waiting.count j = if j ∈ p.waiting then 1 else 0 := by
  have hn : p.waiting.Nodup := hp.nodup.filter _
  split
  · rename_i h
    exact List.count_eq_one_of_mem hn h
  · rename_i h
    exact List.count_eq_zero.mpr h

/-- Completing a waiter pays with a token for the place in the queue: the load
of a waiter nobody owns does not change. -/
theorem Evolves.load_eq {own : ι → Prop} {p q : Pool ι ρ} (h : Evolves own p q)
    (hp : p.WellFormed) (hq : q.WellFormed) {j : ι} (hj : ¬ own j) : q.load j = p.load j := by
  unfold Pool.load
  rw [hp.count_waiting, hq.count_waiting]
  cases h.advance j hj with
  | same record tokens queue =>
    have hact : q.active j = p.active j := by simp [Pool.active, record]
    have hiff : j ∈ q.waiting ↔ j ∈ p.waiting := by
      constructor
      · exact fun hw => (h.waiting_of hj hw).1
      · exact fun hw => Pool.mem_waiting.mpr
          ⟨queue hw, hact ▸ (Pool.mem_waiting.mp hw).2⟩
    rw [tokens]
    simp only [hiff]
  | completed waiting inactive _ tokens =>
    have hn : j ∉ q.waiting := fun hw => by
      rw [(Pool.mem_waiting.mp hw).2] at inactive
      cases inactive
    rw [tokens, if_pos waiting, if_neg hn]

/-! ## The single operations -/

/-- Only the dead front of the queue goes. -/
theorem evolves_prune (own : ι → Prop) {p p' : Pool ι ρ} (hr : p'.record = p.record)
    (ht : p'.tokens = p.tokens) (hs : p'.queue.Sublist p.queue)
    (hw : p'.waiting = p.waiting) : Evolves own p p' := by
  refine ⟨fun j _ hj => hs.subset hj, fun j _ => .same (by rw [hr]) (by rw [ht]) fun hj => ?_⟩
  rw [← hw] at hj
  exact (Pool.mem_waiting.mp hj).1

/-- The oldest waiter leaves the queue, is completed, and is owed a token. -/
theorem evolves_complete {p r : Pool ι ρ} {w : ι} {ws q : List ι}
    (hw : p.waiting = w :: ws) (hq : r.queue = q) (hsuf : (w :: q) <:+ p.queue)
    (hfil : q.filter p.active = ws)
    (hrec : ∀ j, j ≠ w → r.record j = p.record j) (hact : r.active w = false)
    (hcomp : r.completed w = true) (htok : r.tokens = p.tokens ++ [w]) :
    Evolves (fun _ => False) p r := by
  have hsub : q.Sublist p.queue := (List.sublist_cons_self w q).trans hsuf.sublist
  refine ⟨fun j _ hj => hsub.subset (hq ▸ hj), fun j _ => ?_⟩
  by_cases hj : j = w
  · subst hj
    exact .completed (by simp [hw]) hact hcomp (by simp [htok])
  · refine .same (hrec j hj) ?_ fun hmem => ?_
    · rw [htok, List.count_append, List.count_singleton]
      simp [Ne.symm hj]
    · rw [hw] at hmem
      have hmem' : j ∈ q.filter p.active := by
        rw [hfil]
        exact (List.mem_cons.mp hmem).resolve_left hj
      rw [hq]
      exact (List.mem_filter.mp hmem').1

omit [DecidableEq ι] in
/-- After that, the live queue is the rest of what it was. -/
theorem waiting_complete {p r : Pool ι ρ} {w : ι} {ws q : List ι} (hp : p.WellFormed)
    (hq : r.queue = q) (hsuf : (w :: q) <:+ p.queue) (hfil : q.filter p.active = ws)
    (hrec : ∀ j, j ≠ w → r.record j = p.record j) : r.waiting = ws := by
  have hnd : (w :: q).Nodup := hp.nodup.sublist hsuf.sublist
  have hwq : w ∉ q := (List.nodup_cons.mp hnd).1
  unfold Pool.waiting
  rw [hq, ← hfil]
  refine List.filter_congr fun j hj => ?_
  have hne : j ≠ w := fun he => hwq (he ▸ hj)
  simp [Pool.active, hrec j hne]

end

end WaiterPool
