import Mathlib.Data.List.Nodup

/-! # Linearizable histories

An object answers operations and changes its state. When many parties use it at
once, a history of invocations and answers is explained by an order of the
operations: one after the other in that order they give the same answers and
leave the same state, and an operation that was answered before another one was
invoked comes before it. Operations that have not answered may be in the order or
not. -/
namespace Linearization

universe u v w

variable {ι : Type u} {ρ : Type v} {σ : Type w}

inductive Event (ι : Type u) (ρ : Type v)
  | invoked (i : ι)
  | answered (i : ι) (r : ρ)

/-- What operations answer one after the other, and the state they leave. -/
def replay (act : ι → σ → ρ × σ) : σ → List ι → List (ι × ρ) × σ
  | s, [] => ([], s)
  | s, i :: is => ((i, (act i s).1) :: (replay act (act i s).2 is).1, (replay act (act i s).2 is).2)

/-- `i` has been answered when `j` is invoked. -/
def Before (es : List (Event ι ρ)) (i j : ι) : Prop :=
  ∃ l r, es = l ++ r ∧ (∃ a, .answered i a ∈ l) ∧ .invoked j ∈ r

/-- `order` explains the history `es`, which begins in `s₀` and has come to `s`. -/
structure Linearizes (act : ι → σ → ρ × σ) (s₀ : σ) (es : List (Event ι ρ)) (order : List ι)
    (s : σ) : Prop where
  once : order.Nodup
  invoked : ∀ i ∈ order, .invoked i ∈ es
  answered : ∀ i a, .answered i a ∈ es → (i, a) ∈ (replay act s₀ order).1
  realTime : ∀ i j, Before es i j → j ∈ order → [i, j].Sublist order
  final : (replay act s₀ order).2 = s

section
variable {act : ι → σ → ρ × σ} {s₀ s : σ} {es : List (Event ι ρ)} {order : List ι} {i j : ι} {a : ρ}

theorem replay_concat (act : ι → σ → ρ × σ) (s : σ) (order : List ι) (i : ι) :
    replay act s (order ++ [i]) =
      ((replay act s order).1 ++ [(i, (act i (replay act s order).2).1)],
        (act i (replay act s order).2).2) := by
  induction order generalizing s with
  | nil => rfl
  | cons j order ih => simp [replay, ih]

theorem mem_of_replay (h : (i, a) ∈ (replay act s order).1) : i ∈ order := by
  induction order generalizing s with
  | nil => cases h
  | cons j order ih =>
    rcases List.mem_cons.mp h with he | h
    · cases he
      exact List.mem_cons_self
    · exact List.mem_cons_of_mem j (ih h)

/-- What comes last in a history comes before nothing, unless it is an invocation. -/
theorem before_concat {e : Event ι ρ} (h : Before (es ++ [e]) i j) :
    Before es i j ∨ e = .invoked j := by
  obtain ⟨l, r, he, hl, hr⟩ := h
  rcases List.eq_nil_or_concat r with hn | ⟨r', e', hc⟩
  · rw [hn] at hr
    cases hr
  · rw [hc, List.concat_eq_append] at he hr
    rw [← List.append_assoc] at he
    obtain ⟨hes, hlast⟩ := List.append_inj' he rfl
    rcases List.mem_append.mp hr with hr | hr
    · exact .inl ⟨l, r', hes, hl, hr⟩
    · rw [List.mem_singleton] at hr
      refine .inr ?_
      simp only [List.cons.injEq, and_true] at hlast
      rw [hlast, hr]

theorem linearizes_init : Linearizes act s₀ [] [] s₀ where
  once := List.nodup_nil
  invoked _ h := by cases h
  answered _ _ h := by cases h
  realTime _ _ _ h := by cases h
  final := rfl

namespace Linearizes

theorem mem_of_answered (h : Linearizes act s₀ es order s) (ha : .answered i a ∈ es) : i ∈ order :=
  mem_of_replay (h.answered i a ha)

theorem invoke (h : Linearizes act s₀ es order s) (hi : i ∉ order) :
    Linearizes act s₀ (es ++ [.invoked i]) order s where
  once := h.once
  invoked j hj := List.mem_append_left _ (h.invoked j hj)
  answered j a hj := by
    rcases List.mem_append.mp hj with hj | hj
    · exact h.answered j a hj
    · simp at hj
  realTime k j hb hj := by
    rcases before_concat hb with hb | he
    · exact h.realTime k j hb hj
    · cases he
      exact absurd hj hi
  final := h.final

/-- An invoked operation takes effect. -/
theorem effect (h : Linearizes act s₀ es order s) (hi : .invoked i ∈ es) (hn : i ∉ order) :
    Linearizes act s₀ es (order ++ [i]) (act i s).2 where
  once := by
    refine List.nodup_append.mpr ⟨h.once, List.nodup_singleton i, fun j hj k hk he => ?_⟩
    rw [List.mem_singleton] at hk
    exact hn (hk ▸ he ▸ hj)
  invoked j hj := by
    rcases List.mem_append.mp hj with hj | hj
    · exact h.invoked j hj
    · rw [List.mem_singleton.mp hj]
      exact hi
  answered j a hj := by
    rw [replay_concat]
    exact List.mem_append_left _ (h.answered j a hj)
  realTime k j hb hj := by
    rcases List.mem_append.mp hj with hj | hj
    · exact (h.realTime k j hb hj).trans (List.sublist_append_left order [i])
    · rw [List.mem_singleton.mp hj]
      obtain ⟨l, r, he, hk, -⟩ := hb
      obtain ⟨a, ha⟩ := hk
      -- what has been answered is in the order already
      have hk : k ∈ order := h.mem_of_answered (he ▸ List.mem_append_left r ha)
      exact (List.singleton_sublist.mpr hk).append (List.Sublist.refl [i])
  final := by rw [replay_concat, h.final]

/-- An operation is answered with what it answered when it took effect. -/
theorem answer (h : Linearizes act s₀ es order s) (ha : (i, a) ∈ (replay act s₀ order).1) :
    Linearizes act s₀ (es ++ [.answered i a]) order s where
  once := h.once
  invoked j hj := List.mem_append_left _ (h.invoked j hj)
  answered j b hj := by
    rcases List.mem_append.mp hj with hj | hj
    · exact h.answered j b hj
    · rw [List.mem_singleton] at hj
      cases hj
      exact ha
  realTime k j hb hj := by
    rcases before_concat hb with hb | he
    · exact h.realTime k j hb hj
    · cases he
  final := h.final

theorem effect_answers (h : Linearizes act s₀ es order s) (i : ι) :
    (i, (act i s).1) ∈ (replay act s₀ (order ++ [i])).1 := by
  rw [replay_concat, h.final]
  exact List.mem_append_right _ (List.mem_singleton_self _)

theorem replay_mono (h : (j, a) ∈ (replay act s₀ order).1) (i : ι) :
    (j, a) ∈ (replay act s₀ (order ++ [i])).1 := by
  rw [replay_concat]
  exact List.mem_append_left _ h

end Linearizes

end

end Linearization
