import Mathlib.Data.List.Nodup
import Mathlib.Logic.Function.Basic

/-! # Tokens in the custody of holders

A token (a lock, a descriptor, a handle) is taken into custody once, moves from
one holder to another, and is released by the holder that has it: it has one
holder at a time, is released at most once, and is not lost. -/
namespace Custody

universe u v

/-- Who holds which token, and the tokens that have been taken and released. -/
structure Records (H : Type u) (T : Type v) where
  held : H → Option T := fun _ => none
  taken : List T := []
  released : List T := []

variable {H : Type u} {T : Type v}

structure Sound (c : Records H T) : Prop where
  once : c.taken.Nodup
  releasedOnce : c.released.Nodup
  releasedTaken : c.released ⊆ c.taken
  held : ∀ {h t}, c.held h = some t → t ∈ c.taken ∧ t ∉ c.released
  unique : ∀ {h h' t}, c.held h = some t → c.held h' = some t → h = h'
  kept : ∀ {t}, t ∈ c.taken → t ∉ c.released → ∃ h, c.held h = some t

theorem sound_empty : Sound ({} : Records H T) where
  once := List.nodup_nil
  releasedOnce := List.nodup_nil
  releasedTaken _ h := by cases h
  held h := by cases h
  unique h := by cases h
  kept h := by cases h

theorem nodup_concat {l : List T} {t : T} (hl : l.Nodup) (ht : t ∉ l) : (l ++ [t]).Nodup := by
  refine List.nodup_append.mpr ⟨hl, List.nodup_singleton t, fun a ha b hb he => ?_⟩
  rw [List.mem_singleton] at hb
  exact ht (hb ▸ he ▸ ha)

variable [DecidableEq H]

def take (c : Records H T) (h : H) (t : T) : Records H T :=
  { c with held := Function.update c.held h (some t), taken := c.taken ++ [t] }

/-- `h'` gets what `h` has. -/
def move (c : Records H T) (h h' : H) : Records H T :=
  { c with held := Function.update (Function.update c.held h' (c.held h)) h none }

def release (c : Records H T) (h : H) : Records H T :=
  match c.held h with
  | some t => { c with held := Function.update c.held h none, released := c.released ++ [t] }
  | none => c

section
variable {c : Records H T} {h h' k : H} {t : T}

theorem sound_take (hs : Sound c) (hfree : c.held h = none) (ht : t ∉ c.taken) :
    Sound (take c h t) := by
  have hcases : ∀ {k u}, (take c h t).held k = some u →
      k = h ∧ u = t ∨ k ≠ h ∧ c.held k = some u := by
    intro k u hk
    by_cases hkh : k = h
    · subst hkh
      simp only [take, Function.update_self, Option.some.injEq] at hk
      exact .inl ⟨rfl, hk.symm⟩
    · simp only [take, Function.update_of_ne hkh] at hk
      exact .inr ⟨hkh, hk⟩
  refine ⟨nodup_concat hs.once ht, hs.releasedOnce, fun u hu => ?_, fun hk => ?_, fun hk hk' => ?_,
    fun hu hr => ?_⟩
  · exact List.mem_append_left _ (hs.releasedTaken hu)
  · rcases hcases hk with ⟨-, hu⟩ | ⟨-, hk⟩
    · rw [hu]
      exact ⟨List.mem_append_right _ (List.mem_singleton_self t),
        fun hr => ht (hs.releasedTaken hr)⟩
    · exact ⟨List.mem_append_left _ (hs.held hk).1, (hs.held hk).2⟩
  · rcases hcases hk with ⟨he, hu⟩ | ⟨-, hk⟩
    · rcases hcases hk' with ⟨he', -⟩ | ⟨-, hk'⟩
      · rw [he, he']
      · exact absurd (hu ▸ (hs.held hk').1) ht
    · rcases hcases hk' with ⟨-, hu⟩ | ⟨-, hk'⟩
      · exact absurd (hu ▸ (hs.held hk).1) ht
      · exact hs.unique hk hk'
  · rcases List.mem_append.mp hu with hu | hu
    · obtain ⟨k, hk⟩ := hs.kept hu hr
      have hkh : k ≠ h := by
        rintro rfl
        rw [hfree] at hk
        cases hk
      exact ⟨k, by simp only [take, Function.update_of_ne hkh, hk]⟩
    · exact ⟨h, by simp only [take, Function.update_self, List.mem_singleton.mp hu]⟩

/-- What is held after a move was held before, and the other way round. -/
theorem move_held (hne : h ≠ h') (hfree : c.held h' = none) (u : T) :
    (∀ k, (move c h h').held k = some u → c.held (if k = h' then h else k) = some u ∧ k ≠ h) ∧
      ∀ k, c.held k = some u → (move c h h').held (if k = h then h' else k) = some u := by
  refine ⟨fun k hk => ?_, fun k hk => ?_⟩
  · by_cases hkh : k = h
    · subst hkh
      simp only [move, Function.update_self] at hk
      cases hk
    · simp only [move, Function.update_of_ne hkh] at hk
      refine ⟨?_, hkh⟩
      by_cases hkh' : k = h'
      · subst hkh'
        rw [if_pos rfl]
        simpa only [Function.update_self] using hk
      · rw [if_neg hkh']
        simpa only [Function.update_of_ne hkh'] using hk
  · by_cases hkh : k = h
    · subst hkh
      rw [if_pos rfl]
      simp only [move, Function.update_of_ne (Ne.symm hne), Function.update_self]
      exact hk
    · have hkh' : k ≠ h' := by
        rintro rfl
        rw [hfree] at hk
        cases hk
      rw [if_neg hkh]
      simp only [move, Function.update_of_ne hkh, Function.update_of_ne hkh']
      exact hk

theorem sound_move (hs : Sound c) (hne : h ≠ h') (hfree : c.held h' = none) :
    Sound (move c h h') := by
  refine ⟨hs.once, hs.releasedOnce, hs.releasedTaken, fun {k u} hk => ?_, fun {k k' u} hk hk' => ?_,
    fun {u} hu hr => ?_⟩
  · exact hs.held ((move_held hne hfree u).1 k hk).1
  · obtain ⟨hk, hkh⟩ := (move_held hne hfree u).1 k hk
    obtain ⟨hk', hkh'⟩ := (move_held hne hfree u).1 k' hk'
    have he := hs.unique hk hk'
    split at he <;> rename_i hc <;> split at he <;> rename_i hc'
    · rw [hc, hc']
    · exact absurd he.symm hkh'
    · exact absurd he hkh
    · exact he
  · obtain ⟨k, hk⟩ := hs.kept hu hr
    exact ⟨_, (move_held hne hfree u).2 k hk⟩

theorem release_none (hn : c.held h = none) : release c h = c := by
  unfold release
  rw [hn]

theorem release_some (hs : c.held h = some t) : release c h =
    { c with held := Function.update c.held h none, released := c.released ++ [t] } := by
  unfold release
  rw [hs]

theorem release_held (c : Records H T) (h k : H) :
    (release c h).held k = if k = h then none else c.held k := by
  by_cases hkh : k = h
  · subst hkh
    rw [if_pos rfl]
    unfold release
    split
    · exact Function.update_self ..
    · assumption
  · rw [if_neg hkh]
    unfold release
    split
    · exact Function.update_of_ne hkh ..
    · rfl

theorem sound_release (hs : Sound c) (h : H) : Sound (release c h) := by
  cases hh : c.held h with
  | none => rw [release_none hh]; exact hs
  | some t =>
    have hheld : ∀ {k u}, (release c h).held k = some u → k ≠ h ∧ c.held k = some u := by
      intro k u hk
      rw [release_held] at hk
      split at hk
      · cases hk
      · exact ⟨by assumption, hk⟩
    have hrel : (release c h).released = c.released ++ [t] := by rw [release_some hh]
    have htaken : (release c h).taken = c.taken := by rw [release_some hh]
    refine ⟨htaken ▸ hs.once, hrel ▸ nodup_concat hs.releasedOnce (hs.held hh).2, fun u hu => ?_,
      fun {k u} hk => ?_, fun hk hk' => hs.unique (hheld hk).2 (hheld hk').2, fun {u} hu hr => ?_⟩
    · rw [hrel] at hu
      rw [htaken]
      rcases List.mem_append.mp hu with hu | hu
      · exact hs.releasedTaken hu
      · rw [List.mem_singleton.mp hu]
        exact (hs.held hh).1
    · obtain ⟨hkh, hk⟩ := hheld hk
      rw [hrel, htaken]
      refine ⟨(hs.held hk).1, fun hu => ?_⟩
      rcases List.mem_append.mp hu with hu | hu
      · exact (hs.held hk).2 hu
      · rw [List.mem_singleton.mp hu] at hk
        exact hkh (hs.unique hk hh)
    · rw [hrel] at hr
      rw [htaken] at hu
      obtain ⟨hr, hut⟩ := not_or.mp (mt List.mem_append.mpr hr)
      obtain ⟨k, hk⟩ := hs.kept hu hr
      refine ⟨k, ?_⟩
      rw [release_held, if_neg, hk]
      rintro rfl
      rw [hh, Option.some.injEq] at hk
      exact hut (hk ▸ List.mem_singleton_self _)

end

end Custody
