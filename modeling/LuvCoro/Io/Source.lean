import LuvCoro.Io.StreamBuffer

/-! # Streams that are read from

What the functions of `include/luvcoro/io.hpp` know of the stream they are given:
a read returns some of what is left, and no more than it was asked for. -/
namespace LuvCoro.Io

/-- What the functions on streams throw beyond what a stream does. -/
inductive Failure where
  | of (e : Error)
  /-- `std::runtime_error` -/
  | runtimeError (what : String)
  deriving DecidableEq, Repr

/-- `read` is `read_some`, and `read_some_into` with what it puts into the buffer.
`unread` is what the stream still has. -/
structure Source (α σ : Type) where
  read : σ → Nat → Except Failure (List α) × σ
  unread : σ → List α
  delivers {s s' : σ} {wanted : Nat} {chunk : List α} :
    read s wanted = (.ok chunk, s') → unread s = chunk ++ unread s'
  bounded {s s' : σ} {wanted : Nat} {chunk : List α} :
    read s wanted = (.ok chunk, s') → chunk.length ≤ wanted

variable {α σ : Type}

namespace Source

theorem shrinks {source : Source α σ} {s s' : σ} {wanted : Nat} {chunk : List α}
    (h : source.read s wanted = (.ok chunk, s')) (hne : chunk ≠ []) :
    (source.unread s').length < (source.unread s).length := by
  have hpos := List.length_pos_iff.mpr hne
  rw [source.delivers h, List.length_append]
  omega

/-- Before its end the source returns something for each read of at least one byte. -/
structure Steady (source : Source α σ) : Prop where
  gives (s : σ) {wanted : Nat} : 0 < wanted → source.unread s ≠ [] →
    ∃ chunk s', source.read s wanted = (.ok chunk, s') ∧ chunk ≠ []
  ends (s : σ) (wanted : Nat) : source.unread s = [] →
    ∃ s', source.read s wanted = (.ok [], s')

end Source

/-- A stream that arrives in chunks. A chunk that is longer than what is asked for
is returned in pieces. -/
def chunked : Source α { cs : List (List α) // [] ∉ cs } where
  read s wanted :=
    match s with
    | ⟨[], h⟩ => (.ok [], ⟨[], h⟩)
    | ⟨c :: cs, h⟩ =>
      if hle : c.length ≤ wanted then
        (.ok c, ⟨cs, fun hm => h (List.mem_cons_of_mem _ hm)⟩)
      else
        (.ok (c.take wanted), ⟨c.drop wanted :: cs, by
          intro hm
          rcases List.mem_cons.mp hm with he | hm
          · exact hle (List.drop_eq_nil_iff.mp he.symm)
          · exact h (List.mem_cons_of_mem _ hm)⟩)
  unread s := s.1.flatten
  delivers {s s' wanted chunk} h := by
    obtain ⟨cs, hcs⟩ := s
    cases cs with
    | nil =>
      cases h
      rfl
    | cons c cs =>
      dsimp only at h
      split at h <;> cases h
      · rfl
      · rw [List.flatten_cons, List.flatten_cons, ← List.append_assoc, List.take_append_drop]
  bounded {s s' wanted chunk} h := by
    obtain ⟨cs, hcs⟩ := s
    cases cs with
    | nil =>
      cases h
      exact Nat.zero_le _
    | cons c cs =>
      dsimp only at h
      split at h <;> cases h
      · assumption
      · exact List.length_take_le _ _

theorem chunked_steady : (chunked : Source α { cs : List (List α) // [] ∉ cs }).Steady where
  gives s wanted hw hs := by
    obtain ⟨cs, hcs⟩ := s
    cases cs with
    | nil => exact absurd rfl hs
    | cons c cs =>
      have hc : c ≠ [] := by
        intro he
        exact hcs (he ▸ List.mem_cons_self)
      by_cases hle : c.length ≤ wanted
      · exact ⟨_, _, dif_pos hle, hc⟩
      · refine ⟨_, _, dif_neg hle, ?_⟩
        intro he
        have hlen := congrArg List.length he
        rw [List.length_take, List.length_nil] at hlen
        omega
  ends s wanted hs := by
    obtain ⟨cs, hcs⟩ := s
    cases cs with
    | nil => exact ⟨_, rfl⟩
    | cons c cs =>
      have hc := (List.append_eq_nil_iff.mp hs).1
      exact absurd (hc ▸ List.mem_cons_self) hcs

end LuvCoro.Io
