import Mathlib.Data.List.Infix
import Mathlib.Data.Nat.Find

/-! # Occurrences in a text and in its prefixes

Where a list occurs in another, the first such place, and which of several lists
a search prefers: the one that starts first and, of those, the longest. A prefix
of the text has the occurrences that end in it, so that a choice made on a prefix
stands as long as nothing better ends later. -/
namespace Occurrence

universe u
variable {α : Type u}

/-- `d` stands in `xs` at offset `p`. -/
def At (d xs : List α) (p : Nat) : Prop := p ≤ xs.length ∧ d <+: xs.drop p

instance [DecidableEq α] (d xs : List α) (p : Nat) : Decidable (At d xs p) :=
  inferInstanceAs (Decidable (_ ∧ _))

theorem At.length_le {d xs : List α} {p : Nat} (h : At d xs p) : p + d.length ≤ xs.length := by
  have hlen := h.2.length_le
  have hp := h.1
  rw [List.length_drop] at hlen
  omega

/-- A prefix of the text has the occurrences that end in it. -/
theorem at_take {d xs : List α} {p n : Nat} :
    At d (xs.take n) p ↔ At d xs p ∧ p + d.length ≤ n := by
  constructor
  · intro h
    have hlen := h.length_le
    rw [List.length_take] at hlen
    obtain ⟨_, hd⟩ := h
    rw [List.drop_take] at hd
    exact ⟨⟨by omega, (List.prefix_take_iff.mp hd).1⟩, by omega⟩
  · rintro ⟨h, hn⟩
    have hlen := h.length_le
    refine ⟨?_, ?_⟩
    · rw [List.length_take]
      omega
    · rw [List.drop_take]
      exact List.prefix_take_iff.mpr ⟨h.2, by omega⟩

theorem At.append {d xs : List α} {p : Nat} (h : At d xs p) (ys : List α) :
    At d (xs ++ ys) p := by
  refine ⟨?_, ?_⟩
  · have := h.1
    rw [List.length_append]
    omega
  · rw [List.drop_append_of_le_length h.1]
    exact h.2.trans (List.prefix_append _ _)

theorem at_zero {d xs : List α} : At d xs 0 ↔ d <+: xs := by
  simp [At]

theorem at_succ {d xs : List α} {x : α} {p : Nat} : At d (x :: xs) (p + 1) ↔ At d xs p := by
  simp [At]

/-- The text up to the end of an occurrence ends with it. -/
theorem At.suffix_take {d xs : List α} {p : Nat} (h : At d xs p) :
    d <:+ xs.take (p + d.length) := by
  obtain ⟨r, hr⟩ := h.2
  refine ⟨xs.take p, ?_⟩
  rw [List.take_add, ← hr, List.take_left]

/-- A prefix that ends with `d` ends an occurrence. -/
theorem at_of_suffix {d l xs : List α} (hl : l <+: xs) (hd : d <:+ l) :
    At d xs (l.length - d.length) := by
  obtain ⟨r, rfl⟩ := hl
  obtain ⟨m, rfl⟩ := hd
  refine ⟨?_, ?_⟩
  · simp only [List.length_append]
    omega
  · rw [List.length_append, Nat.add_sub_cancel, List.append_assoc, List.drop_left]
    exact List.prefix_append _ _

theorem infix_iff {d xs : List α} : d <:+: xs ↔ ∃ p, At d xs p := by
  constructor
  · rintro ⟨l, r, rfl⟩
    refine ⟨l.length, by simp, ?_⟩
    rw [List.append_assoc, List.drop_left]
    exact List.prefix_append d r
  · rintro ⟨p, _, hp⟩
    exact hp.isInfix.trans (List.drop_suffix p xs).isInfix

/-! ## The first occurrence -/

section
variable [DecidableEq α]

/-- The offset of the first occurrence. -/
def find (d : List α) : List α → Option Nat
  | [] => if d <+: [] then some 0 else none
  | x :: xs => if d <+: x :: xs then some 0 else (find d xs).map (· + 1)

theorem find_none {d xs : List α} : find d xs = none ↔ ∀ p, ¬ At d xs p := by
  induction xs with
  | nil =>
    simp only [find]
    split
    · rename_i h
      simp only [reduceCtorEq, false_iff, not_forall, not_not]
      exact ⟨0, at_zero.mpr h⟩
    · rename_i h
      simp only [true_iff]
      rintro p ⟨hp, hd⟩
      exact h (by simpa using hd)
  | cons x xs ih =>
    simp only [find]
    split
    · rename_i h
      simp only [reduceCtorEq, false_iff, not_forall, not_not]
      exact ⟨0, at_zero.mpr h⟩
    · rename_i h
      rw [Option.map_eq_none_iff, ih]
      constructor
      · intro hno p hp
        cases p with
        | zero => exact h (at_zero.mp hp)
        | succ p => exact hno p (at_succ.mp hp)
      · intro hno p hp
        exact hno (p + 1) (at_succ.mpr hp)

theorem find_some {d xs : List α} {p : Nat} (h : find d xs = some p) :
    At d xs p ∧ ∀ q, At d xs q → p ≤ q := by
  induction xs generalizing p with
  | nil =>
    simp only [find] at h
    split at h
    · rename_i hd
      cases h
      exact ⟨at_zero.mpr hd, fun q _ => Nat.zero_le q⟩
    · cases h
  | cons x xs ih =>
    simp only [find] at h
    split at h
    · rename_i hd
      cases h
      exact ⟨at_zero.mpr hd, fun q _ => Nat.zero_le q⟩
    · rename_i hd
      obtain ⟨p', hp', rfl⟩ := Option.map_eq_some_iff.mp h
      obtain ⟨hat, hmin⟩ := ih hp'
      refine ⟨at_succ.mpr hat, fun q hq => ?_⟩
      cases q with
      | zero => exact absurd (at_zero.mp hq) hd
      | succ q => exact Nat.succ_le_succ (hmin q (at_succ.mp hq))

end

/-! ## The shortest prefix that ends with a list -/

/-- `l` is the shortest prefix of `xs` that ends with `d`. -/
structure Shortest (d xs l : List α) : Prop where
  isPrefix : l <+: xs
  ends : d <:+ l
  least : ∀ l', l' <+: xs → d <:+ l' → l.length ≤ l'.length

/-- It ends with the first occurrence. -/
theorem shortest_of_first {d xs : List α} {p : Nat} (h : At d xs p)
    (hmin : ∀ q, At d xs q → p ≤ q) : Shortest d xs (xs.take (p + d.length)) := by
  refine ⟨List.take_prefix _ _, h.suffix_take, fun l' hl' hd => ?_⟩
  have hle := hmin _ (at_of_suffix hl' hd)
  have hlen := hd.length_le
  rw [List.length_take]
  omega

/-! ## The preferred one of several -/

/-- The `i`-th list `d` at `p` is preferred to the `j`-th list `d'` at `q`: it
starts earlier, or there and is longer, or is the same and listed earlier. -/
def Precedes (p : Nat) (d : List α) (i q : Nat) (d' : List α) (j : Nat) : Prop :=
  p < q ∨ p = q ∧ (d'.length < d.length ∨ d'.length = d.length ∧ i ≤ j)

theorem Precedes.trans {p q r i j k : Nat} {d d' d'' : List α} (h : Precedes p d i q d' j)
    (h' : Precedes q d' j r d'' k) : Precedes p d i r d'' k := by
  unfold Precedes at *
  omega

/-- The preferred one of all occurrences. -/
structure Best (ds : List (List α)) (xs : List α) (i : Nat) (d : List α) (p : Nat) : Prop where
  listed : ds[i]? = some d
  occurs : At d xs p
  first : ∀ j d' q, ds[j]? = some d' → At d' xs q → Precedes p d i q d' j

theorem Best.unique {ds : List (List α)} {xs d d' : List α} {i j p q : Nat}
    (h : Best ds xs i d p) (h' : Best ds xs j d' q) : i = j ∧ d = d' ∧ p = q := by
  have h₁ := h.first j d' q h'.listed h'.occurs
  have h₂ := h'.first i d p h.listed h.occurs
  have hij : i = j ∧ p = q := by
    unfold Precedes at h₁ h₂
    omega
  obtain ⟨rfl, rfl⟩ := hij
  exact ⟨rfl, Option.some.inj (h.listed.symm.trans h'.listed), rfl⟩

/-- The preferred one of a text is that of every prefix it ends in. -/
theorem Best.shrink {ds : List (List α)} {xs d : List α} {i p m n : Nat}
    (h : Best ds (xs.take n) i d p) (hmn : m ≤ n) (hend : p + d.length ≤ m) :
    Best ds (xs.take m) i d p := by
  refine ⟨h.listed, at_take.mpr ⟨(at_take.mp h.occurs).1, hend⟩, fun j d' q hj hq => ?_⟩
  obtain ⟨hat, hle⟩ := at_take.mp hq
  exact h.first j d' q hj (at_take.mpr ⟨hat, by omega⟩)

/-- `e` is where the first of all occurrences ends. -/
structure FirstEnd (ds : List (List α)) (xs : List α) (e : Nat) : Prop where
  ends : ∃ d ∈ ds, ∃ p, At d xs p ∧ p + d.length = e
  least : ∀ d ∈ ds, ∀ p, At d xs p → e ≤ p + d.length

/-- Some list occurs in the first `n` exactly from the first end on. -/
theorem FirstEnd.occurs_iff {ds : List (List α)} {xs : List α} {e n : Nat}
    (h : FirstEnd ds xs e) : (∃ d ∈ ds, ∃ p, At d (xs.take n) p) ↔ e ≤ n := by
  constructor
  · rintro ⟨d, hd, p, hp⟩
    obtain ⟨hat, hle⟩ := at_take.mp hp
    exact Nat.le_trans (h.least d hd p hat) hle
  · intro hle
    obtain ⟨d, hd, p, hat, rfl⟩ := h.ends
    exact ⟨d, hd, p, at_take.mpr ⟨hat, hle⟩⟩

/-- When something occurs there is a first end. -/
theorem exists_firstEnd {ds : List (List α)} {xs : List α} (h : ∃ d ∈ ds, ∃ p, At d xs p) :
    ∃ e, FirstEnd ds xs e := by
  have hne : ∃ e, ∃ d ∈ ds, ∃ p, At d xs p ∧ p + d.length = e := by
    obtain ⟨d, hd, p, hp⟩ := h
    exact ⟨_, d, hd, p, hp, rfl⟩
  classical
  refine ⟨Nat.find hne, Nat.find_spec hne, fun d hd p hp => ?_⟩
  exact Nat.find_min' hne ⟨d, hd, p, hp, rfl⟩

end Occurrence
