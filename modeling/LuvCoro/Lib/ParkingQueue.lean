import LuvCoro.Lib.Transition
import Mathlib.Data.List.Basic
import Mathlib.Tactic.Common

/-! # A bounded FIFO with parked takers and givers

The abstract purpose of a channel: a buffer of bounded size (capacity 0 means
unbounded), takers that wait because there is nothing to take, and givers that
wait because there is no room. A ledger beside the queue records what was
given, taken and refused, in order. The two facts a user relies on are proved
here for every run: the queue is `Valid`, and the ledger is `Balanced`.
-/
namespace ParkingQueue

open Transition

universe u v

/-- `ι` names the parties, `α` is what passes through. -/
structure Queue (ι : Type u) (α : Type v) where
  capacity : Nat
  buffer : List α := []
  takers : List ι := []
  givers : List (ι × α) := []
  closed : Bool := false

variable {ι : Type u} {α : Type v}

namespace Queue

/-- A bounded buffer without room. -/
def Full (q : Queue ι α) : Prop := 0 < q.capacity ∧ q.capacity ≤ q.buffer.length

instance (q : Queue ι α) : Decidable q.Full := inferInstanceAs (Decidable (_ ∧ _))

/-- A value can be placed without waiting: nobody waits to give, and there is a
taker or room. -/
def Accepts (q : Queue ι α) : Prop :=
  q.closed = false ∧ q.givers = [] ∧ (q.takers ≠ [] ∨ ¬ q.Full)

instance (q : Queue ι α) : Decidable q.Accepts :=
  decidable_of_iff (q.closed = false ∧ q.givers.isEmpty ∧ (!q.takers.isEmpty ∨ ¬ q.Full)) (by
    simp [Accepts])

/-- Nobody waits for what is there. -/
structure Valid (q : Queue ι α) : Prop where
  bounded : 0 < q.capacity → q.buffer.length ≤ q.capacity
  takers : q.takers ≠ [] → q.buffer = [] ∧ q.givers = [] ∧ q.closed = false
  givers : q.givers ≠ [] → 0 < q.capacity ∧ q.buffer.length = q.capacity ∧ q.closed = false

/-- What is inside, in the order it will come out. -/
def content (q : Queue ι α) : List α := q.buffer ++ q.givers.map Prod.snd

/-- Hand the value to the oldest taker, or buffer it. -/
def give (q : Queue ι α) (x : α) : Queue ι α :=
  match q.takers with
  | [] => { q with buffer := q.buffer ++ [x] }
  | _ :: ts => { q with takers := ts }

/-- The oldest value, and the queue after the oldest parked giver refilled the
buffer. -/
def take (q : Queue ι α) : Option (α × Queue ι α) :=
  match q.buffer, q.givers with
  | [], _ => none
  | x :: xs, [] => some (x, { q with buffer := xs })
  | x :: xs, g :: gs => some (x, { q with buffer := xs ++ [g.2], givers := gs })

def parkTaker (q : Queue ι α) (i : ι) : Queue ι α := { q with takers := q.takers ++ [i] }

def parkGiver (q : Queue ι α) (i : ι) (x : α) : Queue ι α :=
  { q with givers := q.givers ++ [(i, x)] }

/-- A taker stops waiting. -/
def dropTaker [DecidableEq ι] (q : Queue ι α) (i : ι) : Queue ι α :=
  { q with takers := q.takers.filter (· ≠ i) }

/-- Closing sends all parked parties away and keeps the buffer. -/
def close (q : Queue ι α) : Queue ι α := { q with takers := [], givers := [], closed := true }

theorem give_valid {q : Queue ι α} (hv : q.Valid) (ha : q.Accepts) (x : α) :
    (q.give x).Valid := by
  obtain ⟨hc, hg, hroom⟩ := ha
  unfold give
  split
  · rename_i ht
    have hnf : ¬ q.Full := by simpa [ht] using hroom
    refine ⟨fun h0 => ?_, by simp [ht], by simp [hg]⟩
    simp only [List.length_append, List.length_singleton]
    exact Nat.not_le.mp fun hle => hnf ⟨h0, hle⟩
  · rename_i t ts ht
    obtain ⟨hb, hg', hc'⟩ := hv.takers (by simp [ht])
    exact ⟨hv.bounded, fun _ => ⟨hb, hg', hc'⟩, by simp [hg]⟩

theorem take_valid {q q' : Queue ι α} {x : α} (hv : q.Valid) (h : q.take = some (x, q')) :
    q'.Valid := by
  have hnt : q.buffer ≠ [] → q.takers = [] := fun hb => by
    by_contra ht; exact hb (hv.takers ht).1
  unfold take at h
  split at h
  · cases h
  · rename_i y ys hb hg
    cases h
    have ht := hnt (by simp [hb])
    refine ⟨fun h0 => ?_, by simp [ht], by simp [hg]⟩
    have := hv.bounded h0
    simp only [hb, List.length_cons] at this
    show ys.length ≤ q.capacity
    omega
  · rename_i y ys g gs hb hg
    cases h
    have ht := hnt (by simp [hb])
    obtain ⟨h0, hlen, hc⟩ := hv.givers (by simp [hg])
    simp only [hb, List.length_cons] at hlen
    exact ⟨fun _ => by simp [hlen], by simp [ht], fun _ => ⟨h0, by simp [hlen], hc⟩⟩

theorem parkTaker_valid {q : Queue ι α} (hv : q.Valid) (hb : q.buffer = [])
    (hc : q.closed = false) (i : ι) : (q.parkTaker i).Valid := by
  have hg : q.givers = [] := by
    by_contra hg
    obtain ⟨h0, hlen, _⟩ := hv.givers hg
    rw [hb] at hlen
    simp at hlen
    omega
  exact ⟨hv.bounded, fun _ => ⟨hb, hg, hc⟩, by simp [parkTaker, hg]⟩

theorem parkGiver_valid {q : Queue ι α} (hv : q.Valid) (hc : q.closed = false)
    (hn : ¬ q.Accepts) (i : ι) (x : α) : (q.parkGiver i x).Valid := by
  have hfull : 0 < q.capacity ∧ q.buffer.length = q.capacity ∧ q.takers = [] := by
    by_cases hg : q.givers = []
    · have hr : q.takers = [] ∧ q.Full := by
        simpa [Accepts, hc, hg] using hn
      exact ⟨hr.2.1, Nat.le_antisymm (hv.bounded hr.2.1) hr.2.2, hr.1⟩
    · obtain ⟨h0, hlen, _⟩ := hv.givers hg
      refine ⟨h0, hlen, ?_⟩
      by_contra ht
      exact hg (hv.takers ht).2.1
  exact ⟨hv.bounded, by simp [parkGiver, hfull.2.2], fun _ => ⟨hfull.1, hfull.2.1, hc⟩⟩

theorem dropTaker_valid [DecidableEq ι] {q : Queue ι α} (hv : q.Valid) (i : ι) :
    (q.dropTaker i).Valid := by
  refine ⟨hv.bounded, fun ht => hv.takers fun he => ht ?_, hv.givers⟩
  simp [dropTaker, he]

theorem close_valid {q : Queue ι α} (hv : q.Valid) : q.close.Valid :=
  ⟨hv.bounded, by simp [close], by simp [close]⟩

theorem take_content {q q' : Queue ι α} {x : α} (h : q.take = some (x, q')) :
    q.content = x :: q'.content := by
  unfold take at h
  split at h
  · cases h
  · rename_i y ys hb hg
    cases h
    simp [content, hb, hg]
  · rename_i y ys g gs hb hg
    cases h
    simp [content, hb, hg]

/-! ### When room appears -/

theorem accepts_of_parkTaker {q : Queue ι α} (hv : q.Valid) (hb : q.buffer = [])
    (hc : q.closed = false) : q.Accepts := by
  refine ⟨hc, ?_, .inr fun hf => ?_⟩
  · by_contra hg
    obtain ⟨h0, hlen, _⟩ := hv.givers hg
    rw [hb, List.length_nil] at hlen
    omega
  · have := hf.2
    rw [hb, List.length_nil] at this
    have := hf.1
    omega

theorem accepts_of_dropTaker [DecidableEq ι] {q : Queue ι α} {i : ι}
    (h : (q.dropTaker i).Accepts) : q.Accepts := by
  obtain ⟨hc, hg, hroom⟩ := h
  refine ⟨hc, hg, hroom.imp_left fun ht he => ht ?_⟩
  simp [dropTaker, he]

theorem not_accepts_parkGiver (q : Queue ι α) (i : ι) (x : α) : ¬ (q.parkGiver i x).Accepts := by
  rintro ⟨_, hg, _⟩
  simp [parkGiver] at hg

theorem take_closed {q r : Queue ι α} {x : α} (h : q.take = some (x, r)) :
    r.closed = q.closed := by
  unfold take at h
  split at h <;> cases h <;> rfl

/-- Taking makes room exactly when the buffer was full and nobody was parked to
fill it again. -/
theorem take_opens {q r : Queue ι α} {x : α} (hv : q.Valid) (h : q.take = some (x, r)) :
    (¬ q.Accepts ∧ r.Accepts) ↔
      q.closed = false ∧ 0 < q.capacity ∧ q.buffer.length = q.capacity ∧ q.givers = [] := by
  have hnt : q.takers = [] := by
    by_contra ht
    rw [take, (hv.takers ht).1] at h
    cases h
  unfold take at h
  split at h
  · cases h
  · rename_i y ys hb hg
    cases h
    have hlen : q.buffer.length = ys.length + 1 := by rw [hb, List.length_cons]
    constructor
    · rintro ⟨hn, hc, _, hroom⟩
      have hf : q.Full := by
        by_contra hf
        exact hn ⟨hc, hg, .inr hf⟩
      exact ⟨hc, hf.1, Nat.le_antisymm (hv.bounded hf.1) hf.2, hg⟩
    · rintro ⟨hc, h0, hfull, _⟩
      refine ⟨fun ha => ha.2.2.elim (fun ht => ht hnt) fun hf => hf ⟨h0, Nat.le_of_eq hfull.symm⟩,
        hc, hg, .inr fun hf => ?_⟩
      have : q.capacity ≤ ys.length := hf.2
      omega
  · rename_i y ys g gs hb hg
    cases h
    obtain ⟨h0, hlen, hc⟩ := hv.givers (by simp [hg])
    constructor
    · rintro ⟨_, _, hgs, hroom⟩
      refine absurd hroom (not_or.mpr ⟨fun ht => ht hnt, fun hf => hf ⟨h0, ?_⟩⟩)
      show q.capacity ≤ (ys ++ [g.2]).length
      rw [hb, List.length_cons] at hlen
      rw [List.length_append, List.length_singleton]
      omega
    · rintro ⟨_, _, _, hno⟩
      rw [hg] at hno
      cases hno

end Queue

/-! ## Runs with a ledger -/

/-- The queue, and what has been given, taken and refused so far. -/
structure Ledger (ι : Type u) (α : Type v) extends Queue ι α where
  given : List α := []
  taken : List α := []
  refused : List α := []

namespace Ledger

/-- Nothing is lost, duplicated or overtaken. -/
def Balanced (s : Ledger ι α) : Prop := s.taken ++ s.content ++ s.refused = s.given

end Ledger

inductive Move (ι : Type u) (α : Type v)
  | give (x : α)
  | parkGiver (i : ι) (x : α)
  | take
  | parkTaker (i : ι)
  | dropTaker (i : ι)
  | close

/-- A value given while a taker waits is taken at once. -/
def step [DecidableEq ι] (s : Ledger ι α) : Move ι α → Option (Ledger ι α)
  | .give x =>
    if s.Accepts then
      some { s with
        toQueue := s.give x
        given := s.given ++ [x]
        taken := if s.takers.isEmpty then s.taken else s.taken ++ [x] }
    else none
  | .parkGiver i x =>
    if s.closed = false ∧ ¬ s.Accepts then
      some { s with toQueue := s.parkGiver i x, given := s.given ++ [x] }
    else none
  | .take => s.take.map fun r => { s with toQueue := r.2, taken := s.taken ++ [r.1] }
  | .parkTaker i =>
    if s.buffer.isEmpty ∧ s.closed = false then some { s with toQueue := s.parkTaker i } else none
  | .dropTaker i => some { s with toQueue := s.dropTaker i }
  | .close =>
    some { s with toQueue := s.close, refused := s.refused ++ s.givers.map Prod.snd }

/-- An open, empty queue of any capacity. -/
def system (ι : Type u) (α : Type v) [DecidableEq ι] : System (Ledger ι α) (Move ι α) where
  init s := ∃ capacity, s = { capacity := capacity }
  step := step

/-- What has been taken stays taken. -/
theorem step_taken [DecidableEq ι] {s t : Ledger ι α} {m : Move ι α} (h : step s m = some t) :
    s.taken <+: t.taken := by
  cases m with
  | give x =>
    obtain ⟨_, ht⟩ : s.Accepts ∧ _ := by simpa [step] using h
    subst ht
    dsimp only
    split
    · exact List.prefix_refl _
    · exact List.prefix_append _ _
  | parkGiver i x =>
    obtain ⟨_, ht⟩ : (s.closed = false ∧ ¬ s.Accepts) ∧ _ := by simpa [step] using h
    subst ht
    exact List.prefix_refl _
  | take =>
    obtain ⟨r, _, ht⟩ := Option.map_eq_some_iff.mp h
    subst ht
    exact List.prefix_append _ _
  | parkTaker i =>
    obtain ⟨_, ht⟩ : (s.buffer = [] ∧ s.closed = false) ∧ _ := by simpa [step] using h
    subst ht
    exact List.prefix_refl _
  | dropTaker i =>
    cases h
    exact List.prefix_refl _
  | close =>
    cases h
    exact List.prefix_refl _

/-- What every move keeps. The refused values stand behind the content, so
once there are some nothing may be given any more. -/
structure Sound (s : Ledger ι α) : Prop where
  valid : s.Valid
  balanced : s.Balanced
  refusedClosed : s.refused ≠ [] → s.closed = true

theorem step_sound [DecidableEq ι] {s t : Ledger ι α} {m : Move ι α} (hs : Sound s)
    (h : step s m = some t) : Sound t := by
  have hopen : s.closed = false → s.refused = [] := fun hc => by
    by_contra hr
    simp [hs.refusedClosed hr] at hc
  have hbal := hs.balanced
  unfold Ledger.Balanced at hbal
  cases m with
  | give x =>
    obtain ⟨ha, ht⟩ : s.Accepts ∧ _ := by simpa [step] using h
    subst ht
    refine ⟨Queue.give_valid hs.valid ha x, ?_, fun hr => absurd (hopen ha.1) hr⟩
    rw [hopen ha.1] at hbal
    cases htk : s.takers with
    | nil =>
      simp [Ledger.Balanced, Queue.give, Queue.content, htk, hopen ha.1, ← hbal, ha.2.1]
    | cons t ts =>
      obtain ⟨hb, hg, _⟩ := hs.valid.takers (by simp [htk])
      simp [Ledger.Balanced, Queue.give, Queue.content, htk, hopen ha.1, ← hbal, hb, hg]
  | parkGiver i x =>
    obtain ⟨⟨hc, hn⟩, ht⟩ : (s.closed = false ∧ ¬ s.Accepts) ∧ _ := by simpa [step] using h
    subst ht
    refine ⟨Queue.parkGiver_valid hs.valid hc hn i x, ?_, fun hr => absurd (hopen hc) hr⟩
    simp [Ledger.Balanced, Queue.parkGiver, Queue.content, hopen hc, ← hbal]
  | take =>
    obtain ⟨r, hr, ht⟩ := Option.map_eq_some_iff.mp h
    subst ht
    refine ⟨Queue.take_valid hs.valid hr, ?_, fun hne => ?_⟩
    · rw [Queue.take_content hr] at hbal
      simpa [Ledger.Balanced] using hbal
    · exact (Queue.take_closed hr).trans (hs.refusedClosed hne)
  | parkTaker i =>
    obtain ⟨⟨hb, hc⟩, ht⟩ : (s.buffer = [] ∧ s.closed = false) ∧ _ := by simpa [step] using h
    subst ht
    exact ⟨Queue.parkTaker_valid hs.valid hb hc i, hbal, hs.refusedClosed⟩
  | dropTaker i =>
    cases h
    exact ⟨Queue.dropTaker_valid hs.valid i, hbal, hs.refusedClosed⟩
  | close =>
    cases h
    refine ⟨Queue.close_valid hs.valid, ?_, fun _ => rfl⟩
    by_cases hg : s.givers = []
    · simpa [Ledger.Balanced, Queue.close, Queue.content, hg] using hbal
    · have hr := hopen (hs.valid.givers hg).2.2
      simpa [Ledger.Balanced, Queue.close, Queue.content, hr] using hbal

/-- Every run of the abstract queue is sound. -/
theorem reachable_sound [DecidableEq ι] {s : Ledger ι α} (h : Reachable (system ι α) s) :
    Sound s := by
  refine h.invariant ?_ fun s m t _ hs ht => step_sound hs ht
  rintro s ⟨capacity, rfl⟩
  exact ⟨⟨by simp, by simp, by simp⟩, by simp [Ledger.Balanced, Queue.content], by simp⟩

/-- A closed queue stays closed, takes nothing in, and what is left comes out
in order. -/
theorem step_closed [DecidableEq ι] {s t : Ledger ι α} {m : Move ι α} (hv : s.Valid)
    (hc : s.closed = true) (h : step s m = some t) :
    t.closed = true ∧ t.given = s.given ∧
      ∃ xs, s.buffer = xs ++ t.buffer ∧ t.taken = s.taken ++ xs := by
  have hgv : s.givers = [] := by
    by_contra hne
    exact absurd (hv.givers hne).2.2 (by simp [hc])
  cases m with
  | give x => simp [step, Queue.Accepts, hc] at h
  | parkGiver i x => simp [step, hc] at h
  | take =>
    obtain ⟨r, hr, ht⟩ := Option.map_eq_some_iff.mp h
    subst ht
    unfold Queue.take at hr
    split at hr
    · cases hr
    · rename_i x xs hb _
      cases hr
      exact ⟨hc, rfl, [x], hb, rfl⟩
    · rename_i hg
      rw [hgv] at hg
      cases hg
  | parkTaker i => simp [step, hc] at h
  | dropTaker i =>
    cases h
    exact ⟨hc, rfl, [], rfl, (List.append_nil _).symm⟩
  | close =>
    cases h
    exact ⟨rfl, rfl, [], rfl, (List.append_nil _).symm⟩

end ParkingQueue
