import LuvCoro.Lib.Transition
import Mathlib.Data.List.Basic
import Mathlib.Data.List.Nodup
import Mathlib.Data.List.Count
import Mathlib.Tactic.Common

/-! # Permits and a fair queue for them

Permits are taken by callers who find one and handed, in order, to callers who
queue for one. A release serves the queue first; a queued caller can withdraw,
and a caller can be refused before it queues. The ledger keeps the history
beside the state: what it balances is what a mutex or a semaphore is for. -/
namespace PermitQueue

universe u

structure Ledger (ι : Type u) where
  initial : Int
  permits : Int
  queue : List ι
  /-- Who took a permit at once, who queued, and of these who was handed one and
  who withdrew; last who was refused. -/
  granted : List ι
  enqueued : List ι
  handed : List ι
  withdrawn : List ι
  refused : List ι
  released : Nat

inductive Move (ι : Type u) where
  | take (i : ι)
  | enqueue (i : ι)
  | release (n : Nat)
  | withdraw (i : ι)
  | refuse (i : ι)

variable {ι : Type u}

namespace Ledger

/-- Nothing has happened to the caller yet. -/
def Fresh (s : Ledger ι) (i : ι) : Prop :=
  i ∉ s.granted ∧ i ∉ s.enqueued ∧ i ∉ s.refused

instance [DecidableEq ι] (s : Ledger ι) (i : ι) : Decidable (s.Fresh i) :=
  inferInstanceAs (Decidable (_ ∧ _ ∧ _))

/-- Who has had a permit. -/
def holders (s : Ledger ι) : List ι := s.granted ++ s.handed

/-- Who has given up. -/
def cancelled (s : Ledger ι) : List ι := s.withdrawn ++ s.refused

/-- A release serves the first of the queue and keeps what is left over. -/
def release (s : Ledger ι) (n : Nat) : Ledger ι :=
  { s with
    permits := s.permits + (n - (s.queue.take n).length)
    queue := s.queue.drop n
    handed := s.handed ++ s.queue.take n
    released := s.released + n }

/-- An unused ledger. -/
def new (n : Int) : Ledger ι := ⟨n, n, [], [], [], [], [], [], 0⟩

end Ledger

variable [DecidableEq ι]

def step (s : Ledger ι) : Move ι → Option (Ledger ι)
  | .take i =>
    if 0 < s.permits ∧ s.Fresh i then
      some { s with permits := s.permits - 1, granted := s.granted ++ [i] }
    else none
  | .enqueue i =>
    if s.permits ≤ 0 ∧ s.Fresh i then
      some { s with queue := s.queue ++ [i], enqueued := s.enqueued ++ [i] }
    else none
  | .release n => some (s.release n)
  | .withdraw i =>
    if i ∈ s.queue then
      some { s with queue := s.queue.filter (· ≠ i), withdrawn := s.withdrawn ++ [i] }
    else none
  | .refuse i => if s.Fresh i then some { s with refused := s.refused ++ [i] } else none

def system (n : Int) : Transition.System (Ledger ι) (Move ι) where
  init s := s = Ledger.new n
  step := step

/-- What the history says about the state. -/
structure Sound (s : Ledger ι) : Prop where
  balance : s.permits + s.holders.length = s.initial + s.released
  nonneg : 0 ≤ s.permits
  idle : 0 < s.permits → s.queue = []
  fifo : s.enqueued.filter (· ∉ s.withdrawn) = s.handed ++ s.queue
  nodup : s.enqueued.Nodup
  once : s.granted.Nodup
  direct : ∀ i ∈ s.granted, i ∉ s.enqueued
  withdrawn : ∀ i ∈ s.withdrawn, i ∈ s.enqueued
  refused : ∀ i ∈ s.refused, i ∉ s.granted ∧ i ∉ s.enqueued

namespace Sound

variable {s : Ledger ι}

theorem mem_fifo (h : Sound s) {i : ι} :
    i ∈ s.handed ∨ i ∈ s.queue ↔ i ∈ s.enqueued ∧ i ∉ s.withdrawn := by
  rw [← List.mem_append, ← h.fifo, List.mem_filter]
  simp

/-- Nobody has a permit who gave up. -/
theorem exclusive (h : Sound s) {i : ι} (hi : i ∈ s.holders) : i ∉ s.cancelled := by
  intro hc
  rcases List.mem_append.mp hi with hg | hh
  · rcases List.mem_append.mp hc with hw | hr
    · exact h.direct i hg (h.withdrawn i hw)
    · exact (h.refused i hr).1 hg
  · obtain ⟨he, hn⟩ := h.mem_fifo.mp (.inl hh)
    rcases List.mem_append.mp hc with hw | hr
    · exact hn hw
    · exact (h.refused i hr).2 he

theorem queue_nodup (h : Sound s) : (s.handed ++ s.queue).Nodup := by
  rw [← h.fifo]
  exact h.nodup.filter _

end Sound

theorem sound_new {n : Int} (hn : 0 ≤ n) : Sound (Ledger.new n : Ledger ι) := by
  refine ⟨?_, hn, fun _ => rfl, rfl, List.nodup_nil, List.nodup_nil, nofun, nofun, nofun⟩
  simp [Ledger.new, Ledger.holders]

theorem sound_take {s : Ledger ι} {i : ι} (h : Sound s) (hp : 0 < s.permits) (hf : s.Fresh i) :
    Sound { s with permits := s.permits - 1, granted := s.granted ++ [i] } := by
  obtain ⟨hng, hne, hnr⟩ := hf
  refine ⟨?_, ?_, fun _ => h.idle hp, h.fifo, h.nodup, ?_, fun j hj => ?_, h.withdrawn,
    fun j hj => ?_⟩
  · have hb := h.balance
    simp only [Ledger.holders, List.length_append, List.length_singleton] at hb ⊢
    omega
  · show 0 ≤ s.permits - 1
    omega
  · rw [List.nodup_append]
    refine ⟨h.once, List.nodup_singleton i, fun a ha b hb he => ?_⟩
    rw [he, List.mem_singleton.mp hb] at ha
    exact hng ha
  · rcases List.mem_append.mp hj with hj | hj
    · exact h.direct j hj
    · rw [List.mem_singleton.mp hj]
      exact hne
  · obtain ⟨hg, he⟩ := h.refused j hj
    refine ⟨fun hm => ?_, he⟩
    rcases List.mem_append.mp hm with hm | hm
    · exact hg hm
    · rw [List.mem_singleton.mp hm] at hj
      exact hnr hj

theorem sound_enqueue {s : Ledger ι} {i : ι} (h : Sound s) (hp : s.permits ≤ 0)
    (hf : s.Fresh i) :
    Sound { s with queue := s.queue ++ [i], enqueued := s.enqueued ++ [i] } := by
  obtain ⟨hng, hne, hnr⟩ := hf
  have hnw : i ∉ s.withdrawn := fun hw => hne (h.withdrawn i hw)
  refine ⟨h.balance, h.nonneg, fun h0 => ?_, ?_, ?_, h.once, fun j hj => ?_, fun j hj => ?_,
    fun j hj => ?_⟩
  · exact absurd h0 (by show ¬ 0 < s.permits; omega)
  · show (s.enqueued ++ [i]).filter (· ∉ s.withdrawn) = s.handed ++ (s.queue ++ [i])
    rw [List.filter_append, h.fifo, ← List.append_assoc]
    simp [hnw]
  · rw [List.nodup_append]
    refine ⟨h.nodup, List.nodup_singleton i, fun a ha b hb he => ?_⟩
    rw [he, List.mem_singleton.mp hb] at ha
    exact hne ha
  · intro hm
    rcases List.mem_append.mp hm with hm | hm
    · exact h.direct j hj hm
    · rw [List.mem_singleton.mp hm] at hj
      exact hng hj
  · exact List.mem_append_left _ (h.withdrawn j hj)
  · obtain ⟨hg, he⟩ := h.refused j hj
    refine ⟨hg, fun hm => ?_⟩
    rcases List.mem_append.mp hm with hm | hm
    · exact he hm
    · rw [List.mem_singleton.mp hm] at hj
      exact hnr hj

theorem sound_release {s : Ledger ι} (h : Sound s) (n : Nat) : Sound (s.release n) := by
  have hlen : (s.queue.take n).length ≤ n := by
    rw [List.length_take]
    omega
  refine ⟨?_, ?_, fun hp => ?_, ?_, h.nodup, h.once, h.direct, h.withdrawn, h.refused⟩
  · have hb := h.balance
    simp only [Ledger.holders, Ledger.release, List.length_append] at hb ⊢
    omega
  · have hn := h.nonneg
    show 0 ≤ s.permits + (n - (s.queue.take n).length)
    omega
  · show s.queue.drop n = []
    by_cases hq : s.queue.length ≤ n
    · exact List.drop_eq_nil_of_le hq
    · -- the whole release went to the queue
      have ht : (s.queue.take n).length = n := by
        rw [List.length_take]
        omega
      have hpos : 0 < s.permits := by
        have hp' : 0 < s.permits + (n - (s.queue.take n).length) := hp
        rw [ht] at hp'
        omega
      rw [h.idle hpos, List.drop_nil]
  · show s.enqueued.filter (· ∉ s.withdrawn) =
      (s.handed ++ s.queue.take n) ++ s.queue.drop n
    rw [List.append_assoc, List.take_append_drop, h.fifo]

theorem sound_withdraw {s : Ledger ι} {i : ι} (h : Sound s) (hi : i ∈ s.queue) :
    Sound { s with queue := s.queue.filter (· ≠ i), withdrawn := s.withdrawn ++ [i] } := by
  have hnh : i ∉ s.handed := by
    intro hh
    exact (List.nodup_append.mp h.queue_nodup).2.2 i hh i hi rfl
  refine ⟨h.balance, h.nonneg, fun hp => ?_, ?_, h.nodup, h.once, h.direct, fun j hj => ?_, h.refused⟩
  · rw [h.idle hp] at hi
    cases hi
  · show s.enqueued.filter (· ∉ s.withdrawn ++ [i]) = s.handed ++ s.queue.filter (· ≠ i)
    have hsplit : s.enqueued.filter (· ∉ s.withdrawn ++ [i]) =
        (s.enqueued.filter (· ∉ s.withdrawn)).filter (· ≠ i) := by
      rw [List.filter_filter]
      refine List.filter_congr fun j _ => ?_
      simp [and_comm]
    rw [hsplit, h.fifo, List.filter_append]
    congr 1
    refine List.filter_eq_self.mpr fun j hj => ?_
    simp only [decide_eq_true_eq]
    exact fun he => hnh (he ▸ hj)
  · rcases List.mem_append.mp hj with hj | hj
    · exact h.withdrawn j hj
    · rw [List.mem_singleton.mp hj]
      exact (h.mem_fifo.mp (.inr hi)).1

theorem sound_refuse {s : Ledger ι} {i : ι} (h : Sound s) (hf : s.Fresh i) :
    Sound { s with refused := s.refused ++ [i] } := by
  obtain ⟨hng, hne, _⟩ := hf
  refine ⟨h.balance, h.nonneg, h.idle, h.fifo, h.nodup, h.once, h.direct, h.withdrawn,
    fun j hj => ?_⟩
  rcases List.mem_append.mp hj with hj | hj
  · exact h.refused j hj
  · rw [List.mem_singleton.mp hj]
    exact ⟨hng, hne⟩

theorem step_sound {s t : Ledger ι} {m : Move ι} (h : Sound s) (hs : step s m = some t) :
    Sound t := by
  cases m with
  | take i =>
    simp only [step, Option.ite_none_right_eq_some, Option.some.injEq] at hs
    obtain ⟨⟨hp, hf⟩, rfl⟩ := hs
    exact sound_take h hp hf
  | enqueue i =>
    simp only [step, Option.ite_none_right_eq_some, Option.some.injEq] at hs
    obtain ⟨⟨hp, hf⟩, rfl⟩ := hs
    exact sound_enqueue h hp hf
  | release n =>
    cases hs
    exact sound_release h n
  | withdraw i =>
    simp only [step, Option.ite_none_right_eq_some, Option.some.injEq] at hs
    obtain ⟨hi, rfl⟩ := hs
    exact sound_withdraw h hi
  | refuse i =>
    simp only [step, Option.ite_none_right_eq_some, Option.some.injEq] at hs
    obtain ⟨hf, rfl⟩ := hs
    exact sound_refuse h hf

/-- Nobody loses a permit by somebody else's move. -/
theorem holders_subset {s t : Ledger ι} {m : Move ι} (hs : step s m = some t) :
    s.holders ⊆ t.holders := by
  intro i hi
  rcases List.mem_append.mp hi with hg | hh
  · refine List.mem_append_left _ ?_
    cases m with
    | take j =>
      simp only [step, Option.ite_none_right_eq_some, Option.some.injEq] at hs
      rw [← hs.2]
      exact List.mem_append_left _ hg
    | enqueue j | withdraw j | refuse j =>
      simp only [step, Option.ite_none_right_eq_some, Option.some.injEq] at hs
      rw [← hs.2]
      exact hg
    | release n =>
      cases hs
      exact hg
  · refine List.mem_append_right _ ?_
    cases m with
    | take j | enqueue j | withdraw j | refuse j =>
      simp only [step, Option.ite_none_right_eq_some, Option.some.injEq] at hs
      rw [← hs.2]
      exact hh
    | release n =>
      cases hs
      exact List.mem_append_left _ hh

theorem reachable_sound {n : Int} (hn : 0 ≤ n) {s : Ledger ι}
    (h : Transition.Reachable (system n) s) : Sound s := by
  refine h.invariant ?_ ?_
  · intro s h0
    cases h0
    exact sound_new hn
  · intro s m t _ hI hs
    exact step_sound hI hs

end PermitQueue
