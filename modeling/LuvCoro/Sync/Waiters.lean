import LuvCoro.Lib.WaiterPool

/-! # The queue of waiters of a synchronisation primitive

Translated from `include/luvcoro/sync.hpp`. All primitives queue records of one
shape in a deque, complete them from its front, and leave cancelled ones in it
until `detail::prune_inactive` meets them. -/
namespace LuvCoro.Sync

open WaiterPool

abbrev OpId := Nat

/-- `waiter`; `continuation` is whether it is set. -/
structure Waiter where
  continuation : Bool := false
  active : Bool := true
  completed : Bool := false
  cancelled : Bool := false
  deriving DecidableEq

namespace Waiter

def suspend (w : Waiter) : Waiter := { w with continuation := true }

/-- What an acquisition without waiting leaves. -/
def acquire (w : Waiter) : Waiter := { w with completed := true }

/-- What a stop request before waiting leaves. -/
def refuse (w : Waiter) : Waiter := { w with completed := true, cancelled := true }

def complete (w : Waiter) : Waiter := { w with active := false, completed := true }

def cancel (w : Waiter) : Waiter :=
  { w with active := false, completed := true, cancelled := true }

end Waiter

/-- `waiters_`, and the records of all waiters. -/
structure Waiters where
  waiters : List OpId := []
  waiter : OpId → Waiter := fun _ => {}

namespace Waiters

def set (q : Waiters) (i : OpId) (f : Waiter → Waiter) : Waiters :=
  { q with waiter := Function.update q.waiter i (f (q.waiter i)) }

/-- `detail::prune_inactive`. -/
def prune (q : Waiters) : Waiters :=
  { q with waiters := q.waiters.dropWhile fun i => !(q.waiter i).active }

def pushBack (q : Waiters) (i : OpId) : Waiters := { q with waiters := q.waiters ++ [i] }

/-- The front leaves the queue and is completed. -/
def popFront (q : Waiters) : Option (OpId × Waiters) :=
  match q.waiters with
  | [] => none
  | i :: is => some (i, { q with waiters := is }.set i Waiter.complete)

/-- The loop of `release` and `notify_all` over a pruned queue, which serves at
most `n` waiters. -/
def popLoop : Nat → Waiters → List OpId × Waiters
  | 0, q => ([], q)
  | n + 1, q =>
    match q.popFront with
    | none => ([], q)
    | some (i, q) =>
      let r := popLoop n q.prune
      (i :: r.1, r.2)

/-- The section of `cancel_waiter`, when it does anything. -/
def cancelWaiter (q : Waiters) (i : OpId) : Option Waiters :=
  if !(q.waiter i).active || (q.waiter i).completed then none else some (q.set i Waiter.cancel)

/-- The waiters of the queue that are still active. -/
def active (q : Waiters) : List OpId := q.waiters.filter fun i => (q.waiter i).active

/-- A waiter is queued once, and is not completed while it is active there. -/
structure WellFormed (q : Waiters) : Prop where
  nodup : q.waiters.Nodup
  pending : ∀ i ∈ q.active, (q.waiter i).completed = false

end Waiters

open Waiters

variable {q : Waiters} {i j : OpId}

theorem mem_active : i ∈ q.active ↔ i ∈ q.waiters ∧ (q.waiter i).active = true := List.mem_filter

theorem active_nodup (h : q.WellFormed) : q.active.Nodup := h.nodup.filter _

@[simp] theorem set_waiters (q : Waiters) (i : OpId) (f : Waiter → Waiter) :
    (q.set i f).waiters = q.waiters := rfl

@[simp] theorem set_self (q : Waiters) (i : OpId) (f : Waiter → Waiter) :
    (q.set i f).waiter i = f (q.waiter i) := Function.update_self ..

theorem set_of_ne (q : Waiters) (f : Waiter → Waiter) (h : j ≠ i) :
    (q.set i f).waiter j = q.waiter j := Function.update_of_ne h ..

@[simp] theorem prune_waiter (q : Waiters) : q.prune.waiter = q.waiter := rfl

@[simp] theorem active_prune (q : Waiters) : q.prune.active = q.active :=
  filter_dropWhile (fun i => (q.waiter i).active) q.waiters

theorem prune_sublist (q : Waiters) : q.prune.waiters.Sublist q.waiters :=
  List.dropWhile_sublist _

theorem wellFormed_prune (h : q.WellFormed) : q.prune.WellFormed := by
  refine ⟨h.nodup.sublist (prune_sublist q), fun i hi => ?_⟩
  rw [active_prune] at hi
  exact h.pending i hi

/-- A pruned queue is empty when nobody waits. -/
theorem prune_isEmpty : q.prune.waiters.isEmpty = q.active.isEmpty := by
  cases ha : q.active with
  | nil =>
    have : q.prune.waiters = [] := dropWhile_eq_nil ha
    rw [this]
  | cons i is =>
    obtain ⟨l, hl, _, _⟩ := dropWhile_eq_cons ha
    have : q.prune.waiters = i :: l := hl
    rw [this]
    rfl

/-- The record of somebody who is not queued does not matter to the queue. -/
theorem active_set (hi : i ∉ q.waiters) (f : Waiter → Waiter) : (q.set i f).active = q.active := by
  refine List.filter_congr fun j hj => ?_
  have hne : j ≠ i := fun he => hi (he ▸ hj)
  rw [set_of_ne q f hne]

theorem wellFormed_set (h : q.WellFormed) (hi : i ∉ q.waiters) (f : Waiter → Waiter) :
    (q.set i f).WellFormed := by
  refine ⟨h.nodup, fun j hj => ?_⟩
  rw [active_set hi] at hj
  have hne : j ≠ i := fun he => hi (he ▸ (mem_active.mp hj).1)
  rw [set_of_ne q f hne]
  exact h.pending j hj

theorem active_pushBack (hi : (q.waiter i).active = true) :
    (q.pushBack i).active = q.active ++ [i] := by
  simp [Waiters.active, Waiters.pushBack, hi]

theorem wellFormed_pushBack (h : q.WellFormed) (hi : i ∉ q.waiters)
    (hc : (q.waiter i).completed = false) : (q.pushBack i).WellFormed := by
  refine ⟨?_, fun j hj => ?_⟩
  · refine List.nodup_append.mpr ⟨h.nodup, List.nodup_singleton i, fun a ha b hb he => ?_⟩
    rw [he, List.mem_singleton.mp hb] at ha
    exact hi ha
  · obtain ⟨hm, ha⟩ := mem_active.mp hj
    rcases List.mem_append.mp hm with hm | hm
    · exact h.pending j (mem_active.mpr ⟨hm, ha⟩)
    · rw [List.mem_singleton.mp hm]
      exact hc

/-! ## Completing waiters from the front -/

/-- The waiters `is` have left the front of the queue and are completed. -/
structure Pops (q : Waiters) (is : List OpId) (r : Waiters) : Prop where
  sublist : r.waiters.Sublist q.waiters
  active : q.active = is ++ r.active
  completed : ∀ i ∈ is, r.waiter i = (q.waiter i).complete
  others : ∀ i, i ∉ is → r.waiter i = q.waiter i

theorem pops_prune (q : Waiters) : Pops q [] q.prune :=
  ⟨prune_sublist q, (active_prune q).symm, nofun, fun _ _ => rfl⟩

theorem Pops.trans {is js : List OpId} {r t : Waiters} (hq : q.WellFormed) (h : Pops q is r)
    (h' : Pops r js t) : Pops q (is ++ js) t := by
  have hnd := active_nodup hq
  rw [h.active, h'.active, ← List.append_assoc] at hnd
  have hdisj : ∀ i ∈ is, i ∉ js := by
    intro i hi hj
    exact (List.nodup_append.mp (List.nodup_append.mp hnd).1).2.2 i hi i hj rfl
  refine ⟨h'.sublist.trans h.sublist, ?_, fun i hi => ?_, fun i hi => ?_⟩
  · rw [h.active, h'.active, List.append_assoc]
  · rcases List.mem_append.mp hi with hi | hi
    · rw [h'.others i (hdisj i hi), h.completed i hi]
    · rw [h'.completed i hi, h.others i fun hm => hdisj i hm hi]
  · rw [List.mem_append, not_or] at hi
    rw [h'.others i hi.2, h.others i hi.1]

theorem Pops.wellFormed {is : List OpId} {r : Waiters} (hq : q.WellFormed) (h : Pops q is r) :
    r.WellFormed := by
  refine ⟨hq.nodup.sublist h.sublist, fun i hi => ?_⟩
  have hnd := active_nodup hq
  rw [h.active] at hnd
  have hn : i ∉ is := fun hm => (List.nodup_append.mp hnd).2.2 i hm i hi rfl
  rw [h.others i hn]
  exact hq.pending i (h.active ▸ List.mem_append_right _ hi)

/-- The front of a pruned queue is the oldest waiter. -/
theorem popFront_spec (hq : q.WellFormed) : match q.prune.popFront with
    | none => q.active = []
    | some (i, r) => Pops q [i] r := by
  cases ha : q.active with
  | nil =>
    have hw : q.prune.waiters = [] := dropWhile_eq_nil ha
    simp [popFront, hw]
  | cons i is =>
    obtain ⟨l, hl, hf, hsuf⟩ := dropWhile_eq_cons ha
    have hw : q.prune.waiters = i :: l := hl
    simp only [popFront, hw]
    have hnd : (i :: l).Nodup := hq.nodup.sublist hsuf.sublist
    have hil : i ∉ l := (List.nodup_cons.mp hnd).1
    refine ⟨(List.sublist_cons_self i l).trans hsuf.sublist, ?_, fun j hj => ?_, fun j hj => ?_⟩
    · rw [ha, active_set (q := { q.prune with waiters := l }) hil]
      show i :: is = [i] ++ l.filter fun j => (q.waiter j).active
      rw [hf]
      rfl
    · rw [List.mem_singleton.mp hj]
      exact set_self ..
    · rw [List.mem_singleton] at hj
      exact set_of_ne _ _ hj

/-- The loop serves the first `n` waiters. -/
theorem popLoop_spec (n : Nat) (hq : q.WellFormed) :
    (popLoop n q.prune).1 = q.active.take n ∧
      Pops q (popLoop n q.prune).1 (popLoop n q.prune).2 := by
  induction n generalizing q with
  | zero => exact ⟨rfl, pops_prune q⟩
  | succ n ih =>
    have hfront := popFront_spec hq
    cases hp : q.prune.popFront with
    | none =>
      rw [hp] at hfront
      simp only [popLoop, hp]
      exact ⟨by rw [hfront]; rfl, pops_prune q⟩
    | some x =>
      obtain ⟨i, r⟩ := x
      rw [hp] at hfront
      obtain ⟨htake, hpops⟩ := ih (hfront.wellFormed hq)
      simp only [popLoop, hp]
      refine ⟨?_, hfront.trans hq hpops⟩
      rw [htake, hfront.active]
      rfl

theorem cancelWaiter_spec {r : Waiters} (h : q.cancelWaiter i = some r) :
    (q.waiter i).active = true ∧ (q.waiter i).completed = false ∧ r = q.set i Waiter.cancel := by
  unfold Waiters.cancelWaiter at h
  split at h
  · cases h
  · rename_i hc
    cases h
    rw [Bool.or_eq_true, not_or] at hc
    exact ⟨by simpa using hc.1, by simpa using hc.2, rfl⟩

theorem active_cancel (q : Waiters) (i : OpId) :
    (q.set i Waiter.cancel).active = q.active.filter (· ≠ i) := by
  unfold Waiters.active
  rw [List.filter_filter]
  refine List.filter_congr fun j _ => ?_
  by_cases hj : j = i
  · subst hj
    simp [Waiter.cancel]
  · simp [set_of_ne q _ hj, hj]

theorem wellFormed_cancel (h : q.WellFormed) (i : OpId) : (q.set i Waiter.cancel).WellFormed := by
  refine ⟨h.nodup, fun j hj => ?_⟩
  rw [active_cancel] at hj
  obtain ⟨hm, hne⟩ := List.mem_filter.mp hj
  rw [set_of_ne q _ (by simpa using hne)]
  exact h.pending j hm

end LuvCoro.Sync
