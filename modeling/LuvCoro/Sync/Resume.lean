import LuvCoro.Sync.Waiters
import Mathlib.Data.List.Perm.Basic

/-! # `detail::resume_waiter`

Whoever completes waiters resumes them after its critical section: directly on
the loop thread, and by a posted closure elsewhere. Both ask then whether the
waiter has a continuation. -/
namespace LuvCoro.Sync

/-- A thread with calls of `resume_waiter` to make. -/
structure Resuming where
  onLoop : Bool
  waiters : List OpId

/-- The calls to be made, and the closures they posted. -/
structure Resumptions where
  resuming : List Resuming := []
  posted : List OpId := []
  shuttingDown : Bool := false

namespace Resumptions

/-- A critical section leaves the waiters `is` to its thread. -/
def start (r : Resumptions) (onLoop : Bool) (is : List OpId) : Resumptions :=
  { r with resuming := r.resuming ++ [⟨onLoop, is⟩] }

/-- The next call of one thread, with the coroutine it resumes. When its post is
refused the exception ends the loop over the others. -/
def next (r : Resumptions) (continuation : OpId → Bool) (c : Nat) :
    Option (Resumptions × Option OpId) :=
  match r.resuming[c]? with
  | some ⟨onLoop, i :: is⟩ =>
    let t := { r with resuming := r.resuming.set c ⟨onLoop, is⟩ }
    if !continuation i then some (t, none)
    else if onLoop then some (t, some i)
    else if r.shuttingDown then some ({ r with resuming := r.resuming.set c ⟨onLoop, []⟩ }, none)
    else some ({ t with posted := r.posted ++ [i] }, none)
  | _ => none

/-- The loop thread runs the oldest posted closure. -/
def runPosted (r : Resumptions) (continuation : OpId → Bool) :
    Option (Resumptions × Option OpId) :=
  match r.posted with
  | i :: is => some ({ r with posted := is }, if continuation i then some i else none)
  | [] => none

/-- The post of the next call of a thread is refused. -/
def refuses (r : Resumptions) (continuation : OpId → Bool) (c : Nat) : Bool :=
  match r.resuming[c]? with
  | some ⟨onLoop, i :: _⟩ => continuation i && !onLoop && r.shuttingDown
  | _ => false

/-- The waiters that are still to be resumed. -/
def owed (r : Resumptions) : List OpId := r.resuming.flatMap Resuming.waiters ++ r.posted

/-- What a step of the resumptions does with one waiter: it resumes it, hands it
on, finds it without a continuation, or its post is refused. -/
inductive Outcome (r : Resumptions) (continuation : OpId → Bool) (refused : Bool)
    (t : Resumptions) : Option OpId → Prop
  | resumed (i : OpId) : continuation i = true → r.owed.Perm (i :: t.owed) →
    Outcome r continuation refused t (some i)
  | posted : r.owed.Perm t.owed → Outcome r continuation refused t none
  | skipped (i : OpId) : continuation i = false → r.owed.Perm (i :: t.owed) →
    Outcome r continuation refused t none
  | refused : refused = true → t.owed ⊆ r.owed → Outcome r continuation refused t none

end Resumptions

/-- How often the coroutines of the calls went on by themselves and were resumed,
and where they are. -/
structure Continuations where
  inline : OpId → Nat
  resumed : OpId → Nat
  suspended : OpId → Prop
  /-- The call is at its `await_resume`. -/
  returned : OpId → Prop
  completed : OpId → Prop
  owed : List OpId

/-- No coroutine goes on twice; while it is suspended it has not gone on, and a
completed waiter is about to be resumed; and it has gone on when the call is at
its `await_resume`. -/
structure ContinuedOnce (c : Continuations) : Prop where
  once : ∀ i, c.inline i + c.resumed i ≤ 1
  suspended : ∀ i, c.suspended i → c.inline i + c.resumed i = 0
  due : ∀ i, c.suspended i → c.completed i → i ∈ c.owed
  returned : ∀ i, c.returned i → c.inline i + c.resumed i = 1

open Resumptions

variable {r t : Resumptions} {continuation : OpId → Bool} {o : Option OpId} {c : Nat}

@[simp] theorem owed_start (r : Resumptions) (onLoop : Bool) (is : List OpId) :
    (r.start onLoop is).owed.Perm (is ++ r.owed) := by
  have happ : (r.start onLoop is).owed =
      r.resuming.flatMap Resuming.waiters ++ (is ++ r.posted) := by
    simp [Resumptions.start, owed]
  rw [happ]
  exact List.perm_append_comm_assoc _ _ _

/-- One thread's waiters among all that are owed. -/
theorem owed_split {x : Resuming} (hc : r.resuming[c]? = some x) :
    ∃ before after, ∀ is, ({ r with resuming := r.resuming.set c ⟨x.onLoop, is⟩ } :
      Resumptions).owed = before ++ (is ++ after) ∧
        r.owed = before ++ (x.waiters ++ after) := by
  obtain ⟨hlt, hx⟩ := List.getElem?_eq_some_iff.mp hc
  refine ⟨(r.resuming.take c).flatMap Resuming.waiters,
    (r.resuming.drop (c + 1)).flatMap Resuming.waiters ++ r.posted, fun is => ⟨?_, ?_⟩⟩
  · simp [owed, List.set_eq_take_append_cons_drop, hlt]
  · have hsplit : r.resuming = r.resuming.take c ++ x :: r.resuming.drop (c + 1) := by
      rw [← hx, List.getElem_cons_drop, List.take_append_drop]
    unfold owed
    conv_lhs => rw [hsplit]
    simp

theorem next_outcome (h : r.next continuation c = some (t, o)) :
    Outcome r continuation (r.refuses continuation c) t o ∧ t.shuttingDown = r.shuttingDown := by
  unfold Resumptions.next at h
  split at h
  · rename_i onLoop i is hc
    obtain ⟨before, after, hsplit⟩ := owed_split hc
    have hmid : r.owed.Perm (i :: (before ++ (is ++ after))) := by
      rw [(hsplit []).2]
      exact List.perm_middle
    dsimp only at h
    split at h
    · rename_i hn
      cases h
      refine ⟨.skipped i (by simpa using hn) ?_, rfl⟩
      rw [(hsplit is).1]
      exact hmid
    · rename_i hn
      split at h
      · cases h
        refine ⟨.resumed i (by simpa using hn) ?_, rfl⟩
        rw [(hsplit is).1]
        exact hmid
      · rename_i hl
        split at h
        · rename_i hd
          cases h
          refine ⟨.refused ?_ fun j hj => ?_, rfl⟩
          · simp only [refuses, hc]
            simp_all
          · rw [(hsplit []).1] at hj
            rw [(hsplit []).2]
            rcases List.mem_append.mp hj with hj | hj
            · exact List.mem_append_left _ hj
            · exact List.mem_append_right _ (List.mem_append_right _ hj)
        · cases h
          refine ⟨.posted ?_, rfl⟩
          have howed : ({ r with
              resuming := r.resuming.set c ⟨onLoop, is⟩, posted := r.posted ++ [i] } :
                Resumptions).owed =
              ({ r with resuming := r.resuming.set c ⟨onLoop, is⟩ } : Resumptions).owed ++ [i] :=
            (List.append_assoc ..).symm
          rw [howed, (hsplit is).1]
          exact hmid.trans (List.perm_append_singleton i _).symm
  · cases h

theorem runPosted_outcome (h : r.runPosted continuation = some (t, o)) :
    Outcome r continuation false t o ∧ t.shuttingDown = r.shuttingDown := by
  unfold Resumptions.runPosted at h
  split at h
  · rename_i i is hp
    cases h
    have hmid : r.owed.Perm (i :: ({ r with posted := is } : Resumptions).owed) := by
      unfold owed
      rw [hp]
      exact List.perm_middle
    cases hc : continuation i with
    | true => exact ⟨.resumed i hc hmid, rfl⟩
    | false => exact ⟨.skipped i hc hmid, rfl⟩
  · cases h

end LuvCoro.Sync
