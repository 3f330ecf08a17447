import LuvCoro.Accept.Closures
import LuvCoro.Process.Wait

/-! # Awaiters that closures point to

The stop callbacks of `tcp_server::accept`, `pipe_server::accept` and
`process::wait` post closures that hold the address of the awaiter. Unlike the
states that the other operations share with their closures, an awaiter is gone
once its call is over. -/
namespace LuvCoro

open Transition WaiterSlot

inductive Awaiter
  | tcpAccept
  | pipeAccept
  | processWait

namespace Awaiter

def State : Awaiter → Type
  | tcpAccept | pipeAccept => Accept.Server
  | processWait => Process.State

def Label : Awaiter → Type
  | tcpAccept | pipeAccept => Accept.Label
  | processWait => Process.Label

def system : (a : Awaiter) → System a.State a.Label
  | tcpAccept => Accept.system .tcpServer
  | pipeAccept => Accept.system .pipeServer
  | processWait => Process.system

def slot : (a : Awaiter) → a.State → Slot Nat
  | tcpAccept, s => Accept.Server.slot s
  | pipeAccept, s => Accept.Server.slot s
  | processWait, s => Process.State.slot s

/-- No event and no `close` resumes a call whose closure is in the queue, and no stop
callback runs between the resumption of its call and `await_resume`. -/
def Punctual : (a : Awaiter) → a.State → a.Label → Prop
  | tcpAccept => Accept.Punctual
  | pipeAccept => Accept.Punctual
  | processWait => Process.Punctual

end Awaiter

/-- When the loop comes to a closure, the awaiter that it points to is suspended, and
it is the one in the slot. -/
def FindsAwaiter (slot : Slot Nat) : Prop :=
  ∀ i rest, slot.running = none → slot.posted = some i :: rest →
    slot.waiter = some i ∧ (slot.call i).stage = .parked

namespace Accept

theorem fresh_of_reachable {k : Kind} {s : Server} (h : ReachableBy (system k) Punctual s) :
    s.slot.Fresh := by
  refine h.invariant (I := fun s => s.slot.Fresh) ?_ ?_
  · rintro s rfl i hi
    cases hi
  · intro s l t hr hf hgood hs
    exact fresh_step (inv_of_reachable hr.reachable) hf hgood (step_took hs)

theorem finds_awaiter {k : Kind} {s : Server} (h : ReachableBy (system k) Punctual s) :
    FindsAwaiter s.slot := by
  intro i rest hr hp
  exact (fresh_of_reachable h).waiter (inv_of_reachable h.reachable).slot hr hp

end Accept

namespace Process

theorem inv_of_reachable {s : State} (h : Reachable system s) : Inv s.slot := by
  refine h.invariant (I := fun s => Inv s.slot) ?_ ?_
  · rintro s rfl
    exact ⟨Slot.Valid.init, fun i hi => by rcases hi with hi | hi <;> cases hi⟩
  · intro s l t _ hi hs
    exact inv_step hi (step_took hs)

theorem fresh_of_reachable {s : State} (h : ReachableBy system Punctual s) : s.slot.Fresh := by
  refine h.invariant (I := fun s => s.slot.Fresh) ?_ ?_
  · rintro s rfl i hi
    cases hi
  · intro s l t hr hf hgood hs
    exact fresh_step (inv_of_reachable hr.reachable) hf hgood (step_took hs)

theorem finds_awaiter {s : State} (h : ReachableBy system Punctual s) : FindsAwaiter s.slot := by
  intro i rest hr hp
  exact (fresh_of_reachable h).waiter (inv_of_reachable h.reachable).valid hr hp

end Process

/-- In a run in which every resumption and every stop callback is punctual, no
closure outlives its awaiter. -/
theorem closure_finds_awaiter (a : Awaiter) (s : a.State)
    (h : ReachableBy a.system a.Punctual s) : FindsAwaiter (a.slot s) := by
  cases a with
  | tcpAccept => exact Accept.finds_awaiter h
  | pipeAccept => exact Accept.finds_awaiter h
  | processWait => exact Process.finds_awaiter h

/-- A call of `process::wait` waits, and its token is stopped. -/
theorem closure_finds_awaiter_of_wait : ∃ s : Process.State,
    s.slot.posted = [some 0] ∧ FindsAwaiter s.slot := by
  have h0 : ReachableBy Process.system Process.Punctual {} := .init rfl
  have h1 := h0.step (l := .wait 0 true) (by trivial) rfl
  have h2 := h1.step (l := .run 0) (by trivial) rfl
  have h3 := h2.step (l := .run 0) (by trivial) rfl
  have h4 := h3.step (l := .run 0) (by trivial) rfl
  have h5 := h4.step (l := .run 0) (by trivial) rfl
  have h6 := h5.step (l := .requestStop 0) (by trivial) rfl
  have h7 := h6.step (l := .stopCallback 0) (by intro hs; cases hs) rfl
  exact ⟨_, rfl, closure_finds_awaiter .processWait _ h7⟩

/-- A connection resumes the call after its closure was posted. -/
theorem closure_outlives_awaiter : ¬ ∀ (a : Awaiter) (s : a.State),
    Reachable a.system s → FindsAwaiter (a.slot s) := by
  intro h
  have h0 : Reachable (Accept.system .tcpServer) {} := .init rfl
  have hs := h0.run (show Transition.run (Accept.system .tcpServer) {}
    [.accept 0 true, .run 0, .run 0, .run 0, .run 0, .requestStop 0, .stopCallback 0,
      .connection 0 0 0, .run 0] = some _ from rfl)
  obtain ⟨hw, _⟩ := h .tcpAccept _ hs 0 [] rfl rfl
  cases hw

end LuvCoro
