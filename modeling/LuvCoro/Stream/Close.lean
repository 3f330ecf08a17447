import LuvCoro.Stream.Invariant

/-! # Closing a handle that is read from

`close` clears `handle_` and posts the closure that closes the handle; it does
not wake a reader. -/
namespace LuvCoro.Stream

open Transition

variable {β : Type} {k : Kind} {s : Sys β}

/-- The handle has been closed and every closure has run, but a read still waits. -/
def Sys.Stranded (s : Sys β) : Prop :=
  s.attached = false ∧ s.posted = [] ∧
    ∃ i, (s.ops i).pc = .suspended ∧ (s.ops i).completed = false

theorem not_stranded (h : Inv k s) : ¬ s.Stranded := by
  rintro ⟨ha, hp, i, hsusp, hc⟩
  have hpending : (s.ops i).Pending := by
    refine ⟨?_, ?_, hc⟩ <;> rw [hsusp] <;> nofun
  cases h.stage with
  | opened ha' => exact absurd (ha.symm.trans ha') nofun
  | closing pre post _ _ hp' =>
    rw [hp] at hp'
    exact absurd hp' (by simp)
  | closed _ _ hover => exact hover i hpending

/-- In every run in which each `close` finds no read under way, or finds those of
a stream with their cancellation queued, no reader is stranded and no closure
uses a handle that is not there. -/
theorem close_leaves_none (h : ReachableBy (system β k) (Harmless k) s) :
    ¬ s.Stranded ∧ s.fault = false := by
  have hI := reachable_inv h
  exact ⟨not_stranded hI, hI.fault⟩

/-- A stream is closed behind the cancellation of its reader. -/
theorem close_leaves_none_stopped : ∃ s : Sys Nat, s.handle = .deleted ∧
    (s.ops 0).outcome = some (.error .operationCancelled) ∧ ¬ s.Stranded ∧ s.fault = false := by
  have h0 : ReachableBy (system Nat .tcpClient) (Harmless .tcpClient)
      { ops := fun _ => { buffer := [0], stopPossible := true, stopRequested := false } } :=
    .init ⟨fun _ => ⟨nofun, rfl⟩, rfl⟩
  have h1 := h0.step (l := .run 0) (by exact nofun) rfl
  have h2 := h1.step (l := .run 0) (by exact nofun) rfl
  have h3 := h2.step (l := .run 0) (by exact nofun) rfl
  have h4 := h3.step (l := .runPosted 0) (by exact nofun) rfl
  have h5 := h4.step (l := .requestStop 0) (by exact nofun) rfl
  have h6 := h5.step (l := .stopCallback 0) (by exact nofun) rfl
  have h7 := h6.step (l := .close) (by
    intro _ i hp
    cases i with
    | zero => exact ⟨rfl, List.mem_cons_self⟩
    | succ i => exact absurd rfl hp.1) rfl
  have h8 := h7.step (l := .runPosted 0) (by exact nofun) rfl
  have h9 := h8.step (l := .runPosted 0) (by exact nofun) rfl
  have h10 := h9.step (l := .closeCallback) (by exact nofun) rfl
  exact ⟨_, rfl, rfl, close_leaves_none h10⟩

/-- A read has begun when its handle is closed: it waits for ever, and a stop
that is requested later uses the handle that is gone. -/
theorem close_strands :
    (∀ k, k ≠ .ttyStream → ∃ s : Sys Nat, Reachable (system Nat k) s ∧ s.Stranded) ∧
      ∀ k, k ≠ .ttyStream → ∃ s : Sys Nat, Reachable (system Nat k) s ∧ s.fault = true := by
  have h0 : ∀ k, Reachable (system Nat k)
      { ops := fun _ => { buffer := [0], stopPossible := true, stopRequested := false } } :=
    fun _ => .init ⟨fun _ => ⟨nofun, rfl⟩, rfl⟩
  have hstranded : ∀ k, k ≠ .ttyStream → ∃ s : Sys Nat, Transition.run (system Nat k)
      { ops := fun _ => { buffer := [0], stopPossible := true, stopRequested := false } }
      [.run 0, .run 0, .run 0, .runPosted 0, .close, .runPosted 0, .closeCallback] = some s ∧
      s.Stranded := by
    intro k hk
    cases k with
    | ttyStream => exact absurd rfl hk
    | _ => exact ⟨_, rfl, rfl, rfl, 0, rfl, rfl⟩
  have hfault : ∀ k, k ≠ .ttyStream → ∃ s : Sys Nat, Transition.run (system Nat k)
      { ops := fun _ => { buffer := [0], stopPossible := true, stopRequested := false } }
      [.run 0, .run 0, .run 0, .runPosted 0, .close, .runPosted 0, .closeCallback,
        .requestStop 0, .stopCallback 0, .runPosted 0] = some s ∧ s.fault = true := by
    intro k hk
    cases k with
    | ttyStream => exact absurd rfl hk
    | _ => exact ⟨_, rfl, rfl⟩
  refine ⟨fun k hk => ?_, fun k hk => ?_⟩
  · obtain ⟨s, hrun, hs⟩ := hstranded k hk
    exact ⟨s, (h0 k).run hrun, hs⟩
  · obtain ⟨s, hrun, hs⟩ := hfault k hk
    exact ⟨s, (h0 k).run hrun, hs⟩

end LuvCoro.Stream
