import LuvCoro.Accept.Delivery

/-! # The closures that cancel an accept

Such a closure has a pointer to the awaiter, and is in time as long as nothing but
the closure itself takes the call out of the slot. -/
namespace LuvCoro.Accept

open Transition WaiterSlot

variable {k : Kind} {s t : Server} {l : Label}

/-- A call whose closure is in the queue is not resumed by anything else, and one
that has been resumed does not get its closure posted any more. -/
def Punctual (s : Server) : Label → Prop
  | .connection _ _ _ | .close => s.handle = true → ∀ i, s.slot.waiter = some i → i ∉ s.slot.cancels
  | .stopCallback i => (s.call i).stage ≠ .resumed
  | _ => True

theorem fresh_step (hi : Inv k s) (hf : s.slot.Fresh) (hgood : Punctual s l) (h : Took k s l t) :
    t.slot.Fresh := by
  have hv := hi.slot
  have hmove : ∀ {i stage}, (s.call i).stage = stage → stage.listens = false → stage ≠ .ended →
      ∀ stage', (s.slot.moveTo i stage').Fresh := by
    rintro i stage rfl hl ho stage'
    exact hf.moveTo hv hl ho
  have hstage : ∀ {i stage}, (s.call i).stage = stage →
      (s.slot.call i).stage.waits = stage.waits ∧ (stage.runs = true → s.slot.running = some i) := by
    rintro i stage rfl
    exact ⟨rfl, (hv.call i).running.mpr⟩
  cases h with
  | refused hr hs => exact hf.leave (.inr hr) (hstage hs).1
  | entered hr hs => exact hf.enter hv hr hs
  | passed hs => exact hmove hs rfl (by decide) _
  | suspending hs => exact hmove hs rfl (by decide) _
  | stopped hs => exact hmove hs rfl (by decide) _
  | busy hs => exact hmove hs rfl (by decide) _
  | registering hs => exact hmove hs rfl (by decide) _
  | registered => exact hf.register
  | @parked i hs => exact hf.park ((hstage hs).2 rfl) ((hi.fits i).at_stage hs).2.2
  | @resumed i r u hs hres =>
    refine Slot.Fresh.leave (hres.slot ▸ hf) ?_ ?_
    · rw [hres.slot]
      rcases hs with hs | hs
      · exact .inl ((hstage hs).2 rfl)
      · exact .inl ((hstage hs).2 rfl)
    · rw [hres.slot]
      rcases hs with hs | hs
      · exact (hstage hs).1
      · exact (hstage hs).1
  | stopRequested => exact hf.requestStop
  | callback hreg => exact hf.callback_of_registered hv hreg hgood
  | drained => exact hf.pop
  | cancelled hr hp => exact hf.cancel hv hr hp
  | failed hr hh => exact hf.wake hr (hgood hh)
  | connected hr hh => exact hf.wake hr (hgood hh)
  | ignored => exact hf
  | closed hr hh => exact hf.wake hr (hgood hh)
  | closedIdle => exact hf
  | closedRest => exact hf

end LuvCoro.Accept
