import LuvCoro.Accept.System

/-! # What a step of an accepting server does

`Took` has a case for each branch of the source, and `step_took` is the one place
where the definitions are unfolded. -/
namespace LuvCoro.Accept

open Transition WaiterSlot

/-- What `await_resume` returns or throws, and what it leaves. -/
inductive Resumed (k : Kind) (s : Server) (i : CallId) : Except Error Client → Server → Prop
  | cancelled : s.status i = UV_ECANCELED ∨ (s.call i).stopped = true →
      Resumed k s i (.error .operationCancelled) s
  | refused : s.status i ≠ UV_ECANCELED → s.status i < 0 →
      Resumed k s i (.error (.uvError (s.status i) k.accept)) s
  | leaked : 0 ≤ s.status i → (s.call i).stopped = false → s.acceptStatus = UV_ECANCELED →
      Resumed k s i (.error .operationCancelled) { s with acceptStatus := 0 }
  | failed : 0 ≤ s.status i → s.acceptStatus < 0 →
      Resumed k s i (.error (.uvError s.acceptStatus "uv_accept")) { s with acceptStatus := 0 }
  | empty : 0 ≤ s.status i → (s.call i).stopped = false → 0 ≤ s.acceptStatus →
      s.pendingClients = [] → Resumed k s i (.error (.runtimeError k.withoutClient)) s
  | accepted {client : Client} {rest : List Client} : 0 ≤ s.status i → 0 ≤ s.acceptStatus →
      s.pendingClients = client :: rest →
      Resumed k s i (.ok client) { s with
        pendingClients := rest
        history := { s.history with returned := s.history.returned ++ [(i, client)] } }

inductive Took (k : Kind) (s : Server) : Label → Server → Prop
  | refused {i : CallId} {p : Bool} :
      s.slot.running = none → (s.call i).stage = .idle →
      s.listening = false ∨ s.handle = false →
      Took k s (.accept i p) (s.leave i (.error (.runtimeError k.notListening)))
  | entered {i : CallId} {p : Bool} :
      s.slot.running = none → (s.call i).stage = .idle → s.handle = true →
      Took k s (.accept i p) { s with slot := s.slot.enter i p }
  | passed {i : CallId} :
      (s.call i).stage = .ready → s.awaitReady i = true →
      Took k s (.run i) { s with slot := s.slot.moveTo i .skipped }
  | suspending {i : CallId} :
      (s.call i).stage = .ready → s.pendingClients = [] → 0 ≤ s.acceptStatus →
      Took k s (.run i) { s with slot := s.slot.moveTo i .suspend }
  | stopped {i : CallId} :
      (s.call i).stage = .suspend → (s.call i).stopped = true →
      Took k s (.run i) { s with
        status := Function.update s.status i UV_ECANCELED, slot := s.slot.moveTo i .skipped }
  | busy {i : CallId} :
      (s.call i).stage = .suspend → s.slot.waiter ≠ none →
      Took k s (.run i) { s with
        status := Function.update s.status i UV_EBUSY, slot := s.slot.moveTo i .skipped }
  | registering {i : CallId} :
      (s.call i).stage = .suspend → s.slot.waiter = none →
      Took k s (.run i) { s with slot := s.slot.moveTo i .register }
  | registered {i : CallId} :
      (s.call i).stage = .register →
      Took k s (.run i) { s with slot := s.slot.register i }
  | parked {i : CallId} :
      (s.call i).stage = .park → Took k s (.run i) { s with slot := s.slot.park i }
  | resumed {i : CallId} {r : Except Error Client} {u : Server} :
      (s.call i).stage = .skipped ∨ (s.call i).stage = .resumed → Resumed k s i r u →
      Took k s (.run i) (u.leave i r)
  | stopRequested {i : CallId} :
      Took k s (.requestStop i) { s with slot := s.slot.requestStop i }
  | callback {i : CallId} :
      (s.call i).registered = true → (s.call i).stopped = true →
      Took k s (.stopCallback i) { s with slot := s.slot.callback i }
  | drained {hit : Bool} :
      s.slot.running = none → Took k s (.drain hit) { s with slot := s.slot.pop }
  | cancelled {i : CallId} {rest : List (Option CallId)} {hit : Bool} :
      s.slot.running = none → s.slot.posted = some i :: rest →
      ((s.call i).stage = .ended → hit = true) →
      ((s.call i).stage ≠ .ended → s.slot.waiter = some i) →
      Took k s (.drain hit) ({ s with slot := s.slot.pop }.wake UV_ECANCELED)
  | failed {status initRc acceptRc rc : Int} :
      s.slot.running = none → s.handle = true → rc < 0 →
      rc = Server.connectionCode status initRc acceptRc →
      Took k s (.connection status initRc acceptRc) (s.wake rc)
  | connected {status initRc acceptRc : Int} :
      s.slot.running = none → s.handle = true →
      Took k s (.connection status initRc acceptRc)
        ({ s with
          pendingClients := s.pendingClients ++ [s.history.arrived.length]
          history := { s.history with
            arrived := s.history.arrived ++ [s.history.arrived.length] } }.wake 0)
  | ignored {l : Label} : s.handle = false → Took k s l s
  | closed :
      s.slot.running = none → s.handle = true → s.slot.waiter ≠ none →
      Took k s .close
        ({ s with handle := false, listening := false, closing := true }.wake UV_ECANCELED)
  | closedIdle :
      s.slot.running = none → s.handle = true → s.slot.waiter = none →
      Took k s .close { s with handle := false, listening := false, closing := true }
  | closedRest : s.slot.running = none → s.closing = true → Took k s .closeRest s.closeRest

variable {k : Kind} {s t : Server} {l : Label} {i : CallId}

theorem awaitResume_resumed : Resumed k s i (s.awaitResume k i).1 (s.awaitResume k i).2 := by
  unfold Server.awaitResume
  split
  · exact .cancelled ‹_›
  · rename_i hn
    obtain ⟨hne, hst⟩ := not_or.mp hn
    have hrun : (s.call i).stopped = false := by simpa using hst
    split
    · exact .refused hne ‹_›
    · rename_i hs
      have hpos : 0 ≤ s.status i := Int.not_lt.mp hs
      split
      · rename_i ha
        dsimp only
        split
        · exact .leaked hpos hrun ‹_›
        · exact .failed hpos ha
      · rename_i ha
        have hacc : 0 ≤ s.acceptStatus := Int.not_lt.mp ha
        split
        · exact .empty hpos hrun hacc ‹_›
        · exact .accepted hpos hacc ‹_›

theorem run_took (h : s.run k i = some t) : Took k s (.run i) t := by
  unfold Server.run at h
  cases hs : (s.call i).stage with
  | ready =>
    rw [hs] at h
    cases h
    cases hr : s.awaitReady i with
    | true => exact .passed hs hr
    | false =>
      simp only [Server.awaitReady, Bool.or_eq_false_iff, Bool.not_eq_eq_eq_not, Bool.not_false,
        List.isEmpty_iff, decide_eq_false_iff_not, Int.not_lt] at hr
      exact .suspending hs hr.1.2 hr.2
  | suspend =>
    rw [hs] at h
    cases h
    unfold Server.awaitSuspend
    split
    · rename_i hst
      exact .stopped hs hst
    · split
      · rename_i hw
        exact .busy hs (Option.isSome_iff_ne_none.mp hw)
      · rename_i hw
        exact .registering hs (by simpa using hw)
  | register =>
    rw [hs] at h
    cases h
    exact .registered hs
  | park =>
    rw [hs] at h
    cases h
    exact .parked hs
  | skipped =>
    rw [hs] at h
    cases h
    exact .resumed (.inl hs) awaitResume_resumed
  | resumed =>
    rw [hs] at h
    cases h
    exact .resumed (.inr hs) awaitResume_resumed
  | idle =>
    rw [hs] at h
    cases h
  | parked =>
    rw [hs] at h
    cases h
  | ended =>
    rw [hs] at h
    cases h

theorem drain_took {hit : Bool} (hr : s.slot.running = none) (h : s.drain hit = some t) :
    Took k s (.drain hit) t := by
  unfold Server.drain at h
  split at h
  · rename_i i rest hp
    cases h
    unfold Server.cancel
    by_cases hs : (s.call i).stage = .ended
    · have hover : (Server.call { s with slot := s.slot.pop } i).stage = .ended := hs
      simp only [hover, ↓reduceIte]
      cases hit with
      | true => exact .cancelled hr hp (fun _ => rfl) (absurd hs)
      | false => exact .drained hr
    · have hover : (Server.call { s with slot := s.slot.pop } i).stage ≠ .ended := hs
      simp only [hover, ↓reduceIte, decide_eq_true_eq]
      split
      · rename_i hw
        exact .cancelled hr hp (absurd · hs) fun _ => hw
      · exact .drained hr
  · cases h
    exact .drained hr
  · cases h

theorem connection_took {status initRc acceptRc : Int} (hr : s.slot.running = none) :
    Took k s (.connection status initRc acceptRc) (s.onConnection status initRc acceptRc) := by
  unfold Server.onConnection
  split
  · rename_i hh
    exact .ignored (by simpa using hh)
  · rename_i hh
    have hhandle : s.handle = true := by simpa using hh
    split
    · rename_i hs
      exact .failed hr hhandle hs (if_pos hs).symm
    · rename_i hs
      split
      · rename_i hi
        exact .failed hr hhandle hi (by simp [Server.connectionCode, hs, hi])
      · rename_i hi
        split
        · rename_i ha
          exact .failed hr hhandle ha (by simp [Server.connectionCode, hs, hi, ha])
        · exact .connected hr hhandle

theorem close_took (hr : s.slot.running = none) : Took k s .close s.close := by
  unfold Server.close
  split
  · rename_i hh
    exact .ignored (by simpa using hh)
  · rename_i hh
    have hhandle : s.handle = true := by simpa using hh
    dsimp only
    split
    · rename_i hw
      exact .closed hr hhandle (Option.isSome_iff_ne_none.mp hw)
    · rename_i hw
      exact .closedIdle hr hhandle (by simpa using hw)

theorem step_took (h : step k s l = some t) : Took k s l t := by
  cases l with
  | accept i p =>
    simp only [step] at h
    split at h
    · rename_i hc
      cases h
      unfold Server.accept
      split
      · rename_i hl
        exact .refused hc.1 hc.2.1 (by simpa using hl)
      · rename_i hl
        have hopen : s.listening = true ∧ s.handle = true := by simpa using hl
        exact .entered hc.1 hc.2.1 hopen.2
    · cases h
  | run i =>
    simp only [step] at h
    split at h
    · exact run_took h
    · cases h
  | requestStop i =>
    simp only [step] at h
    split at h
    · cases h
      exact .stopRequested
    · cases h
  | stopCallback i =>
    simp only [step] at h
    split at h
    · rename_i hc
      cases h
      exact .callback hc.1 hc.2
    · cases h
  | drain hit =>
    simp only [step] at h
    split at h
    · exact drain_took ‹_› h
    · cases h
  | connection status initRc acceptRc =>
    simp only [step] at h
    split at h
    · cases h
      exact connection_took ‹_›
    · cases h
  | close =>
    simp only [step] at h
    split at h
    · cases h
      exact close_took ‹_›
    · cases h
  | closeRest =>
    simp only [step] at h
    split at h
    · rename_i hc
      cases h
      exact .closedRest hc.1 hc.2
    · cases h

end LuvCoro.Accept
