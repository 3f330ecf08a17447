import LuvCoro.Channel.Drained

/-! # What the end of a loop means

A loop stops by itself when a call reports no message. For `messages` and the
blocking iterator the channel is drained then; `messages_until` may have been
asked to stop instead, and `messages_for` may have waited too long, as may a
`messages_until` that nobody can ask to stop. A call that waits for some time may also
throw that the channel is closed, which leaves the loop. -/
namespace LuvCoro.Channel.Consumers

open Transition

universe u
variable {T : Type u} {sys sys' : Sys T} {x : Consumer T} {l : Channel.Label T} {i : OpId}

/-- What is known of a call that a loop of this kind awaits. -/
def Mode.Follows (mode : Mode) (sys : Sys T) (i : OpId) : Prop :=
  match mode with
  | .messages | .blocking => Iterates sys i
  | .messagesFor _ | .messagesUntil _ => Polls sys i

/-- Why a loop may stop before the channel is drained. -/
def Consumer.Excused (x : Consumer T) : Prop :=
  match x.mode with
  | .messagesFor _ => True
  | .messagesUntil _ => x.stopToken = true ∨ x.stopPossible = false
  | .messages | .blocking => False

/-- The loop makes no further call unless its generator goes on. -/
def Phase.between : Phase T → Bool
  | .generator | .body _ | .finished => true
  | _ => false

/-- The calls of the loop wait for some time only. -/
def Mode.Times (mode : Mode) : Prop :=
  ∃ t, mode = .messagesFor t ∨ mode = .messagesUntil t

structure Ends (sys : Sys T) (x : Consumer T) : Prop where
  awaited : ∀ i, x.phase = .awaiting i → x.mode.Follows sys i
  stopped : x.stopRequested = true → x.Excused ∨ Drained sys
  between : x.stopRequested = true → x.phase.between = true
  failed : x.mode.Times → x.phase = .failed .closedError → Drained sys
  polling : x.phase = .untilStop → x.retries = true
  chosen : x.phase = .message ∨ x.retries = true → ∃ p, x.mode = .messagesUntil p
  /-- A single `recv_for` is awaited only when the token has no source. -/
  direct : ∀ i p, x.phase = .awaiting i → x.mode = .messagesUntil p →
    x.retries = true ∨ x.stopPossible = false

theorem Mode.Follows.chan {mode : Mode} (h : mode.Follows sys i) (hr : Reachable (system T) sys)
    (hs : Channel.step sys l = some sys') : mode.Follows sys' i := by
  cases mode with
  | messages | blocking => exact Iterates.step h hr hs
  | messagesFor _ | messagesUntil _ => exact Polls.step h hr hs

theorem follows_start {loop : Bool} (mode : Mode) (hr : Reachable (system T) sys)
    (hs : Channel.step sys (.start i loop mode.call) = some sys') : mode.Follows sys' i := by
  cases mode with
  | messages => exact iterates_start hr (.inl rfl) hs
  | blocking => exact iterates_start hr (.inr rfl) hs
  | messagesFor _ | messagesUntil _ => exact polls_start hr hs

theorem Ends.chan (h : Ends sys x) (hr : Reachable (system T) sys)
    (hs : Channel.step sys l = some sys') : Ends sys' x :=
  ⟨fun i hi => (h.awaited i hi).chan hr hs,
    fun hstop => (h.stopped hstop).imp_right fun hd => hd.step hr hs, h.between,
    fun hm hf => (h.failed hm hf).step hr hs, h.polling, h.chosen, h.direct⟩

/-- A loop that does not begin a call, and whose reasons to stop are good. -/
theorem Ends.local {y : Consumer T} (h : Ends sys x) (hmode : y.mode = x.mode)
    (hexcuse : x.Excused → y.Excused) (hphase : ∀ i, y.phase ≠ .awaiting i)
    (hstop : y.stopRequested = true → x.stopRequested = true ∨ y.Excused ∨ Drained sys)
    (hbetween : y.stopRequested = true → y.phase.between = true)
    (hfailed : x.mode.Times → y.phase = .failed .closedError → Drained sys)
    (hpolling : y.phase = .untilStop → y.retries = true)
    (hchosen : y.phase = .message ∨ y.retries = true → ∃ p, x.mode = .messagesUntil p) :
    Ends sys y := by
  refine ⟨fun i hi => absurd hi (hphase i), fun hs => ?_, hbetween, fun hm hf =>
    hfailed (hmode ▸ hm) hf, hpolling, fun hc => hmode ▸ hchosen hc,
    fun i p hi => absurd hi (hphase i)⟩
  rcases hstop hs with hx | hgood
  · exact (h.stopped hx).imp_left hexcuse
  · exact hgood

/-- What an awaited call makes of the loop. -/
theorem Ends.resume {r : Result T} (h : Ends sys x) (hr : Reachable (system T) sys)
    (hphase : x.phase = .awaiting i) (hpc : sys.pc i = .done r) : Ends sys (x.resume r) := by
  have hfollows := h.awaited i hphase
  have hunstopped : x.stopRequested ≠ true := by
    intro hs
    have hb := h.between hs
    rw [hphase] at hb
    cases hb
  have hretries : x.retries = true → ∃ p, x.mode = .messagesUntil p := fun hq => h.chosen (.inr hq)
  have hthrown : x.mode.Times → r = .thrown .closedError → Drained sys := by
    rintro ⟨t, hm | hm⟩ rfl <;> rw [hm] at hfollows
    · exact Polls.thrown hfollows hpc
    · exact Polls.thrown hfollows hpc
  have hdeliver : ∀ message : Option T,
      (message = none → x.Excused ∨ Drained sys) → Ends sys (x.deliver message) := by
    intro message hgood
    have hover : (x.deliver message).phase.between = true := by
      unfold Consumer.deliver
      dsimp only
      split <;> rfl
    refine h.local rfl id (fun j hj => ?_) (fun hs => .inr ?_) (fun _ => hover) (fun _ hf => ?_)
      (fun hp => ?_) fun hc => ?_
    · rw [hj] at hover
      cases hover
    · have hs' : (x.stopRequested || message.isNone) = true := hs
      have hn : message.isNone = true := by simpa [hunstopped] using hs'
      exact hgood (Option.isNone_iff_eq_none.mp hn)
    · rw [hf] at hover
      cases hover
    · rw [hp] at hover
      cases hover
    · rcases hc with hc | hc
      · rw [hc] at hover
        cases hover
      · exact hretries hc
  have hquit : ∀ e, (x.mode.Times → e = .closedError → Drained sys) →
      Ends sys { x with phase := .failed e } := by
    intro e hgood
    refine h.local rfl id (fun j hj => by cases hj) (fun hs => absurd hs hunstopped)
      (fun hs => absurd hs hunstopped) (fun hm hf => hgood hm (Phase.failed.inj hf))
      (fun hp => by cases hp) fun hc => hretries (hc.resolve_left (by simp))
  unfold Consumer.resume
  split
  · rename_i hq
    exact h.local rfl id (fun j hj => by cases hj) (fun hs => absurd hs hunstopped)
      (fun hs => absurd hs hunstopped) (fun _ hf => by cases hf) (fun _ => hq)
      fun _ => hretries hq
  · rename_i hq
    obtain ⟨p, hmode⟩ := hretries hq
    exact hdeliver none fun _ => .inr (hthrown ⟨p, .inr hmode⟩ rfl)
  · rename_i message hne
    refine hdeliver message ?_
    rintro rfl
    cases hmode : x.mode with
    | messages | blocking =>
      rw [hmode] at hfollows
      exact .inr (Iterates.none_drained hfollows hr hpc)
    | messagesFor timeout =>
      refine .inl ?_
      unfold Consumer.Excused
      rw [hmode]
      trivial
    | messagesUntil p =>
      refine .inl ?_
      unfold Consumer.Excused
      rw [hmode]
      exact .inr ((h.direct i p hphase hmode).resolve_left fun hq => hne hq rfl)
  · rename_i e hne
    refine hquit e ?_
    rintro hm rfl
    exact hthrown hm rfl
  · exact h
  · exact h

/-! ## All loops -/

variable {s t : Loops T} {c : Nat} {loop : Bool}

theorem ends_set {y : Consumer T} (h : ∀ c, Ends s.sys (s.consumer c)) (hy : Ends s.sys y) (d : Nat) :
    Ends (s.set c y).sys ((s.set c y).consumer d) := by
  by_cases hd : d = c
  · rw [hd, set_self]
    exact hy
  · rw [set_other hd]
    exact h d

theorem ends_begin (hr : Reachable (system T) s.sys) (h : ∀ c, Ends s.sys (s.consumer c))
    (hunstopped : (s.consumer c).stopRequested ≠ true)
    (hdirect : ∀ p, (s.consumer c).mode = .messagesUntil p →
      (s.consumer c).retries = true ∨ (s.consumer c).stopPossible = false)
    (hs : s.begin c i loop = some t) (d : Nat) : Ends t.sys (t.consumer d) := by
  unfold Loops.begin at hs
  dsimp only at hs
  obtain ⟨sys', hstep, rfl⟩ := Option.map_eq_some_iff.mp hs
  refine ends_set (s := { s with sys := sys' }) (fun d => (h d).chan hr hstep) ?_ d
  refine ⟨fun j hj => ?_, fun hs => absurd hs hunstopped, fun hs => absurd hs hunstopped,
    fun _ hf => ?_, fun hp => ?_, fun hc => ?_, fun j p _ hm => hdirect p hm⟩
  · cases hj
    exact follows_start _ hr hstep
  · cases hf
  · cases hp
  · exact (h c).chosen (.inr (hc.resolve_left (by simp)))

theorem ends_advance (hr : Reachable (system T) s.sys) (h : ∀ c, Ends s.sys (s.consumer c))
    (hs : s.advance c i loop = some t) (d : Nat) : Ends t.sys (t.consumer d) := by
  have hx := h c
  have hmove : ∀ {p : Phase T}, (∀ i, p ≠ .awaiting i) → (∀ e, p ≠ .failed e) →
      p.between = true → Ends s.sys { s.consumer c with phase := p } := by
    intro p hp hf hb
    have hnot : p ≠ .untilStop ∧ p ≠ .message := by
      constructor <;> rintro rfl <;> cases hb
    exact hx.local rfl id hp .inl (fun _ => hb) (fun _ he => absurd he (hf _))
      (fun he => absurd he hnot.1) fun hc => hx.chosen (.inr (hc.resolve_left hnot.2))
  have hunstopped : (s.consumer c).phase.between = false →
      (s.consumer c).stopRequested ≠ true := by
    intro hb hs
    rw [hx.between hs] at hb
    cases hb
  unfold Loops.advance at hs
  dsimp only at hs
  cases hphase : (s.consumer c).phase with
  | generator =>
    rw [hphase] at hs
    dsimp only at hs
    split at hs
    · cases hs
      exact ends_set h (hmove (by simp) (by simp) rfl) d
    rename_i hunstopped
    split at hs
    · rename_i p hmode
      split at hs
      · cases hs
        exact ends_set h (hmove (by simp) (by simp) rfl) d
      · cases hs
        have hy : Ends s.sys { s.consumer c with retries := false, phase := .message } :=
          hx.local rfl id (by simp) .inl (fun hs => absurd hs hunstopped) (by simp) (by simp)
            fun _ => ⟨p, hmode⟩
        exact ends_set h hy d
    · rename_i hne
      exact ends_begin hr h hunstopped (fun p hm => absurd hm (hne p)) hs d
  | message =>
    have hunstopped := hunstopped (by rw [hphase]; rfl)
    obtain ⟨p, hmode⟩ := hx.chosen (.inl hphase)
    rw [hphase] at hs
    dsimp only at hs
    split at hs
    · cases hs
      have hy : Ends s.sys { s.consumer c with retries := true, phase := .untilStop } :=
        hx.local rfl id (by simp) .inl (fun hs => absurd hs hunstopped) (by simp) (by simp)
          fun _ => ⟨p, hmode⟩
      exact ends_set h hy d
    · rename_i hpossible
      exact ends_begin hr h hunstopped (fun _ _ => .inr (by simpa using hpossible)) hs d
  | untilStop =>
    have hunstopped := hunstopped (by rw [hphase]; rfl)
    have hretries := hx.polling hphase
    rw [hphase] at hs
    dsimp only at hs
    split at hs
    · rename_i htoken
      cases hs
      obtain ⟨p, hmode⟩ := hx.chosen (.inr hretries)
      have hphase' : ((s.consumer c).deliver none).phase = .body none := by
        simp [Consumer.deliver, hmode]
      have hexcused : ((s.consumer c).deliver none).Excused := by
        unfold Consumer.Excused
        rw [show ((s.consumer c).deliver none).mode = _ from hmode]
        exact .inl htoken
      have hy : Ends s.sys ((s.consumer c).deliver none) :=
        hx.local rfl id (by simp [hphase']) (fun _ => .inr (.inl hexcused))
          (fun _ => by rw [hphase']; rfl) (by simp [hphase']) (by simp [hphase'])
          fun _ => ⟨p, hmode⟩
      exact ends_set h hy d
    · exact ends_begin hr h hunstopped (fun _ _ => .inl hretries) hs d
  | awaiting j =>
    rw [hphase] at hs
    dsimp only at hs
    cases hpc : s.sys.pc j with
    | done r =>
      simp only [hpc, Option.some.injEq] at hs
      subst hs
      exact ends_set h (hx.resume hr hphase hpc) d
    | _ => simp [hpc] at hs
  | body message =>
    rw [hphase] at hs
    cases hs
    exact ends_set h (hmove (by simp) (by simp) rfl) d
  | finished | failed e =>
    rw [hphase] at hs
    cases hs

/-- What others do to the token keeps an excuse. -/
theorem Ends.token {y : Consumer T} (h : Ends sys x) (hmode : y.mode = x.mode)
    (hphase : y.phase = x.phase) (hstop : y.stopRequested = x.stopRequested)
    (hretries : y.retries = x.retries)
    (htoken : x.stopToken = true → y.stopToken = true)
    (hpossible : x.stopPossible = false → y.stopPossible = false) : Ends sys y := by
  refine ⟨?_, ?_, ?_, ?_, ?_, ?_, ?_⟩
  · rw [hmode, hphase]
    exact h.awaited
  · rw [hstop]
    refine fun hs => (h.stopped hs).imp_left fun he => ?_
    unfold Consumer.Excused at he ⊢
    rw [hmode]
    cases hm : x.mode with
    | messagesUntil _ =>
      rw [hm] at he
      exact he.imp htoken hpossible
    | messagesFor _ => trivial
    | messages | blocking =>
      rw [hm] at he
      exact he
  · rw [hstop, hphase]
    exact h.between
  · rw [hmode, hphase]
    exact h.failed
  · rw [hphase, hretries]
    exact h.polling
  · rw [hphase, hretries, hmode]
    exact h.chosen
  · intro i p hi hm
    rw [hretries]
    exact (h.direct i p (hphase ▸ hi) (hmode ▸ hm)).imp_right hpossible

theorem ends_step {l : Label T} (hr : Reachable (system T) s.sys)
    (h : ∀ c, Ends s.sys (s.consumer c)) (hs : s.step l = some t) (d : Nat) :
    Ends t.sys (t.consumer d) := by
  cases l with
  | chan l =>
    obtain ⟨sys', hstep, rfl⟩ := Option.map_eq_some_iff.mp hs
    exact (h d).chan hr hstep
  | advance c i loop => exact ends_advance hr h hs d
  | leave c =>
    have hleave : s.leave c = some t := hs
    unfold Loops.leave at hleave
    cases hphase : (s.consumer c).phase with
    | body message =>
      simp only [hphase, Option.some.injEq] at hleave
      subst hleave
      have hy : Ends s.sys { s.consumer c with phase := .finished } :=
        (h c).local rfl id (by simp) .inl (fun _ => rfl) (by simp) (by simp)
          fun hc => (h c).chosen (.inr (hc.resolve_left (by simp)))
      exact ends_set h hy d
    | _ => simp [hphase] at hleave
  | requestStop c =>
    simp only [Loops.step] at hs
    split at hs <;> cases hs
    have hy : Ends s.sys { s.consumer c with stopToken := true } :=
      (h c).token rfl rfl rfl rfl (fun _ => rfl) id
    exact ends_set h hy d
  | loseSource c =>
    simp only [Loops.step] at hs
    split at hs <;> cases hs
    have hy : Ends s.sys { s.consumer c with stopPossible := false } :=
      (h c).token rfl rfl rfl rfl id (fun _ => rfl)
    exact ends_set h hy d

theorem reachable_ends (h : Reachable (loops T) s) (c : Nat) : Ends s.sys (s.consumer c) := by
  refine h.invariant (I := fun s => ∀ c, Ends s.sys (s.consumer c)) ?_ ?_ c
  · rintro s ⟨capacity, mode, possible, rfl⟩ c
    exact ⟨by simp, by simp, by simp, by simp, by simp, by simp, by simp⟩
  · exact fun s l t hr hI hs => ends_step (reachable_inv hr).channel hI hs

/-- No message is left in the channel, and none will come. The only loop has had everything
that was accepted and did not fail. -/
structure Complete (s : Loops T) (c : Nat) : Prop where
  closed : s.sys.chan.closed = true
  empty : s.sys.chan.messages = []
  parked : s.sys.parkedValues = []
  all : (∀ p ∈ s.sys.takes, p.1 ∈ (s.consumer c).calls) →
    (s.consumer c).got ++ s.sys.failed = s.sys.accepted

/-- A loop over a drained channel that has nothing in flight has had everything. -/
theorem complete_of_drained (h : Inv s) (hd : Drained s.sys)
    (hflight : ∀ i, (s.consumer c).phase ≠ .awaiting i)
    (hlost : (s.consumer c).phase ≠ .failed asyncClosingError) : Complete s c := by
  have hi := Channel.reachable_inv h.channel
  have hparked : s.sys.parkedValues = [] := by
    unfold Sys.parkedValues
    rw [(closed_waiters hi.ready.wellFormed hi.ready.valid hd.1).2]
    rfl
  refine ⟨hd.1, hd.2, hparked, fun hall => ?_⟩
  obtain ⟨pending, hshare⟩ := share_of_sound h c
  have hnil : pending = [] := by
    by_contra hne
    rcases hshare.inFlight hne with ⟨i, he⟩ | he
    · exact hflight i he
    · exact hlost he
  have hbal := hshare.alone hall
  rw [hnil, hd.2, hparked] at hbal
  simpa using hbal

/-- A loop that has stopped by itself was excused, or the channel is drained and the loop
complete; so it is when a wait for some time has thrown that the channel is closed. -/
theorem loops_end (h : Reachable (loops T) s) (c : Nat) :
    ((s.consumer c).stopRequested = true → (s.consumer c).Excused ∨ Complete s c) ∧
      ((s.consumer c).mode.Times → (s.consumer c).phase = .failed .closedError →
        Complete s c) := by
  have hx := reachable_ends h c
  have hinv := reachable_inv h
  refine ⟨fun hstop => (hx.stopped hstop).imp_right fun hd => ?_, fun hm hf => ?_⟩
  · have hb := hx.between hstop
    refine complete_of_drained hinv hd ?_ ?_
    · intro i he
      rw [he] at hb
      cases hb
    · intro he
      rw [he] at hb
      cases hb
  · refine complete_of_drained hinv (hx.failed hm hf) ?_ ?_
    · intro i he
      rw [hf] at he
      cases he
    · rw [hf]
      simp [asyncClosingError]

/-- A loop over `messages`, and one over `messages_for`. -/
def twoModes : Nat → Mode
  | 0 => .messages
  | _ => .messagesFor 5

/-- A message is sent, the channel closed, and a loop over `messages` runs to its end; one
over `messages_for` is left with `closed_error`. -/
theorem loops_end_closed : ∃ s : Loops Nat, (s.consumer 0).mode = .messages ∧
    (s.consumer 0).stopRequested = true ∧ (s.consumer 0).got = [7] ∧
    (s.consumer 1).phase = .failed .closedError ∧
    ((s.consumer 0).Excused ∨ Complete s 0) ∧ Complete s 1 := by
  obtain ⟨s, h, hmode, hstop, hgot, htimes, hfailed⟩ : ∃ s : Loops Nat,
      Reachable (loops Nat) s ∧ (s.consumer 0).mode = .messages ∧
      (s.consumer 0).stopRequested = true ∧ (s.consumer 0).got = [7] ∧
      (s.consumer 1).mode = .messagesFor 5 ∧
      (s.consumer 1).phase = .failed .closedError := by
    have h₀ : Reachable (loops Nat)
        { sys := Sys.new 2, consumer := fun c => { mode := twoModes c } } :=
      .init ⟨2, twoModes, fun _ => true, rfl⟩
    have h := h₀.run (show run (loops Nat) _ [.chan (.start 0 true (.trySend 7)), .chan (.run 0),
      .chan (.start 3 true .close), .chan (.run 3), .advance 0 1 true, .chan (.run 1),
      .chan (.run 1), .chan (.run 1), .chan (.run 1), .advance 0 0 true, .advance 0 0 true,
      .advance 0 2 true, .chan (.run 2), .chan (.run 2), .chan (.run 2), .chan (.run 2),
      .advance 0 0 true, .advance 1 4 true, .chan (.run 4), .chan (.run 4), .chan (.run 4),
      .chan (.run 4), .advance 1 0 true] = some _ from rfl)
    exact ⟨_, h, rfl, rfl, rfl, rfl, rfl⟩
  exact ⟨s, hmode, hstop, hgot, hfailed, (loops_end h 0).1 hstop,
    (loops_end h 1).2 ⟨5, .inl htimes⟩ hfailed⟩

end LuvCoro.Channel.Consumers
