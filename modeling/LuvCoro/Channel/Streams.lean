import LuvCoro.Channel.Shares

/-! # A loop gets what its calls took

The invariant of one loop: all its calls but the one it awaits are over, and what
they took is what the body was given. A call can lose a value only when it throws
because the loop could not be woken, and then the loop has failed. -/
namespace LuvCoro.Channel.Consumers

open Transition

universe u
variable {T : Type u} {sys sys' : Sys T} {x : Consumer T} {l : Channel.Label T} {i : OpId}

/-- What the calls took and the body has not been given. -/
def Consumer.Pending (x : Consumer T) (sys : Sys T) (vs : List T) : Prop :=
  match x.phase with
  | .awaiting i => vs = sys.takenBy i
  | .failed e => vs.length ≤ 1 ∧ (vs ≠ [] → e = asyncClosingError)
  | _ => vs = []

structure Sound (sys : Sys T) (x : Consumer T) : Prop where
  called : ∀ i ∈ x.calls, sys.pc i ≠ .idle
  past : ∀ i ∈ x.calls, x.phase ≠ .awaiting i → (sys.pc i).spent = true
  current : ∀ i, x.phase = .awaiting i → i ∈ x.calls
  share : ∃ pending, sys.takesOf x.calls = x.got ++ pending ∧ x.Pending sys pending

theorem called_step (hi : Inv sys) (hs : Channel.step sys l = some sys') (hc : sys.pc i ≠ .idle) :
    sys'.pc i ≠ .idle := by
  have h := step_spec hi.ready hs
  by_cases hl : ∃ j loop call, l = .start j loop call
  · obtain ⟨j, loop, call, rfl⟩ := hl
    obtain ⟨hj, rfl⟩ := start_spec h
    have hij : i ≠ j := by
      rintro rfl
      exact hc hj
    intro he
    exact hc ((Function.update_of_ne hij _ sys.pc).symm.trans he)
  · exact fun he => hc ((later_step h (fun j loop call he => hl ⟨j, loop, call, he⟩) i).idle he)

/-- The channel goes on. -/
theorem Sound.chan (hr : Reachable (system T) sys) (hx : Sound sys x)
    (hs : Channel.step sys l = some sys') : Sound sys' x := by
  have hi := Channel.reachable_inv hr
  have h := step_spec hi.ready hs
  have hstill : ∀ j ∈ x.calls, x.phase ≠ .awaiting j → sys'.takenBy j = sys.takenBy j :=
    fun j hj hne => spent_takes hi (reachable_kept hr j) (hx.past j hj hne) hs
  refine ⟨fun j hj => called_step hi hs (hx.called j hj), fun j hj hne =>
    spent_step hi (hx.past j hj hne) hs, hx.current, ?_⟩
  obtain ⟨pending, hof, hp⟩ := hx.share
  unfold Consumer.Pending at hp ⊢
  cases hphase : x.phase with
  | awaiting i =>
    rw [hphase] at hp hstill
    obtain ⟨vs, hof', hby⟩ := takesOf_step h (hx.current i hphase) fun j hj hne =>
      hstill j hj fun he => hne (Phase.awaiting.inj he).symm
    have hp' : pending = sys.takenBy i := hp
    refine ⟨sys'.takenBy i, ?_, rfl⟩
    rw [hof', hof, hby, hp', List.append_assoc]
  | _ =>
    rw [hphase] at hp hstill
    refine ⟨pending, ?_, hp⟩
    rw [takesOf_same h fun j hj => hstill j hj (by simp), hof]

/-- The loop neither awaits a call nor has failed. -/
def Phase.rests : Phase T → Bool
  | .awaiting _ | .failed _ => false
  | _ => true

theorem pending_rests {vs : List T} (h : x.phase.rests = true) : x.Pending sys vs ↔ vs = [] := by
  unfold Consumer.Pending
  cases hp : x.phase with
  | awaiting i | failed e => rw [hp] at h; cases h
  | _ => rfl

theorem rests_awaiting (h : x.phase.rests = true) (i : OpId) : x.phase ≠ .awaiting i := by
  intro he
  rw [he] at h
  cases h

/-- The next call: it begins with nothing taken. -/
theorem Sound.begin {loop : Bool} (hr : Reachable (system T) sys) (hx : Sound sys x)
    (hrest : x.phase.rests = true)
    (hs : Channel.step sys (.start i loop x.mode.call) = some sys') :
    Sound sys' { x with phase := .awaiting i, calls := x.calls ++ [i] } := by
  have hr' : Reachable (system T) sys' := 
    ReachableBy.step (l := .start i loop x.mode.call) hr trivial hs
  have hx' := hx.chan hr hs
  obtain ⟨hidle, he⟩ := start_spec (step_spec (Channel.reachable_inv hr).ready hs)
  have hpc : sys'.pc i = x.mode.call.entry := by
    rw [he]
    exact Function.update_self ..
  have hentry : x.mode.call.entry ≠ (.idle : Pc T) ∧
      (x.mode.call.entry : Pc T).holding = .nothing := by
    cases x.mode <;> exact ⟨by simp [Mode.call, Call.entry], rfl⟩
  have hnil := (reachable_kept hr' i).nothing hpc hentry.2
  obtain ⟨pending, hof, hp⟩ := hx'.share
  rw [(pending_rests hrest).mp hp] at hof
  refine ⟨fun j hj => ?_, fun j hj hne => ?_, fun j hj => ?_, [], ?_, hnil.symm⟩
  · rcases List.mem_append.mp hj with hj | hj
    · exact hx'.called j hj
    · rw [List.mem_singleton.mp hj, hpc]
      exact hentry.1
  · rcases List.mem_append.mp hj with hj | hj
    · exact hx'.past j hj (rests_awaiting hrest j)
    · rw [List.mem_singleton.mp hj] at hne
      exact absurd rfl hne
  · cases hj
    exact List.mem_append_right _ (List.mem_singleton.mpr rfl)
  · rw [takesOf_append hnil, hof]

/-- The awaited call is over. -/
theorem Sound.resume {r : Result T} (hr : Reachable (system T) sys) (hx : Sound sys x)
    (hphase : x.phase = .awaiting i) (hpc : sys.pc i = .done r) : Sound sys (x.resume r) := by
  have hspent : ∀ j ∈ x.calls, (sys.pc j).spent = true := by
    intro j hj
    by_cases he : x.phase = .awaiting j
    · rw [hphase] at he
      cases he
      rw [hpc]
      rfl
    · exact hx.past j hj he
  have hkeep := (reachable_kept hr i).holding
  rw [hpc] at hkeep
  obtain ⟨pending, hof, hp⟩ := hx.share
  unfold Consumer.Pending at hp
  rw [hphase] at hp
  have hp' : pending = sys.takenBy i := hp
  subst hp'
  -- the result is delivered, or nothing was taken
  have hquiet : ∀ {y : Consumer T} (vs : List T), y.calls = x.calls → y.got = x.got ++ vs →
      y.phase.rests = true → sys.takenBy i = vs → Sound sys y := by
    intro y vs hcalls hgot hrest htaken
    refine ⟨?_, ?_, fun j hj => absurd hj (rests_awaiting hrest j), [], ?_,
      (pending_rests hrest).mpr rfl⟩
    · rw [hcalls]
      exact hx.called
    · rw [hcalls]
      exact fun j hj _ => hspent j hj
    · rw [hcalls, hgot, hof, htaken, List.append_nil]
  have hdeliver : ∀ message : Option T, sys.takenBy i = message.toList →
      Sound sys (x.deliver message) := by
    intro message htaken
    refine hquiet message.toList rfl rfl ?_ htaken
    unfold Consumer.deliver
    dsimp only
    split <;> rfl
  have hfail : ∀ e, r = .thrown e → Sound sys { x with phase := .failed e } := by
    intro e he
    subst he
    refine ⟨hx.called, fun j hj _ => hspent j hj, fun j hj => ?_, _, hof, ?_⟩
    · cases hj
    · refine ⟨hkeep.length, fun hne => ?_⟩
      rcases hkeep with hnil | ⟨hthrown, _⟩
      · exact absurd hnil hne
      · exact Result.thrown.inj hthrown
  have hvalue : ∀ {o : Option T}, r = .value o → sys.takenBy i = o.toList := by
    rintro o rfl
    exact hkeep.resolve_right fun h => by cases h.1
  unfold Consumer.resume
  split
  · exact hquiet [] rfl (List.append_nil _).symm rfl (hvalue rfl)
  · refine hdeliver none ?_
    exact hkeep.resolve_right fun h => by cases h.1
  · exact hdeliver _ (hvalue rfl)
  · exact hfail _ rfl
  · exact hx
  · exact hx

/-- Between two calls the loop moves on with what it has. -/
theorem Sound.move {y : Consumer T} (hx : Sound sys x) (hrest : x.phase.rests = true)
    (hcalls : y.calls = x.calls) (hgot : y.got = x.got) (hrest' : y.phase.rests = true) :
    Sound sys y := by
  obtain ⟨pending, hof, hp⟩ := hx.share
  refine ⟨?_, ?_, fun j hj => absurd hj (rests_awaiting hrest' j), [], ?_,
    (pending_rests hrest').mpr rfl⟩
  · rw [hcalls]
    exact hx.called
  · rw [hcalls]
    exact fun j hj _ => hx.past j hj (rests_awaiting hrest j)
  · rw [hcalls, hgot, hof, (pending_rests hrest).mp hp]

theorem deliver_rests (x : Consumer T) (message : Option T) :
    (x.deliver message).phase.rests = true := by
  unfold Consumer.deliver
  dsimp only
  split <;> rfl

/-! ## All loops -/

structure Inv (s : Loops T) : Prop where
  channel : Reachable (system T) s.sys
  sound : ∀ c, Sound s.sys (s.consumer c)
  apart : ∀ c d, c ≠ d → ∀ i ∈ (s.consumer c).calls, i ∉ (s.consumer d).calls

variable {s t : Loops T} {c : Nat} {loop : Bool}

theorem set_self {y : Consumer T} : (s.set c y).consumer c = y := Function.update_self ..

theorem set_other {y : Consumer T} {d : Nat} (h : d ≠ c) :
    (s.set c y).consumer d = s.consumer d := Function.update_of_ne h ..

theorem inv_set {y : Consumer T} (h : Inv s) (hy : Sound s.sys y)
    (hcalls : y.calls = (s.consumer c).calls) : Inv (s.set c y) := by
  have hsame : ∀ d, ((s.set c y).consumer d).calls = (s.consumer d).calls := by
    intro d
    by_cases hd : d = c
    · rw [hd, set_self, hcalls]
    · rw [set_other hd]
  refine ⟨h.channel, fun d => ?_, fun d e hne i hd => ?_⟩
  · show Sound s.sys ((s.set c y).consumer d)
    by_cases hd : d = c
    · rw [hd, set_self]
      exact hy
    · rw [set_other hd]
      exact h.sound d
  · rw [hsame] at hd ⊢
    exact h.apart d e hne i hd

theorem inv_begin (h : Inv s) (hrest : (s.consumer c).phase.rests = true)
    (hs : s.begin c i loop = some t) : Inv t := by
  unfold Loops.begin at hs
  dsimp only at hs
  obtain ⟨sys', hstep, rfl⟩ := Option.map_eq_some_iff.mp hs
  have hr' : Reachable (system T) sys' :=
    ReachableBy.step (l := .start i loop (s.consumer c).mode.call) h.channel trivial hstep
  obtain ⟨hidle, _⟩ := start_spec (step_spec (Channel.reachable_inv h.channel).ready hstep)
  have hfresh : ∀ d, i ∉ (s.consumer d).calls := fun d hd => (h.sound d).called i hd hidle
  generalize hy : { s.consumer c with
    phase := .awaiting i, calls := (s.consumer c).calls ++ [i] } = y
  have hcases : ∀ e j, j ∈ ((Loops.set { s with sys := sys' } c y).consumer e).calls →
      j ∈ (s.consumer e).calls ∨ e = c ∧ j = i := by
    intro e j he
    by_cases hec : e = c
    · rw [hec, set_self, ← hy] at he
      rw [hec]
      exact (List.mem_append.mp he).imp_right fun hm => ⟨rfl, List.mem_singleton.mp hm⟩
    · rw [set_other hec] at he
      exact .inl he
  refine ⟨hr', fun d => ?_, fun d e hne j hd he => ?_⟩
  · show Sound sys' ((Loops.set { s with sys := sys' } c y).consumer d)
    by_cases hd : d = c
    · rw [hd, set_self, ← hy]
      exact (h.sound c).begin h.channel hrest hstep
    · rw [set_other hd]
      exact (h.sound d).chan h.channel hstep
  · rcases hcases d j hd with hd | ⟨hdc, hji⟩
    · rcases hcases e j he with he | ⟨_, hji⟩
      · exact h.apart d e hne j hd he
      · exact hfresh d (hji ▸ hd)
    · rcases hcases e j he with he | ⟨hec, _⟩
      · exact hfresh e (hji ▸ he)
      · exact hne (hdc.trans hec.symm)

theorem inv_advance (h : Inv s) (hs : s.advance c i loop = some t) : Inv t := by
  have hx := h.sound c
  unfold Loops.advance at hs
  dsimp only at hs
  cases hphase : (s.consumer c).phase with
  | generator =>
    have hrest : (s.consumer c).phase.rests = true := by rw [hphase]; rfl
    rw [hphase] at hs
    dsimp only at hs
    split at hs
    · cases hs
      exact inv_set h (hx.move hrest rfl rfl rfl) rfl
    split at hs
    · split at hs
      · cases hs
        exact inv_set h (hx.move hrest rfl rfl rfl) rfl
      · cases hs
        exact inv_set h (hx.move hrest rfl rfl rfl) rfl
    · exact inv_begin h hrest hs
  | message =>
    have hrest : (s.consumer c).phase.rests = true := by rw [hphase]; rfl
    rw [hphase] at hs
    dsimp only at hs
    split at hs
    · cases hs
      exact inv_set h (hx.move hrest rfl rfl rfl) rfl
    · exact inv_begin h hrest hs
  | untilStop =>
    have hrest : (s.consumer c).phase.rests = true := by rw [hphase]; rfl
    rw [hphase] at hs
    dsimp only at hs
    split at hs
    · cases hs
      exact inv_set h (hx.move hrest rfl (List.append_nil _) (deliver_rests _ _)) rfl
    · exact inv_begin h hrest hs
  | awaiting j =>
    rw [hphase] at hs
    dsimp only at hs
    cases hpc : s.sys.pc j with
    | done r =>
      simp only [hpc, Option.some.injEq] at hs
      subst hs
      refine inv_set h (hx.resume h.channel hphase hpc) ?_
      unfold Consumer.resume
      split <;> rfl
    | _ => simp [hpc] at hs
  | body message =>
    have hrest : (s.consumer c).phase.rests = true := by rw [hphase]; rfl
    rw [hphase] at hs
    cases hs
    exact inv_set h (hx.move hrest rfl rfl rfl) rfl
  | finished | failed e =>
    rw [hphase] at hs
    cases hs

theorem inv_step {l : Label T} (h : Inv s) (hs : s.step l = some t) : Inv t := by
  cases l with
  | chan l =>
    obtain ⟨sys', hstep, rfl⟩ := Option.map_eq_some_iff.mp hs
    exact ⟨.step (l := l) h.channel trivial hstep, fun c => (h.sound c).chan h.channel hstep, h.apart⟩
  | advance c i loop => exact inv_advance h hs
  | leave c =>
    have hleave : s.leave c = some t := hs
    unfold Loops.leave at hleave
    cases hphase : (s.consumer c).phase with
    | body message =>
      simp only [hphase, Option.some.injEq] at hleave
      subst hleave
      exact inv_set h ((h.sound c).move (by rw [hphase]; rfl) rfl rfl rfl) rfl
    | _ => simp [hphase] at hleave
  | requestStop c =>
    have hx := h.sound c
    simp only [Loops.step] at hs
    split at hs <;> cases hs
    exact inv_set h ⟨hx.called, hx.past, hx.current, hx.share⟩ rfl
  | loseSource c =>
    have hx := h.sound c
    simp only [Loops.step] at hs
    split at hs <;> cases hs
    exact inv_set h ⟨hx.called, hx.past, hx.current, hx.share⟩ rfl

theorem reachable_inv (h : Reachable (loops T) s) : Inv s := by
  refine h.invariant ?_ fun s l t _ hI hs => inv_step hI hs
  rintro s ⟨capacity, mode, possible, rfl⟩
  refine ⟨reachable_new capacity, fun c => ⟨?_, ?_, ?_, [], ?_, rfl⟩, ?_⟩
  · exact fun i hi => absurd hi List.not_mem_nil
  · exact fun i hi => absurd hi List.not_mem_nil
  · intro i hi
    cases hi
  · rw [takesOf_nil]
    rfl
  · exact fun c d _ i hi => absurd hi List.not_mem_nil

/-- What one loop got, of all that left the channel. -/
structure Share (s : Loops T) (c : Nat) (pending : List T) : Prop where
  calls : s.sys.takesOf (s.consumer c).calls = (s.consumer c).got ++ pending
  single : pending.length ≤ 1
  inFlight : pending ≠ [] → (∃ i, (s.consumer c).phase = .awaiting i) ∨
    (s.consumer c).phase = .failed asyncClosingError
  /-- A loop that nobody else receives beside gets everything, in order. -/
  alone : (∀ p ∈ s.sys.takes, p.1 ∈ (s.consumer c).calls) →
    (s.consumer c).got ++ pending ++ s.sys.chan.messages ++ s.sys.parkedValues ++ s.sys.failed =
      s.sys.accepted

theorem share_of_sound (h : Inv s) (c : Nat) : ∃ pending, Share s c pending := by
  obtain ⟨pending, hof, hp⟩ := (h.sound c).share
  have hlen : pending.length ≤ 1 ∧ (pending ≠ [] → (∃ i, (s.consumer c).phase = .awaiting i) ∨
      (s.consumer c).phase = .failed asyncClosingError) := by
    unfold Consumer.Pending at hp
    cases hphase : (s.consumer c).phase with
    | awaiting i =>
      rw [hphase] at hp
      have hp' : pending = s.sys.takenBy i := hp
      exact ⟨hp' ▸ (reachable_kept h.channel i).length, fun _ => .inl ⟨i, rfl⟩⟩
    | failed e =>
      rw [hphase] at hp
      exact ⟨hp.1, fun hne => .inr (by rw [hp.2 hne])⟩
    | _ =>
      rw [hphase] at hp
      have hp' : pending = [] := hp
      exact ⟨by simp [hp'], fun hne => absurd hp' hne⟩
  refine ⟨pending, hof, hlen.1, hlen.2, fun hall => ?_⟩
  have htaken : s.sys.taken = (s.consumer c).got ++ pending := by
    rw [takes_values, ← hof]
    unfold Sys.takesOf
    rw [List.filter_eq_self.mpr fun p hp => by simpa using hall p hp]
  rw [← htaken, List.append_assoc s.sys.taken]
  exact balanced h.channel

/-- In every run, every loop has got what its calls took, in order, and no message
has come to two loops. -/
theorem loops_share (h : Reachable (loops T) s) : (∀ c, ∃ pending, Share s c pending) ∧
    ∀ c d, c ≠ d → ∀ i ∈ (s.consumer c).calls, i ∉ (s.consumer d).calls :=
  ⟨share_of_sound (reachable_inv h), (reachable_inv h).apart⟩

/-- One loop takes the first of two messages and awaits the next. -/
theorem loops_share_awaiting : ∃ s : Loops Nat, (s.consumer 0).got = [7] ∧
    s.sys.takesOf (s.consumer 0).calls = [7] ∧ ∃ pending, Share s 0 pending := by
  obtain ⟨s, h, hgot, hof⟩ : ∃ s : Loops Nat, Reachable (loops Nat) s ∧
      (s.consumer 0).got = [7] ∧ s.sys.takesOf (s.consumer 0).calls = [7] := by
    have h₀ : Reachable (loops Nat) { sys := Sys.new 2, consumer := fun _ => { mode := .messages } } :=
      .init ⟨2, fun _ => .messages, fun _ => true, rfl⟩
    have h := h₀.run (show run (loops Nat) _ [.chan (.start 0 true (.trySend 7)), .chan (.run 0),
      .advance 0 1 true, .chan (.run 1), .chan (.run 1), .chan (.run 1), .chan (.run 1),
      .advance 0 0 true, .advance 0 0 true, .advance 0 2 true] = some _ from rfl)
    exact ⟨_, h, rfl, rfl⟩
  exact ⟨s, hgot, hof, (loops_share h).1 0⟩

end LuvCoro.Channel.Consumers
