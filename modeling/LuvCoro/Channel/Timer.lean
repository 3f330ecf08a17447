import LuvCoro.Channel.Refinement

/-! # The life of one `timer_state`

A `recv_for` that waits posts the start of its timer once. A started timer is
armed until it fires or is cancelled, and whichever comes first closes its
handle; `close_handle` does nothing the second time. -/
namespace LuvCoro.Channel

open Transition

universe u
variable {T : Type u} {s t : Sys T} {l : Label T} {i j : OpId}

/-! ## The operations of one timer -/

/-- The handle of an armed timer is open, and `uv_close` is called once. -/
structure TimerState.Sound (x : TimerState) : Prop where
  armed : x.armed = true → x.handle = true ∧ x.closing = false
  closing : x.closing = true → x.handle = true
  closes : x.closes = if x.closing then 1 else 0

/-- The handle of a timer that was started is closed once it is not armed. -/
def TimerState.Ran (x : TimerState) : Prop := x.handle = true ∧ x.armed = !x.closing

theorem TimerState.sound_new : ({} : TimerState).Sound := ⟨nofun, nofun, rfl⟩

theorem TimerState.closeHandle_of {x : TimerState} (h : x.handle = false ∨ x.closing = true) :
    x.closeHandle = x := by
  unfold TimerState.closeHandle
  rcases h with h | h <;> simp [h]

theorem TimerState.closeHandle_open {x : TimerState} (hh : x.handle = true)
    (hc : x.closing = false) :
    x.closeHandle = { x with closing := true, armed := false, closes := x.closes + 1 } := by
  unfold TimerState.closeHandle
  simp [hh, hc]

@[simp] theorem TimerState.closeHandle_handle (x : TimerState) :
    x.closeHandle.handle = x.handle := by
  unfold TimerState.closeHandle
  split <;> rfl

/-- `close_handle` after `cancel` or `fire` has written its own field. -/
theorem TimerState.Sound.close {x y : TimerState} (h : x.Sound) (hh : y.handle = x.handle)
    (hc : y.closing = x.closing) (hn : y.closes = x.closes) (ha : y.armed = true → x.armed = true) :
    y.closeHandle.Sound := by
  by_cases hopen : y.handle = true ∧ y.closing = false
  · rw [TimerState.closeHandle_open hopen.1 hopen.2]
    refine ⟨nofun, fun _ => hopen.1, ?_⟩
    have hcl : x.closing = false := hc.symm.trans hopen.2
    simp [hn, h.closes, hcl]
  · have hoff : y.handle = false ∨ y.closing = true := by
      cases hy : y.handle with
      | false => exact .inl rfl
      | true => exact .inr (by simpa [hy] using hopen)
    rw [TimerState.closeHandle_of hoff]
    refine ⟨fun hy => ?_, ?_, ?_⟩
    · rw [hh, hc]
      exact h.armed (ha hy)
    · rw [hh, hc]
      exact h.closing
    · rw [hn, hc]
      exact h.closes

theorem TimerState.Ran.close {x y : TimerState} (h : x.Ran) (hh : y.handle = x.handle)
    (hc : y.closing = x.closing) (ha : y.armed = true → x.armed = true) : y.closeHandle.Ran := by
  have hy : y.handle = true := hh.trans h.1
  cases hcl : y.closing with
  | false =>
    rw [TimerState.closeHandle_open hy hcl]
    exact ⟨hy, rfl⟩
  | true =>
    rw [TimerState.closeHandle_of (.inr hcl)]
    refine ⟨hy, ?_⟩
    have hx : x.armed = false := by rw [h.2, ← hc, hcl]; rfl
    rw [hcl]
    cases hya : y.armed with
    | false => rfl
    | true => rw [ha hya] at hx; cases hx

/-- An armed timer that fires is closed for the first time. -/
theorem TimerState.Sound.fires {x : TimerState} (h : x.Sound) (ha : x.armed = true) :
    (TimerState.closeHandle { x with armed := false }).closes = 1 := by
  obtain ⟨hh, hcl⟩ := h.armed ha
  have hn := h.closes
  rw [hcl] at hn
  simp [TimerState.closeHandle, hh, hcl, hn]

/-- What `timer_state::start` may leave behind. -/
inductive TimerState.Start (x : TimerState) : TimerState → Prop
  | skipped : Start x x
  | initFailed : Start x { x with handle := true }
  | startFailed : Start x (TimerState.closeHandle { x with handle := true })
  | running : Start x { x with handle := true, armed := true }

theorem TimerState.Start.sound {x y : TimerState} (h : x.Start y) (hs : x.Sound)
    (hh : x.handle = false) : y.Sound := by
  have hc : x.closing = false := by
    cases hx : x.closing with
    | false => rfl
    | true => rw [hs.closing hx] at hh; cases hh
  have ha : x.armed = false := by
    cases hx : x.armed with
    | false => rfl
    | true => rw [(hs.armed hx).1] at hh; cases hh
  have hinit : TimerState.Sound { x with handle := true } :=
    ⟨fun _ => ⟨rfl, hc⟩, fun _ => rfl, hs.closes⟩
  cases h with
  | skipped => exact hs
  | initFailed => exact hinit
  | startFailed => exact hinit.close rfl rfl rfl id
  | running => exact ⟨fun _ => ⟨rfl, hc⟩, fun _ => rfl, hs.closes⟩

theorem TimerState.Start.ran {x y : TimerState} (h : x.Start y) (hs : x.Sound)
    (hh : x.handle = false) (ha : y.armed = true) : y.Ran := by
  have hy := (h.sound hs hh).armed ha
  exact ⟨hy.1, by rw [ha, hy.2]; rfl⟩

/-! ## Starts that are still to run -/

def Posted.starts (i : OpId) : Posted → Bool
  | .timerStart j _ => j == i
  | _ => false

namespace Sys

/-- The starts of the timer of `i` that `recv_for` is about to post, or has
posted. -/
def starts (s : Sys T) (i : OpId) : Nat := s.posted.countP (Posted.starts i) + (s.posting i).toNat

theorem timed_of_starts (h : s.starts i ≠ 0) : s.Timed i := by
  unfold starts at h
  cases hq : s.posting i with
  | true => exact .inl hq
  | false =>
    rw [hq, Bool.toNat_false, Nat.add_zero] at h
    obtain ⟨p, hp, hs⟩ := List.countP_pos_iff.mp (Nat.pos_of_ne_zero h)
    cases p with
    | timerStart k c =>
      obtain rfl : k = i := by simpa [Posted.starts] using hs
      exact .inr (.inr ⟨c, hp⟩)
    | timerCancel k => cases hs
    | closeChannel => cases hs

end Sys

/-- What a step does to the timer of `i` and to its starts. -/
inductive ClockStep (s : Sys T) (l : Label T) (t : Sys T) (i : OpId) : Prop
  | rest : t.timer i = s.timer i → t.starts i ≤ s.starts i → ClockStep s l t i
  | queue : l = .run i → (s.pc i).beforeReceive = true → t.timer i = s.timer i →
      t.starts i = s.starts i + 1 → ClockStep s l t i
  | start : s.starts i = t.starts i + 1 → (s.timer i).Start (t.timer i) → ClockStep s l t i
  | stop {y : TimerState} : t.starts i = s.starts i → t.timer i = y.closeHandle →
      y.handle = (s.timer i).handle → y.closing = (s.timer i).closing →
      y.closes = (s.timer i).closes → (y.armed = true → (s.timer i).armed = true) →
      ClockStep s l t i

theorem timerStart_frame (s : Sys T) (j : OpId) (rcInit rcStart : Int) :
    (s.timerStart j rcInit rcStart).posted = s.posted ∧
    (s.timerStart j rcInit rcStart).posting = s.posting ∧
    (s.timer j).Start ((s.timerStart j rcInit rcStart).timer j) ∧
    ∀ i, i ≠ j → (s.timerStart j rcInit rcStart).timer i = s.timer i := by
  unfold Sys.timerStart
  split
  · exact ⟨rfl, rfl, .skipped, fun _ _ => rfl⟩
  split
  · exact ⟨rfl, rfl, .skipped, fun _ _ => rfl⟩
  dsimp only
  split
  · refine ⟨rfl, rfl, ?_, fun i hi => ?_⟩
    · simp only [Sys.timerFail, Sys.setTimer, Function.update_self]
      exact .initFailed
    · simp [Sys.timerFail, Sys.setTimer, hi]
  split
  · refine ⟨rfl, rfl, ?_, fun i hi => ?_⟩
    · simp only [Sys.timerFail, Sys.setTimer, Function.update_self]
      exact .startFailed
    · simp [Sys.timerFail, Sys.setTimer, hi]
  · refine ⟨rfl, rfl, ?_, fun i hi => ?_⟩
    · simp only [Sys.setTimer, Function.update_self]
      exact .running
    · simp [Sys.setTimer, hi]

theorem starts_cons (p : Posted) (ps : List Posted) (q : OpId → Bool) (hp : s.posted = p :: ps)
    (hq : q = s.posting) : s.starts i =
      ps.countP (Posted.starts i) + (q i).toNat + if Posted.starts i p then 1 else 0 := by
  unfold Sys.starts
  rw [hp, List.countP_cons, hq]
  omega

/-- The loop takes one closure at a time. -/
theorem runPosted_tail {rcInit rcStart : Int} (h : runPosted s rcInit rcStart = some t) :
    ∃ p, s.posted = p :: t.posted := by
  unfold runPosted at h
  split at h
  · cases h
  · rename_i j c ps hps
    split at h
    · cases h
      exact ⟨_, by rw [(timerStart_frame ..).1]; exact hps⟩
    · cases h
  · rename_i j ps hps
    cases h
    exact ⟨_, hps⟩
  · rename_i ps hps
    cases h
    exact ⟨_, hps⟩

theorem runPosted_clock {rcInit rcStart : Int} (h : runPosted s rcInit rcStart = some t)
    (i : OpId) : ClockStep s (.runPosted rcInit rcStart) t i := by
  unfold runPosted at h
  split at h
  · cases h
  · rename_i j c ps hps
    split at h
    · cases h
      obtain ⟨hp, hq, hstart, hother⟩ := timerStart_frame { s with posted := ps } j rcInit rcStart
      have hs := starts_cons (i := i) _ ps _ hps rfl
      by_cases hi : i = j
      · subst hi
        refine .start ?_ hstart
        unfold Sys.starts at hs ⊢
        rw [hp, hq, hs]
        simp [Posted.starts]
      · refine .rest (hother i hi) ?_
        unfold Sys.starts at hs ⊢
        rw [hp, hq, hs]
        simp
    · cases h
  · rename_i j ps hps
    cases h
    have hs := starts_cons (i := i) _ ps _ hps rfl
    by_cases hi : i = j
    · subst hi
      refine .stop (y := { s.timer i with canceled := true }) ?_ ?_ rfl rfl rfl id
      · rw [hs]
        rfl
      · simp [Sys.setTimer]
    · refine .rest (by simp [Sys.setTimer, hi]) ?_
      rw [hs]
      exact Nat.le_add_right _ _
  · rename_i ps hps
    cases h
    refine .rest rfl ?_
    rw [starts_cons (i := i) _ ps _ hps rfl]
    exact Nat.le_add_right _ _

theorem timerFire_clock (h : timerFire s j = some t) (i : OpId) :
    ClockStep s (.timerFire j) t i := by
  unfold timerFire at h
  split at h
  · cases h
    by_cases hi : i = j
    · subst hi
      refine .stop (y := { s.timer i with armed := false }) rfl ?_ rfl rfl rfl nofun
      simp [Sys.setTimer]
    · exact .rest (by simp [Sys.setTimer, hi]) (Nat.le_refl _)
  · cases h

theorem runPosting_clock (h : runPosting s j = some t) (i : OpId) :
    ClockStep s (.post j) t i := by
  unfold runPosting at h
  split at h
  · rename_i hp
    dsimp only [Sys.post_eq] at h
    split at h
    · rename_i u hu
      split at hu
      · cases hu
      · cases hu
        cases h
        refine .rest rfl ?_
        by_cases hi : i = j
        · subst hi
          simp [Sys.starts, Posted.starts, hp]
        · simp [Sys.starts, Posted.starts, hi, Ne.symm hi]
    · cases h
      refine .rest rfl ?_
      by_cases hi : i = j
      · subst hi
        simp [Sys.starts, Sys.continueInline, Sys.goto]
      · simp [Sys.starts, Sys.continueInline, Sys.goto, hi]
  · cases h

/-- What a step off the loop thread does to the timers and their starts: nothing,
but for a `recv_for` that comes to post one. -/
structure Aside (s : Sys T) (l : Label T) (t : Sys T) : Prop where
  timer : t.timer = s.timer
  posted : t.posted = s.posted ∨
    ∃ p, (∀ i c, p ≠ Posted.timerStart i c) ∧ t.posted = s.posted ++ [p]
  posting : t.posting = s.posting ∨ ∃ j b, l = .run j ∧ (s.pc j).beforeReceive = true ∧
    t.posting = Function.update s.posting j b

theorem aside_post {p : Posted} (hp : ∀ i c, p ≠ Posted.timerStart i c) (x : Pc T) :
    Aside s l (((s.post p).getD s).goto i x) := by
  rw [Sys.post_eq]
  split
  · exact ⟨rfl, .inl rfl, .inl rfl⟩
  · exact ⟨rfl, .inr ⟨p, hp, rfl⟩, .inl rfl⟩

theorem aside_step (h : StepSpec s l t) (hp : ∀ a b, l ≠ .runPosted a b)
    (hf : ∀ j, l ≠ .timerFire j) (hq : ∀ j, l ≠ .post j) : Aside s l t := by
  cases h with
  | @send i v r full ok _ _ _ =>
    unfold Sys.afterSend
    split <;> exact ⟨rfl, .inl rfl, .inl rfl⟩
  | @sendSuspend i v r _ _ _ =>
    unfold Sys.awaitSuspend
    split <;> exact ⟨rfl, .inl rfl, .inl rfl⟩
  | @recvSuspend j k q posting r hpc hsus _ hpost _ =>
    have hframe : (s.awaitSuspend j r k).timer = s.timer ∧
        (s.awaitSuspend j r k).posted = s.posted := by
      unfold Sys.awaitSuspend
      split <;> exact ⟨rfl, rfl⟩
    cases hpost with
    | recv => exact ⟨hframe.1, .inl hframe.2, .inl rfl⟩
    | recvFor =>
      refine ⟨hframe.1, .inl hframe.2, .inr ⟨j, r.1, rfl, ?_, rfl⟩⟩
      rw [hpc]
      cases hsus
      rfl
  | closeTimer _ => exact aside_post (by simp) _
  | cancelTimer _ _ => exact aside_post (by simp) _
  | closePost _ _ => exact ⟨rfl, .inr ⟨_, by simp, rfl⟩, .inl rfl⟩
  | notify _ => split <;> exact ⟨rfl, .inl rfl, .inl rfl⟩
  | posted _ _ => exact absurd rfl (hq _)
  | postFailed _ _ _ => exact absurd rfl (hq _)
  | timer hlab _ =>
    rcases hlab with hl | ⟨_, _, hl⟩
    · exact absurd hl (hf _)
    · exact absurd hl (hp _ _)
  | timerCancel _ _ => exact absurd rfl (hp _ _)
  | closeChannel _ => exact absurd rfl (hp _ _)
  | _ => exact ⟨rfl, .inl rfl, .inl rfl⟩

theorem Aside.countP (h : Aside s l t) (i : OpId) :
    t.posted.countP (Posted.starts i) = s.posted.countP (Posted.starts i) := by
  rcases h.posted with hp | ⟨p, hp, he⟩
  · rw [hp]
  · have hn : Posted.starts i p = false := by
      cases p with
      | timerStart j c => exact absurd rfl (hp j c)
      | timerCancel j => rfl
      | closeChannel => rfl
    rw [he, List.countP_append, List.countP_singleton, hn]
    rfl

theorem Aside.clock (hr : s.Ready) (h : Aside s l t) (i : OpId) : ClockStep s l t i := by
  have hcount := h.countP i
  have ht := congrFun h.timer i
  rcases h.posting with hq | ⟨j, b, hl, hb, hq⟩
  · exact .rest ht (Nat.le_of_eq (by unfold Sys.starts; rw [hcount, hq]))
  by_cases hi : i = j
  · subst hi
    have hnot : s.posting i = false := by
      cases hx : s.posting i with
      | false => rfl
      | true => rw [(hr.op i).timed (.inl hx)] at hb; cases hb
    cases b with
    | true => exact .queue hl hb ht (by simp [Sys.starts, hcount, hq, hnot])
    | false => exact .rest ht (by simp [Sys.starts, hcount, hq])
  · exact .rest ht (by simp [Sys.starts, hcount, hq, hi])

/-- The inversion lemma of the timers. -/
theorem clock_step (hr : s.Ready) (h : step s l = some t) (i : OpId) : ClockStep s l t i := by
  have hspec := step_spec hr h
  cases l with
  | runPosted rcInit rcStart => exact runPosted_clock h i
  | timerFire j => exact timerFire_clock h i
  | post j => exact runPosting_clock h i
  | _ => exact (aside_step hspec nofun nofun nofun).clock hr i

/-! ## The invariant of one timer -/

/-- A timer is started at most once, and only for an operation that waits. -/
structure Clock (s : Sys T) (i : OpId) : Prop where
  once : s.starts i ≤ 1
  handle : (s.timer i).handle = true → s.starts i = 0 ∧ (s.pc i).beforeReceive = false
  sound : (s.timer i).Sound

theorem Clock.start (hc : Clock s i) (hs : s.starts i = t.starts i + 1) :
    (s.timer i).handle = false ∧ t.starts i = 0 := by
  have h1 := hc.once
  refine ⟨?_, by omega⟩
  cases hh : (s.timer i).handle with
  | false => rfl
  | true =>
    have h0 := (hc.handle hh).1
    omega

theorem clock_kept (hr : s.Ready) (hlater : (s.pc i).beforeReceive = false →
    (t.pc i).beforeReceive = false) (hc : Clock s i) (h : ClockStep s l t i) : Clock t i := by
  cases h with
  | rest ht hs =>
    refine ⟨Nat.le_trans hs hc.once, fun hh => ?_, by rw [ht]; exact hc.sound⟩
    rw [ht] at hh
    obtain ⟨h0, hb⟩ := hc.handle hh
    exact ⟨by omega, hlater hb⟩
  | queue _ hb ht hs =>
    have h0 : s.starts i = 0 := by
      by_contra hne
      rw [(hr.op i).timed (Sys.timed_of_starts hne)] at hb
      cases hb
    refine ⟨by omega, fun hh => ?_, by rw [ht]; exact hc.sound⟩
    rw [ht] at hh
    rw [(hc.handle hh).2] at hb
    cases hb
  | start hs hst =>
    obtain ⟨hh, h0⟩ := hc.start hs
    refine ⟨by omega, fun _ => ⟨h0, hlater ?_⟩, hst.sound hc.sound hh⟩
    exact (hr.op i).timed (Sys.timed_of_starts (by omega))
  | stop hs ht hh hcl hn ha =>
    refine ⟨hs ▸ hc.once, fun hhd => ?_, ?_⟩
    · rw [ht, TimerState.closeHandle_handle, hh] at hhd
      obtain ⟨h0, hb⟩ := hc.handle hhd
      exact ⟨hs.trans h0, hlater hb⟩
    · rw [ht]
      exact hc.sound.close hh hcl hn ha

/-- Nobody comes back to a receive that has begun to wait. -/
theorem past_receive (h : StepSpec s l t) (hb : (s.pc i).beforeReceive = false) :
    (t.pc i).beforeReceive = false := by
  have hgoes : (∀ j loop call, l ≠ .start j loop call) → (t.pc i).beforeReceive = false := by
    intro hl
    cases ht : (t.pc i).beforeReceive with
    | false => rfl
    | true => rw [(later_step h hl i).receive ht] at hb; cases hb
  cases l with
  | start j loop call =>
    cases h with
    | start hidle =>
      by_cases hi : i = j
      · subst hi
        rw [hidle] at hb
        cases hb
      · simpa [hi] using hb
    | timer hlab _ => rcases hlab with he | ⟨_, _, he⟩ <;> cases he
  | _ => exact hgoes nofun

theorem clock_step_kept (hi : Inv s) (h : step s l = some t) (hc : Clock s i) : Clock t i :=
  clock_kept hi.ready (past_receive (step_spec hi.ready h)) hc (clock_step hi.ready h i)

theorem clock_init (capacity : Nat) (i : OpId) : Clock (Sys.new capacity : Sys T) i :=
  ⟨Nat.zero_le _, nofun, TimerState.sound_new⟩

/-- A timer that ran before a step, or runs after it, has run. -/
theorem ran_step (hc : Clock s i) (h : ClockStep s l t i)
    (hran : (s.timer i).Ran ∨ (t.timer i).armed = true) : (t.timer i).Ran := by
  have harmed : ∀ u : Sys T, (u.timer i).Sound → (u.timer i).armed = true → (u.timer i).Ran := by
    intro u hu ha
    obtain ⟨hh, hcl⟩ := hu.armed ha
    exact ⟨hh, by rw [ha, hcl]; rfl⟩
  cases h with
  | rest ht _ =>
    rw [ht] at hran ⊢
    exact hran.elim id (harmed s hc.sound)
  | queue _ _ ht _ =>
    rw [ht] at hran ⊢
    exact hran.elim id (harmed s hc.sound)
  | start hs hst =>
    obtain ⟨hh, _⟩ := hc.start hs
    rcases hran with hran | ha
    · rw [hran.1] at hh
      cases hh
    · exact hst.ran hc.sound hh ha
  | stop hs ht hh hcl hn ha =>
    have hsound := hc.sound.close hh hcl hn ha
    rw [ht] at hran ⊢
    rcases hran with hran | har
    · exact hran.close hh hcl ha
    · obtain ⟨hhd, hcls⟩ := hsound.armed har
      exact ⟨hhd, by rw [har, hcls]; rfl⟩

end LuvCoro.Channel
