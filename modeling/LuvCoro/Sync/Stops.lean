import LuvCoro.Sync.Local

/-! # Stop requests and finished calls

A waiter is cancelled only when stop has been requested of its call, and a call
that has ended stays so. -/
namespace LuvCoro.Sync

open Transition PermitQueue

variable {ρ κ : Type} {P : Primitive ρ κ} {n : Int} {s t u : Sys ρ} {i j : OpId}

/-- No stop is requested and no call that has ended goes on. -/
def Onward (s t : Sys ρ) : Prop :=
  ∀ j, (t.op j).stopRequested = (s.op j).stopRequested ∧
    ∀ r, (s.op j).pc = .done r → (t.op j).pc = .done r

/-- Stop has been requested of every call whose waiter is cancelled. -/
def Asked (s : Sys ρ) : Prop :=
  ∀ j, (s.shared.waiter j).cancelled = true → (s.op j).stopRequested = true

theorem onward_of_op (h : t.op = s.op) : Onward s t := by
  intro j
  rw [h]
  exact ⟨rfl, fun _ h => h⟩

theorem onward_setOp {o : Op} (h : Onward s u) (hst : o.stopRequested = (u.op i).stopRequested)
    (hd : ∀ r, (u.op i).pc ≠ .done r) : Onward s (u.setOp i o) := by
  intro j
  by_cases hj : j = i
  · subst hj
    rw [setOp_self]
    exact ⟨hst.trans (h j).1, fun r hr => absurd ((h j).2 r hr) (hd r)⟩
  · rw [setOp_of_ne _ o hj]
    exact h j

theorem onward_goto {p : Pc} (h : Onward s u) (hd : ∀ r, (u.op i).pc ≠ .done r) :
    Onward s (u.goto i p) := onward_setOp h rfl hd

theorem onward_resumeCoroutine (h : Onward s u) (i : OpId) : Onward s (u.resumeCoroutine i) := by
  unfold Sys.resumeCoroutine
  dsimp only
  split
  · rename_i hpc
    have hb : Onward s { u with resumed := Function.update u.resumed i (u.resumed i + 1) } := h
    exact onward_goto hb fun r => by rw [hpc]; exact nofun
  · exact h

/-- The records of waiters that a section does not cancel. -/
theorem asked_touches {sh : Shared ρ} {w : Waiter} {tail : List OpId} (h : Asked s)
    (ht : Touches s.shared sh i w tail) (hw : w.cancelled = false) (hsh : u.shared = sh)
    (hop : Onward s u) : Asked u := by
  intro j hj
  rw [hsh] at hj
  by_cases hji : j = i
  · subst hji
    rw [ht.record, hw] at hj
    cases hj
  · rw [ht.others j hji] at hj
    exact (hop j).1.trans (h j hj)

theorem asked_same (h : Asked s) (hsh : t.shared = s.shared) (hop : Onward s t) : Asked t := by
  intro j hj
  rw [hsh] at hj
  exact (hop j).1.trans (h j hj)

/-- `cancel_waiter` after a stop request. -/
theorem asked_cancel {sh : Shared ρ} (h : Asked s) (hc : s.shared.cancel i = some sh)
    (hr : (s.op i).stopRequested = true) (hsh : u.shared = sh) (hop : Onward s u) : Asked u := by
  obtain ⟨q, hq, rfl⟩ := Option.map_eq_some_iff.mp hc
  obtain ⟨_, _, rfl⟩ := cancelWaiter_spec hq
  intro j hj
  rw [(hop j).1]
  by_cases hji : j = i
  · rw [hji]
    exact hr
  · rw [hsh] at hj
    exact h j ((congrArg Waiter.cancelled (set_of_ne s.shared.toWaiters _ hji)).symm.trans hj)

theorem asked_release {k : κ} {is : List OpId} {sh : Shared ρ} (h : Asked s) (hb : Base P n s)
    (hr : s.shared.release P k = .ok (is, sh)) (hsh : u.shared = sh) (hop : Onward s u) :
    Asked u := by
  obtain ⟨_, _, _, hpops, _⟩ := release_keeps (n := n) hb.coherent hr
  intro j hj
  rw [hsh] at hj
  refine (hop j).1.trans (h j ?_)
  by_cases hm : j ∈ is
  · exact (congrArg Waiter.cancelled (hpops.completed j hm)).symm.trans hj
  · exact (congrArg Waiter.cancelled (hpops.others j hm)).symm.trans hj

theorem onward_cancelWaiter (s : Sys ρ) (i : OpId) (onLoop : Bool) :
    Onward s (s.cancelWaiter i onLoop) := onward_of_op (cancelWaiter_op s i onLoop)

theorem asked_cancelWaiter (h : Asked s) (hr : (s.op i).stopRequested = true) (onLoop : Bool) :
    Asked (s.cancelWaiter i onLoop) := by
  cases hc : s.shared.cancel i with
  | none =>
    have heq : s.cancelWaiter i onLoop = s := by simp only [Sys.cancelWaiter, hc]
    rw [heq]
    exact h
  | some sh =>
    have hsh : (s.cancelWaiter i onLoop).shared = sh := by simp only [Sys.cancelWaiter, hc]
    exact asked_cancel h hc hr hsh (onward_cancelWaiter s i onLoop)

/-- The steps of a call. -/
theorem runOp_stops (hb : Base P n s) (h : Asked s) (hs : runOp P s i = some t) :
    Onward s t ∧ Asked t := by
  have hrefl : Onward s s := onward_of_op rfl
  unfold runOp at hs
  cases hpc : (s.op i).pc with
  | ready =>
    have hd : ∀ r, (s.op i).pc ≠ .done r := fun r => by rw [hpc]; exact nofun
    have hp : (s.op i).pc.pre = true := by rw [hpc]; rfl
    simp only [hpc, Option.some.injEq] at hs
    have hk := (takeReady_keeps (P := P) hb.coherent hb.sound hp nobody).2
    split at hs <;> rename_i hr
    · rw [if_pos hr] at hk
      subst hs
      have ho : Onward s (({ s with shared := (s.shared.takeReady P i).2 } : Sys ρ).continueInline
        i) := onward_setOp hrefl rfl hd
      exact ⟨ho, asked_touches h hk.2 rfl rfl ho⟩
    · rw [if_neg hr] at hk
      subst hs
      have ho : Onward s (({ s with shared := (s.shared.takeReady P i).2 } : Sys ρ).goto i
        .suspend) := onward_setOp hrefl rfl hd
      exact ⟨ho, asked_touches h hk.2 rfl rfl ho⟩
  | suspend =>
    have hd : ∀ r, (s.op i).pc ≠ .done r := fun r => by rw [hpc]; exact nofun
    simp only [hpc, Option.some.injEq] at hs
    split at hs <;> rename_i hr <;> subst hs
    · have ho : Onward s (({ s with shared := s.shared.refuse i } : Sys ρ).continueInline i) :=
        onward_setOp hrefl rfl hd
      refine ⟨ho, fun j hj => ?_⟩
      rw [(ho j).1]
      by_cases hji : j = i
      · rw [hji]
        exact hr
      · exact h j ((congrArg Waiter.cancelled (set_of_ne s.shared.toWaiters _ hji)).symm.trans hj)
    · have ho := onward_goto (p := .enqueue) hrefl hd
      exact ⟨ho, asked_same h rfl ho⟩
  | enqueue =>
    have hd : ∀ r, (s.op i).pc ≠ .done r := fun r => by rw [hpc]; exact nofun
    have hp : (s.op i).pc.pre = true := by rw [hpc]; rfl
    simp only [hpc, Option.some.injEq] at hs
    have hk := (takeOrEnqueue_keeps (P := P) hb.coherent hb.sound hp nobody).2.2
    split at hs <;> rename_i hr
    · rw [if_pos hr] at hk
      subst hs
      have ho : Onward s (({ s with shared := (s.shared.takeOrEnqueue P i).2 } :
        Sys ρ).continueInline i) := onward_setOp hrefl rfl hd
      exact ⟨ho, asked_touches h hk rfl rfl ho⟩
    · rw [if_neg hr] at hk
      subst hs
      have ho : Onward s (({ s with shared := (s.shared.takeOrEnqueue P i).2 } : Sys ρ).goto i
        .register) := onward_setOp hrefl rfl hd
      exact ⟨ho, asked_touches h hk.1 rfl rfl ho⟩
  | register =>
    have hd : ∀ r, (s.op i).pc ≠ .done r := fun r => by rw [hpc]; exact nofun
    simp only [hpc, Option.some.injEq] at hs
    split at hs
    · subst hs
      have ho := onward_goto (p := .recheck) hrefl hd
      exact ⟨ho, asked_same h rfl ho⟩
    · split at hs <;> rename_i hr <;> subst hs
      · have hop := cancelWaiter_op s i (s.op i).onLoop
        have ho : Onward s ((s.cancelWaiter i (s.op i).onLoop).goto i .recheck) :=
          onward_goto (onward_cancelWaiter s i _) (by rw [hop]; exact hd)
        refine ⟨ho, fun j hj => ?_⟩
        have ha := asked_cancelWaiter h hr (s.op i).onLoop j hj
        rw [hop] at ha
        rw [(ho j).1]
        exact ha
      · have ho := onward_setOp (o := { s.op i with registered := true, pc := .recheck }) hrefl rfl
          hd
        exact ⟨ho, asked_same h rfl ho⟩
  | recheck =>
    have hd : ∀ r, (s.op i).pc ≠ .done r := fun r => by rw [hpc]; exact nofun
    simp only [hpc, Option.some.injEq] at hs
    split at hs <;> subst hs
    · have ho : Onward s (s.continueInline i) := onward_setOp hrefl rfl hd
      exact ⟨ho, asked_same h rfl ho⟩
    · have ho := onward_goto (p := .suspended) hrefl hd
      exact ⟨ho, asked_same h rfl ho⟩
  | resumed =>
    have hd : ∀ r, (s.op i).pc ≠ .done r := fun r => by rw [hpc]; exact nofun
    simp only [hpc, Option.some.injEq] at hs
    subst hs
    have ho := onward_setOp (o := { s.op i with
      registered := false
      pc := .done (if (s.shared.waiter i).cancelled then .cancelled else .acquired) }) hrefl rfl hd
    exact ⟨ho, asked_same h rfl ho⟩
  | idle | suspended | done _ => simp [hpc] at hs

theorem tryTake_stops (hb : Base P n s) (h : Asked s) (hs : step P s (.tryTake i) = some t) :
    Onward s t ∧ Asked t := by
  simp only [step] at hs
  split at hs
  · rename_i hpc
    have hd : ∀ r, (s.op i).pc ≠ .done r := fun r => by rw [hpc]; simp
    have hp : (s.op i).pc.pre = true := by rw [hpc]; rfl
    have hk := (tryTake_keeps (P := P) hb.coherent hb.sound hp nobody).2.2
    cases hs
    have ho : Onward s (({ s with shared := (s.shared.tryTake P i).2 } : Sys ρ).goto i
        (.done (if (s.shared.tryTake P i).1 then .acquired else .unavailable))) :=
      onward_setOp (onward_of_op rfl) rfl hd
    exact ⟨ho, asked_touches h hk rfl rfl ho⟩
  · cases hs

theorem call_stops {onLoop stopPossible : Bool} (h : Asked s)
    (hs : step P s (.call i onLoop stopPossible) = some t) : Onward s t ∧ Asked t := by
  simp only [step] at hs
  split at hs
  · rename_i hpc
    have hd : ∀ r, (s.op i).pc ≠ .done r := fun r => by rw [hpc]; simp
    cases hs
    have ho := onward_setOp (o := { s.op i with
      pc := .ready, onLoop := onLoop, stopPossible := stopPossible }) (onward_of_op rfl) rfl hd
    exact ⟨ho, asked_same h rfl ho⟩
  · cases hs

theorem requestStop_asked (h : Asked s) (hs : step P s (.requestStop i) = some t) : Asked t := by
  simp only [step] at hs
  split at hs <;> cases hs
  intro j hj
  by_cases hji : j = i
  · rw [hji, setOp_self]
  · rw [setOp_of_ne _ _ hji]
    exact h j hj

theorem continueWith_stops (h : Asked s) (r : Resumptions × Option OpId) :
    Onward s (s.continueWith r) ∧ Asked (s.continueWith r) := by
  obtain ⟨hsh, hop⟩ := continueWith_op s r
  have ho : Onward s (s.continueWith r) := by
    intro j
    rcases hop j with he | ⟨hpc, he⟩
    · rw [he]
      exact ⟨rfl, fun _ h => h⟩
    · rw [he]
      exact ⟨rfl, fun r hr => by rw [hpc] at hr; cases hr⟩
  exact ⟨ho, asked_same h hsh ho⟩

/-- The step lemma. -/
theorem step_stops {l : Label κ} (hb : Base P n s) (h : Asked s) (hs : step P s l = some t) :
    ((∀ i, l ≠ .requestStop i) → Onward s t) ∧ Asked t := by
  cases l with
  | call i onLoop stopPossible =>
    obtain ⟨ho, ha⟩ := call_stops h hs
    exact ⟨fun _ => ho, ha⟩
  | run i =>
    obtain ⟨ho, ha⟩ := runOp_stops hb h hs
    exact ⟨fun _ => ho, ha⟩
  | tryTake i =>
    obtain ⟨ho, ha⟩ := tryTake_stops hb h hs
    exact ⟨fun _ => ho, ha⟩
  | release k onLoop =>
    simp only [step] at hs
    split at hs
    · rename_i is sh hrel
      cases hs
      have ho : Onward s { s with
          shared := sh, toResumptions := s.toResumptions.start onLoop is } := onward_of_op rfl
      exact ⟨fun _ => ho, asked_release h hb hrel rfl ho⟩
    · cases hs
      exact ⟨fun _ => onward_of_op rfl, h⟩
  | requestStop i => exact ⟨fun hl => absurd rfl (hl i), requestStop_asked h hs⟩
  | stopCallback i onLoop =>
    simp only [step, Bool.and_eq_true] at hs
    split at hs
    · rename_i hc
      cases hs
      have hop := cancelWaiter_op s i onLoop
      have ho : Onward s ((s.cancelWaiter i onLoop).setOp i
          { s.op i with registered := false }) := by
        intro j
        by_cases hji : j = i
        · subst hji
          rw [setOp_self]
          exact ⟨rfl, fun _ h => h⟩
        · rw [setOp_of_ne _ _ hji, hop]
          exact ⟨rfl, fun _ h => h⟩
      refine ⟨fun _ => ho, fun j hj => ?_⟩
      have ha := asked_cancelWaiter h hc.1 onLoop j hj
      rw [hop] at ha
      rw [(ho j).1]
      exact ha
    · cases hs
  | resume c | runPosted =>
    obtain ⟨r, _, rfl⟩ := Option.map_eq_some_iff.mp hs
    obtain ⟨ho, ha⟩ := continueWith_stops h r
    exact ⟨fun _ => ho, ha⟩
  | shutdown =>
    cases hs
    exact ⟨fun _ => onward_of_op rfl, h⟩

/-! ## The local versions -/

/-- Stop has been requested of every call whose cancellation is posted. -/
structure Local.Asked (s : Sys ρ) : Prop where
  asked : Sync.Asked s
  posted : ∀ j ∈ s.posted, (s.op j).stopRequested = true

namespace Local

theorem onward_resumeWaiter (h : Onward s u) (i : OpId) : Onward s (resumeWaiter u i) := by
  unfold resumeWaiter
  split
  · exact onward_resumeCoroutine h i
  · exact h

theorem resumeWaiter_posted (s : Sys ρ) (i : OpId) : (resumeWaiter s i).posted = s.posted := by
  unfold resumeWaiter
  split
  · exact resumeCoroutine_posted s i
  · rfl

theorem asked_onward (h : Local.Asked s) (ha : Sync.Asked t) (ho : Onward s t)
    (hp : ∀ j ∈ t.posted, j ∈ s.posted) : Local.Asked t :=
  ⟨ha, fun j hj => (ho j).1.trans (h.posted j (hp j hj))⟩

theorem resumeAll_stops (is : List OpId) (h : Onward s u) (ha : Local.Asked u) :
    Onward s (is.foldl resumeWaiter u) ∧ Local.Asked (is.foldl resumeWaiter u) := by
  induction is generalizing u with
  | nil => exact ⟨h, ha⟩
  | cons i is ih =>
    have hu := onward_resumeWaiter (onward_of_op (s := u) rfl) i
    refine ih (onward_resumeWaiter h i) ?_
    refine asked_onward ha (asked_same ha.asked (resumeWaiter_shared u i) hu) hu fun j hj => ?_
    rwa [resumeWaiter_posted] at hj

theorem serve_stops {k : κ} {is : List OpId} (hb : Sync.Base P n s) (h : Local.Asked s)
    (hs : serve P s k = .ok (is, t)) : Onward s t ∧ Local.Asked t := by
  unfold serve at hs
  split at hs
  · cases hs
  · rename_i js sh hrel
    cases hs
    have ho : Onward s { s with shared := sh } := onward_of_op rfl
    exact resumeAll_stops is ho ⟨asked_release h.asked hb hrel rfl ho, h.posted⟩

theorem runPosted_stops (h : Local.Asked s) (hs : runPosted s = some t) :
    Onward s t ∧ Local.Asked t := by
  unfold runPosted at hs
  split at hs
  · cases hs
  · rename_i i is hp
    have hmem : ∀ j ∈ is, j ∈ s.posted := fun j hj => hp ▸ List.mem_cons_of_mem _ hj
    dsimp only at hs
    split at hs <;> cases hs
    · exact ⟨onward_of_op rfl, h.asked, fun j hj => h.posted j (hmem j hj)⟩
    · rename_i sh hc
      have ho : Onward s { s with posted := is, shared := sh } := onward_of_op rfl
      have hr := h.posted i (hp ▸ List.mem_cons_self)
      have ha : Local.Asked { s with posted := is, shared := sh } :=
        ⟨asked_cancel h.asked hc hr rfl ho, fun j hj => h.posted j (hmem j hj)⟩
      exact resumeAll_stops [i] ho ha

theorem postCancel_stops (h : Local.Asked s) (hr : (s.op i).stopRequested = true) :
    Onward s (postCancel s i) ∧ Local.Asked (postCancel s i) := by
  obtain ⟨hsh, hop⟩ := postCancel_keeps s i
  have ho := onward_of_op hop
  refine ⟨ho, asked_same h.asked hsh ho, fun j hj => ?_⟩
  rw [hop]
  rcases postCancel_posted s i hj with hj | hj
  · exact h.posted j hj
  · rw [hj]
    exact hr

theorem enqueue_stops (hb : Sync.Base P n s) (h : Local.Asked s) (hpc : (s.op i).pc = .enqueue)
    (hs : runOp P s i = some t) : Onward s t ∧ Local.Asked t := by
  have hd : ∀ r, (s.op i).pc ≠ .done r := fun r => by rw [hpc]; exact nofun
  have hp : (s.op i).pc.pre = true := by rw [hpc]; rfl
  have hk := (takeOrEnqueue_keeps (P := P) hb.coherent hb.sound hp nobody).2.2
  have hrefl : Onward s { s with shared := (s.shared.takeOrEnqueue P i).2 } := onward_of_op rfl
  simp only [runOp, hpc] at hs
  split at hs <;> rename_i hr
  · cases hs
    rw [if_pos hr] at hk
    have ho : Onward s (({ s with shared := (s.shared.takeOrEnqueue P i).2 } :
      Sys ρ).continueInline i) := onward_setOp hrefl rfl hd
    exact ⟨ho, asked_touches h.asked hk rfl rfl ho, fun j hj => (ho j).1.trans (h.posted j hj)⟩
  · rw [if_neg hr] at hk
    have hq : Local.Asked { s with shared := (s.shared.takeOrEnqueue P i).2 } :=
      ⟨asked_touches h.asked hk.1 rfl rfl hrefl, h.posted⟩
    -- the registration of the stop callback, and then the end of `await_suspend`
    have hreg : Onward s (register { s with shared := (s.shared.takeOrEnqueue P i).2 } i) ∧
        Local.Asked (register { s with shared := (s.shared.takeOrEnqueue P i).2 } i) := by
      unfold register
      dsimp only
      split
      · exact ⟨hrefl, hq⟩
      · split
        · rename_i hr
          obtain ⟨ho, ha⟩ := postCancel_stops hq hr
          exact ⟨fun j => ⟨(ho j).1, (ho j).2⟩, ha⟩
        · have ho := onward_setOp (o := { s.op i with registered := true }) hrefl rfl hd
          have ho' := onward_setOp (o := { s.op i with registered := true })
            (onward_of_op (s := { s with shared := (s.shared.takeOrEnqueue P i).2 }) rfl) rfl hd
          exact ⟨ho, asked_same hq.asked rfl ho', fun j hj => (ho' j).1.trans (hq.posted j hj)⟩
    obtain ⟨ho, ha⟩ := hreg
    have hd' : ∀ r, ((register { s with
        shared := (s.shared.takeOrEnqueue P i).2 } i).op i).pc ≠ .done r := by
      obtain ⟨_, _, o, hop, ho⟩ :=
        register_keeps { s with shared := (s.shared.takeOrEnqueue P i).2 } i
      intro r
      rw [hop, Function.update_self, ho]
      exact hd r
    split at hs <;> cases hs
    · have ho' := onward_setOp (o := { (register { s with
        shared := (s.shared.takeOrEnqueue P i).2 } i).op i with pc := .resumed }) ho rfl hd'
      have ho'' := onward_setOp (o := { (register { s with
        shared := (s.shared.takeOrEnqueue P i).2 } i).op i with pc := .resumed })
        (onward_of_op (s := register { s with shared := (s.shared.takeOrEnqueue P i).2 } i) rfl)
        rfl hd'
      exact ⟨ho', asked_same ha.asked rfl ho'', fun j hj => (ho'' j).1.trans (ha.posted j hj)⟩
    · have ho' := onward_goto (p := .suspended) ho hd'
      have ho'' := onward_goto (p := .suspended)
        (onward_of_op (s := register { s with shared := (s.shared.takeOrEnqueue P i).2 } i) rfl) hd'
      exact ⟨ho', asked_same ha.asked rfl ho'', fun j hj => (ho'' j).1.trans (ha.posted j hj)⟩

/-- The step lemma. -/
theorem step_stops {l : Label κ} (hb : Base P n s) (h : Local.Asked s)
    (hs : step P s l = some t) : ((∀ i, l ≠ .requestStop i) → Onward s t) ∧ Local.Asked t := by
  cases l with
  | call i onLoop stopPossible =>
    have hs' : Sync.step P s (.call i onLoop stopPossible) = some t := hs
    obtain ⟨ho, ha⟩ := call_stops h.asked hs'
    refine ⟨fun _ => ho, ha, fun j hj => (ho j).1.trans (h.posted j ?_)⟩
    simp only [Sync.step] at hs'
    split at hs' <;> cases hs'
    exact hj
  | run i =>
    have hs' : runOp P s i = some t := hs
    cases hpc : (s.op i).pc with
    | enqueue =>
      obtain ⟨ho, ha⟩ := enqueue_stops hb.toBase h hpc hs'
      exact ⟨fun _ => ho, ha⟩
    | register | recheck => simp [runOp, hpc] at hs'
    | idle | ready | suspend | suspended | resumed | done _ =>
      have hs'' : Sync.runOp P s i = some t := by simpa only [runOp, hpc] using hs'
      obtain ⟨ho, ha⟩ := runOp_stops hb.toBase h.asked hs''
      refine ⟨fun _ => ho, ha, fun j hj => (ho j).1.trans (h.posted j ?_)⟩
      simp only [Sync.runOp, hpc, Option.some.injEq, reduceCtorEq] at hs''
      try split at hs''
      all_goals subst hs''
      all_goals exact hj
  | tryTake i =>
    have hs' : Sync.step P s (.tryTake i) = some t := hs
    obtain ⟨ho, ha⟩ := tryTake_stops hb.toBase h.asked hs'
    refine ⟨fun _ => ho, ha, fun j hj => (ho j).1.trans (h.posted j ?_)⟩
    simp only [Sync.step] at hs'
    split at hs' <;> cases hs'
    exact hj
  | release k onLoop =>
    simp only [step] at hs
    split at hs
    · cases hs
      exact ⟨fun _ => onward_of_op rfl, h⟩
    · rename_i r hr
      cases hs
      obtain ⟨ho, ha⟩ := serve_stops hb.toBase h hr
      exact ⟨fun _ => ho, ha⟩
  | requestStop i =>
    have hs' : Sync.step P s (.requestStop i) = some t := hs
    have ha := requestStop_asked h.asked hs'
    refine ⟨fun hl => absurd rfl (hl i), ha, fun j hj => ?_⟩
    simp only [Sync.step] at hs'
    split at hs' <;> cases hs'
    by_cases hji : j = i
    · rw [hji, setOp_self]
    · rw [setOp_of_ne _ _ hji]
      exact h.posted j hj
  | stopCallback i onLoop =>
    simp only [step, Bool.and_eq_true] at hs
    split at hs
    · rename_i hc
      cases hs
      obtain ⟨_, hop⟩ := postCancel_keeps s i
      obtain ⟨_, ha⟩ := postCancel_stops h hc.1
      have ho : Onward (postCancel s i) ((postCancel s i).setOp i
          { s.op i with registered := false }) := by
        intro j
        by_cases hji : j = i
        · subst hji
          rw [setOp_self, hop]
          exact ⟨rfl, fun _ h => h⟩
        · rw [setOp_of_ne _ _ hji]
          exact ⟨rfl, fun _ h => h⟩
      refine ⟨fun _ j => ?_, asked_same ha.asked rfl ho,
        fun j hj => (ho j).1.trans (ha.posted j hj)⟩
      have hj := ho j
      rw [hop] at hj
      exact hj
    · cases hs
  | resume c => cases hs
  | runPosted =>
    obtain ⟨ho, ha⟩ := runPosted_stops h hs
    exact ⟨fun _ => ho, ha⟩
  | shutdown =>
    cases hs
    exact ⟨fun _ => onward_of_op rfl, h.asked, h.posted⟩

end Local

end LuvCoro.Sync
