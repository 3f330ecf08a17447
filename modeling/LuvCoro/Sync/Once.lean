import LuvCoro.Sync.Acquire

/-! # Who continues a coroutine that waits for a permit

Its call goes on by itself, or whoever completes the waiter resumes it. Both can
happen when the waiter is completed before the last look of `await_suspend`; in
runs without that every coroutine is continued once. -/
namespace LuvCoro.Sync

open Transition PermitQueue Resumptions

variable {ρ κ : Type}

namespace Sys

/-- How often the coroutine of a call went on. -/
def continued (s : Sys ρ) (i : OpId) : Nat := s.continuedInline i + s.resumed i

/-- Its resumptions to come: those under way, and the one an active waiter has. -/
def load (s : Sys ρ) (i : OpId) : Nat := s.owed.count i + s.shared.toWaiters.active.count i

def continuations (s : Sys ρ) : Continuations where
  inline := s.continuedInline
  resumed := s.resumed
  suspended i := (s.op i).pc = .suspended
  returned i := (s.op i).pc = .resumed
  completed i := (s.shared.waiter i).completed = true
  owed := s.owed

end Sys

/-- Nobody is completed between the section of its `await_suspend` and the last
look there, and no post of a resumption is refused. -/
def Clean (P : Primitive ρ κ) (s : Sys ρ) : Label κ → Prop
  | .release k _ =>
    ∀ i ∈ s.shared.toWaiters.active.take (P.units k s.shared.toWaiters),
      (s.op i).pc = .suspended
  | .run i =>
    ¬ ((s.op i).pc = .register ∧ (s.op i).stopPossible = true ∧ (s.op i).stopRequested = true)
  | .stopCallback i _ => i ∈ s.shared.toWaiters.active → (s.op i).pc = .suspended
  | .resume c => s.refuses s.continuation c = false
  | _ => True

/-- What is to come for a call, at each of its points. -/
def At (s : Sys ρ) (i : OpId) : Prop :=
  match (s.op i).pc with
  | .idle | .ready | .suspend | .enqueue => s.continued i = 0 ∧ s.load i = 0
  | .register | .recheck =>
    s.continued i = 0 ∧ s.load i = 1 ∧ s.continuation i = true ∧ i ∉ s.owed
  | .suspended =>
    s.continued i = 0 ∧ s.load i = 1 ∧ s.continuation i = true ∧
      (i ∈ s.owed → (s.shared.waiter i).completed = true)
  | .resumed => s.continued i = 1 ∧ s.load i = 0
  | .done _ => s.continued i ≤ 1 ∧ s.load i = 0

section
variable {P : Primitive ρ κ} {n : Int} {s t : Sys ρ} {i j : OpId}

/-- A call is left alone. -/
theorem at_congr (h : At s j) (hpc : (t.op j).pc = (s.op j).pc)
    (hc : t.continued j = s.continued j) (ho : t.owed.count j = s.owed.count j)
    (ha : t.shared.toWaiters.active.count j = s.shared.toWaiters.active.count j)
    (hw : t.shared.waiter j = s.shared.waiter j) : At t j := by
  have hl : t.load j = s.load j := by rw [Sys.load, Sys.load, ho, ha]
  have hm : j ∈ t.owed ↔ j ∈ s.owed := by
    rw [← List.count_pos_iff, ← List.count_pos_iff, ho]
  unfold At Sys.continuation at *
  rw [hpc, hc, hl, hm, hw]
  exact h

theorem count_others {l : List OpId} (hl : l ⊆ [i]) (hj : j ≠ i) : l.count j = 0 := by
  refine List.count_eq_zero.mpr fun hm => ?_
  exact hj (List.mem_singleton.mp (hl hm))

/-- A section of the call `i` leaves the others alone. -/
theorem at_others {w : Waiter} {tail : List OpId} (h : At s j) (hj : j ≠ i)
    (ht : Touches s.shared t.shared i w tail) (htail : tail ⊆ [i])
    (hop : (t.op j).pc = (s.op j).pc) (hc : t.continued j = s.continued j)
    (ho : t.owed = s.owed) : At t j := by
  refine at_congr h hop hc (by rw [ho]) ?_ (ht.others j hj)
  rw [ht.active, List.count_append, count_others htail hj, Nat.add_zero]

theorem load_pre (ha : At s i) (hp : (s.op i).pc.pre = true) :
    s.continued i = 0 ∧ s.owed.count i = 0 ∧ s.shared.toWaiters.active.count i = 0 := by
  have hl : s.continued i = 0 ∧ s.load i = 0 := by
    unfold At at ha
    cases hpc : (s.op i).pc <;> simp_all [Pc.pre]
  unfold Sys.load at hl
  omega

/-- Whoever is to be resumed is suspended. -/
theorem suspended_of_owed (ha : At s i) (ho : i ∈ s.owed) : (s.op i).pc = .suspended := by
  have hl : 0 < s.load i := Nat.add_pos_left (List.count_pos_iff.mpr ho) _
  unfold At at ha
  cases hpc : (s.op i).pc <;> simp_all

/-- Where a call continues itself. -/
theorem continueInline_continued (s : Sys ρ) (i : OpId) :
    (s.continueInline i).continued i = s.continued i + 1 := by
  simp only [Sys.continueInline, Sys.continued, Sys.goto, Sys.setOp, Function.update_self]
  omega

theorem continueInline_others (s : Sys ρ) (hj : j ≠ i) :
    (s.continueInline i).continued j = s.continued j := by
  simp only [Sys.continueInline, Sys.continued, Sys.goto, Sys.setOp, Function.update_of_ne hj]

theorem continueInline_pc (s : Sys ρ) (i : OpId) : ((s.continueInline i).op i).pc = .resumed := by
  simp [Sys.continueInline, Sys.goto, Sys.setOp]

theorem continueInline_op (s : Sys ρ) (hj : j ≠ i) : (s.continueInline i).op j = s.op j := by
  simp [Sys.continueInline, Sys.goto, Sys.setOp, hj]

/-- A call that has not queued goes on by itself after its section. -/
theorem at_continueInline {sh : Shared ρ} {w : Waiter} (hat : ∀ j, At s j)
    (hp : (s.op i).pc.pre = true) (ht : Touches s.shared sh i w []) (j : OpId) :
    At (({ s with shared := sh } : Sys ρ).continueInline i) j := by
  by_cases hj : j = i
  · subst hj
    obtain ⟨hc, ho, ha⟩ := load_pre (hat j) hp
    unfold At
    rw [continueInline_pc]
    refine ⟨?_, ?_⟩
    · rw [continueInline_continued]
      exact congrArg (· + 1) hc
    · show s.owed.count j + sh.toWaiters.active.count j = 0
      rw [ht.active, List.append_nil, ho, ha]
  · exact at_others (t := ({ s with shared := sh } : Sys ρ).continueInline i) (hat j) hj ht
      (List.nil_subset _) (congrArg Op.pc (continueInline_op _ hj)) (continueInline_others _ hj) rfl

/-- A call goes on to another point, with the section it had there. -/
theorem at_goto {sh : Shared ρ} {w : Waiter} {tail : List OpId} {o : Op} (hat : ∀ j, At s j)
    (ht : Touches s.shared sh i w tail) (htail : tail ⊆ [i])
    (hi : At (({ s with shared := sh } : Sys ρ).setOp i o) i) (j : OpId) :
    At (({ s with shared := sh } : Sys ρ).setOp i o) j := by
  by_cases hj : j = i
  · rw [hj]
    exact hi
  · exact at_others (t := ({ s with shared := sh } : Sys ρ).setOp i o) (hat j) hj ht htail
      (congrArg Op.pc (setOp_of_ne _ o hj)) rfl rfl

theorem touches_refl (sh : Shared ρ) (i : OpId) : Touches sh sh i (sh.waiter i) [] :=
  ⟨rfl, fun _ _ => rfl, (List.append_nil _).symm, List.Subset.refl _⟩

/-- A call goes on to another point without a section. -/
theorem at_setOp {o : Op} (hat : ∀ j, At s j) (hi : At (s.setOp i o) i) (j : OpId) :
    At (s.setOp i o) j :=
  at_goto hat (touches_refl s.shared i) (List.nil_subset _) hi j

theorem at_setOp_pre {o : Op} (hat : ∀ j, At s j)
    (hp : (s.op i).pc.pre = true) (ho : o.pc.pre = true) (j : OpId) : At (s.setOp i o) j := by
  refine at_setOp hat ?_ j
  obtain ⟨hc, hw, ha⟩ := load_pre (hat i) hp
  have hl : (s.setOp i o).load i = 0 := by
    show s.owed.count i + s.shared.toWaiters.active.count i = 0
    omega
  have hc' : (s.setOp i o).continued i = 0 := hc
  unfold At
  rw [setOp_self]
  cases hpc : o.pc <;> simp_all [Pc.pre]

/-- The steps of a call. -/
theorem at_runOp (h : Base P n s) (hat : ∀ j, At s j) (hg : Clean P s (.run i))
    (hs : runOp P s i = some t) (j : OpId) : At t j := by
  unfold runOp at hs
  have hi := hat i
  cases hpc : (s.op i).pc with
  | ready =>
    have hp : (s.op i).pc.pre = true := by rw [hpc]; rfl
    simp only [hpc, Option.some.injEq] at hs
    have hk := (takeReady_keeps (P := P) h.coherent h.sound hp nobody).2
    cases hr : (s.shared.takeReady P i).1 with
    | true =>
      rw [hr, if_pos rfl] at hs hk
      subst hs
      exact at_continueInline hat hp hk.2 j
    | false =>
      rw [hr, if_neg Bool.false_ne_true] at hs hk
      subst hs
      refine at_goto hat hk.2 (List.nil_subset _) ?_ j
      obtain ⟨hc, ho, ha⟩ := load_pre hi hp
      have hl : s.owed.count i + (s.shared.takeReady P i).2.toWaiters.active.count i = 0 := by
        rw [hk.2.active, List.append_nil, ho, ha]
      unfold At
      rw [setOp_self]
      exact ⟨hc, hl⟩
  | suspend =>
    have hp : (s.op i).pc.pre = true := by rw [hpc]; rfl
    simp only [hpc, Option.some.injEq] at hs
    split at hs
    · subst hs
      have hk := (refuse_keeps (P := P) (n := n) h.coherent hp nobody).2.2
      exact at_continueInline hat hp hk j
    · subst hs
      exact at_setOp_pre hat hp rfl j
  | enqueue =>
    have hp : (s.op i).pc.pre = true := by rw [hpc]; rfl
    simp only [hpc, Option.some.injEq] at hs
    have hk := (takeOrEnqueue_keeps (P := P) h.coherent h.sound hp nobody).2.2
    cases hr : (s.shared.takeOrEnqueue P i).1 with
    | true =>
      rw [hr, if_pos rfl] at hs hk
      subst hs
      exact at_continueInline hat hp hk j
    | false =>
      rw [hr, if_neg Bool.false_ne_true] at hs hk
      subst hs
      refine at_goto hat hk.1 (List.Subset.refl _) ?_ j
      obtain ⟨hc, ho, ha⟩ := load_pre hi hp
      have hl : s.owed.count i + (s.shared.takeOrEnqueue P i).2.toWaiters.active.count i = 1 := by
        rw [hk.1.active, List.count_append, List.count_singleton_self, ho, ha]
      unfold At
      rw [setOp_self]
      refine ⟨hc, hl, ?_, List.count_eq_zero.mp ho⟩
      exact congrArg Waiter.continuation hk.1.record
  | register =>
    simp only [hpc, Option.some.injEq] at hs
    have hi' : s.continued i = 0 ∧ s.load i = 1 ∧ s.continuation i = true ∧ i ∉ s.owed := by
      unfold At at hi
      rwa [hpc] at hi
    have hnext : ∀ o : Op, o.pc = .recheck → ∀ k, At (s.setOp i o) k := by
      intro o ho k
      refine at_setOp hat ?_ k
      unfold At
      rw [setOp_self, ho]
      exact hi'
    split at hs
    · subst hs
      exact hnext _ rfl j
    · rename_i hposs
      split at hs
      · rename_i hreq
        exact absurd ⟨hpc, by simpa using hposs, hreq⟩ hg
      · subst hs
        exact hnext _ rfl j
  | recheck =>
    simp only [hpc, Option.some.injEq] at hs
    have hi' : s.continued i = 0 ∧ s.load i = 1 ∧ s.continuation i = true ∧ i ∉ s.owed := by
      unfold At at hi
      rwa [hpc] at hi
    obtain ⟨hc, hl, hcont, hno⟩ := hi'
    -- it is still in the queue, so it is not completed
    have hact : i ∈ s.shared.toWaiters.active := by
      have h0 : s.owed.count i = 0 := List.count_eq_zero.mpr hno
      unfold Sys.load at hl
      exact List.count_pos_iff.mp (by omega)
    have hcompl := h.coherent.wellFormed.pending i hact
    rw [hcompl, if_neg Bool.false_ne_true] at hs
    subst hs
    refine at_setOp hat ?_ j
    unfold At
    rw [setOp_self]
    exact ⟨hc, hl, hcont, fun hm => absurd hm hno⟩
  | resumed =>
    simp only [hpc, Option.some.injEq] at hs
    subst hs
    have hi' : s.continued i = 1 ∧ s.load i = 0 := by
      unfold At at hi
      rwa [hpc] at hi
    refine at_setOp hat ?_ j
    unfold At
    rw [setOp_self]
    exact ⟨Nat.le_of_eq hi'.1, hi'.2⟩
  | idle | suspended | done _ => simp [hpc] at hs

/-- `unlock` and `release` hand their waiters from the queue to the resumptions. -/
theorem at_release {k : κ} {onLoop : Bool} (h : Base P n s) (hat : ∀ j, At s j)
    (hg : Clean P s (.release k onLoop)) (hs : step P s (.release k onLoop) = some t) (j : OpId) :
    At t j := by
  simp only [step] at hs
  split at hs
  · rename_i is sh hrel
    cases hs
    obtain ⟨_, _, htake, hpops, _⟩ := release_keeps (n := n) h.coherent hrel
    have howed := owed_start s.toResumptions onLoop is
    by_cases hj : j ∈ is
    · have hpc : (s.op j).pc = .suspended := hg j (htake ▸ hj)
      have hload : (s.toResumptions.start onLoop is).owed.count j +
          sh.toWaiters.active.count j = s.load j := by
        unfold Sys.load
        rw [howed.count_eq, hpops.active, List.count_append, List.count_append]
        omega
      have hi := hat j
      unfold At at hi ⊢
      rw [hpc] at hi
      simp only [hpc]
      refine ⟨hi.1, hload.trans hi.2.1, ?_, fun _ => ?_⟩
      · exact (congrArg Waiter.continuation (hpops.completed j hj)).trans hi.2.2.1
      · exact congrArg Waiter.completed (hpops.completed j hj)
    · have h0 : is.count j = 0 := List.count_eq_zero.mpr hj
      refine at_congr (hat j) rfl rfl ?_ ?_ (hpops.others j hj)
      · show (s.toResumptions.start onLoop is).owed.count j = s.owed.count j
        rw [howed.count_eq, List.count_append, h0, Nat.zero_add]
      · show sh.toWaiters.active.count j = s.shared.toWaiters.active.count j
        rw [hpops.active, List.count_append, h0, Nat.zero_add]
  · cases hs
    exact hat j

/-- A stop callback hands its waiter from the queue to the resumptions. -/
theorem at_cancelWaiter {onLoop : Bool} (h : Base P n s) (hat : ∀ j, At s j)
    (he : i ∈ s.shared.history.enqueued)
    (hg : i ∈ s.shared.toWaiters.active → (s.op i).pc = .suspended) (j : OpId) :
    At (s.cancelWaiter i onLoop) j := by
  cases hc : s.shared.cancel i with
  | none =>
    have heq : s.cancelWaiter i onLoop = s := by simp only [Sys.cancelWaiter, hc]
    rw [heq]
    exact hat j
  | some sh =>
    have hpre : ¬ (s.op i).pc.pre = true := fun hp => (h.coherent.fresh i hp).2.1 he
    obtain ⟨_, _, hact, hrec, hoth, hact', _⟩ := cancel_keeps (P := P) (n := n) h.coherent hc hpre he
    have hpc := hg hact
    have hi := hat i
    unfold At at hi
    rw [hpc] at hi
    obtain ⟨hcont, hload, hconti, _⟩ := hi
    have hk : (sh.waiter i).continuation = true := by
      rw [hrec]
      exact hconti
    have heq : s.cancelWaiter i onLoop =
        { s with shared := sh, toResumptions := s.toResumptions.start onLoop [i] } := by
      simp only [Sys.cancelWaiter, hc, hk, if_true]
    have howed := owed_start s.toResumptions onLoop [i]
    rw [heq]
    by_cases hj : j = i
    · subst hj
      have hgone : sh.toWaiters.active.count j = 0 := by
        rw [hact']
        refine List.count_eq_zero.mpr fun hm => ?_
        simpa using (List.mem_filter.mp hm).2
      have hone : s.shared.toWaiters.active.count j = 1 :=
        List.count_eq_one_of_mem (active_nodup h.coherent.wellFormed) hact
      unfold At
      simp only [hpc]
      refine ⟨hcont, ?_, hk, fun _ => ?_⟩
      · show (s.toResumptions.start onLoop [j]).owed.count j + sh.toWaiters.active.count j = 1
        unfold Sys.load at hload
        rw [howed.count_eq, List.count_append, List.count_singleton_self, hgone]
        omega
      · exact congrArg Waiter.completed hrec
    · have h0 : [i].count j = 0 := count_others (List.Subset.refl _) hj
      refine at_congr (hat j) rfl rfl ?_ ?_ (hoth j hj)
      · show (s.toResumptions.start onLoop [i]).owed.count j = s.owed.count j
        rw [howed.count_eq, List.count_append, h0, Nat.zero_add]
      · show sh.toWaiters.active.count j = s.shared.toWaiters.active.count j
        rw [hact']
        exact List.count_filter (by simpa using hj)

/-- A resumption meets a coroutine that is suspended. -/
theorem at_continueWith {r : Resumptions} {o : Option OpId} (hat : ∀ j, At s j)
    (ho : Outcome s.toResumptions s.continuation false r o) (j : OpId) :
    At (s.continueWith (r, o)) j := by
  cases ho with
  | resumed i hc hp =>
    have hmem : i ∈ s.owed := hp.symm.subset List.mem_cons_self
    have hpc := suspended_of_owed (hat i) hmem
    have hcnt : ∀ k, s.owed.count k = r.owed.count k + if k = i then 1 else 0 := by
      intro k
      rw [hp.count_eq]
      by_cases hk : k = i
      · rw [hk, List.count_cons_self, if_pos rfl]
      · rw [List.count_cons_of_ne (Ne.symm hk), if_neg hk, Nat.add_zero]
    have heq : s.continueWith (r, some i) =
        ({ s with
          toResumptions := r
          resumed := Function.update s.resumed i (s.resumed i + 1) } : Sys ρ).goto i
            .resumed := by
      simp only [Sys.continueWith, Sys.resumeCoroutine, hpc]
    rw [heq]
    by_cases hj : j = i
    · subst hj
      have hi := hat j
      unfold At at hi
      rw [hpc] at hi
      obtain ⟨hcont, hload, _, _⟩ := hi
      unfold At
      simp only [Sys.goto, setOp_self]
      refine ⟨?_, ?_⟩
      · unfold Sys.continued at hcont ⊢
        simp only [Sys.setOp, Function.update_self]
        omega
      · have hj := hcnt j
        rw [if_pos rfl] at hj
        unfold Sys.load at hload ⊢
        simp only [Sys.setOp]
        omega
    · refine at_congr (hat j) ?_ ?_ ?_ rfl rfl
      · exact congrArg Op.pc (setOp_of_ne _ _ hj)
      · simp only [Sys.continued, Sys.goto, Sys.setOp, Function.update_of_ne hj]
      · have hj' := hcnt j
        rw [if_neg hj, Nat.add_zero] at hj'
        exact hj'.symm
  | posted hp => exact at_congr (hat j) rfl rfl (hp.count_eq j).symm rfl rfl
  | skipped i hc hp =>
    have hmem : i ∈ s.owed := hp.symm.subset List.mem_cons_self
    have hi := hat i
    unfold At at hi
    rw [suspended_of_owed (hat i) hmem] at hi
    cases hi.2.2.1.symm.trans hc
  | refused hr _ => cases hr

/-- The step lemma. -/
theorem at_step {l : Label κ} (h : Base P n s) (hat : ∀ j, At s j) (hg : Clean P s l)
    (hs : step P s l = some t) (j : OpId) : At t j := by
  cases l with
  | call i onLoop stopPossible =>
    simp only [step] at hs
    split at hs
    · rename_i hpc
      cases hs
      exact at_setOp_pre hat (by rw [hpc]; rfl) rfl j
    · cases hs
  | run i => exact at_runOp h hat hg hs j
  | tryTake i =>
    simp only [step] at hs
    split at hs
    · rename_i hpc
      cases hs
      have hp : (s.op i).pc.pre = true := by rw [hpc]; rfl
      have hk := (tryTake_keeps (P := P) h.coherent h.sound hp nobody).2.2
      refine at_goto hat hk (List.nil_subset _) ?_ j
      obtain ⟨hc, ho, ha⟩ := load_pre (hat i) hp
      have hl : s.owed.count i + (s.shared.tryTake P i).2.toWaiters.active.count i = 0 := by
        rw [hk.active, List.append_nil, ho, ha]
      have hc' : s.continued i ≤ 1 := by omega
      unfold At
      rw [setOp_self]
      exact ⟨hc', hl⟩
    · cases hs
  | release k onLoop => exact at_release h hat hg hs j
  | requestStop i =>
    simp only [step] at hs
    split at hs
    · cases hs
    · cases hs
      refine at_congr (hat j) ?_ rfl rfl rfl rfl
      by_cases hj : j = i
      · rw [hj, setOp_self]
      · rw [setOp_of_ne _ _ hj]
  | stopCallback i onLoop =>
    simp only [step, Bool.and_eq_true] at hs
    split at hs
    · rename_i hc
      cases hs
      have hop := cancelWaiter_op s i onLoop
      have hcw : ∀ k, At (s.cancelWaiter i onLoop) k :=
        at_cancelWaiter h hat (h.enqueued i (.inl hc.2)) hg
      refine at_congr (hcw j) ?_ rfl rfl rfl rfl
      by_cases hj : j = i
      · rw [hj, setOp_self, hop]
      · rw [setOp_of_ne _ _ hj]
    · cases hs
  | resume c =>
    obtain ⟨⟨r, o⟩, hr, rfl⟩ := Option.map_eq_some_iff.mp hs
    have ho := (next_outcome hr).1
    rw [show s.refuses s.continuation c = false from hg] at ho
    exact at_continueWith hat ho j
  | runPosted =>
    obtain ⟨⟨r, o⟩, hr, rfl⟩ := Option.map_eq_some_iff.mp hs
    exact at_continueWith hat (runPosted_outcome hr).1 j
  | shutdown =>
    cases hs
    exact hat j

theorem at_new (r : ρ) (j : OpId) : At (Sys.new r) j := ⟨rfl, rfl⟩

/-- In a run whose steps are all clean every call is where its load says. -/
theorem reachable_at {r : ρ} (hr : 0 ≤ P.permits r)
    (h : ReachableBy (system P r) (Clean P) s) : ∀ j, At s j := by
  refine h.invariant (I := fun s => ∀ j, At s j) ?_ ?_
  · intro s h0
    cases h0
    exact at_new r
  · intro s l t hreach hat hg hs
    exact at_step (reachable_base hr hreach.reachable) hat hg hs

theorem continuedOnce_of_at (h : Base P n s) (hat : ∀ j, At s j) :
    ContinuedOnce s.continuations := by
  refine ⟨fun i => ?_, fun i hpc => ?_, fun i hpc hc => ?_, fun i hpc => ?_⟩
  · have hi := hat i
    unfold At at hi
    show s.continued i ≤ 1
    cases hpc : (s.op i).pc <;> simp only [hpc] at hi <;> omega
  · have hi := hat i
    unfold At at hi
    rw [hpc] at hi
    exact hi.1
  · have hi := hat i
    unfold At at hi
    rw [hpc] at hi
    -- a completed waiter is not an active one of the queue
    have hc' : (s.shared.waiter i).completed = true := hc
    have hna : s.shared.toWaiters.active.count i = 0 := by
      refine List.count_eq_zero.mpr fun hm => ?_
      cases (h.coherent.wellFormed.pending i hm).symm.trans hc'
    have hload := hi.2.1
    unfold Sys.load at hload
    have hpos : 0 < s.owed.count i := by omega
    exact List.count_pos_iff.mp hpos
  · have hi := hat i
    unfold At at hi
    rw [hpc] at hi
    exact hi.1

/-- In a run whose steps are all clean every coroutine is continued once. -/
theorem continuedOnce_clean {r : ρ} (hr : 0 ≤ P.permits r)
    (h : ReachableBy (system P r) (Clean P) s) : ContinuedOnce s.continuations :=
  continuedOnce_of_at (reachable_base hr h.reachable) (reachable_at hr h)

end

end LuvCoro.Sync
