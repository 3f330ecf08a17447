import LuvCoro.Sync.Condition
import LuvCoro.Sync.Stops
import Mathlib.Data.List.Perm.Subperm

/-! # Who has the mutex of a condition variable

Every caller of `wait` has locked the mutex, and only who has locked it unlocks
it: at any time one call has it or none. -/
namespace LuvCoro.Sync

open Transition PermitQueue Resumptions

/-! ## The mutex as its users see it -/

/-- What holds of a mutex in both versions. -/
structure MutexOk (m : Sys Bool) : Prop where
  sound : Sound (m.shared.ledger asyncMutex 1)
  arrived : ∀ i, Arrived m i
  asked : Asked m

/-- A step of the mutex that unlocks it `n` times. -/
structure MutexStep (m m' : Sys Bool) (n : Nat) : Prop where
  ok : MutexOk m'
  grants : m.shared.grants ⊆ m'.shared.grants
  released : m'.shared.history.released = m.shared.history.released + n
  done : ∀ i r, (m.op i).pc = .done r → (m'.op i).pc = .done r

/-- Steps of a mutex ask only those for a stop whom they name. -/
def Unasked (m m' : Sys Bool) (l : Label Unit) : Prop :=
  ∀ i, l ≠ .requestStop i → (m'.op i).stopRequested = (m.op i).stopRequested

theorem requestStop_op {P : Primitive Bool Unit} {m m' : Sys Bool} {i : OpId}
    (hs : step P m (.requestStop i) = some m') (j : OpId) :
    (j ≠ i → m'.op j = m.op j) ∧ (m'.op j).pc = (m.op j).pc := by
  simp only [step] at hs
  split at hs <;> cases hs
  refine ⟨fun hj => setOp_of_ne _ _ hj, ?_⟩
  exact setOp_pc (s := m) (i := i) (o := { m.op i with stopRequested := true }) rfl j

theorem mutexOk_async {m : Sys Bool} (h : Reachable (system asyncMutex false) m) :
    MutexOk m := by
  have hp : 0 ≤ asyncMutex.permits false := by decide
  refine ⟨(reachable_base hp h).sound, (reachable_honest hp h).arrived, ?_⟩
  refine h.invariant ?_ ?_
  · intro s h0
    cases h0
    exact nofun
  · intro s l t hreach hI hs
    exact (step_stops (reachable_base hp hreach) hI hs).2

theorem mutexStep_async {m m' : Sys Bool} {l : Label Unit}
    (h : Reachable (system asyncMutex false) m) (hs : step asyncMutex m l = some m')
    (hl : ∀ k onLoop, l ≠ .release k onLoop) : MutexStep m m' 0 ∧ Unasked m m' l := by
  have hp : 0 ≤ asyncMutex.permits false := by decide
  have hb := reachable_base hp h
  have hst := step_stepped hb hs
  have hok := mutexOk_async (h.next (A := system asyncMutex false) hs)
  have hstops := (step_stops hb (mutexOk_async h).asked hs).1
  have hrel := step_released hl hs
  by_cases hr : ∃ i, l = .requestStop i
  · obtain ⟨i, rfl⟩ := hr
    refine ⟨⟨hok, hst.later.grants, hrel, fun j r hj => ?_⟩, fun j hj => ?_⟩
    · rw [(requestStop_op hs j).2]
      exact hj
    · rw [(requestStop_op hs j).1 fun he => hj (he ▸ rfl)]
  · have ho := hstops fun i he => hr ⟨i, he⟩
    exact ⟨⟨hok, hst.later.grants, hrel, fun j => (ho j).2⟩, fun j _ => (ho j).1⟩

/-- A locked mutex can be unlocked. -/
theorem mutexUnlock_locked (message : String) (q : Waiters) :
    ∃ r, mutexUnlock message true q = .ok r := by
  unfold mutexUnlock
  simp only [Bool.not_true, Bool.false_eq_true, if_false]
  split
  · exact ⟨_, rfl⟩
  · exact ⟨_, rfl⟩

theorem release_locked (message : String) {sh : Shared Bool} (h : sh.resource = true) :
    ∃ is sh', sh.release (mutex message) () = .ok (is, sh') ∧
      sh'.history.released = sh.history.released + 1 := by
  obtain ⟨⟨is, r, q⟩, hr⟩ := mutexUnlock_locked message sh.toWaiters
  rw [← h] at hr
  have hrel : sh.release (mutex message) () = .ok (is,
      { toWaiters := q, resource := r, history := sh.history.handOff 1 is }) := by
    unfold Shared.release
    rw [show (mutex message).release () sh.resource sh.toWaiters = .ok (is, r, q) from hr]
    rfl
  exact ⟨is, _, hrel, rfl⟩

theorem mutexStep_unlock {m m' : Sys Bool} {onLoop : Bool}
    (h : Reachable (system asyncMutex false) m) (hlocked : m.shared.resource = true)
    (hs : step asyncMutex m (.release () onLoop) = some m') :
    MutexStep m m' 1 ∧ Unasked m m' (.release () onLoop) := by
  have hp : 0 ≤ asyncMutex.permits false := by decide
  have hb := reachable_base hp h
  have hst := step_stepped hb hs
  have hnext : Reachable (system asyncMutex false) m' :=
    h.next (l := .release () onLoop) hs
  have hok := mutexOk_async hnext
  have ho := (step_stops hb (mutexOk_async h).asked hs).1 nofun
  obtain ⟨is, sh, hrel, hcount⟩ := release_locked "async_mutex is not locked" hlocked
  have hsh : m'.shared = sh := by
    have hrel' : m.shared.release asyncMutex () = .ok (is, sh) := hrel
    simp only [step, hrel', Option.some.injEq] at hs
    rw [← hs]
  exact ⟨⟨hok, hst.later.grants, hsh ▸ hcount, fun j => (ho j).2⟩, fun j _ => (ho j).1⟩

/-! ## Who has the mutex -/

/-- The call has not unlocked the mutex yet. -/
def WaitPc.early : WaitPc → Bool
  | .enqueue | .register | .unlock => true
  | _ => false

/-- The call is at the end, where it has no more to do. -/
def WaitPc.over : WaitPc → Bool
  | .idle | .done _ => true
  | _ => false

/-- The call has unlocked the mutex, and has not come to its end. -/
def WaitPc.past : WaitPc → Bool
  | .ready | .suspend | .recheck | .suspended | .resumed | .relock => true
  | _ => false

/-- The mutex is locked by the call `i`, and by nobody else. -/
def Holds (w : World) (i : OpId) : Prop :=
  w.mutex.shared.resource = true ∧
    ∀ j, j ∈ w.mutex.shared.grants ∧ j ∉ w.unlocked ↔ j = i

/-- The unlocks are by those who have locked, once each; whoever has called
`wait` and not yet unlocked has locked. -/
structure Own (w : World) : Prop where
  nodup : w.unlocked.Nodup
  granted : w.unlocked ⊆ w.mutex.shared.grants
  count : w.mutex.shared.history.released = w.unlocked.length
  left : ∀ j ∈ w.left, (w.mutex.op j).pc = .done .acquired ∧ (w.wait j).pc.over = true
  unlockedLeft : w.unlocked ⊆ w.left
  early : ∀ i, (w.wait i).pc.early = true →
    (w.wait i).caller ∈ w.left ∧ (w.wait i).caller ∉ w.unlocked
  unique : ∀ i i', (w.wait i).pc.early = true → (w.wait i').pc.early = true →
    (w.wait i).caller = (w.wait i').caller → i = i'
  quiet : ∀ i, (w.wait i).pc ≠ .idle → (w.mutex.op i).stopRequested = false
  /-- Calls of `wait` unlock in the order in which they queue. -/
  order : ∀ i, (w.wait i).pc = .register ∨ (w.wait i).pc = .unlock →
    w.cv.history.enqueued = w.released ++ [i]
  settled : (∀ i, (w.wait i).pc ≠ .register ∧ (w.wait i).pc ≠ .unlock) →
    w.cv.history.enqueued = w.released
  sane : ∀ i, (w.wait i).pc ≠ .threw

section
variable {w v : World} {m : Sys Bool} {i j : OpId}

theorem granted_of_acquired (hok : MutexOk w.mutex) (hi : (w.mutex.op i).pc = .done .acquired) :
    i ∈ w.mutex.shared.grants := by
  have ha := hok.arrived i
  unfold Arrived at ha
  rw [hi] at ha
  exact ha

/-- Whoever has locked and not unlocked is the holder. -/
theorem holds_of_granted (hok : MutexOk w.mutex) (h : Own w) (hi : i ∈ w.mutex.shared.grants)
    (hn : i ∉ w.unlocked) : Holds w i := by
  have hbal : mutexPermits w.mutex.shared.resource + (w.mutex.shared.grants.length : Int) =
      1 + w.mutex.shared.history.released := hok.sound.balance
  rw [h.count] at hbal
  have hle : (i :: w.unlocked).length ≤ w.mutex.shared.grants.length := by
    refine List.Subperm.length_le (List.Nodup.subperm (List.nodup_cons.mpr ⟨hn, h.nodup⟩) ?_)
    exact List.cons_subset.mpr ⟨hi, h.granted⟩
  rw [List.length_cons] at hle
  have hlocked : w.mutex.shared.resource = true := by
    by_contra hf
    rw [Bool.not_eq_true] at hf
    rw [hf] at hbal
    simp only [mutexPermits, Bool.false_eq_true, if_false] at hbal
    omega
  refine ⟨hlocked, fun j => ⟨fun hj => ?_, fun hj => hj ▸ ⟨hi, hn⟩⟩⟩
  by_contra hne
  have hle₂ : (j :: i :: w.unlocked).length ≤ w.mutex.shared.grants.length := by
    refine List.Subperm.length_le (List.Nodup.subperm ?_ ?_)
    · refine List.nodup_cons.mpr ⟨?_, List.nodup_cons.mpr ⟨hn, h.nodup⟩⟩
      intro hm
      rcases List.mem_cons.mp hm with he | hm
      · exact hne he
      · exact hj.2 hm
    · exact List.cons_subset.mpr ⟨hj.1, List.cons_subset.mpr ⟨hi, h.granted⟩⟩
  rw [hlocked] at hbal
  simp only [mutexPermits, if_true, List.length_cons] at hbal hle₂
  omega

/-- A call that has not unlocked has the mutex by its caller. -/
theorem holds_of_early (hok : MutexOk w.mutex) (h : Own w) (hi : (w.wait i).pc.early = true) :
    Holds w (w.wait i).caller := by
  obtain ⟨hl, hn⟩ := h.early i hi
  exact holds_of_granted hok h (granted_of_acquired hok (h.left _ hl).1) hn

/-- There is at most one such call. -/
theorem early_unique (hok : MutexOk w.mutex) (h : Own w) {i' : OpId}
    (hi : (w.wait i).pc.early = true) (hi' : (w.wait i').pc.early = true) : i = i' := by
  have hh := holds_of_early hok h hi
  have hh' := holds_of_early hok h hi'
  exact h.unique i i' hi hi' ((hh'.2 _).mp ((hh.2 _).mpr rfl))

theorem inside_spec (hin : w.inside j = true) :
    (w.mutex.op j).pc = .done .acquired ∧ (w.wait j).pc.over = true ∧ j ∉ w.left := by
  unfold World.inside at hin
  rw [Bool.and_eq_true, Bool.and_eq_true] at hin
  obtain ⟨⟨hpc, hover⟩, hleft⟩ := hin
  exact ⟨by simpa using hpc, hover, by simpa using hleft⟩

/-- Whoever is in the critical section has the mutex. -/
theorem holds_of_inside (hok : MutexOk w.mutex) (h : Own w) (hin : w.inside j = true) :
    Holds w j := by
  obtain ⟨hpc, _, hleft⟩ := inside_spec hin
  exact holds_of_granted hok h (granted_of_acquired hok hpc) fun hm => hleft (h.unlockedLeft hm)

/-! ## Steps -/

/-- A step of the mutex that no call of `wait` makes, or its lock at the end. -/
theorem own_mutex (h : Own w) (hm : MutexStep w.mutex m 0)
    (hq : ∀ i, (w.wait i).pc ≠ .idle → (m.op i).stopRequested = (w.mutex.op i).stopRequested) :
    Own { w with mutex := m } :=
  ⟨h.nodup, fun _ hj => hm.grants (h.granted hj), hm.released.trans h.count,
    fun j hj => ⟨hm.done j _ (h.left j hj).1, (h.left j hj).2⟩, h.unlockedLeft, h.early, h.unique,
    fun i hi => (hq i hi).trans (h.quiet i hi), h.order, h.settled, h.sane⟩

/-- `unlock` by who is in the critical section. -/
theorem own_unlock (hok : MutexOk w.mutex) (h : Own w) (hin : w.inside j = true)
    (hm : MutexStep w.mutex m 1)
    (hq : ∀ i, (m.op i).stopRequested = (w.mutex.op i).stopRequested) :
    Own { w with mutex := m, left := w.left ++ [j], unlocked := w.unlocked ++ [j] } := by
  obtain ⟨hpc, hover, hleft⟩ := inside_spec hin
  have hnew : j ∉ w.unlocked := fun hm => hleft (h.unlockedLeft hm)
  refine ⟨?_, fun k hk => hm.grants ?_, ?_, fun k hk => ?_, fun k hk => ?_, fun i hi => ?_,
    h.unique, fun i hi => (hq i).trans (h.quiet i hi), h.order, h.settled, h.sane⟩
  · refine List.nodup_append.mpr ⟨h.nodup, List.nodup_singleton j, fun a ha b hb he => ?_⟩
    rw [he, List.mem_singleton.mp hb] at ha
    exact hnew ha
  · rcases List.mem_append.mp hk with hk | hk
    · exact h.granted hk
    · rw [List.mem_singleton.mp hk]
      exact granted_of_acquired hok hpc
  · show m.shared.history.released = (w.unlocked ++ [j]).length
    rw [hm.released, h.count, List.length_append, List.length_singleton]
  · rcases List.mem_append.mp hk with hk | hk
    · exact ⟨hm.done k _ (h.left k hk).1, (h.left k hk).2⟩
    · rw [List.mem_singleton.mp hk]
      exact ⟨hm.done j _ hpc, hover⟩
  · rcases List.mem_append.mp hk with hk | hk
    · exact List.mem_append_left _ (h.unlockedLeft hk)
    · exact List.mem_append_right _ hk
  · obtain ⟨hl, hn⟩ := h.early i hi
    refine ⟨List.mem_append_left _ hl, fun hc => ?_⟩
    rcases List.mem_append.mp hc with hc | hc
    · exact hn hc
    · rw [List.mem_singleton.mp hc] at hl
      exact hleft hl

/-- The call `i` of `wait` moves on, past its `unlock`. -/
theorem own_setWait {o : Wait} (h : Own w) (hi : (w.wait i).pc.past = true)
    (ho : o.pc.early = false) (hsane : o.pc ≠ .threw) : Own (w.setWait i o) := by
  have hidle : (w.wait i).pc ≠ .idle := by
    intro hc
    rw [hc] at hi
    cases hi
  have hreg : (w.wait i).pc ≠ .register ∧ (w.wait i).pc ≠ .unlock := by
    refine ⟨fun hc => ?_, fun hc => ?_⟩
    · rw [hc] at hi
      cases hi
    · rw [hc] at hi
      cases hi
  have hover : (w.wait i).pc.over = false := by
    cases hpc : (w.wait i).pc <;> rw [hpc] at hi <;> first | rfl | cases hi
  have hne : ∀ k, ((w.setWait i o).wait k).pc.early = true → k ≠ i := by
    intro k hk he
    rw [he, setWait_self, ho] at hk
    cases hk
  have hreg' : ∀ k, k = i → ((w.setWait i o).wait k).pc ≠ .register ∧
      ((w.setWait i o).wait k).pc ≠ .unlock := by
    intro k he
    rw [he, setWait_self]
    refine ⟨fun hc => ?_, fun hc => ?_⟩
    · rw [hc] at ho
      cases ho
    · rw [hc] at ho
      cases ho
  refine ⟨h.nodup, h.granted, h.count, fun k hk => ?_, h.unlockedLeft, fun k hk => ?_,
    fun k k' hk hk' hc => ?_, fun k hk => ?_, fun k hk => ?_, fun hall => ?_, fun k => ?_⟩
  · refine ⟨(h.left k hk).1, ?_⟩
    by_cases he : k = i
    · subst he
      cases hover.symm.trans (h.left k hk).2
    · rw [setWait_of_ne w o he]
      exact (h.left k hk).2
  · have he := hne k hk
    rw [setWait_of_ne w o he] at hk ⊢
    exact h.early k hk
  · have he := hne k hk
    have he' := hne k' hk'
    rw [setWait_of_ne w o he] at hk hc
    rw [setWait_of_ne w o he'] at hk' hc
    exact h.unique k k' hk hk' hc
  · by_cases he : k = i
    · rw [he]
      exact h.quiet i hidle
    · rw [setWait_of_ne w o he] at hk
      exact h.quiet k hk
  · by_cases he : k = i
    · exact absurd hk (not_or.mpr (hreg' k he))
    · rw [setWait_of_ne w o he] at hk
      exact h.order k hk
  · refine h.settled fun k => ?_
    by_cases he : k = i
    · rw [he]
      exact hreg
    · have hk := hall k
      rwa [setWait_of_ne w o he] at hk
  · by_cases he : k = i
    · rw [he, setWait_self]
      exact hsane
    · rw [setWait_of_ne w o he]
      exact h.sane k

/-- The call `i` keeps its place. -/
theorem own_same {o : Wait} (h : Own w) (hpc : o.pc = (w.wait i).pc)
    (hc : o.caller = (w.wait i).caller) : Own (w.setWait i o) := by
  have hpc' : ∀ k, ((w.setWait i o).wait k).pc = (w.wait k).pc := by
    intro k
    by_cases he : k = i
    · rw [he, setWait_self, hpc]
    · rw [setWait_of_ne w o he]
  have hc' : ∀ k, ((w.setWait i o).wait k).caller = (w.wait k).caller := by
    intro k
    by_cases he : k = i
    · rw [he, setWait_self, hc]
    · rw [setWait_of_ne w o he]
  refine ⟨h.nodup, h.granted, h.count, fun k hk => ?_, h.unlockedLeft, fun k hk => ?_,
    fun k k' hk hk' he => ?_, fun k hk => ?_, fun k hk => ?_, fun hall => ?_, fun k => ?_⟩
  · rw [hpc' k]
    exact h.left k hk
  · rw [hpc' k] at hk
    rw [hc' k]
    exact h.early k hk
  · rw [hpc' k] at hk
    rw [hpc' k'] at hk'
    rw [hc' k, hc' k'] at he
    exact h.unique k k' hk hk' he
  · rw [hpc' k] at hk
    exact h.quiet k hk
  · rw [hpc' k] at hk
    exact h.order k hk
  · exact h.settled fun k => by rw [← hpc' k]; exact hall k
  · rw [hpc' k]
    exact h.sane k

/-- `wait` is called by who is in the critical section. -/
theorem own_wait {o : Wait} (hok : MutexOk w.mutex) (h : Own w) (hin : w.inside j = true)
    (hpc : (w.wait i).pc = .idle) (hm : (w.mutex.op i).pc = .idle)
    (hst : (w.mutex.op i).stopRequested = false) (ho : o.pc = .enqueue) (hc : o.caller = j) :
    Own ({ w with left := w.left ++ [j] }.setWait i o) := by
  obtain ⟨hjpc, hover, hleft⟩ := inside_spec hin
  have hji : j ≠ i := by
    intro he
    rw [he, hm] at hjpc
    cases hjpc
  have hnoleft : i ∉ w.left := by
    intro hl
    have hd := (h.left i hl).1
    rw [hm] at hd
    cases hd
  -- nobody else is in a call of `wait` that has not unlocked
  have hnone : ∀ k, (w.wait k).pc.early = false := by
    intro k
    by_contra hk
    have hk' : (w.wait k).pc.early = true := by simpa using hk
    have hcaller := (holds_of_early hok h hk').2 j
    have he := hcaller.mp (((holds_of_inside hok h hin).2 j).mpr rfl)
    exact hleft (he ▸ (h.early k hk').1)
  refine ⟨h.nodup, h.granted, h.count, fun k hk => ?_, fun k hk => ?_, fun k hk => ?_,
    fun k k' hk hk' _ => ?_, fun k hk => ?_, fun k hk => ?_, fun hall => ?_, fun k => ?_⟩
  · have hne : k ≠ i := by
      intro he
      rcases List.mem_append.mp hk with hk | hk
      · exact hnoleft (he ▸ hk)
      · exact hji ((List.mem_singleton.mp hk).symm.trans he)
    rw [setWait_of_ne _ o hne]
    rcases List.mem_append.mp hk with hk | hk
    · exact h.left k hk
    · rw [List.mem_singleton.mp hk]
      exact ⟨hjpc, hover⟩
  · exact List.mem_append_left _ (h.unlockedLeft hk)
  · by_cases he : k = i
    · rw [he, setWait_self, hc]
      exact ⟨mem_snoc_self _ j, fun hu => hleft (h.unlockedLeft hu)⟩
    · rw [setWait_of_ne _ o he] at hk
      cases (hnone k).symm.trans hk
  · have hk₁ : k = i := by
      by_contra he
      rw [setWait_of_ne _ o he] at hk
      cases (hnone k).symm.trans hk
    have hk₂ : k' = i := by
      by_contra he
      rw [setWait_of_ne _ o he] at hk'
      cases (hnone k').symm.trans hk'
    rw [hk₁, hk₂]
  · by_cases he : k = i
    · rw [he]
      exact hst
    · rw [setWait_of_ne _ o he] at hk
      exact h.quiet k hk
  · by_cases he : k = i
    · rw [he, setWait_self, ho] at hk
      rcases hk with hk | hk <;> cases hk
    · rw [setWait_of_ne _ o he] at hk
      exact h.order k hk
  · refine h.settled fun k => ?_
    by_cases he : k = i
    · rw [he, hpc]
      exact ⟨nofun, nofun⟩
    · have hk := hall k
      rwa [setWait_of_ne _ o he] at hk
  · by_cases he : k = i
    · rw [he, setWait_self, ho]
      exact nofun
    · rw [setWait_of_ne _ o he]
      exact h.sane k

/-- `wait` queues itself: nobody else is between that and its `unlock`. -/
theorem own_enqueue (hok : MutexOk w.mutex) (h : Own w) (hpc : (w.wait i).pc = .enqueue) :
    Own ({ w with cv := w.cv.enqueueWaiter i }.goto i .register) := by
  have hearly : (w.wait i).pc.early = true := by rw [hpc]; rfl
  have honly : ∀ k, (w.wait k).pc.early = true → k = i :=
    fun k hk => early_unique hok h hk hearly
  have hrel : w.cv.history.enqueued = w.released := by
    refine h.settled fun k => ⟨fun hc => ?_, fun hc => ?_⟩
    · have he := honly k (by rw [hc]; rfl)
      rw [he, hpc] at hc
      cases hc
    · have he := honly k (by rw [hc]; rfl)
      rw [he, hpc] at hc
      cases hc
  have hoth : ∀ k, k ≠ i → (({ w with cv := w.cv.enqueueWaiter i } : World).goto i
      .register).wait k = w.wait k := fun k hk => setWait_of_ne _ _ hk
  have hself : (({ w with cv := w.cv.enqueueWaiter i } : World).goto i .register).wait i =
      { w.wait i with pc := .register } := setWait_self _ _ _
  refine ⟨h.nodup, h.granted, h.count, fun k hk => ?_, h.unlockedLeft, fun k hk => ?_,
    fun k k' hk hk' hc => ?_, fun k hk => ?_, fun k hk => ?_, fun hall => ?_, fun k => ?_⟩
  · have hne : k ≠ i := by
      intro he
      have hover := (h.left k hk).2
      rw [he, hpc] at hover
      cases hover
    rw [hoth k hne]
    exact h.left k hk
  · by_cases he : k = i
    · rw [he, hself]
      exact h.early i hearly
    · rw [hoth k he] at hk ⊢
      exact h.early k hk
  · have hk₁ : k = i := by
      by_contra he
      rw [hoth k he] at hk
      exact he (honly k hk)
    have hk₂ : k' = i := by
      by_contra he
      rw [hoth k' he] at hk'
      exact he (honly k' hk')
    rw [hk₁, hk₂]
  · by_cases he : k = i
    · rw [he]
      exact h.quiet i (by rw [hpc]; exact nofun)
    · rw [hoth k he] at hk
      exact h.quiet k hk
  · have hk₁ : k = i := by
      by_contra he
      rw [hoth k he] at hk
      refine he (honly k ?_)
      rcases hk with hk | hk <;> rw [hk] <;> rfl
    rw [hk₁]
    exact congrArg (· ++ [i]) hrel
  · have hi := (hall i).1
    rw [hself] at hi
    exact absurd rfl hi
  · by_cases he : k = i
    · rw [he, hself]
      exact nofun
    · rw [hoth k he]
      exact h.sane k

/-- From its stop callback `wait` comes to its `unlock`. -/
theorem own_register {o : Wait} (h : Own w) (hpc : (w.wait i).pc = .register)
    (ho : o.pc = .unlock) (hc : o.caller = (w.wait i).caller) : Own (w.setWait i o) := by
  have hearly : ∀ k, ((w.setWait i o).wait k).pc.early = (w.wait k).pc.early := by
    intro k
    by_cases he : k = i
    · rw [he, setWait_self, ho, hpc]
      rfl
    · rw [setWait_of_ne w o he]
  have hcaller : ∀ k, ((w.setWait i o).wait k).caller = (w.wait k).caller := by
    intro k
    by_cases he : k = i
    · rw [he, setWait_self, hc]
    · rw [setWait_of_ne w o he]
  refine ⟨h.nodup, h.granted, h.count, fun k hk => ?_, h.unlockedLeft, fun k hk => ?_,
    fun k k' hk hk' he => ?_, fun k hk => ?_, fun k hk => ?_, fun hall => ?_, fun k => ?_⟩
  · have hne : k ≠ i := by
      intro he
      have hover := (h.left k hk).2
      rw [he, hpc] at hover
      cases hover
    rw [setWait_of_ne w o hne]
    exact h.left k hk
  · rw [hearly k] at hk
    rw [hcaller k]
    exact h.early k hk
  · rw [hearly k] at hk
    rw [hearly k'] at hk'
    rw [hcaller k, hcaller k'] at he
    exact h.unique k k' hk hk' he
  · by_cases he : k = i
    · rw [he]
      exact h.quiet i (by rw [hpc]; exact nofun)
    · rw [setWait_of_ne w o he] at hk
      exact h.quiet k hk
  · by_cases he : k = i
    · rw [he]
      exact h.order i (.inl hpc)
    · rw [setWait_of_ne w o he] at hk
      exact h.order k hk
  · have hi := (hall i).2
    rw [setWait_self, ho] at hi
    exact absurd rfl hi
  · by_cases he : k = i
    · rw [he, setWait_self, ho]
      exact nofun
    · rw [setWait_of_ne w o he]
      exact h.sane k

/-- `wait` unlocks the mutex of its caller. -/
theorem own_unlockWait {o : Wait} (hok : MutexOk w.mutex) (h : Own w)
    (hpc : (w.wait i).pc = .unlock) (hm : MutexStep w.mutex m 1)
    (hq : ∀ i, (m.op i).stopRequested = (w.mutex.op i).stopRequested) (ho : o.pc = .ready) :
    Own ({ w with
      mutex := m, unlocked := w.unlocked ++ [(w.wait i).caller],
      released := w.released ++ [i] }.setWait i o) := by
  have hearly : (w.wait i).pc.early = true := by rw [hpc]; rfl
  have honly : ∀ k, (w.wait k).pc.early = true → k = i :=
    fun k hk => early_unique hok h hk hearly
  obtain ⟨hl, hn⟩ := h.early i hearly
  have hoth : ∀ k, k ≠ i → (({ w with
      mutex := m, unlocked := w.unlocked ++ [(w.wait i).caller],
      released := w.released ++ [i] } : World).setWait i o).wait k = w.wait k :=
    fun k hk => setWait_of_ne _ _ hk
  have hnone : ∀ k, ((({ w with
      mutex := m, unlocked := w.unlocked ++ [(w.wait i).caller],
      released := w.released ++ [i] } : World).setWait i o).wait k).pc.early = false := by
    intro k
    by_cases he : k = i
    · rw [he, setWait_self, ho]
      rfl
    · rw [hoth k he]
      by_contra hk
      exact he (honly k (by simpa using hk))
  refine ⟨?_, fun k hk => hm.grants ?_, ?_, fun k hk => ?_, fun k hk => ?_, fun k hk => ?_,
    fun k k' hk _ _ => ?_, fun k hk => ?_, fun k hk => ?_, fun _ => ?_, fun k => ?_⟩
  · refine List.nodup_append.mpr ⟨h.nodup, List.nodup_singleton _, fun a ha b hb he => ?_⟩
    rw [he, List.mem_singleton.mp hb] at ha
    exact hn ha
  · rcases List.mem_append.mp hk with hk | hk
    · exact h.granted hk
    · rw [List.mem_singleton.mp hk]
      exact granted_of_acquired hok (h.left _ hl).1
  · show m.shared.history.released = (w.unlocked ++ [(w.wait i).caller]).length
    rw [hm.released, h.count, List.length_append, List.length_singleton]
  · have hne : k ≠ i := by
      intro he
      have hover := (h.left k hk).2
      rw [he, hpc] at hover
      cases hover
    rw [hoth k hne]
    exact ⟨hm.done k _ (h.left k hk).1, (h.left k hk).2⟩
  · rcases List.mem_append.mp hk with hk | hk
    · exact h.unlockedLeft hk
    · rw [List.mem_singleton.mp hk]
      exact hl
  · cases (hnone k).symm.trans hk
  · cases (hnone k).symm.trans hk
  · refine (hq k).trans ?_
    by_cases he : k = i
    · rw [he]
      exact h.quiet i (by rw [hpc]; exact nofun)
    · rw [hoth k he] at hk
      exact h.quiet k hk
  · have hk' := hnone k
    rcases hk with hk | hk <;> rw [hk] at hk' <;> cases hk'
  · exact h.order i (.inr hpc)
  · by_cases he : k = i
    · rw [he, setWait_self, ho]
      exact nofun
    · rw [hoth k he]
      exact h.sane k

/-- A section of the condition variable that queues nobody. -/
theorem own_cv {sh : Shared Unit} {r : Resumptions} (h : Own w)
    (henq : sh.history.enqueued = w.cv.history.enqueued) :
    Own { w with cv := sh, toResumptions := r } :=
  ⟨h.nodup, h.granted, h.count, h.left, h.unlockedLeft, h.early, h.unique, h.quiet,
    fun i hi => henq.trans (h.order i hi), fun hall => henq.trans (h.settled hall), h.sane⟩

/-- The lock at the end of a call of `wait` is not cancelled. -/
theorem acquired_of_done (hok : MutexOk w.mutex) (h : Own w) (hi : (w.wait i).pc ≠ .idle)
    {r : Result} (hr : (w.mutex.op i).pc = .done r) : r ≠ .cancelled := by
  intro hc
  subst hc
  have ha := hok.arrived i
  unfold Arrived at ha
  rw [hr] at ha
  cases (h.quiet i hi).symm.trans (hok.asked i ha)

end

end LuvCoro.Sync
