import LuvCoro.Stream.Read

/-! # The phases of a read

A read has not begun, has gone on at once, waits, or is over. What a phase says
of a read also names its closures in the queue and the pointer of the handle, so
a step changes the view of one read and no other. -/
namespace LuvCoro.Stream

open Transition
open Request (Error Pc UV_ECANCELED UV_EBUSY UV_EINVAL)

/-- A read, with what the rest of the state has of it: how many closures that
start it, whether one that cancels it, and whether the handle points to it. -/
structure View (β : Type) where
  op : Op β
  starts : Nat
  cancels : Bool
  owner : Bool

def Sys.view {β : Type} (s : Sys β) (i : Nat) : View β where
  op := s.ops i
  starts := s.posted.count (.start i)
  cancels := decide (Posted.cancel i ∈ s.posted)
  owner := decide (s.data = some i)

variable {β : Type}

/-- Nothing of the read is anywhere. -/
structure Absent (v : View β) : Prop where
  starts : v.starts = 0
  cancels : v.cancels = false
  owner : v.owner = false
  stopCallback : v.op.stopCallback = false
  started : v.op.started = false
  completed : v.op.completed = false

structure Entering (v : View β) : Prop extends Absent v where
  pc : v.op.pc = .entering
  cancelRequested : v.op.cancelRequested = false
  nread : v.op.nread = 0
  resumed : v.op.resumed = 0
  outcome : v.op.outcome = none

structure Declined (v : View β) : Prop extends Absent v where
  pc : v.op.pc = .done
  resumed : v.op.resumed = 1

/-- Its closure is queued, or libuv reads for it. -/
inductive Suspended (v : View β) : Prop
  | queued (starts : v.starts = 1) (started : v.op.started = false) (owner : v.owner = false)
  | reading (starts : v.starts = 0) (started : v.op.started = true) (owner : v.owner = true)

structure Waiting (v : View β) : Prop where
  pc : v.op.pc = .registering ∨ v.op.pc = .posting ∨ v.op.pc = .suspended
  continuation : v.op.continuation = true
  keepAlive : v.op.keepAlive = true
  completed : v.op.completed = false
  cancelRequested : v.op.cancelRequested = false
  nread : v.op.nread = 0
  resumed : v.op.resumed = 0
  outcome : v.op.outcome = none
  early : v.op.pc ≠ .suspended → v.starts = 0 ∧ v.op.started = false ∧ v.owner = false
  suspended : v.op.pc = .suspended → Suspended v
  stops : v.op.pc ≠ .registering → v.op.stopPossible = true →
    v.op.stopCallback = true ∨ v.cancels = true

structure Ended (v : View β) : Prop where
  pc : v.op.pc ≠ .entering
  completed : v.op.completed = true
  resumed : v.op.resumed = 1
  owner : v.owner = false

inductive Phase (v : View β) : Prop
  | entering (h : Entering v)
  | declined (h : Declined v)
  | waiting (h : Waiting v)
  | ended (h : Ended v)

/-- The handle is open; the closure of `close` is queued behind the ones that
cancel what waits; or it has run, and nothing waits. -/
inductive Stage (k : Kind) (s : Sys β) : Prop
  | opened (attached : s.attached = true) (handle : s.handle = .opened)
      (posted : Posted.close ∉ s.posted)
  | closing (pre post : List Posted) (attached : s.attached = false) (handle : s.handle = .opened)
      (posted : s.posted = pre ++ .close :: post) (once : Posted.close ∉ pre)
      (cancels : ∀ i, (s.ops i).Pending → k.isSocket = false ∧ Posted.cancel i ∈ pre)
  | closed (attached : s.attached = false) (handle : s.handle ≠ .opened)
      (idle : ∀ i, ¬ (s.ops i).Pending)

structure Inv (k : Kind) (s : Sys β) : Prop where
  phase : ∀ i, Phase (s.view i)
  reading : s.reading = s.data.isSome
  fault : s.fault = false
  stage : Stage k s

section
variable {k : Kind} {s t : Sys β} {v : View β} {i j : Nat} {o : Op β} {p : Posted}
  {ps : List Posted}

/-! ## The views of a step -/

@[simp] theorem set_ops_self : (s.set i o).ops i = o := Function.update_self ..

theorem set_ops_of_ne (h : j ≠ i) : (s.set i o).ops j = s.ops j := Function.update_of_ne h ..

theorem view_set_self : (s.set i o).view i = { s.view i with op := o } := by
  unfold Sys.view
  rw [set_ops_self]
  rfl

theorem view_set_of_ne (h : j ≠ i) : (s.set i o).view j = s.view j := by
  unfold Sys.view
  rw [set_ops_of_ne h]
  rfl

theorem view_post_start : (s.post (.start i)).view i =
    { s.view i with starts := (s.view i).starts + 1 } := by
  have hc : Posted.cancel i ∈ s.posted ++ [.start i] ↔ Posted.cancel i ∈ s.posted := by simp
  unfold Sys.view Sys.post
  simp only [List.count_append, List.count_singleton_self, hc]

theorem view_post_cancel : (s.post (.cancel i)).view i = { s.view i with cancels := true } := by
  have hs : [Posted.cancel i].count (.start i) = 0 := rfl
  have hc : Posted.cancel i ∈ s.posted ++ [.cancel i] :=
    List.mem_append_right _ (List.mem_singleton_self _)
  unfold Sys.view Sys.post
  simp only [List.count_append, hs, Nat.add_zero, hc, decide_true]

/-- What is posted concerns a read. -/
def Posted.isOf (p : Posted) (j : Nat) : Prop := p = .start j ∨ p = .cancel j

theorem count_singleton_other (h : ¬ p.isOf j) : [p].count (.start j) = 0 := by
  refine List.count_eq_zero.mpr fun hm => h (.inl ?_)
  exact (List.mem_singleton.mp hm).symm

theorem view_post_of_ne (h : ¬ p.isOf j) : (s.post p).view j = s.view j := by
  have hc : Posted.cancel j ∈ s.posted ++ [p] ↔ Posted.cancel j ∈ s.posted := by
    rw [List.mem_append, List.mem_singleton]
    exact or_iff_left fun he => h (.inr he.symm)
  unfold Sys.view Sys.post
  simp only [List.count_append, count_singleton_other h, Nat.add_zero, hc]

theorem view_pop_of_ne (hp : s.posted = p :: ps) (h : ¬ p.isOf j) :
    { s with posted := ps }.view j = s.view j := by
  have hs : s.posted.count (.start j) = ps.count (.start j) := by
    rw [hp]
    exact List.count_cons_of_ne fun he => h (.inl he)
  have hc : Posted.cancel j ∈ s.posted ↔ Posted.cancel j ∈ ps := by
    rw [hp, List.mem_cons]
    exact or_iff_right fun he => h (.inr he.symm)
  unfold Sys.view
  simp only [hs, hc]

theorem isOf_start (h : j ≠ i) : ¬ (Posted.start i).isOf j := by
  rintro (he | he)
  · exact h (Posted.start.inj he).symm
  · cases he

theorem isOf_cancel (h : j ≠ i) : ¬ (Posted.cancel i).isOf j := by
  rintro (he | he)
  · cases he
  · exact h (Posted.cancel.inj he).symm

theorem isOf_close : ¬ Posted.close.isOf j := by
  rintro (he | he) <;> cases he

/-- The handle points to another read, before and after. -/
theorem view_data_of_ne {d : Option Nat} (hs : s.data ≠ some j) (hd : d ≠ some j) :
    { s with data := d }.view j = s.view j := by
  unfold Sys.view
  simp only [hs, hd]

/-- Only one read is touched. -/
theorem phases_of (h : ∀ j, Phase (s.view j)) (hne : ∀ j, j ≠ i → t.view j = s.view j)
    (hi : Phase (t.view i)) : ∀ j, Phase (t.view j) := by
  intro j
  by_cases hj : j = i
  · exact hj ▸ hi
  · rw [hne j hj]
    exact h j

/-! ## The phase of the read that is touched -/

theorem Waiting.pending (h : Waiting v) : v.op.Pending := by
  refine ⟨?_, ?_, h.completed⟩ <;> rcases h.pc with hp | hp | hp <;> rw [hp] <;> nofun

/-- A closure of a read that is not completed is one of a read that waits. -/
theorem Phase.of_queued (h : Phase v) (hq : v.starts ≠ 0 ∨ v.cancels = true)
    (hc : v.op.completed = false) : Waiting v := by
  have habsent : ¬ Absent v := by
    intro ha
    rcases hq with hq | hq
    · exact hq ha.starts
    · exact absurd (hq.symm.trans ha.cancels) nofun
  cases h with
  | entering he => exact absurd he.toAbsent habsent
  | declined hd => exact absurd hd.toAbsent habsent
  | waiting hw => exact hw
  | ended he => exact absurd (hc.symm.trans he.completed) nofun

/-- Completion ends a read that waits, whatever was stored in its state before. -/
theorem Waiting.complete {w : View β} (h : Waiting v) (hw : w.op = o.complete k)
    (hpc : o.pc = v.op.pc) (hc : o.completed = v.op.completed)
    (hk : o.continuation = v.op.continuation) (hr : o.resumed = v.op.resumed)
    (howner : w.owner = false) : Ended w := by
  have hcompleted : ¬ o.completed = true := by
    rw [hc, h.completed]
    nofun
  unfold Op.complete at hw
  rw [if_neg hcompleted] at hw
  have hent := h.pending.1
  refine ⟨?_, ?_, ?_, howner⟩
  · rw [hw]
    dsimp only
    split
    · nofun
    · rwa [hpc]
  · rw [hw]
  · rw [hw]
    dsimp only
    rw [if_pos (hk.trans h.continuation), hr, h.resumed]

theorem Declined.of_entering {w : View β} (h : Entering v) {r : Except Error (Received β)}
    (hw : w.op = o.decline r) (habsent : Absent w) (hr : o.resumed = v.op.resumed) :
    Declined w := by
  refine ⟨habsent, ?_, ?_⟩
  · rw [hw]
    rfl
  · rw [hw]
    show o.resumed + 1 = 1
    rw [hr, h.resumed]

/-- A step of the coroutine that reads. -/
theorem run_phase (h : Phase (s.view i)) (hs : run k s i = some t) : Phase (t.view i) := by
  have hop : (s.view i).op = s.ops i := rfl
  unfold run at hs
  dsimp only at hs
  split at hs
  · rename_i hpc
    have he : Entering (s.view i) := by
      cases h with
      | entering he => exact he
      | declined hd => exact absurd (hpc.symm.trans hd.pc) nofun
      | waiting hw => exact absurd hpc hw.pending.1
      | ended he => exact absurd hpc he.pc
    have habsent := he.toAbsent
    have hdecline : ∀ (o : Op β) (r : Except Error (Received β)), o.resumed = (s.ops i).resumed →
        o.stopCallback = (s.ops i).stopCallback → o.started = (s.ops i).started →
        o.completed = (s.ops i).completed → Phase ((s.set i (o.decline r)).view i) := by
      intro o r hr hcb hst hc
      rw [view_set_self]
      refine .declined (Declined.of_entering he rfl ?_ hr)
      exact ⟨habsent.starts, habsent.cancels, habsent.owner, hcb.trans habsent.stopCallback,
        hst.trans habsent.started, hc.trans habsent.completed⟩
    split at hs
    · cases hs
      exact hdecline _ _ rfl rfl rfl rfl
    · split at hs
      · cases hs
        exact hdecline _ _ rfl rfl rfl rfl
      · split at hs
        · cases hs
          exact hdecline _ _ rfl rfl rfl rfl
        · cases hs
          rw [view_set_self]
          refine .waiting ⟨?_, rfl, rfl, habsent.completed, he.cancelRequested, he.nread,
            he.resumed, he.outcome, fun _ => ⟨habsent.starts, habsent.started, habsent.owner⟩, ?_, ?_⟩
          · cases hsp : (s.ops i).stopPossible with
            | true => exact .inl rfl
            | false => exact .inr (.inl rfl)
          · dsimp only
            intro hp
            split at hp <;> cases hp
          · dsimp only
            intro hp hsp
            rw [if_pos hsp] at hp
            exact absurd rfl hp
  · rename_i hpc
    split at hs
    · cases hs
      rw [view_post_cancel, view_set_self]
      cases h with
      | entering he => exact absurd (hpc.symm.trans he.pc) nofun
      | declined hd => exact absurd (hpc.symm.trans hd.pc) nofun
      | waiting hw =>
        have hearly := hw.early (by rw [hop, hpc]; nofun)
        exact .waiting ⟨.inr (.inl rfl), hw.continuation, hw.keepAlive, hw.completed,
          hw.cancelRequested, hw.nread, hw.resumed, hw.outcome, fun _ => hearly, nofun, fun _ _ => .inr rfl⟩
      | ended he => exact .ended ⟨nofun, he.completed, he.resumed, he.owner⟩
    · cases hs
      rw [view_set_self]
      cases h with
      | entering he => exact absurd (hpc.symm.trans he.pc) nofun
      | declined hd => exact absurd (hpc.symm.trans hd.pc) nofun
      | waiting hw =>
        have hearly := hw.early (by rw [hop, hpc]; nofun)
        exact .waiting ⟨.inr (.inl rfl), hw.continuation, hw.keepAlive, hw.completed,
          hw.cancelRequested, hw.nread, hw.resumed, hw.outcome, fun _ => hearly, nofun, fun _ _ => .inl rfl⟩
      | ended he => exact .ended ⟨nofun, he.completed, he.resumed, he.owner⟩
  · rename_i hpc
    split at hs
    · rename_i hc
      cases hs
      rw [view_set_self]
      cases h with
      | entering he => exact absurd (hpc.symm.trans he.pc) nofun
      | declined hd => exact absurd (hpc.symm.trans hd.pc) nofun
      | waiting hw => exact absurd (hc.symm.trans hw.completed) nofun
      | ended he => exact .ended ⟨nofun, he.completed, he.resumed, he.owner⟩
    · rename_i hc
      cases hs
      rw [view_post_start, view_set_self]
      cases h with
      | entering he => exact absurd (hpc.symm.trans he.pc) nofun
      | declined hd => exact absurd (hpc.symm.trans hd.pc) nofun
      | waiting hw =>
        obtain ⟨hzero, hst, hown⟩ := hw.early (by rw [hop, hpc]; nofun)
        have hstops := hw.stops (by rw [hop, hpc]; nofun)
        refine .waiting ⟨.inr (.inr rfl), hw.continuation, hw.keepAlive, hw.completed,
          hw.cancelRequested, hw.nread, hw.resumed, hw.outcome, fun hne => absurd rfl hne,
          fun _ => ?_, fun _ => hstops⟩
        exact .queued (congrArg (· + 1) hzero) hst hown
      | ended he => exact absurd he.completed hc
  · cases hs

theorem run_elsewhere (hs : run k s i = some t) : ∀ j, j ≠ i → t.view j = s.view j := by
  intro j hj
  unfold run at hs
  dsimp only at hs
  split at hs
  · split at hs
    · cases hs
      exact view_set_of_ne hj
    · split at hs
      · cases hs
        exact view_set_of_ne hj
      · split at hs <;> cases hs <;> exact view_set_of_ne hj
  · split at hs <;> cases hs
    · exact (view_post_of_ne (isOf_cancel hj)).trans (view_set_of_ne hj)
    · exact view_set_of_ne hj
  · split at hs <;> cases hs
    · exact view_set_of_ne hj
    · exact (view_post_of_ne (isOf_start hj)).trans (view_set_of_ne hj)
  · cases hs

theorem view_pop_start (hp : s.posted = .start i :: ps) : { s with posted := ps }.view i =
    { s.view i with starts := ps.count (.start i) } := by
  have hc : Posted.cancel i ∈ s.posted ↔ Posted.cancel i ∈ ps := by
    rw [hp, List.mem_cons]
    exact or_iff_right nofun
  unfold Sys.view
  simp only [hc]

theorem view_pop_cancel (hp : s.posted = .cancel i :: ps) : { s with posted := ps }.view i =
    { s.view i with cancels := decide (Posted.cancel i ∈ ps) } := by
  have hne : Posted.cancel i ≠ .start i := nofun
  have hs : s.posted.count (.start i) = ps.count (.start i) := by
    rw [hp, List.count_cons_of_ne hne]
  unfold Sys.view
  simp only [hs]

/-- A read whose closure is run first in the queue. -/
theorem start_queued (h : Phase (s.view i)) (hp : s.posted = .start i :: ps)
    (hc : (s.ops i).completed = false) : Waiting (s.view i) ∧ (s.ops i).pc = .suspended ∧
      ps.count (.start i) = 0 ∧ (s.ops i).started = false ∧ s.data ≠ some i := by
  have hstarts : (s.view i).starts = ps.count (.start i) + 1 := by
    show s.posted.count (.start i) = _
    rw [hp, List.count_cons_self]
  have hw := h.of_queued (.inl (by rw [hstarts]; exact Nat.succ_ne_zero _)) hc
  have hsusp : (s.ops i).pc = .suspended := by
    by_contra hne
    have hzero := (hw.early hne).1
    rw [hstarts] at hzero
    cases hzero
  cases hw.suspended hsusp with
  | queued hone hst hown =>
    exact ⟨hw, hsusp, Nat.succ.inj (hstarts.symm.trans hone), hst, of_decide_eq_false hown⟩
  | reading hzero =>
    rw [hstarts] at hzero
    cases hzero

/-- What the closure that starts a read does with the read, and with the handle. -/
inductive Starts (k : Kind) (s : Sys β) (i : Nat) (rc : Int) (t : Sys β) : Prop
  | skipped (completed : (s.ops i).completed = true) (eq : t = s)
  | fault (completed : (s.ops i).completed = false) (dangling : s.dangling k = true)
  | busy (completed : (s.ops i).completed = false) (data : s.data.isSome = true)
      (eq : t = s.set i ({ s.ops i with status := UV_EBUSY }.complete k))
  | refused (code : Int) (completed : (s.ops i).completed = false) (data : s.data = none)
      (eq : t = s.set i ({ s.ops i with status := code }.complete k))
  | reads (completed : (s.ops i).completed = false) (data : s.data = none)
      (eq : t = { s with data := some i, reading := true }.set i { s.ops i with started := true })

theorem start_cases (s : Sys β) (i : Nat) (rc : Int) : Starts k s i rc (s.start k i rc) := by
  unfold Sys.start
  dsimp only
  by_cases hc : (s.ops i).completed = true
  · rw [if_pos hc]
    exact .skipped hc rfl
  · have hc' : (s.ops i).completed = false := Bool.eq_false_iff.mpr hc
    rw [if_neg hc]
    split
    · rename_i hd
      exact .fault hc' hd
    · split
      · rename_i hd
        exact .busy hc' hd rfl
      · rename_i hd
        have hd' : s.data = none := by simpa using hd
        have hself : { s with data := none } = s := by rw [← hd']
        generalize (if s.handle = .opened then rc else UV_EINVAL) = code
        by_cases hneg : code < 0
        · rw [if_pos hneg, hself]
          exact .refused code hc' hd' rfl
        · rw [if_neg hneg]
          exact .reads hc' hd' rfl

theorem start_phase {rc : Int} (h : Phase (s.view i)) (hp : s.posted = .start i :: ps)
    (hd : (s.ops i).Pending → s.dangling k = false) :
    Phase (({ s with posted := ps }.start k i rc).view i) := by
  have hops : { s with posted := ps }.ops i = s.ops i := rfl
  cases start_cases (k := k) { s with posted := ps } i rc with
  | skipped hc he =>
    rw [he, view_pop_start hp]
    cases h with
    | entering hn => exact absurd (hc.symm.trans hn.completed) nofun
    | declined hn => exact absurd (hc.symm.trans hn.completed) nofun
    | waiting hn => exact absurd (hc.symm.trans hn.completed) nofun
    | ended he => exact .ended ⟨he.pc, he.completed, he.resumed, he.owner⟩
  | fault hc hf =>
    obtain ⟨hw, -⟩ := start_queued h hp hc
    exact absurd (hf.symm.trans (hd hw.pending)) nofun
  | busy hc _ he =>
    obtain ⟨hw, -, -, -, hown⟩ := start_queued h hp hc
    rw [he, view_set_self, hops]
    exact .ended (hw.complete rfl rfl rfl rfl rfl (decide_eq_false hown))
  | refused code hc _ he =>
    obtain ⟨hw, -, -, -, hown⟩ := start_queued h hp hc
    rw [he, view_set_self, hops]
    exact .ended (hw.complete rfl rfl rfl rfl rfl (decide_eq_false hown))
  | reads hc hnone he =>
    obtain ⟨hw, hsusp, hzero, -, -⟩ := start_queued h hp hc
    have hstops := hw.stops (by rw [show (s.view i).op.pc = _ from hsusp]; nofun)
    have hcancels : ({ s with posted := ps }.view i).cancels = (s.view i).cancels := by
      rw [view_pop_start hp]
    rw [he, view_set_self, hops]
    refine .waiting ⟨.inr (.inr hsusp), hw.continuation, hw.keepAlive, hw.completed,
      hw.cancelRequested, hw.nread, hw.resumed, hw.outcome, fun hne => absurd hsusp hne, fun _ => ?_,
      fun _ hsp => ?_⟩
    · exact .reading hzero rfl (decide_eq_true rfl)
    · exact (hstops hsp).imp id fun hcan => hcancels.trans hcan

theorem start_elsewhere {rc : Int} (s : Sys β) :
    ∀ j, j ≠ i → (s.start k i rc).view j = s.view j := by
  intro j hj
  cases start_cases (k := k) s i rc with
  | skipped _ he => rw [he]
  | fault hc hd =>
    unfold Sys.start
    dsimp only
    rw [if_neg (by rw [hc]; nofun), if_pos hd]
    rfl
  | busy _ _ he =>
    rw [he]
    exact view_set_of_ne hj
  | refused _ _ _ he =>
    rw [he]
    exact view_set_of_ne hj
  | reads _ hnone he =>
    have hne : s.data ≠ some j := by
      rw [hnone]
      nofun
    have hv : { s with data := some i, reading := true }.view j = s.view j :=
      view_data_of_ne hne fun he => hj (Option.some.inj he).symm
    rw [he]
    exact (view_set_of_ne hj).trans hv

/-- The closure that cancels a read that is not completed. -/
theorem cancel_eq (hc : (s.ops i).completed = false) (hd : s.dangling k = false) :
    s.cancel k i =
      (if s.data = some i then { s with data := none, reading := false } else s).set i
        ({ s.ops i with cancelRequested := true, status := UV_ECANCELED }.complete k) := by
  unfold Sys.cancel
  dsimp only
  rw [if_neg (by rw [hc]; nofun), if_neg (by rw [hd]; nofun)]

theorem cancel_over (hc : (s.ops i).completed = true) : s.cancel k i = s := if_pos hc

theorem cancel_fault (hc : (s.ops i).completed = false) (hd : s.dangling k = true) :
    s.cancel k i = { s with fault := true } := by
  unfold Sys.cancel
  dsimp only
  rw [if_neg (by rw [hc]; nofun), if_pos hd]

/-- The handle points to a read no more. -/
def Sys.letGo (s : Sys β) (i : Nat) : Sys β :=
  if s.data = some i then { s with data := none, reading := false } else s

theorem letGo_view_of_ne (hj : j ≠ i) : (s.letGo i).view j = s.view j := by
  unfold Sys.letGo
  split
  · rename_i hd
    have hne : s.data ≠ some j := by
      rw [hd]
      exact fun he => hj (Option.some.inj he).symm
    exact view_data_of_ne (s := { s with reading := false }) hne nofun
  · rfl

theorem letGo_owner (s : Sys β) (i : Nat) : ((s.letGo i).view i).owner = false := by
  unfold Sys.letGo
  split
  · rfl
  · rename_i hd
    exact decide_eq_false hd

theorem cancel_phase (h : Phase (s.view i)) (hp : s.posted = .cancel i :: ps)
    (hd : (s.ops i).Pending → s.dangling k = false) :
    Phase (({ s with posted := ps }.cancel k i).view i) := by
  have hcancels : (s.view i).cancels = true := decide_eq_true (hp ▸ List.mem_cons_self)
  cases hc : (s.ops i).completed with
  | true =>
    have he : { s with posted := ps }.cancel k i = { s with posted := ps } := cancel_over hc
    rw [he, view_pop_cancel hp]
    cases h with
    | entering hn => exact absurd (hc.symm.trans hn.completed) nofun
    | declined hn => exact absurd (hc.symm.trans hn.completed) nofun
    | waiting hn => exact absurd (hc.symm.trans hn.completed) nofun
    | ended he => exact .ended ⟨he.pc, he.completed, he.resumed, he.owner⟩
  | false =>
    have hw := h.of_queued (.inr hcancels) hc
    have he := @cancel_eq _ k { s with posted := ps } i hc (hd hw.pending)
    have hown := letGo_owner { s with posted := ps } i
    unfold Sys.letGo at hown
    rw [he, view_set_self]
    exact .ended (hw.complete rfl rfl rfl rfl rfl hown)

theorem cancel_elsewhere (s : Sys β) : ∀ j, j ≠ i → (s.cancel k i).view j = s.view j := by
  intro j hj
  cases hc : (s.ops i).completed with
  | true => rw [cancel_over hc]
  | false =>
    cases hd : s.dangling k with
    | true =>
      rw [cancel_fault hc hd]
      rfl
    | false =>
      rw [cancel_eq hc hd]
      exact (view_set_of_ne hj).trans (letGo_view_of_ne hj)

theorem record_keeps {e : Event β} {o' : Op β} (h : o.record k e = some o') :
    o'.pc = o.pc ∧ o'.completed = o.completed ∧ o'.continuation = o.continuation ∧
      o'.resumed = o.resumed := by
  cases e with
  | empty => cases h
  | _ =>
    cases h
    exact ⟨rfl, rfl, rfl, rfl⟩

theorem record_stale {e : Event β} {o' : Op β} (h : o.record k e = some o') :
    o'.stale = o.stale := by
  cases e with
  | empty => cases h
  | _ =>
    cases h
    rfl

/-- The handle points to a read that waits. -/
theorem Phase.of_owner (h : Phase (s.view i)) (hd : s.data = some i) : Waiting (s.view i) := by
  have howner : (s.view i).owner = true := decide_eq_true hd
  cases h with
  | entering he => exact absurd (howner.symm.trans he.owner) nofun
  | declined he => exact absurd (howner.symm.trans he.owner) nofun
  | waiting hw => exact hw
  | ended he => exact absurd (howner.symm.trans he.owner) nofun

/-- A call of the read callback does nothing, or completes the reader. -/
theorem event_cases {e : Event β} (hd : s.data = some i) (hs : s.event k e = some t) :
    e.fits (s.ops i) = true ∧ ((s.ops i).record k e = none ∧ t = s ∨
      ∃ o, (s.ops i).record k e = some o ∧
        t = { s with
          delivered := s.delivered ++ e.batch
          data := none
          reading := false }.set i (o.complete k)) := by
  unfold Sys.event at hs
  rw [hd] at hs
  dsimp only at hs
  split at hs
  · rename_i hfits
    refine ⟨hfits, ?_⟩
    split at hs
    · rename_i hr
      cases hs
      exact .inl ⟨hr, rfl⟩
    · rename_i o hr
      cases hs
      exact .inr ⟨o, hr, rfl⟩
  · cases hs

theorem event_phase {e : Event β} (h : Phase (s.view i)) (hd : s.data = some i)
    (hs : s.event k e = some t) : Phase (t.view i) := by
  obtain ⟨-, ⟨-, rfl⟩ | ⟨o, hr, rfl⟩⟩ := event_cases hd hs
  · exact h
  · obtain ⟨hpc, hc, hk, hres⟩ := record_keeps hr
    have hw := h.of_owner hd
    rw [view_set_self]
    exact .ended (hw.complete rfl hpc hc hk hres rfl)

theorem event_elsewhere {e : Event β} (hd : s.data = some i) (hs : s.event k e = some t) :
    ∀ j, j ≠ i → t.view j = s.view j := by
  intro j hj
  obtain ⟨-, ⟨-, rfl⟩ | ⟨o, hr, rfl⟩⟩ := event_cases hd hs
  · rfl
  · have hne : s.data ≠ some j := by
      rw [hd]
      exact fun he => hj (Option.some.inj he).symm
    have hv : { s with
        delivered := s.delivered ++ e.batch, data := none, reading := false }.view j = s.view j :=
      view_data_of_ne hne nofun
    exact (view_set_of_ne hj).trans hv

end

end LuvCoro.Stream
