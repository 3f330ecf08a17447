import Mathlib.Data.List.Sort
import LuvCoro.Stream.Sent

/-! # The messages of the tasks on the wire

Each task is past the messages that it has sent whole, and whatever comes between its
steps, nothing of another message is inside one. -/
namespace LuvCoro.Stream.Writes

open Transition
open Request (streamWrite Posts)

/-! ## The tasks -/

structure Tasks (messages : Nat → List (List UInt8)) (s : Sys) : Prop where
  bound : ∀ task, s.next task ≤ (messages task).length
  entered : ∀ i, (s.ops i).pc ≠ .entering → i.index ≤ s.next i.task ∧ dataOf messages i ≠ []
  passed : ∀ i, i.index < s.next i.task →
    dataOf messages i = [] ∨ returned (s.ops i).outcome = true
  order : s.accepted.Pairwise fun i j => i.task = j.task → i.index < j.index

section
variable {messages : Nat → List (List UInt8)} {stopPossible : Id → Bool} {s t : Sys} {l : Label}
  {i j : Id} {is : List Id} {o : Request.Sys}

theorem Tasks.update (h : Tasks messages s) (ho : t.ops = Function.update s.ops i o)
    (hn : t.next = s.next)
    (hent : o.pc ≠ .entering → i.index ≤ s.next i.task ∧ dataOf messages i ≠ [])
    (hret : returned (s.ops i).outcome = true → returned o.outcome = true)
    (horder : t.accepted.Pairwise fun i j => i.task = j.task → i.index < j.index) :
    Tasks messages t where
  bound := by
    rw [hn]
    exact h.bound
  entered j hj := by
    rw [hn]
    by_cases hji : j = i
    · subst hji
      rw [ho, Function.update_self] at hj
      exact hent hj
    · rw [ho, Function.update_of_ne hji] at hj
      exact h.entered j hj
  passed j hj := by
    rw [hn] at hj
    refine (h.passed j hj).imp id fun hr => ?_
    by_cases hji : j = i
    · subst hji
      rw [ho, Function.update_self]
      exact hret hr
    · rw [ho, Function.update_of_ne hji]
      exact hr
  order := horder

theorem returned_step {m : Request.Label} (hh : Request.Honest (s.ops i))
    (hs : Request.step streamWrite (stopPossible i) (s.ops i) m = some o)
    (hr : returned (s.ops i).outcome = true) : returned o.outcome = true := by
  rw [Request.step_outcome hh hs]
  · exact hr
  · intro hn
    rw [hn] at hr
    cases hr

/-- The write that a task is at is after those of the task that are accepted. -/
theorem Tasks.accept (h : Tasks messages s) (hh : Handle messages s)
    (hidle : (s.ops i).flight = .idle) (hpc : (s.ops i).pc ≠ .entering)
    (hhon : Request.Honest (s.ops i)) (hb : ∀ j, Request.Base (s.ops j)) :
    (s.accepted ++ [i]).Pairwise fun i j => i.task = j.task → i.index < j.index := by
  obtain ⟨hle, hdata⟩ := h.entered i hpc
  have hat : i.index = s.next i.task := by
    refine Nat.le_antisymm hle (Nat.le_of_not_lt fun hlt => ?_)
    rcases h.passed i hlt with hd | hr
    · exact hdata hd
    · cases ho : (s.ops i).outcome with
      | none =>
        rw [ho] at hr
        cases hr
      | some r =>
        cases r with
        | error e =>
          rw [ho] at hr
          cases hr
        | ok v =>
          have hd := (hhon.value v ho).1
          rw [hidle] at hd
          cases hd
  refine List.pairwise_append.mpr ⟨h.order, List.pairwise_singleton _ i, ?_⟩
  intro j hj k hk htask
  rw [List.mem_singleton.mp hk] at htask ⊢
  have hacc := (hh.place j).accepted.mp hj
  have hne : j ≠ i := fun he => hacc (he ▸ hidle)
  have hpcj : (s.ops j).pc ≠ .entering := fun he => hacc ((hb j).fresh (.inl (by rw [he]; rfl)))
  have hlej := (h.entered j hpcj).1
  rw [htask, ← hat] at hlej
  refine Nat.lt_of_le_of_ne hlej fun he => hne ?_
  cases i
  cases j
  simp_all

/-! ## The step lemma -/

/-- A write has a turn for each closure that it has posted. -/
def Turns (s : Sys) : Prop := ∀ i, s.turns.count i = (s.ops i).posted.length

structure Inv (messages : Nat → List (List UInt8)) (s : Sys) : Prop where
  handle : Handle messages s
  tasks : Tasks messages s
  turns : Turns s

theorem Turns.post (h : Turns s) (hp : Posts (s.ops i) o) : Turns (s.post i o) := by
  intro j
  obtain ⟨cs, hcs⟩ := hp.posted
  show (s.turns ++ List.replicate _ i).count j = ((s.set i o).ops j).posted.length
  rw [List.count_append, h j]
  by_cases hj : j = i
  · subst hj
    rw [set_ops_self, hcs, List.length_append, List.count_replicate_self]
    omega
  · rw [set_ops_of_ne hj, List.count_replicate, if_neg (by simpa using Ne.symm hj)]
    rfl

theorem Turns.take (h : Turns s) (hturns : s.turns = i :: is)
    (hp : (s.ops i).posted.length = o.posted.length + 1) (ht : t.turns = is)
    (ho : t.ops = Function.update s.ops i o) : Turns t := by
  intro j
  have hj := h j
  rw [hturns] at hj
  rw [ht, ho]
  by_cases hji : j = i
  · subst hji
    rw [List.count_cons_self, hp] at hj
    rw [Function.update_self]
    omega
  · rw [List.count_cons_of_ne (Ne.symm hji)] at hj
    rw [Function.update_of_ne hji]
    exact hj

theorem Turns.keep (h : Turns s) (hp : o.posted = (s.ops i).posted) (ht : t.turns = s.turns)
    (ho : t.ops = Function.update s.ops i o) : Turns t := by
  intro j
  rw [ht, ho, h j]
  by_cases hji : j = i
  · subst hji
    rw [Function.update_self, hp]
  · rw [Function.update_of_ne hji]

/-- A write whose coroutine or stop token makes a step. -/
theorem Inv.post (h : Inv messages s) (hh : Request.Honest (s.ops i)) {m : Request.Label}
    (hs : Request.step streamWrite (stopPossible i) (s.ops i) m = some o)
    (hp : Posts (s.ops i) o)
    (hent : o.pc ≠ .entering → i.index ≤ s.next i.task ∧ dataOf messages i ≠ []) :
    Inv messages (s.post i o) where
  handle := h.handle.same rfl hp.flight hp.produced rfl rfl rfl rfl rfl
  tasks := h.tasks.update rfl rfl hent (returned_step hh hs) h.tasks.order
  turns := h.turns.post hp

/-- libuv makes a step with a request that it has. -/
theorem Inv.serve (h : Inv messages s) (hh : Request.Honest (s.ops i))
    (hpc : (s.ops i).pc ≠ .entering) {m : Request.Label}
    (hs : Request.step streamWrite (stopPossible i) (s.ops i) m = some o)
    (hp : o.posted = (s.ops i).posted) (ht : Handle messages t)
    (ho : t.ops = Function.update s.ops i o) (hn : t.next = s.next)
    (ha : t.accepted = s.accepted) (hturns : t.turns = s.turns) : Inv messages t where
  handle := ht
  tasks := by
    refine h.tasks.update ho hn (fun _ => h.tasks.entered i hpc) (returned_step hh hs) ?_
    rw [ha]
    exact h.tasks.order
  turns := h.turns.keep hp hturns ho

theorem step_inv (h : Inv messages s)
    (hhon : ∀ i, Request.Honest (s.ops i)) (hb : ∀ i, Request.Base (s.ops i))
    (halive : ∀ i, (s.ops i).InFlight → (s.ops i).op.keepAlive = true)
    (hs : step messages stopPossible s l = some t) : Inv messages t := by
  have hlive : ∀ i, (s.ops i).InFlight → (s.ops i).pc ≠ .entering := fun i hf he =>
    hf.1 ((hb i).fresh (.inl (by rw [he]; rfl)))
  cases step_stepped hs with
  | run hd ho =>
    exact h.post (hhon _) ho (Request.run_posts ho) fun _ => ⟨Nat.le_refl _, hd⟩
  | @next task hlt hdone =>
    refine ⟨⟨fun i => (h.handle.place i).frame rfl rfl Iff.rfl Iff.rfl id Iff.rfl rfl,
      h.handle.queue, h.handle.nodup, h.handle.sentOnce, h.handle.wire⟩, ⟨fun u => ?_, fun i hi => ?_, fun i hi => ?_, h.tasks.order⟩, h.turns⟩
    · by_cases hu : u = task
      · subst hu
        simpa using Nat.succ_le_of_lt hlt
      · simpa [hu] using h.tasks.bound u
    · obtain ⟨hle, hdata⟩ := h.tasks.entered i hi
      refine ⟨?_, hdata⟩
      by_cases hu : i.task = task
      · subst hu
        simpa using Nat.le_succ_of_le hle
      · simpa [hu] using hle
    · by_cases hu : i.task = task
      · subst hu
        simp only [Function.update_self] at hi
        rcases Nat.lt_succ_iff_lt_or_eq.mp hi with hlt | heq
        · exact h.tasks.passed i hlt
        · have hcur : s.current i.task = i := by
            unfold Sys.current
            rw [← heq]
          rw [hcur] at hdone
          exact hdone
      · simp only [Function.update_of_ne hu] at hi
        exact h.tasks.passed i hi
  | requestStop ho =>
    refine h.post (hhon _) ho (Request.requestStop_posts ho) fun hpc => ?_
    simp only [Request.step] at ho
    split at ho <;> cases ho
    exact h.tasks.entered _ hpc
  | stopCallback ho =>
    refine h.post (hhon _) ho (Request.stopCallback_posts ho) fun hpc => ?_
    simp only [Request.step] at ho
    split at ho <;> cases ho
    exact h.tasks.entered _ hpc
  | @runPosted rc i is o hturns ho =>
    have hfresh := fun hm => (hb i).fresh (.inr hm)
    have hposted := Request.runPosted_posted ho
    have hpc : (s.ops i).pc ≠ .entering := by
      obtain ⟨c, hc⟩ := hposted
      exact (Request.base_pop (hb i) hc).1
    refine ⟨h.handle.runPosted hfresh ho, ?_, ?_⟩
    · refine h.tasks.update (handOver_ops ..) ?_ (fun _ => h.tasks.entered i hpc)
        (returned_step (hhon i) ho) ?_
      · unfold Sys.handOver
        split <;> rfl
      · unfold Sys.handOver
        split
        · rename_i hg
          exact h.tasks.accept h.handle hg.1 hpc (hhon i) hb
        · exact h.tasks.order
    · refine h.turns.take hturns ?_ ?_ (handOver_ops ..)
      · obtain ⟨c, hc⟩ := hposted
        rw [hc, List.length_cons]
      · unfold Sys.handOver
        split <;> rfl
  | @begin i is o hq ho =>
    have hpc := hlive i (h.handle.inFlight hq)
    refine h.serve (hhon i) hpc ho ?_ (h.handle.begin hq ho) rfl rfl rfl rfl
    simp only [Request.step] at ho
    split at ho <;> cases ho
    rfl
  | @transmit n freed i is hq hw hle =>
    have hk := halive i ⟨by rw [hw]; simp, by rw [hw]; simp⟩
    exact ⟨h.handle.transmit hq hw hk, ⟨h.tasks.bound, h.tasks.entered, h.tasks.passed,
      h.tasks.order⟩, h.turns⟩
  | @retire status i is o hq hst ho =>
    have hpc := hlive i (h.handle.inFlight hq)
    refine h.serve (hhon i) hpc ho ?_ (h.handle.retire hq hst ho) rfl rfl rfl rfl
    simp only [Request.step] at ho
    split at ho <;> cases ho
    rfl
  | @callback i is o hsent ho =>
    obtain ⟨status, hw⟩ := (h.handle.place i).sent.mp (by rw [hsent]; simp)
    have hpc := hlive i ⟨by rw [hw]; simp, by rw [hw]; simp⟩
    refine h.serve (hhon i) hpc ho ?_ (h.handle.callback hsent ho) rfl rfl rfl rfl
    simp only [Request.step, hw] at ho
    cases ho
    exact (Request.finish_keeps _ _).1

theorem init_inv (h : (system messages stopPossible).init s) : Inv messages s := by
  obtain ⟨stopped, -, rfl⟩ := h
  refine ⟨⟨fun i => ⟨by simp, by simp, by simp, by simp, by simp, fun _ => rfl, by simp⟩,
    List.nil_suffix, List.nodup_nil, List.nodup_nil, rfl⟩, ⟨fun _ => Nat.zero_le _, ?_, ?_,
    List.Pairwise.nil⟩, fun _ => rfl⟩
  · intro i hi
    exact absurd rfl hi
  · intro i hi
    exact absurd hi (Nat.not_lt_zero _)

theorem honest_of (h : ReachableBy (system messages stopPossible) KeepsWrites s) (i : Id) :
    Request.Honest (s.ops i) ∧ Request.Awaited (s.ops i) :=
  Request.reachable_honest (component h i)

theorem reachable_inv (h : ReachableBy (system messages stopPossible) KeepsWrites s) :
    Inv messages s := by
  refine h.invariant (fun _ => init_inv) fun s l t hr hI _ hs => ?_
  have hb := fun i => Request.reachable_base (component hr i)
  refine step_inv hI (fun i => (honest_of hr i).1) hb (fun i hf => ?_) hs
  exact (hb i).keeps (.inr (.inr (.inr (.inr hf)))) (Request.open_of_inFlight (component hr i) hf)

/-! ## What is on the wire -/

theorem piece_whole (h : Inv messages s) (hh : Request.Honest (s.ops i))
    (hr : returned (s.ops i).outcome = true) : s.piece messages i = buffer messages i := by
  cases ho : (s.ops i).outcome with
  | none =>
    rw [ho] at hr
    cases hr
  | some r =>
    cases r with
    | error e =>
      rw [ho] at hr
      cases hr
    | ok v =>
      obtain ⟨-, -, hlen⟩ := (h.handle.place i).whole (hh.value v ho).2
      unfold Sys.piece
      rw [hlen, List.take_length]

theorem piece_unaccepted (h : Handle messages s) (hi : i ∉ s.accepted) :
    s.piece messages i = [] := by
  refine piece_unsent ((h.place i).unsent (.inl ?_))
  by_contra hne
  exact hi ((h.place i).accepted.mpr hne)

theorem flatMap_filter {α β : Type} {l : List α} {p : α → Bool} {f : α → List β}
    (h : ∀ a ∈ l, p a = false → f a = []) : (l.filter p).flatMap f = l.flatMap f := by
  induction l with
  | nil => rfl
  | cons a l ih =>
    have ih := ih fun b hb => h b (List.mem_cons_of_mem _ hb)
    cases hp : p a with
    | true => rw [List.filter_cons_of_pos hp, List.flatMap_cons, List.flatMap_cons, ih]
    | false =>
      rw [List.filter_cons_of_neg (by simp [hp]), List.flatMap_cons, h a List.mem_cons_self hp, ih]
      rfl

/-- The accepted writes of a task are in the order of its messages. -/
theorem filter_task (h : Inv messages s) (hb : ∀ i, Request.Base (s.ops i)) (task : Nat) :
    s.accepted.filter (fun i => i.task = task) =
      ((List.range (s.next task + 1)).filter fun index =>
        { task, index } ∈ s.accepted).map fun index => { task, index } := by
  have hsorted : (s.accepted.filter fun i => i.task = task).Pairwise
      fun i j => i.index < j.index := by
    refine List.pairwise_filter.mpr (h.tasks.order.imp fun hij hi hj => hij ?_)
    exact (of_decide_eq_true hi).trans (of_decide_eq_true hj).symm
  have hindexes : (s.accepted.filter fun i => i.task = task).map Id.index =
      (List.range (s.next task + 1)).filter fun index => { task, index } ∈ s.accepted := by
    refine List.Pairwise.eq_of_mem_iff (List.pairwise_map.mpr hsorted)
      (List.pairwise_lt_range.filter _) fun index => ?_
    simp only [List.mem_map, List.mem_filter, List.mem_range, decide_eq_true_eq]
    constructor
    · rintro ⟨i, ⟨hi, rfl⟩, rfl⟩
      refine ⟨Nat.lt_succ_of_le (h.tasks.entered i fun he => ?_).1, hi⟩
      exact (h.handle.place i).accepted.mp hi ((hb i).fresh (.inl (by rw [he]; rfl)))
    · rintro ⟨-, hi⟩
      exact ⟨_, ⟨hi, rfl⟩, rfl⟩
  rw [← hindexes, List.map_map]
  refine (List.map_id _).symm.trans (List.map_congr_left fun i hi => ?_)
  have htask : i.task = task := of_decide_eq_true (List.mem_filter.mp hi).2
  subst htask
  rfl

theorem take_map_range {messages : List (List UInt8)} {n : Nat} (h : n ≤ messages.length) :
    messages.take n = (List.range n).map fun index => messages.getD index [] := by
  refine List.ext_getElem (by simpa using h) fun index h₁ h₂ => ?_
  have hlt : index < messages.length := by
    rw [List.length_take] at h₁
    omega
  simp [hlt]

/-- What a task has sent: the messages that it is past, and some of the one it is at. -/
theorem sent_by (h : Inv messages s) (hb : ∀ i, Request.Base (s.ops i))
    (hh : ∀ i, Request.Honest (s.ops i)) (task : Nat) :
    (s.accepted.filter fun i => i.task = task).flatMap (s.piece messages) =
      ((messages task).take (s.next task)).flatMap bufferOf ++
        s.piece messages (s.current task) := by
  have hpast : ∀ index ∈ List.range (s.next task),
      s.piece messages { task, index } = bufferOf ((messages task).getD index []) := by
    intro index hi
    rcases h.tasks.passed { task, index } (List.mem_range.mp hi) with hd | hr
    · have hempty : buffer messages { task, index } = [] := by
        unfold buffer
        rw [hd]
        rfl
      unfold Sys.piece
      rw [hempty, List.take_nil]
      exact hempty.symm
    · exact piece_whole h (hh _) hr
  rw [filter_task h hb task, List.flatMap_map, flatMap_filter, List.range_succ, List.flatMap_append,
    List.flatMap_singleton, take_map_range (h.tasks.bound task), List.flatMap_map]
  · exact congrArg (· ++ _) (List.flatMap_congr hpast)
  · intro index _ hi
    exact piece_unaccepted h.handle (of_decide_eq_false hi)

/-- The writes of all tasks leave one after the other, each at most once and none inside
another. Those of a task leave in the order of its messages: each whole that has returned,
and of the one it is at the beginning, or nothing when libuv has not taken it. -/
theorem writes_in_order (messages : Nat → List (List UInt8)) (stopPossible : Id → Bool) (s : Sys)
    (h : ReachableBy (system messages stopPossible) KeepsWrites s) :
    s.accepted.Nodup ∧ s.wire = s.accepted.flatMap (s.piece messages) ∧
    (∀ task, (s.accepted.filter fun i => i.task = task).flatMap (s.piece messages) =
      ((messages task).take (s.next task)).flatMap bufferOf ++
        s.piece messages (s.current task)) ∧
    ∀ i, (returned (s.ops i).outcome = true → s.piece messages i = buffer messages i) ∧
      (i ∉ s.accepted → s.piece messages i = []) := by
  have hinv := reachable_inv h
  have hh := fun i => (honest_of h i).1
  have hb := fun i => Request.reachable_base (component h i)
  refine ⟨hinv.handle.nodup, hinv.handle.wire, sent_by hinv hb hh, fun i => ⟨?_, ?_⟩⟩
  · exact piece_whole hinv (hh i)
  · exact piece_unaccepted hinv.handle

def twoTasks (task : Nat) : List (List UInt8) := [[[1, 2]], [[3]]].getD task []

/-- The second task is first in the queue of the loop; the first has sent one byte of two. -/
theorem writes_in_order_halfway : ∃ s : Sys,
    s.accepted = [⟨1, 0⟩, ⟨0, 0⟩] ∧ s.wire = [3, 1] ∧
      (s.accepted.filter fun i => i.task = 0).flatMap (s.piece twoTasks) =
        ((twoTasks 0).take (s.next 0)).flatMap bufferOf ++ s.piece twoTasks (s.current 0) := by
  have h0 : ReachableBy (system twoTasks fun _ => false) KeepsWrites { ops := fun _ => {} } :=
    .init ⟨fun _ => false, by simp, rfl⟩
  have h1 := h0.step (l := .run 0) (by exact trivial) rfl
  have h2 := h1.step (l := .run 1) (by exact trivial) rfl
  have h3 := h2.step (l := .run 1) (by exact trivial) rfl
  have h4 := h3.step (l := .run 0) (by exact trivial) rfl
  have h5 := h4.step (l := .runPosted 0) (by intro i is cs ht hp; cases ht; cases hp) rfl
  have h6 := h5.step (l := .runPosted 0) (by intro i is cs ht hp; cases ht; cases hp) rfl
  have h7 := h6.step (l := .begin) (by exact trivial) rfl
  have h8 := h7.step (l := .transmit 1 []) (by exact trivial) rfl
  have h9 := h8.step (l := .retire 0) (by exact trivial) rfl
  have h10 := h9.step (l := .begin) (by exact trivial) rfl
  have h11 := h10.step (l := .transmit 1 []) (by exact trivial) rfl
  exact ⟨_, rfl, rfl, (writes_in_order twoTasks (fun _ => false) _ h11).2.2.1 0⟩

/-! ## Where all comes to rest -/

/-- No coroutine, no closure and no request has anything left to do. -/
structure AtRest (messages : Nat → List (List UInt8)) (stopPossible : Id → Bool) (s : Sys) :
    Prop where
  run : ∀ task, step messages stopPossible s (.run task) = none
  next : ∀ task, step messages stopPossible s (.next task) = none
  runPosted : ∀ rc, step messages stopPossible s (.runPosted rc) = none
  begin : step messages stopPossible s .begin = none
  retire : ∀ status, step messages stopPossible s (.retire status) = none
  callback : step messages stopPossible s .callback = none

theorem rest_posted (h : Inv messages s) (hr : AtRest messages stopPossible s) (i : Id) :
    (s.ops i).posted = [] := by
  have hturns : s.turns = [] := by
    cases hturns : s.turns with
    | nil => rfl
    | cons i is =>
      have hcount := h.turns i
      rw [hturns, List.count_cons_self] at hcount
      have hnone := hr.runPosted 0
      simp only [step, hturns] at hnone
      rw [Option.map_eq_none_iff] at hnone
      cases hp : (s.ops i).posted with
      | nil =>
        rw [hp] at hcount
        simp at hcount
      | cons c cs =>
        simp only [Request.step, hp] at hnone
        cases c <;> cases hnone
  have hcount := h.turns i
  rw [hturns, List.count_nil] at hcount
  exact List.eq_nil_of_length_eq_zero hcount.symm

theorem rest_landed (h : Inv messages s) (hr : AtRest messages stopPossible s) (i : Id) :
    ¬ (s.ops i).InFlight := by
  have hqueue : s.queue = [] := by
    cases hq : s.queue with
    | nil => rfl
    | cons i is =>
      rcases (h.handle.place i).queued.mp (by rw [hq]; simp) with hf | hf
      · have hnone := hr.begin
        simp [step, hq, Request.step, hf] at hnone
      · have hnone := hr.retire (-1)
        simp [step, hq, Request.step, hf] at hnone
  have hsent : s.sent = [] := by
    cases hs : s.sent with
    | nil => rfl
    | cons i is =>
      obtain ⟨status, hf⟩ := (h.handle.place i).sent.mp (by rw [hs]; simp)
      have hnone := hr.callback
      simp [step, hs, Request.step, hf] at hnone
  have hp := h.handle.place i
  rw [Request.Sys.InFlight]
  rintro ⟨hidle, hdelivered⟩
  cases hf : (s.ops i).flight with
  | idle => exact hidle hf
  | delivered => exact hdelivered hf
  | cancelled => exact hp.uncancelled hf
  | queued =>
    have hm := hp.queued.mpr (.inl hf)
    rw [hqueue] at hm
    cases hm
  | working =>
    have hm := hp.queued.mpr (.inr hf)
    rw [hqueue] at hm
    cases hm
  | worked status =>
    have hm := hp.sent.mpr ⟨status, hf⟩
    rw [hsent] at hm
    cases hm

/-- No write hangs: when nothing is left to be done, each task has sent all of its
messages, whole, or the write it is at has thrown. -/
theorem writes_end (messages : Nat → List (List UInt8)) (stopPossible : Id → Bool) (s : Sys)
    (h : ReachableBy (system messages stopPossible) KeepsWrites s)
    (hr : AtRest messages stopPossible s) (task : Nat) :
    (s.next task = (messages task).length ∧
      (s.accepted.filter fun i => i.task = task).flatMap (s.piece messages) =
        (messages task).flatMap bufferOf) ∨
    ∃ e, (s.ops (s.current task)).outcome = some (.error e) := by
  have hinv := reachable_inv h
  obtain ⟨hh, hw⟩ := honest_of h (s.current task)
  have hb := fun i => Request.reachable_base (component h i)
  by_cases hlast : s.next task = (messages task).length
  · refine .inl ⟨hlast, ?_⟩
    have hnone : s.piece messages (s.current task) = [] := by
      unfold Sys.piece buffer dataOf Sys.current
      simp [hlast, bufferOf]
    rw [sent_by hinv hb (fun i => (honest_of h i).1) task, hlast, List.take_length, hnone,
      List.append_nil]
  · refine .inr ?_
    have hlt : s.next task < (messages task).length :=
      Nat.lt_of_le_of_ne (hinv.tasks.bound task) hlast
    have hstay := hr.next task
    simp only [step, hlt, true_and, ite_eq_right_iff, reduceCtorEq, imp_false, not_or] at hstay
    obtain ⟨hdata, hret⟩ := hstay
    have hrun := hr.run task
    simp only [step, if_neg hdata, Option.map_eq_none_iff, Request.step] at hrun
    have hpc : (s.ops (s.current task)).outcome ≠ none := by
      cases hpc : (s.ops (s.current task)).pc with
      | done => exact hh.done hpc
      | suspended =>
        rcases (hw hpc).2 with hm | hf
        · rw [rest_posted hinv hr] at hm
          cases hm
        · exact absurd hf (rest_landed hinv hr _)
      | entering =>
        simp only [Request.run, hpc] at hrun
        split at hrun <;> cases hrun
      | registering =>
        simp only [Request.run, hpc] at hrun
        split at hrun <;> cases hrun
      | posting =>
        simp only [Request.run, hpc] at hrun
        split at hrun <;> cases hrun
    cases ho : (s.ops (s.current task)).outcome with
    | none => exact absurd ho hpc
    | some r =>
      cases r with
      | error e => exact ⟨e, rfl⟩
      | ok v =>
        rw [ho] at hret
        exact absurd rfl hret

/-- The peer has gone when the second task comes to write. -/
theorem writes_end_refused : ∃ s : Sys, s.wire = [1, 2] ∧
    (s.ops (s.current 1)).outcome = some (.error (.uvError (-32))) ∧ ∀ task,
      (s.next task = (twoTasks task).length ∧
        (s.accepted.filter fun i => i.task = task).flatMap (s.piece twoTasks) =
          (twoTasks task).flatMap bufferOf) ∨
      ∃ e, (s.ops (s.current task)).outcome = some (.error e) := by
  have h0 : ReachableBy (system twoTasks fun _ => false) KeepsWrites { ops := fun _ => {} } :=
    .init ⟨fun _ => false, by simp, rfl⟩
  have h1 := h0.step (l := .run 0) (by exact trivial) rfl
  have h2 := h1.step (l := .run 0) (by exact trivial) rfl
  have h3 := h2.step (l := .run 1) (by exact trivial) rfl
  have h4 := h3.step (l := .run 1) (by exact trivial) rfl
  have h5 := h4.step (l := .runPosted 0) (by intro i is cs ht hp; cases ht; cases hp) rfl
  have h6 := h5.step (l := .runPosted (-32)) (by intro i is cs ht hp; cases ht; cases hp) rfl
  have h7 := h6.step (l := .begin) (by exact trivial) rfl
  have h8 := h7.step (l := .transmit 2 []) (by exact trivial) rfl
  have h9 := h8.step (l := .retire 0) (by exact trivial) rfl
  have h10 := h9.step (l := .callback) (by exact trivial) rfl
  have h11 := h10.step (l := .next 0) (by exact trivial) rfl
  refine ⟨_, rfl, rfl, writes_end twoTasks (fun _ => false) _ h11
    ⟨fun task => ?_, fun task => ?_, fun _ => rfl, rfl, fun _ => rfl, rfl⟩⟩
  · rcases task with _ | _ | task <;> rfl
  · rcases task with _ | _ | task <;> rfl

end

end LuvCoro.Stream.Writes
