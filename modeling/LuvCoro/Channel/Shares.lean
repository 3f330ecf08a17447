import LuvCoro.Channel.Consumers

/-! # What a loop has received

The calls of one loop come one after the other, so what they took is what its body
was given, in the order in which it left the channel. -/
namespace LuvCoro.Channel

open Transition

universe u
variable {T : Type u} {s t : Sys T} {l : Label T} {i : OpId}

/-! ## A receive that is over -/

/-- The section of the operation is behind it. -/
def Pc.spent : Pc T → Bool
  | .notify _ k | .cancelTimers _ k | .wake _ k => !k.isRecvTask
  | .done _ => true
  | _ => false

/-- The history only grows. -/
theorem log_grows (h : StepSpec s l t) : ∃ es, t.log = s.log ++ es := by
  have hsame : t.log = s.log → ∃ es, t.log = s.log ++ es := fun he =>
    ⟨[], he.trans (List.append_nil _).symm⟩
  cases h with
  | send _ _ _ => exact ⟨_, afterSend_log ..⟩
  | sendReady _ _ _ => exact ⟨_, awaitReady_log ..⟩
  | sendSuspend _ _ _ => exact ⟨_, awaitSuspend_log ..⟩
  | recvReady _ _ _ _ => exact ⟨_, awaitReady_log ..⟩
  | recvSuspend _ _ _ _ _ => exact ⟨_, awaitSuspend_log ..⟩
  | tryRecv _ _ => exact ⟨_, rfl⟩
  | next _ _ _ => exact ⟨_, rfl⟩
  | close _ _ _ _ _ _ _ => exact ⟨_, rfl⟩
  | closeTimer _ => exact hsame (post_chan s _).2
  | cancelTimer _ _ => exact hsame (post_chan s _).2
  | notify _ => exact hsame (by rw [goto_log]; split <;> rfl)
  | timer _ ht => exact hsame (congrArg Sys.log ht.frame :)
  | _ => exact hsame rfl

theorem spent_unqueued (hk : Kept s i) (hp : (s.pc i).spent = true) :
    i ∉ s.chan.activeReceivers := by
  refine hk.unqueued fun k he => ?_
  rw [he] at hp
  cases hp

/-- Nothing more is taken by an operation whose section is behind it. -/
theorem spent_takes (hi : Inv s) (hk : Kept s i) (hp : (s.pc i).spent = true)
    (hs : step s l = some t) : t.takenBy i = s.takenBy i := by
  have h := step_spec hi.ready hs
  have hpc : (s.pc i).beforeReceive = false ∧ s.pc i ≠ .tryRecv := by
    cases hpc : s.pc i with
    | notify f k | cancelTimers f k | wake f k =>
      rw [hpc] at hp
      exact ⟨by simpa [Pc.spent, Pc.beforeReceive] using hp, by simp⟩
    | done r => exact ⟨rfl, by simp⟩
    | _ => rw [hpc] at hp; cases hp
  by_cases htimes : l.Times i
  · have hlog : t.log = s.log := by
      cases h with
      | posted _ _ => rfl
      | postFailed _ _ _ => rfl
      | timer _ ht => exact (congrArg Sys.log ht.frame :)
      | timerCancel _ _ => rfl
      | closeChannel _ => rfl
      | _ => exact htimes.elim
    unfold Sys.takenBy
    rw [hlog]
  · obtain ⟨vs, htaken, hfate, _⟩ := spared_step hi (fun _ => htimes) (fun _ => hpc) h
    cases hfate with
    | same _ _ => rw [htaken, List.append_nil]
    | handed hh _ _ _ =>
      exact absurd (List.mem_of_mem_head? hh) (spent_unqueued hk hp)
    | closed _ _ _ _ _ => rw [htaken, List.append_nil]

theorem spent_start {p : Pc T} (hp : p.spent = true) :
    p ≠ .idle ∧ (∀ v, p ≠ .sendWait v) ∧ ∀ k, p ≠ .suspended k := by
  refine ⟨?_, fun v => ?_, fun k => ?_⟩
  all_goals
    rintro rfl
    cases hp

/-- It stays behind it. -/
theorem spent_step (hi : Inv s) (hp : (s.pc i).spent = true) (hs : step s l = some t) :
    (t.pc i).spent = true := by
  have h := step_spec hi.ready hs
  obtain ⟨hidle, hwait, hsus⟩ := spent_start hp
  by_cases hrun : l = .run i
  · subst hrun
    have hrun : runOp s i = some t := hs
    have hcont : ∀ (k : After T) (st : State T), k.isRecvTask = false →
        (k.continue st i).spent = true := by
      intro k st hk
      cases k with
      | recvTask => cases hk
      | _ => rfl
    cases hpc : s.pc i with
    | notify f k =>
      rw [hpc] at hp
      simp only [runOp, hpc, Option.some.injEq] at hrun
      subst hrun
      rw [goto_self]
      exact hp
    | cancelTimers f k =>
      rw [hpc] at hp
      simp only [runOp, hpc] at hrun
      split at hrun <;> cases hrun <;> rw [goto_self] <;> exact hp
    | wake f k =>
      rw [hpc] at hp
      have hk : k.isRecvTask = false := by simpa [Pc.spent] using hp
      simp only [runOp, hpc] at hrun
      split at hrun
      · cases hrun
        rw [goto_self]
        exact hcont k _ hk
      split at hrun
      · cases hrun
        rw [goto_self]
        exact hcont k _ hk
      split at hrun
      · cases hrun
        rw [goto_self]
        rfl
      · cases hrun
        rw [goto_self]
        exact hcont k _ hk
    | done r => simp [runOp, hpc] at hrun
    | _ => rw [hpc] at hp; cases hp
  by_cases hpost : l = .post i
  · subst hpost
    obtain ⟨_, ⟨_, rfl⟩ | ⟨_, _, _, hpc⟩⟩ := runPosting_cases hs
    · exact hp
    · rw [hpc]
      rfl
  · rcases pc_others h hpost hrun ⟨hidle, hwait⟩ with he | ⟨_, k, hk, _⟩
    · rw [he]
      exact hp
    · exact absurd hk (hsus k)

/-! ## What a list of operations has taken -/

/-- The values that the operations `is` took, in lock order. -/
def Sys.takesOf (s : Sys T) (is : List OpId) : List T :=
  (s.takes.filter fun p => p.1 ∈ is).map Prod.snd

theorem takes_append {es : List (Event T)} (h : t.log = s.log ++ es) :
    t.takes = s.takes ++ es.filterMap Event.take? := by
  unfold Sys.takes
  rw [h, List.filterMap_append]

/-- The events in which `i` takes a value. -/
theorem filter_take (es : List (Event T)) (i : OpId) :
    ((es.filterMap Event.take?).filter fun p => p.1 = i).map Prod.snd =
      es.filterMap (Event.takenBy? i) := by
  induction es with
  | nil => rfl
  | cons e es ih =>
    cases e with
    | taken j v =>
      by_cases hj : j = i
      · simpa [Event.take?, Event.takenBy?, hj] using ih
      · simpa [Event.take?, Event.takenBy?, hj] using ih
    | _ =>
      rw [List.filterMap_cons_none rfl, List.filterMap_cons_none rfl]
      exact ih

theorem takesOf_nil (s : Sys T) : s.takesOf [] = [] := by
  simp [Sys.takesOf]

/-- An operation that has taken nothing adds nothing. -/
theorem takesOf_append {is : List OpId} (h : s.takenBy i = []) :
    s.takesOf (is ++ [i]) = s.takesOf is := by
  unfold Sys.takesOf
  congr 1
  refine List.filter_congr fun p hp => ?_
  have hne : p.1 ≠ i := by
    rintro rfl
    have hm : p.2 ∈ s.takenBy p.1 := mem_takes.mp hp
    rw [h] at hm
    cases hm
  simp [hne]

/-- When at most `i` of them takes something in a step, what it takes comes last. -/
theorem takesOf_step {is : List OpId} (h : StepSpec s l t) (hi : i ∈ is)
    (hothers : ∀ j ∈ is, j ≠ i → t.takenBy j = s.takenBy j) :
    ∃ vs, t.takesOf is = s.takesOf is ++ vs ∧ t.takenBy i = s.takenBy i ++ vs := by
  obtain ⟨es, hl⟩ := log_grows h
  have hnone : ∀ j ∈ is, j ≠ i → es.filterMap (Event.takenBy? j) = [] := by
    intro j hj hne
    have he := hothers j hj hne
    rw [takenBy_append hl] at he
    exact List.append_cancel_left (he.trans (List.append_nil _).symm)
  refine ⟨es.filterMap (Event.takenBy? i), ?_, takenBy_append hl⟩
  unfold Sys.takesOf
  rw [takes_append hl, List.filter_append, List.map_append, ← filter_take es i]
  congr 2
  refine List.filter_congr fun p hp => ?_
  by_cases hp' : p.1 = i
  · simp [hp', hi]
  · have hn : p.1 ∉ is := by
      intro hm
      have hnil := hnone p.1 hm hp'
      rw [← filter_take es p.1] at hnil
      have hmem : p.2 ∈ ((es.filterMap Event.take?).filter fun q => q.1 = p.1).map Prod.snd :=
        List.mem_map.mpr ⟨p, List.mem_filter.mpr ⟨hp, by simp⟩, rfl⟩
      rw [hnil] at hmem
      cases hmem
    simp [hp', hn]

theorem takesOf_same {is : List OpId} (h : StepSpec s l t)
    (hothers : ∀ j ∈ is, t.takenBy j = s.takenBy j) : t.takesOf is = s.takesOf is := by
  cases is with
  | nil => rw [takesOf_nil, takesOf_nil]
  | cons i is =>
    obtain ⟨vs, hof, hby⟩ := takesOf_step h (List.mem_cons_self (a := i)) fun j hj _ => hothers j hj
    rw [hothers i List.mem_cons_self] at hby
    have hvs : vs = [] := (List.append_cancel_left (hby.symm.trans (List.append_nil _).symm))
    rw [hof, hvs, List.append_nil]

end LuvCoro.Channel
