import LuvCoro.TaskScope.Join

/-! # How `join` ends

Beside a scope, an observer notes which failures were recorded, whose handler has
requested the stop, which tokens were stopped when the last child counted itself
out, and which calls of `join` have come to the head of their loop since their
token was stopped. It only watches: every run of a scope is one of the observed. -/
namespace LuvCoro.TaskScope

open Transition LuvCoro.Channel

universe u
variable {E : Type u}

/-! ## The observer -/

namespace Scope

/-- The failure that a step records. -/
def failing (s : Scope E) : Label E → List (Nat × E)
  | .child k _ _ =>
    match s.children[k]? with
    | some (.failed e) => [(k, e)]
    | _ => []
  | _ => []

/-- The child that requests the stop in a step. -/
def requesting (s : Scope E) : Label E → List Nat
  | .child k _ _ =>
    match s.children[k]? with
    | some .recorded => [k]
    | _ => []
  | _ => []

/-- The last child counts itself out. -/
def lastLeaves (s : Scope E) : Label E → Bool
  | .child k _ _ =>
    match s.children[k]? with
    | some .finished => s.active - 1 == 0
    | _ => false
  | _ => false

/-- The call `j` of `join` is at the head of its loop after its token was stopped. -/
def hears (s : Scope E) (j : Nat) : Label E → Bool
  | .joinStep j' _ _ =>
    match (s.joins j).pc with
    | .loop => j == j' && (s.joins j).stopRequested
    | _ => false
  | _ => false

/-- The call `j` of `join` ends in a step. -/
def ends (s t : Scope E) (j : Nat) : Bool :=
  match (s.joins j).pc, (t.joins j).pc with
  | .done _, _ => false
  | _, .done _ => true
  | _, _ => false

end Scope

/-- What was noted when a call of `join` has ended. -/
structure Ending (E : Type u) where
  active : Nat
  failures : List (Nat × E)
  requested : List Nat
  stopRequested : Bool
  inTime : Bool
  heard : Bool

structure Observed (E : Type u) where
  scope : Scope E
  failures : List (Nat × E) := []
  requested : List Nat := []
  inTime : Nat → Bool := fun _ => false
  heard : Nat → Bool := fun _ => false
  ended : Nat → Option (Ending E) := fun _ => none

namespace Observed

/-- A token that cannot be stopped is none. -/
def ending (s : Observed E) (t : Scope E) (j : Nat) : Ending E where
  active := t.active
  failures := s.failures
  requested := s.requested
  stopRequested := t.stopRequested
  inTime := (t.joins j).stopPossible && s.inTime j
  heard := (t.joins j).stopPossible && s.heard j

def note (s : Observed E) (l : Label E) (t : Scope E) : Observed E where
  scope := t
  failures := s.failures ++ s.scope.failing l
  requested := s.requested ++ s.scope.requesting l
  inTime j := if s.scope.lastLeaves l then (t.joins j).stopRequested else s.inTime j
  heard j := s.heard j || s.scope.hears j l
  ended j := if s.scope.ends t j then some (s.ending t j) else s.ended j

end Observed

def observed (E : Type u) : System (Observed E) (Label E) where
  init s := s = { scope := Scope.new }
  step s l := (step s.scope l).map (s.note l)

theorem observed_refines : Refines (observed E) (system E) Observed.scope where
  init s h := by
    cases h
    exact rfl
  step s l t _ h := by
    obtain ⟨u, hu, rfl⟩ := Option.map_eq_some_iff.mp h
    exact .inr ⟨l, hu⟩

/-- The observer does not stand in the way of a run. -/
theorem observed_of_reachable {s : Scope E} (h : Reachable (system E) s) :
    ∃ o, Reachable (observed E) o ∧ o.scope = s := by
  induction h with
  | init h0 =>
    cases h0
    exact ⟨_, .init rfl, rfl⟩
  | step _ _ hs ih =>
    obtain ⟨o, ho, rfl⟩ := ih
    exact ⟨o.note _ _, ho.next (Option.map_eq_some_iff.mpr ⟨_, hs, rfl⟩), rfl⟩

/-! ## What is promised -/

namespace Ending

/-- The first failure that was recorded, with the stop that it requested; or the
cancellation, when the token was stopped before the last child had finished. -/
def Promised (e : Ending E) (r : JoinResult E) : Prop :=
  match e.failures with
  | (k, x) :: _ => r = .childFailed x ∧ k ∈ e.requested ∧ e.stopRequested = true
  | [] => r = if e.inTime then .operationCancelled else .completed

/-- Nobody has failed, and `join` came to the head of its loop after its token was
stopped although the last child had finished before; or it did not, although the
last child had not. -/
def Missed (e : Ending E) : Prop := e.failures = [] ∧ e.heard ≠ e.inTime

end Ending

/-! ## The children -/

/-- What is noted of the children. -/
structure Noted (s : Observed E) : Prop where
  active : s.scope.active = s.scope.children.countP Child.counted
  first : s.scope.firstException = s.failures.head?.map Prod.snd
  failures : ∀ p ∈ s.failures,
    s.scope.children[p.1]? = some .recorded ∨ p.1 ∈ s.requested
  requested : ∀ k ∈ s.requested, s.scope.stopRequested = true

variable {s : Observed E} {t u : Scope E}

theorem noted_init : Noted ({ scope := Scope.new } : Observed E) :=
  ⟨rfl, rfl, by simp, by simp⟩

/-- A step that leaves the children alone. -/
theorem noted_same {l : Label E} (h : Noted s) (hk : t.children = s.scope.children)
    (ha : t.active = s.scope.active) (he : t.firstException = s.scope.firstException)
    (hs : s.scope.stopRequested = true → t.stopRequested = true)
    (hf : s.scope.failing l = []) (hr : s.scope.requesting l = []) : Noted (s.note l t) := by
  constructor
  · show t.active = t.children.countP Child.counted
    rw [ha, hk]
    exact h.active
  · show t.firstException = (s.failures ++ s.scope.failing l).head?.map Prod.snd
    rw [he, hf, List.append_nil]
    exact h.first
  · intro p hp
    simp only [Observed.note, hf, hr, List.append_nil, hk] at hp ⊢
    exact h.failures p hp
  · intro k hk'
    simp only [Observed.note, hr, List.append_nil] at hk'
    exact hs (h.requested k hk')

/-- A child that has not recorded a failure goes on. -/
theorem failures_setChild {k : Nat} {c d : Child E} (h : Noted s)
    (hk : s.scope.children[k]? = some c) (hc : c ≠ .recorded) :
    ∀ p ∈ s.failures, (s.scope.children.set k d)[p.1]? = some .recorded ∨ p.1 ∈ s.requested := by
  intro p hp
  rcases h.failures p hp with hrec | hreq
  · by_cases hpk : k = p.1
    · rw [hpk, hrec] at hk
      cases hk
      exact absurd rfl hc
    · left
      rw [List.getElem?_set_ne hpk]
      exact hrec
  · exact .inr hreq

theorem noted_spawn (h : Noted s) : Noted (s.note .spawn (spawn s.scope)) := by
  constructor
  · show s.scope.active + 1 = (s.scope.children ++ [Child.running]).countP Child.counted
    rw [h.active, List.countP_append]
    rfl
  · show s.scope.firstException = (s.failures ++ []).head?.map Prod.snd
    rw [List.append_nil]
    exact h.first
  · intro p hp
    simp only [Observed.note, Scope.failing, Scope.requesting, List.append_nil] at hp ⊢
    refine (h.failures p hp).imp_left fun hrec => ?_
    have hlt := (List.getElem?_eq_some_iff.mp hrec).1
    exact (List.getElem?_append_left hlt).trans hrec
  · intro k hk
    simp only [Observed.note, Scope.requesting, List.append_nil] at hk
    exact h.requested k hk

/-- A child goes on, and neither records anything nor requests the stop. -/
theorem noted_setChild {l : Label E} {k n : Nat} {c d : Child E} (h : Noted s)
    (hk : s.scope.children[k]? = some c) (hc : c ≠ .recorded)
    (ht : t.children = s.scope.children.set k d) (ha : t.active = n)
    (hn : n = (s.scope.children.set k d).countP Child.counted)
    (he : t.firstException = s.scope.firstException)
    (hs : t.stopRequested = s.scope.stopRequested)
    (hf : s.scope.failing l = []) (hr : s.scope.requesting l = []) : Noted (s.note l t) := by
  constructor
  · show t.active = t.children.countP Child.counted
    rw [ht, ha]
    exact hn
  · show t.firstException = (s.failures ++ s.scope.failing l).head?.map Prod.snd
    rw [he, hf, List.append_nil]
    exact h.first
  · intro p hp
    simp only [Observed.note, hf, hr, List.append_nil, ht] at hp ⊢
    exact failures_setChild h hk hc p hp
  · intro k' hk'
    simp only [Observed.note, hr, List.append_nil, hs] at hk' ⊢
    exact h.requested k' hk'

/-- The count when a child goes on without leaving it. -/
theorem counted_same {k : Nat} {c d : Child E} (h : Noted s)
    (hk : s.scope.children[k]? = some c) (hd : d.counted = c.counted) :
    s.scope.active = (s.scope.children.set k d).countP Child.counted := by
  have hn := counted_setChild hk d
  rw [hd] at hn
  have ha := h.active
  simp only [Scope.setChild] at hn
  omega

theorem noted_finish {k : Nat} {thrown : Option E} (h : Noted s)
    (hs : finish s.scope k thrown = some t) : Noted (s.note (.finish k thrown) t) := by
  obtain ⟨hk, c, rfl, rfl | ⟨e, rfl⟩⟩ := finish_eq hs
  · exact noted_setChild h hk (by simp) rfl rfl (counted_same h hk rfl) rfl rfl rfl rfl
  · exact noted_setChild h hk (by simp) rfl rfl (counted_same h hk rfl) rfl rfl rfl rfl

theorem noted_record {k : Nat} {e : E} {i : OpId} {loop : Bool} (h : Noted s)
    (hk : s.scope.children[k]? = some (.failed e)) :
    Noted (s.note (.child k i loop) (Scope.setChild
      { s.scope with firstException := some (s.scope.firstException.getD e) } k .recorded)) := by
  have hf : s.scope.failing (.child k i loop) = [(k, e)] := by simp [Scope.failing, hk]
  have hr : s.scope.requesting (.child k i loop) = [] := by simp [Scope.requesting, hk]
  have hlt := (List.getElem?_eq_some_iff.mp hk).1
  constructor
  · exact counted_same h hk rfl
  · simp only [Observed.note, Scope.setChild, hf, h.first]
    cases s.failures with
    | nil => rfl
    | cons p ps => rfl
  · intro p hp
    simp only [Observed.note, Scope.setChild, hf, hr, List.append_nil, List.mem_append,
      List.mem_singleton] at hp ⊢
    rcases hp with hp | rfl
    · exact failures_setChild h hk (by simp) p hp
    · exact .inl (List.getElem?_set_self hlt)
  · intro k' hk'
    simp only [Observed.note, hr, List.append_nil] at hk'
    exact h.requested k' hk'

theorem noted_request {k : Nat} {i : OpId} {loop : Bool} (h : Noted s)
    (hk : s.scope.children[k]? = some .recorded) :
    Noted (s.note (.child k i loop)
      (Scope.setChild { s.scope with stopRequested := true } k .finished)) := by
  have hf : s.scope.failing (.child k i loop) = [] := by simp [Scope.failing, hk]
  have hr : s.scope.requesting (.child k i loop) = [k] := by simp [Scope.requesting, hk]
  constructor
  · exact counted_same h hk rfl
  · simp only [Observed.note, Scope.setChild, hf, List.append_nil]
    exact h.first
  · intro p hp
    simp only [Observed.note, Scope.setChild, hf, hr, List.append_nil, List.mem_append,
      List.mem_singleton] at hp ⊢
    by_cases hpk : k = p.1
    · exact .inr (.inr hpk.symm)
    · rw [List.getElem?_set_ne hpk]
      exact (h.failures p hp).imp_right .inl
  · intro k' _
    rfl

theorem noted_leave {k : Nat} {i : OpId} {loop : Bool} {d : Child E} (h : Noted s)
    (hk : s.scope.children[k]? = some .finished) (hd : d.counted = false) :
    Noted (s.note (.child k i loop)
      (Scope.setChild { s.scope with active := s.scope.active - 1 } k d)) := by
  have hf : s.scope.failing (.child k i loop) = [] := by simp [Scope.failing, hk]
  have hr : s.scope.requesting (.child k i loop) = [] := by simp [Scope.requesting, hk]
  refine noted_setChild (n := s.scope.active - 1) h hk (by simp) rfl rfl ?_ rfl rfl hf hr
  have hn := counted_setChild hk d
  rw [hd, if_neg Bool.false_ne_true, if_pos (by rfl)] at hn
  have ha := h.active
  simp only [Scope.setChild] at hn
  omega

theorem chanStep_eq {s t : Scope E} {l : Channel.Label Unit} (h : s.chanStep l = some t) :
    ∃ c, t = { s with completions := c } := by
  obtain ⟨c, _, rfl⟩ := Option.map_eq_some_iff.mp h
  exact ⟨c, rfl⟩

theorem noted_runChild {k : Nat} {i : OpId} {loop : Bool} (h : Noted s)
    (hs : runChild s.scope k i loop = some t) : Noted (s.note (.child k i loop) t) := by
  unfold runChild at hs
  split at hs
  case h_1 e hk =>
    cases hs
    exact noted_record h hk
  case h_2 hk =>
    cases hs
    exact noted_request h hk
  case h_3 hk =>
    cases hs
    refine noted_leave h hk ?_
    split <;> rfl
  case h_4 hk =>
    obtain ⟨u, hu, rfl⟩ := Option.map_eq_some_iff.mp hs
    obtain ⟨c, rfl⟩ := chanStep_eq hu
    exact noted_setChild h hk (by simp) rfl rfl (counted_same h hk rfl) rfl rfl
      (by simp [Scope.failing, hk]) (by simp [Scope.requesting, hk])
  case h_5 hk =>
    obtain ⟨u, hu, rfl⟩ := Option.map_eq_some_iff.mp hs
    obtain ⟨c, rfl⟩ := chanStep_eq hu
    exact noted_setChild h hk (by simp) rfl rfl (counted_same h hk rfl) rfl rfl
      (by simp [Scope.failing, hk]) (by simp [Scope.requesting, hk])
  case h_6 => cases hs

/-! ## The calls of `join` -/

/-- A call is `cancelled` when it has heard of a stop that is possible. -/
structure Hears (s : Observed E) : Prop where
  cancelled : ∀ j, (s.scope.joins j).cancelled = ((s.scope.joins j).stopPossible && s.heard j)
  idle : ∀ j, (s.scope.joins j).pc = .idle → s.heard j = false

theorem hears_init : Hears ({ scope := Scope.new } : Observed E) :=
  ⟨fun _ => rfl, fun _ _ => rfl⟩

/-- A step that leaves the calls of `join` where they are. -/
theorem hears_same {l : Label E} (h : Hears s) (hj : t.joins = s.scope.joins)
    (hl : ∀ j, s.scope.hears j l = false) : Hears (s.note l t) := by
  constructor
  · intro j
    simp only [Observed.note, hj, hl, Bool.or_false]
    exact h.cancelled j
  · intro j hidle
    simp only [Observed.note, hj, hl, Bool.or_false] at hidle ⊢
    exact h.idle j hidle

/-- A step of one call. -/
theorem hears_setJoin {l : Label E} {j : Nat} {x : Join E} (h : Hears s)
    (hj : t.joins = Function.update s.scope.joins j x)
    (hc : x.cancelled = (x.stopPossible && (s.heard j || s.scope.hears j l)))
    (hi : x.pc = .idle → s.heard j = false ∧ s.scope.hears j l = false)
    (hl : ∀ j', j' ≠ j → s.scope.hears j' l = false) : Hears (s.note l t) := by
  constructor
  · intro j'
    simp only [Observed.note, hj]
    by_cases hne : j' = j
    · subst hne
      rw [Function.update_self]
      exact hc
    · rw [Function.update_of_ne hne, hl j' hne, Bool.or_false]
      exact h.cancelled j'
  · intro j' hidle
    simp only [Observed.note, hj] at hidle ⊢
    by_cases hne : j' = j
    · subst hne
      rw [Function.update_self] at hidle
      simp [hi hidle]
    · rw [Function.update_of_ne hne] at hidle
      rw [hl j' hne, Bool.or_false]
      exact h.idle j' hidle

theorem hears_startJoin {j : Nat} {stopPossible : Bool} {i : OpId} {loop : Bool} (h : Hears s)
    (hs : startJoin s.scope j stopPossible i loop = some t) :
    Hears (s.note (.join j stopPossible i loop) t) := by
  simp only [startJoin] at hs
  split at hs
  · rename_i hidle
    have hheard := h.idle j hidle
    have hc : (s.scope.joins j).cancelled = false := by
      rw [h.cancelled, hheard, Bool.and_false]
    split at hs
    · obtain ⟨u, hu, rfl⟩ := Option.map_eq_some_iff.mp hs
      obtain ⟨c, rfl⟩ := chanStep_eq hu
      exact hears_setJoin h rfl (by simp [Scope.hears, hheard, hc]) (by simp) fun _ _ => rfl
    · cases hs
      exact hears_setJoin h rfl (by simp [Scope.hears, hheard, hc]) (by simp) fun _ _ => rfl
  · cases hs

theorem hears_requestStop {j : Nat} {i : OpId} {loop : Bool} (h : Hears s)
    (hs : requestStop s.scope j i loop = some t) : Hears (s.note (.requestStop j i loop) t) := by
  simp only [requestStop] at hs
  split at hs
  · cases hs
  · split at hs
    · obtain ⟨c, rfl⟩ := chanStep_eq hs
      exact hears_setJoin h rfl (by simp [Scope.hears, h.cancelled])
        (fun hidle => ⟨h.idle j hidle, rfl⟩) fun _ _ => rfl
    · cases hs
      exact hears_setJoin h rfl (by simp [Scope.hears, h.cancelled])
        (fun hidle => ⟨h.idle j hidle, rfl⟩) fun _ _ => rfl

/-- A step of `join` that does not start at the head of the loop. -/
theorem hears_moveJoin {j : Nat} {i : OpId} {loop : Bool} {pc : JoinPc E} (h : Hears s)
    (hj : t.joins = Function.update s.scope.joins j { s.scope.joins j with pc := pc })
    (hpc : pc ≠ .idle) (hl : ∀ j', s.scope.hears j' (.joinStep j i loop) = false) :
    Hears (s.note (.joinStep j i loop) t) := by
  refine hears_setJoin h hj ?_ (fun hidle => absurd hidle hpc) fun j' _ => hl j'
  rw [hl, Bool.or_false]
  exact h.cancelled j

theorem hears_elsewhere {s : Scope E} {j j' : Nat} {i : OpId} {loop : Bool}
    (h : (s.joins j).pc ≠ .loop) : s.hears j' (.joinStep j i loop) = false := by
  simp only [Scope.hears]
  split
  · rename_i hpc
    by_cases hj : j' = j
    · exact absurd (hj ▸ hpc) h
    · simp [hj]
  · rfl

theorem hears_runJoin {j : Nat} {i : OpId} {loop : Bool} (h : Hears s)
    (hs : runJoin s.scope j i loop = some t) : Hears (s.note (.joinStep j i loop) t) := by
  simp only [runJoin] at hs
  split at hs
  case h_1 i' hpc =>
    split at hs
    · cases hs
      exact hears_moveJoin h rfl (by simp) fun _ => hears_elsewhere (by simp [hpc])
    · cases hs
  case h_2 hpc =>
    have hself : s.scope.hears j (.joinStep j i loop) = (s.scope.joins j).stopRequested := by
      simp [Scope.hears, hpc]
    have hother : ∀ j', j' ≠ j → s.scope.hears j' (.joinStep j i loop) = false := by
      intro j' hne
      simp only [Scope.hears]
      split
      · simp [hne]
      · rfl
    split at hs
    · rename_i hstop
      cases hs
      simp only [Bool.and_eq_true] at hstop
      refine hears_setJoin h rfl ?_ (by simp) hother
      simp [hself, hstop.1, hstop.2]
    · rename_i hstop
      cases hs
      refine hears_setJoin h rfl ?_ (by simp) hother
      simp only [hself, h.cancelled]
      generalize (s.scope.joins j).stopPossible = possible at hstop
      generalize (s.scope.joins j).stopRequested = requested at hstop
      cases possible with
      | false => simp
      | true => simp at hstop; simp [hstop]
  case h_3 hpc =>
    split at hs
    · cases hs
      exact hears_moveJoin h rfl (by simp) fun _ => hears_elsewhere (by simp [hpc])
    · cases hs
      exact hears_moveJoin h rfl (by simp) fun _ => hears_elsewhere (by simp [hpc])
  case h_4 hpc =>
    obtain ⟨u, hu, rfl⟩ := Option.map_eq_some_iff.mp hs
    obtain ⟨c, rfl⟩ := chanStep_eq hu
    exact hears_moveJoin h rfl (by simp) fun _ => hears_elsewhere (by simp [hpc])
  case h_5 i' hpc =>
    split at hs
    · cases hs
      exact hears_moveJoin h rfl (by simp) fun _ => hears_elsewhere (by simp [hpc])
    · cases hs
      exact hears_moveJoin h rfl (by simp) fun _ => hears_elsewhere (by simp [hpc])
    · cases hs
  case h_6 e hpc =>
    split at hs
    · cases hs
      exact hears_moveJoin h rfl (by simp) fun _ => hears_elsewhere (by simp [hpc])
    · cases hs
      exact hears_moveJoin h rfl (by simp) fun _ => hears_elsewhere (by simp [hpc])
  all_goals cases hs

/-! ## The steps -/

theorem noted_startJoin {j : Nat} {stopPossible : Bool} {i : OpId} {loop : Bool} (h : Noted s)
    (hs : startJoin s.scope j stopPossible i loop = some t) :
    Noted (s.note (.join j stopPossible i loop) t) := by
  simp only [startJoin] at hs
  split at hs
  · split at hs
    · obtain ⟨u, hu, rfl⟩ := Option.map_eq_some_iff.mp hs
      obtain ⟨c, rfl⟩ := chanStep_eq hu
      exact noted_same h rfl rfl rfl (fun _ => rfl) rfl rfl
    · cases hs
      exact noted_same h rfl rfl rfl id rfl rfl
  · cases hs

theorem noted_requestStop {j : Nat} {i : OpId} {loop : Bool} (h : Noted s)
    (hs : requestStop s.scope j i loop = some t) : Noted (s.note (.requestStop j i loop) t) := by
  simp only [requestStop] at hs
  split at hs
  · cases hs
  · split at hs
    · obtain ⟨c, rfl⟩ := chanStep_eq hs
      exact noted_same h rfl rfl rfl (fun _ => rfl) rfl rfl
    · cases hs
      exact noted_same h rfl rfl rfl id rfl rfl

/-- What a step of `join` leaves of the scope. -/
theorem runJoin_frame {s t : Scope E} {j : Nat} {i : OpId} {loop : Bool}
    (hs : runJoin s j i loop = some t) : t.children = s.children ∧ t.active = s.active ∧
      t.firstException = s.firstException ∧ (s.stopRequested = true → t.stopRequested = true) := by
  simp only [runJoin] at hs
  split at hs
  case h_4 =>
    obtain ⟨u, hu, rfl⟩ := Option.map_eq_some_iff.mp hs
    obtain ⟨c, rfl⟩ := chanStep_eq hu
    exact ⟨rfl, rfl, rfl, id⟩
  case h_2 =>
    split at hs
    · cases hs
      exact ⟨rfl, rfl, rfl, fun _ => rfl⟩
    · cases hs
      exact ⟨rfl, rfl, rfl, id⟩
  case h_7 => cases hs
  case h_8 => cases hs
  all_goals
    split at hs <;> first
      | cases hs; exact ⟨rfl, rfl, rfl, id⟩
      | cases hs

theorem noted_step {l : Label E} (h : Noted s) (hs : step s.scope l = some t) :
    Noted (s.note l t) := by
  cases l with
  | spawn =>
    cases hs
    exact noted_spawn h
  | finish k thrown => exact noted_finish h hs
  | child k i loop => exact noted_runChild h hs
  | join j stopPossible i loop => exact noted_startJoin h hs
  | joinStep j i loop =>
    obtain ⟨hk, ha, he, hstop⟩ := runJoin_frame hs
    exact noted_same h hk ha he hstop rfl rfl
  | requestStop j i loop => exact noted_requestStop h hs
  | completions l =>
    cases l with
    | start i loop call => cases hs
    | _ =>
      obtain ⟨c, rfl⟩ := chanStep_eq hs
      exact noted_same h rfl rfl rfl id rfl rfl

theorem joins_runChild {s t : Scope E} {k : Nat} {i : OpId} {loop : Bool}
    (hs : runChild s k i loop = some t) : t.joins = s.joins := by
  unfold runChild at hs
  split at hs
  case h_4 =>
    obtain ⟨u, hu, rfl⟩ := Option.map_eq_some_iff.mp hs
    obtain ⟨c, rfl⟩ := chanStep_eq hu
    rfl
  case h_5 =>
    obtain ⟨u, hu, rfl⟩ := Option.map_eq_some_iff.mp hs
    obtain ⟨c, rfl⟩ := chanStep_eq hu
    rfl
  all_goals
    cases hs
    try rfl

theorem joins_finish {s t : Scope E} {k : Nat} {thrown : Option E}
    (hs : finish s k thrown = some t) : t.joins = s.joins := by
  obtain ⟨_, c, rfl, _⟩ := finish_eq hs
  rfl

theorem hears_step {l : Label E} (h : Hears s) (hs : step s.scope l = some t) :
    Hears (s.note l t) := by
  cases l with
  | spawn =>
    cases hs
    exact hears_same h rfl fun _ => rfl
  | finish k thrown => exact hears_same h (joins_finish hs) fun _ => rfl
  | child k i loop => exact hears_same h (joins_runChild hs) fun _ => rfl
  | join j stopPossible i loop => exact hears_startJoin h hs
  | joinStep j i loop => exact hears_runJoin h hs
  | requestStop j i loop => exact hears_requestStop h hs
  | completions l =>
    cases l with
    | start i loop call => cases hs
    | _ =>
      obtain ⟨c, rfl⟩ := chanStep_eq hs
      exact hears_same h rfl fun _ => rfl

/-! ## The end of a call -/

/-- A call of `join` stands still unless it is called or takes a step. -/
theorem pc_step {s t : Scope E} {l : Label E} (j : Nat) (hs : step s l = some t) :
    (t.joins j).pc = (s.joins j).pc ∨
      (∃ i loop, l = .joinStep j i loop ∧ runJoin s j i loop = some t) ∨
      ((s.joins j).pc = .idle ∧ ∀ r, (t.joins j).pc ≠ .done r) := by
  have hput : ∀ (u : Scope E) (j' : Nat) (x : Join E), j ≠ j' →
      ((u.setJoin j' x).joins j).pc = (u.joins j).pc := by
    intro u j' x hne
    rw [setJoin_of_ne u x hne]
  cases l with
  | spawn =>
    cases hs
    exact .inl rfl
  | finish k thrown => exact .inl (by rw [joins_finish hs])
  | child k i loop => exact .inl (by rw [joins_runChild hs])
  | join j' stopPossible i loop =>
    simp only [step, startJoin] at hs
    by_cases hj : j = j'
    · subst hj
      right
      right
      split at hs
      · rename_i hidle
        refine ⟨hidle, fun r => ?_⟩
        split at hs
        · obtain ⟨u, _, rfl⟩ := Option.map_eq_some_iff.mp hs
          rw [setJoin_self]
          simp
        · cases hs
          rw [setJoin_self]
          simp
      · cases hs
    · left
      split at hs
      · split at hs
        · obtain ⟨u, hu, rfl⟩ := Option.map_eq_some_iff.mp hs
          obtain ⟨c, rfl⟩ := chanStep_eq hu
          exact hput _ j' _ hj
        · cases hs
          exact hput _ j' _ hj
      · cases hs
  | joinStep j' i loop =>
    by_cases hj : j = j'
    · subst hj
      exact .inr (.inl ⟨i, loop, rfl, hs⟩)
    · left
      simp only [step, runJoin] at hs
      split at hs
      case h_4 =>
        obtain ⟨u, hu, rfl⟩ := Option.map_eq_some_iff.mp hs
        obtain ⟨c, rfl⟩ := chanStep_eq hu
        exact hput _ j' _ hj
      case h_7 => cases hs
      case h_8 => cases hs
      all_goals
        split at hs <;> first
          | cases hs; exact hput _ j' _ hj
          | cases hs
  | requestStop j' i loop =>
    left
    have hsame : ∀ x : Join E, x.pc = (s.joins j').pc →
        ((s.setJoin j' x).joins j).pc = (s.joins j).pc := by
      intro x hx
      by_cases hj : j = j'
      · subst hj
        rw [setJoin_self]
        exact hx
      · exact hput s j' x hj
    simp only [step, requestStop] at hs
    split at hs
    · cases hs
    · split at hs
      · obtain ⟨c, rfl⟩ := chanStep_eq hs
        exact hsame _ rfl
      · cases hs
        exact hsame _ rfl
  | completions l =>
    cases l with
    | start i loop call => cases hs
    | _ =>
      obtain ⟨c, rfl⟩ := chanStep_eq hs
      exact .inl rfl

/-- Whichever exit a call of `join` takes with nobody active, it takes it with
the same outcome. -/
theorem runJoin_ends {s t : Scope E} {j : Nat} {i : OpId} {loop : Bool} {r : JoinResult E}
    (hs : runJoin s j i loop = some t) (hd : (t.joins j).pc = .done r) :
    t.stopRequested = s.stopRequested ∧ (t.joins j).stopPossible = (s.joins j).stopPossible ∧
      (t.active = 0 → r = s.outcome (s.joins j).cancelled) := by
  simp only [runJoin] at hs
  split at hs
  case h_3 =>
    split at hs
    · cases hs
      rw [setJoin_self] at hd ⊢
      cases hd
      exact ⟨rfl, rfl, fun _ => rfl⟩
    · cases hs
      simp [setJoin_self] at hd
  case h_6 =>
    split at hs
    · cases hs
      rw [setJoin_self] at hd ⊢
      cases hd
      exact ⟨rfl, rfl, fun _ => rfl⟩
    · rename_i hact
      cases hs
      rw [setJoin_self]
      exact ⟨rfl, rfl, fun h0 => absurd h0 (by simpa [Scope.setJoin] using hact)⟩
  case h_4 =>
    obtain ⟨u, hu, rfl⟩ := Option.map_eq_some_iff.mp hs
    simp [setJoin_self] at hd
  case h_7 => cases hs
  case h_8 => cases hs
  all_goals
    split at hs <;> first
      | cases hs; simp [setJoin_self] at hd
      | cases hs

/-- What the notes say of a call that ends with nobody active. -/
theorem ending_promised {j : Nat} (h : Noted s) (hh : Hears s)
    (ha : t.active = s.scope.active) (hs : t.stopRequested = s.scope.stopRequested)
    (hp : (t.joins j).stopPossible = (s.scope.joins j).stopPossible) (h0 : t.active = 0) :
    (s.ending t j).Promised (s.scope.outcome (s.scope.joins j).cancelled) ↔
      ¬ (s.ending t j).Missed := by
  have hcount := h.active
  rw [← ha, h0, eq_comm, List.countP_eq_zero] at hcount
  have hfirst := h.first
  have hfailures := h.failures
  have hrequested := h.requested
  simp only [Ending.Promised, Ending.Missed, Observed.ending, Scope.outcome, hs, hp]
  cases hf : s.failures with
  | cons p ps =>
    obtain ⟨k, x⟩ := p
    rw [hf] at hfirst hfailures
    -- its handler has requested the stop, since it is not in the count any more
    have hreq : k ∈ s.requested := by
      refine (hfailures (k, x) List.mem_cons_self).resolve_left fun hrec => ?_
      exact hcount _ (List.mem_of_getElem? hrec) rfl
    simp [hfirst, hreq, hrequested k hreq]
  | nil =>
    rw [hf] at hfirst
    rw [hh.cancelled]
    simp only [hfirst, List.head?_nil, Option.map_none, true_and]
    generalize ((s.scope.joins j).stopPossible && s.heard j) = heard
    generalize ((s.scope.joins j).stopPossible && s.inTime j) = inTime
    cases heard <;> cases inTime <;> simp

/-- Each call of `join` that has ended with nobody active has kept the promise,
unless it has missed the stop. -/
def Observed.Settled (s : Observed E) : Prop :=
  ∀ j r, (s.scope.joins j).pc = .done r →
    ∃ e, s.ended j = some e ∧ (e.active = 0 → (e.Promised r ↔ ¬ e.Missed))

theorem settled_step {l : Label E} (h : Noted s) (hh : Hears s) (hset : s.Settled)
    (hs : step s.scope l = some t) : (s.note l t).Settled := by
  intro j r hd
  replace hd : (t.joins j).pc = .done r := hd
  by_cases hdone : ∃ r', (s.scope.joins j).pc = .done r'
  · obtain ⟨r', hr'⟩ := hdone
    have hpc : (t.joins j).pc = (s.scope.joins j).pc := by
      rcases pc_step j hs with hpc | ⟨i, loop, _, hrun⟩ | ⟨hidle, _⟩
      · exact hpc
      · simp [runJoin, hr'] at hrun
      · rw [hr'] at hidle
        cases hidle
    have hno : s.scope.ends t j = false := by simp [Scope.ends, hr']
    rw [hpc] at hd
    simp only [Observed.note, hno, Bool.false_eq_true, if_false]
    exact hset j r hd
  · have hends : s.scope.ends t j = true := by
      simp only [Scope.ends, hd]
      split
      · rename_i r' hr'
        exact absurd ⟨r', hr'⟩ hdone
      · rfl
      · rename_i hno
        exact absurd rfl (hno r)
    refine ⟨s.ending t j, by simp [Observed.note, hends], fun h0 => ?_⟩
    rcases pc_step j hs with hpc | ⟨i, loop, _, hrun⟩ | ⟨_, hno⟩
    · exact absurd ⟨r, hpc.symm.trans hd⟩ hdone
    · obtain ⟨_, ha, _, _⟩ := runJoin_frame hrun
      obtain ⟨hstop, hp, hr⟩ := runJoin_ends hrun hd
      rw [hr h0]
      exact ending_promised h hh ha hstop hp h0
    · exact absurd hd (hno r)

theorem observed_inv (h : Reachable (observed E) s) : Noted s ∧ Hears s ∧ s.Settled := by
  refine h.invariant (I := fun s => Noted s ∧ Hears s ∧ s.Settled) ?_ ?_
  · intro s h0
    cases h0
    exact ⟨noted_init, hears_init, fun j r hd => by cases hd⟩
  · rintro s l t _ ⟨hn, hh, hset⟩ hs
    obtain ⟨u, hu, rfl⟩ := Option.map_eq_some_iff.mp hs
    exact ⟨noted_step hn hu, hears_step hh hu, settled_step hn hh hset hu⟩

/-- A call of `join` that ends with nobody active ends as promised, but where nobody
has failed and its token was stopped after the last time that it looked and before
the last child's end, or looked at after both. -/
theorem join_outcome (hs : Reachable (observed E) s) (j : Nat) (r : JoinResult E)
    (hd : (s.scope.joins j).pc = .done r) :
    ∃ e, s.ended j = some e ∧ (e.active = 0 → (e.Promised r ↔ ¬ e.Missed)) :=
  (observed_inv hs).2.2 j r hd

/-- The token is stopped before the only child finishes, and `join` is called after. -/
theorem join_outcome_cancelled : ∃ s : Observed Unit,
    (s.scope.joins 0).pc = .done .operationCancelled ∧
      ∃ e, s.ended 0 = some e ∧ (e.active = 0 → (e.Promised .operationCancelled ↔ ¬ e.Missed)) := by
  have h0 : Reachable (observed Unit) { scope := Scope.new } := .init rfl
  have hs := h0.run (show run (observed Unit) { scope := Scope.new }
    [.spawn, .requestStop 0 9 false, .finish 0 none, .child 0 0 true, .join 0 true 9 true,
      .completions (.run 9), .completions (.run 9), .completions (.run 9), .completions (.run 9),
      .joinStep 0 0 true, .joinStep 0 0 true, .joinStep 0 0 true] = some _ from rfl)
  exact ⟨_, rfl, join_outcome hs 0 .operationCancelled rfl⟩

/-- `join` waits for a message when another thread stops its token. The child finishes
and closes `completions` before the stop callback has sent its message, and the call
returns as if nothing had been stopped. -/
theorem join_returns_though_stopped : ¬ ∀ s : Observed Unit, Reachable (observed Unit) s →
    ∀ j r, (s.scope.joins j).pc = .done r →
      ∃ e, s.ended j = some e ∧ (e.active = 0 → e.Promised r) := by
  intro hall
  have h0 : Reachable (observed Unit) { scope := Scope.new } := .init rfl
  have hs := h0.run (show run (observed Unit) { scope := Scope.new }
    [.spawn, .join 0 true 9 true, .joinStep 0 1 true, .joinStep 0 1 true, .joinStep 0 1 true,
      .completions (.run 1), .completions (.run 1), .requestStop 0 3 false, .finish 0 none,
      .child 0 2 true, .child 0 2 true, .completions (.run 2), .completions (.run 2),
      .completions (.run 2), .completions (.run 2), .completions (.runPosted 0 0),
      .completions .flushSwap, .completions (.flushResume 0), .completions (.run 1),
      .completions (.run 1), .completions (.run 1), .joinStep 0 1 true, .joinStep 0 1 true] =
        some _ from rfl)
  obtain ⟨e, he, hp⟩ := hall _ hs 0 .completed rfl
  cases he
  cases hp rfl

end LuvCoro.TaskScope
