import LuvCoro.Channel.Recv
import LuvCoro.TaskScope.System

/-! # What `join` waits for

`run_child` closes `completions` as soon as it leaves nobody active, which is
early when more children are spawned afterwards: a `join` that meets them throws
what `recv` throws. Unless that has happened before the call, `join` completes
after every child. -/
namespace LuvCoro.TaskScope

open Transition LuvCoro.Channel

universe u
variable {E : Type u} {s t : Scope E}

/-- The child is in the count. -/
def Child.counted : Child E → Bool
  | .running | .failed _ | .recorded | .finished => true
  | _ => false

/-- The child has left nobody active. -/
def Child.emptied : Child E → Bool
  | .close | .closing _ => true
  | _ => false

/-- Some child has left nobody active. -/
def Scope.Emptied (s : Scope E) : Prop := ∃ c ∈ s.children, c.emptied = true

/-- A `join` that has completed found no child left. -/
def Scope.JoinsAll (s : Scope E) : Prop :=
  ∀ j r, (s.joins j).pc = .done r → s.active = 0 ∧ ∀ c ∈ s.children, c.counted = false

/-- Every `spawn` comes before `join`. -/
def SpawnsFirst (s : Scope E) : Label E → Prop
  | .spawn => ∀ j, (s.joins j).pc = .idle
  | _ => True

/-- A `join` is called when nobody is active, or when somebody has been since
the first `spawn`. -/
def Unclosed (s : Scope E) : Label E → Prop
  | .join _ _ _ _ => s.active = 0 ∨ ¬ s.Emptied
  | _ => True

/-! ## The invariant -/

/-- What a `join` knows at its program point. -/
def JoinInv (s : Scope E) : JoinPc E → Prop
  | .receiving i => Recv s.completions i
  | .caught _ => s.completions.chan.closed = true
  | .done _ => s.active = 0
  | _ => True

structure Inv (s : Scope E) : Prop where
  completions : Reachable (Channel.system Unit) s.completions
  active : s.active = s.children.countP Child.counted
  closes : s.completions.Closes → s.Emptied
  late : ∀ j, (s.joins j).pc ≠ .idle → s.active = 0 ∨ ¬ s.Emptied
  join : ∀ j, JoinInv s (s.joins j).pc

/-- What other steps leave to a `join`. -/
structure Ahead (s t : Scope E) : Prop where
  recv : ∀ i, Recv s.completions i → Recv t.completions i
  closed : s.completions.chan.closed = true → t.completions.chan.closed = true
  active : s.active = 0 → t.active = 0

theorem Ahead.refl (s : Scope E) : Ahead s s := ⟨fun _ => id, id, id⟩

theorem Ahead.joinInv (h : Ahead s t) {p : JoinPc E} (hp : JoinInv s p) : JoinInv t p := by
  cases p with
  | receiving i => exact h.recv i hp
  | caught e => exact h.closed hp
  | done r => exact h.active hp
  | _ => trivial

/-- A step that leaves the calls of `join` where they are. -/
theorem inv_keep (h : Inv s) (ha : Ahead s t) (hj : ∀ j, (t.joins j).pc = (s.joins j).pc)
    (hc : Reachable (Channel.system Unit) t.completions)
    (hn : t.active = t.children.countP Child.counted) (hcl : t.completions.Closes → t.Emptied)
    (hl : s.active = 0 ∨ ¬ s.Emptied → t.active = 0 ∨ ¬ t.Emptied) : Inv t := by
  refine ⟨hc, hn, hcl, fun j hne => ?_, fun j => ?_⟩
  · rw [hj] at hne
    exact hl (h.late j hne)
  · rw [hj]
    exact ha.joinInv (h.join j)

theorem setJoin_self (s : Scope E) (j : Nat) (x : Join E) : (s.setJoin j x).joins j = x := by
  simp [Scope.setJoin]

theorem setJoin_of_ne (s : Scope E) (x : Join E) {j j' : Nat} (h : j' ≠ j) :
    (s.setJoin j x).joins j' = s.joins j' := by
  simp [Scope.setJoin, h]

/-- A step that takes one `join` further and leaves the children alone. -/
theorem inv_join {j : Nat} {x : Join E} (h : Inv s)
    (hstart : (s.joins j).pc = .idle → x.pc = .idle ∨ s.active = 0 ∨ ¬ s.Emptied)
    (hx : JoinInv s x.pc) : Inv (s.setJoin j x) := by
  have ha : Ahead s (s.setJoin j x) := ⟨fun _ => id, id, id⟩
  refine ⟨h.completions, h.active, h.closes, fun j' hne => ?_, fun j' => ?_⟩
  · by_cases hj : j' = j
    · subst hj
      rw [setJoin_self] at hne
      by_cases hidle : (s.joins j').pc = .idle
      · exact (hstart hidle).resolve_left hne
      · exact h.late j' hidle
    · rw [setJoin_of_ne s x hj] at hne
      exact h.late j' hne
  · by_cases hj : j' = j
    · subst hj
      rw [setJoin_self]
      exact ha.joinInv hx
    · rw [setJoin_of_ne s x hj]
      exact ha.joinInv (h.join j')

/-! ## The steps -/

/-- A step of the channel; `close` is called only when somebody has left nobody
active. -/
theorem inv_chanStep {l : Channel.Label Unit} (h : Inv s) (hs : s.chanStep l = some t)
    (hl : (∃ i loop, l = .start i loop .close) → s.Emptied) :
    Inv t ∧ t.joins = s.joins ∧ t.children = s.children ∧ Ahead s t := by
  obtain ⟨c, hstep, rfl⟩ := Option.map_eq_some_iff.mp hs
  have hi := reachable_inv h.completions
  have ha : Ahead s { s with completions := c } :=
    ⟨fun i hr => recv_step h.completions hr hstep, closed_step hi (inv_step hi hstep).1, id⟩
  refine ⟨inv_keep h ha (fun _ => rfl) (h.completions.next hstep) h.active (fun hc => ?_) id, rfl,
    rfl, ha⟩
  rcases closes_step (step_spec hi.ready hstep) hc with hc | hstart
  · exact h.closes hc
  · exact hl hstart

theorem inv_spawn (h : Inv s) (hs : ∀ j, (s.joins j).pc = .idle) : Inv (spawn s) := by
  refine ⟨h.completions, ?_, fun hc => ?_, fun j hne => absurd (hs j) hne, fun j => ?_⟩
  · show s.active + 1 = (s.children ++ [Child.running]).countP Child.counted
    rw [h.active, List.countP_append]
    rfl
  · obtain ⟨c, hm, he⟩ := h.closes hc
    exact ⟨c, List.mem_append_left _ hm, he⟩
  · show JoinInv _ (s.joins j).pc
    rw [hs]
    trivial

theorem emptied_setChild {k : Nat} {c d : Child E} (hk : s.children[k]? = some c)
    (he : d.emptied = c.emptied) : (s.setChild k d).Emptied ↔ s.Emptied := by
  constructor
  · intro ⟨x, hx, hem⟩
    rcases List.mem_or_eq_of_mem_set hx with hx | rfl
    · exact ⟨x, hx, hem⟩
    · exact ⟨c, List.mem_of_getElem? hk, he ▸ hem⟩
  · intro ⟨x, hx, hem⟩
    obtain ⟨n, hn⟩ := List.getElem?_of_mem hx
    by_cases hnk : k = n
    · subst hnk
      cases hk.symm.trans hn
      have hlen := (List.getElem?_eq_some_iff.mp hk).1
      exact ⟨d, List.mem_of_getElem? (List.getElem?_set_self hlen), he ▸ hem⟩
    · exact ⟨x, List.mem_of_getElem? ((List.getElem?_set_ne hnk).trans hn), hem⟩

theorem counted_setChild {k : Nat} {c : Child E} (hk : s.children[k]? = some c) (d : Child E) :
    (s.setChild k d).children.countP Child.counted + (if c.counted then 1 else 0) =
      s.children.countP Child.counted + (if d.counted then 1 else 0) := by
  obtain ⟨hlen, hget⟩ := List.getElem?_eq_some_iff.mp hk
  have hpos : c.counted = true → 0 < s.children.countP Child.counted := by
    intro hc
    exact List.countP_pos_iff.mpr ⟨c, List.mem_of_getElem? hk, hc⟩
  show (s.children.set k d).countP Child.counted + _ = _
  rw [List.countP_set hlen, hget]
  by_cases hc : c.counted = true
  · have := hpos hc
    rw [if_pos hc]
    omega
  · rw [if_neg hc]
    omega

/-- A child goes on without leaving the count. -/
theorem inv_setChild {k : Nat} {c d : Child E} (h : Inv s) (hk : s.children[k]? = some c)
    (he : d.emptied = c.emptied) (hc : d.counted = c.counted) : Inv (s.setChild k d) := by
  have hiff := emptied_setChild hk he
  refine inv_keep h ⟨fun _ => id, id, id⟩ (fun _ => rfl) h.completions ?_ (fun hcl => ?_) ?_
  · have hn := counted_setChild hk d
    rw [hc] at hn
    show s.active = _
    rw [h.active]
    omega
  · exact hiff.mpr (h.closes hcl)
  · exact Or.imp_right fun hn hem => hn (hiff.mp hem)

/-- A child that ends was running, and has an exception to record or not. -/
theorem finish_eq {k : Nat} {thrown : Option E} (hs : finish s k thrown = some t) :
    s.children[k]? = some .running ∧
      ∃ c, t = s.setChild k c ∧ (c = .finished ∨ ∃ e, c = .failed e) := by
  unfold finish at hs
  split at hs
  · rename_i hk
    cases thrown with
    | none => exact ⟨hk, .finished, (Option.some.inj hs).symm, .inl rfl⟩
    | some e => exact ⟨hk, .failed e, (Option.some.inj hs).symm, .inr ⟨e, rfl⟩⟩
  · cases hs

theorem inv_finish {k : Nat} {thrown : Option E} (h : Inv s) (hs : finish s k thrown = some t) :
    Inv t := by
  obtain ⟨hk, c, rfl, rfl | ⟨e, rfl⟩⟩ := finish_eq hs
  · exact inv_setChild h hk rfl rfl
  · exact inv_setChild h hk rfl rfl

/-- The state's other fields are nobody's business. -/
theorem inv_congr (h : Inv s) (hc : t.completions = s.completions) (hn : t.active = s.active)
    (hk : t.children = s.children) (hj : t.joins = s.joins) : Inv t := by
  obtain ⟨completions, active, _, _, children, joins⟩ := t
  cases hc
  cases hn
  cases hk
  cases hj
  exact ⟨h.completions, h.active, h.closes, h.late, fun j =>
    (Ahead.mk (fun _ => id) id id).joinInv (h.join j)⟩

/-- A child counts itself out. -/
theorem inv_leave {k : Nat} (h : Inv s) (hk : s.children[k]? = some .finished) :
    Inv (Scope.setChild { s with active := s.active - 1 } k
      (if s.active - 1 == 0 then .close else .asyncSend)) := by
  have hactive := h.active
  have hcount : ∀ d : Child E, d.counted = false →
      s.active - 1 = (s.children.set k d).countP Child.counted := by
    intro d hd
    have hn := counted_setChild hk d
    rw [hd, if_neg Bool.false_ne_true, if_pos (by rfl)] at hn
    show s.active - 1 = (s.setChild k d).children.countP Child.counted
    omega
  by_cases h0 : s.active - 1 = 0
  · rw [if_pos (by simpa using h0)]
    have hlen := (List.getElem?_eq_some_iff.mp hk).1
    refine inv_keep h ⟨fun _ => id, id, fun _ => h0⟩ (fun _ => rfl) h.completions
      (hcount .close rfl) (fun _ => ?_) fun _ => .inl h0
    exact ⟨.close, List.mem_of_getElem? (List.getElem?_set_self hlen), rfl⟩
  · rw [if_neg (by simpa using h0)]
    have hiff := emptied_setChild hk (d := .asyncSend) rfl
    refine inv_keep h ⟨fun _ => id, id, fun hn => ?_⟩ (fun _ => rfl) h.completions
      (hcount .asyncSend rfl) (fun hcl => hiff.mpr (h.closes hcl)) ?_
    · omega
    · intro hl
      refine hl.imp (fun hn => by omega) fun hn hem => hn (hiff.mp hem)

theorem inv_runChild {k : Nat} {i : OpId} {loop : Bool} (h : Inv s)
    (hs : runChild s k i loop = some t) : Inv t := by
  unfold runChild at hs
  split at hs
  case h_1 e hk =>
    cases hs
    exact inv_congr (inv_setChild h hk (d := .recorded) rfl rfl) rfl rfl rfl rfl
  case h_2 hk =>
    cases hs
    exact inv_congr (inv_setChild h hk (d := .finished) rfl rfl) rfl rfl rfl rfl
  case h_3 hk =>
    cases hs
    exact inv_leave h hk
  case h_4 hk =>
    obtain ⟨u, hu, rfl⟩ := Option.map_eq_some_iff.mp hs
    obtain ⟨hinv, _, hch, _⟩ := inv_chanStep h hu fun _ => ⟨.close, List.mem_of_getElem? hk, rfl⟩
    rw [← hch] at hk
    exact inv_setChild hinv hk rfl rfl
  case h_5 hk =>
    obtain ⟨u, hu, rfl⟩ := Option.map_eq_some_iff.mp hs
    obtain ⟨hinv, _, hch, _⟩ := inv_chanStep h hu nofun
    rw [← hch] at hk
    exact inv_setChild hinv hk rfl rfl
  case h_6 => cases hs

/-- A `join` is called on a scope that has not been left empty, or is empty. -/
theorem inv_startJoin {j : Nat} {stopPossible : Bool} {i : OpId} {loop : Bool} (h : Inv s)
    (hgood : s.active = 0 ∨ ¬ s.Emptied) (hs : startJoin s j stopPossible i loop = some t) :
    Inv t := by
  simp only [startJoin] at hs
  split at hs
  · split at hs
    · obtain ⟨u, hu, rfl⟩ := Option.map_eq_some_iff.mp hs
      have h' : Inv { s with stopRequested := true } := inv_congr h rfl rfl rfl rfl
      obtain ⟨hinv, _, hch, hahead⟩ := inv_chanStep h' hu nofun
      refine inv_join hinv (fun _ => .inr ?_) trivial
      refine hgood.imp hahead.active fun hn hem => hn ?_
      obtain ⟨c, hc, he⟩ := hem
      exact ⟨c, hch ▸ hc, he⟩
    · cases hs
      exact inv_join h (fun _ => .inr hgood) trivial
  · cases hs

theorem inv_runJoin {j : Nat} {i : OpId} {loop : Bool} (h : Inv s)
    (hs : runJoin s j i loop = some t) : Inv t := by
  have hjoin := h.join j
  have hmove : ∀ {x : Join E}, (s.joins j).pc ≠ .idle → JoinInv s x.pc → Inv (s.setJoin j x) :=
    fun hne hx => inv_join h (fun he => absurd he hne) hx
  simp only [runJoin] at hs
  split at hs
  case h_1 i' hpc =>
    have hne : (s.joins j).pc ≠ .idle := by rw [hpc]; nofun
    split at hs
    · cases hs
      exact hmove hne trivial
    · cases hs
  case h_2 hpc =>
    have hne : (s.joins j).pc ≠ .idle := by rw [hpc]; nofun
    split at hs
    · cases hs
      exact inv_congr (hmove hne (x := { s.joins j with pc := .check, cancelled := true }) trivial)
        rfl rfl rfl rfl
    · cases hs
      exact hmove hne trivial
  case h_3 hpc =>
    have hne : (s.joins j).pc ≠ .idle := by rw [hpc]; nofun
    split at hs
    · rename_i h0
      cases hs
      exact hmove hne (show s.active = 0 by simpa using h0)
    · cases hs
      exact hmove hne trivial
  case h_4 hpc =>
    obtain ⟨u, hu, rfl⟩ := Option.map_eq_some_iff.mp hs
    obtain ⟨hinv, hj, _, _⟩ := inv_chanStep h hu nofun
    obtain ⟨c, hstep, rfl⟩ := Option.map_eq_some_iff.mp hu
    refine inv_join hinv (fun he => ?_) (recv_start h.completions hstep)
    rw [hj, hpc] at he
    cases he
  case h_5 i' hpc =>
    have hne : (s.joins j).pc ≠ .idle := by rw [hpc]; nofun
    rw [hpc] at hjoin
    split at hs
    · rename_i e hd
      cases hs
      exact hmove hne (hjoin.thrown e hd)
    · cases hs
      exact hmove hne trivial
    · cases hs
  case h_6 e hpc =>
    have hne : (s.joins j).pc ≠ .idle := by rw [hpc]; nofun
    rw [hpc] at hjoin
    split at hs
    · rename_i h0
      cases hs
      exact hmove hne (show s.active = 0 by simpa using h0)
    · rename_i h0
      -- `recv` has thrown: the channel is closed, so somebody has left nobody active
      have hem : s.Emptied := h.closes (.inl hjoin)
      have hzero := (h.late j hne).resolve_right fun hn => hn hem
      exact absurd hzero (by simpa using h0)
  all_goals cases hs

theorem inv_requestStop {j : Nat} {i : OpId} {loop : Bool} (h : Inv s)
    (hs : requestStop s j i loop = some t) : Inv t := by
  have hinv : Inv (s.setJoin j { s.joins j with stopRequested := true }) :=
    inv_join h (fun he => .inl he) (h.join j)
  simp only [requestStop] at hs
  split at hs
  · cases hs
  · split at hs
    · have hinv' := @inv_congr _ _ { s.setJoin j { s.joins j with stopRequested := true } with
        stopRequested := true } hinv rfl rfl rfl rfl
      exact (inv_chanStep hinv' hs nofun).1
    · cases hs
      exact hinv

theorem inv_step {l : Label E} (h : Inv s) (hfirst : SpawnsFirst s l) (hun : Unclosed s l)
    (hs : step s l = some t) : Inv t := by
  cases l with
  | spawn =>
    cases hs
    exact inv_spawn h hfirst
  | finish k thrown => exact inv_finish h hs
  | child k i loop => exact inv_runChild h hs
  | join j stopPossible i loop => exact inv_startJoin h hun hs
  | joinStep j i loop => exact inv_runJoin h hs
  | requestStop j i loop => exact inv_requestStop h hs
  | completions l =>
    cases l with
    | start i loop call => cases hs
    | _ => exact (inv_chanStep h hs nofun).1

/-! ## Every run -/

theorem reachable_inv (h : ReachableBy (system E) (fun s l => SpawnsFirst s l ∧ Unclosed s l) s) :
    Inv s := by
  refine h.invariant ?_ ?_
  · intro s h0
    cases h0
    refine ⟨reachable_new 0, rfl, fun hc => ?_, fun j hne => absurd rfl hne, fun j => trivial⟩
    rcases hc with hc | ⟨i, hc⟩ <;> cases hc
  · intro s l t _ hI hgood hs
    exact inv_step hI hgood.1 hgood.2 hs

/-- When every `join` is called on an empty scope or on one that has never been
left empty, it completes after every child. -/
theorem join_waits (h : ReachableBy (system E) (fun s l => SpawnsFirst s l ∧ Unclosed s l) s) :
    s.JoinsAll := by
  have hinv := reachable_inv h
  intro j r hr
  have hzero : s.active = 0 := by
    have hjoin := hinv.join j
    rw [hr] at hjoin
    exact hjoin
  refine ⟨hzero, fun c hc => ?_⟩
  have hcount := hinv.active
  rw [hzero, eq_comm, List.countP_eq_zero] at hcount
  simpa using hcount c hc

/-- The first child finishes inside `spawn` and closes `completions`; `join`
then throws while the second one is suspended. -/
theorem join_throws_early :
    ¬ ∀ s : Scope Unit, ReachableBy (system Unit) SpawnsFirst s → s.JoinsAll := by
  intro hall
  have h₀ : ReachableBy (system Unit) SpawnsFirst Scope.new := .init rfl
  have h₁ := h₀.step (l := .spawn) (by exact fun _ => rfl) rfl
  have h₂ := h₁.run (by simp [SpawnsFirst])
    (show run (system Unit) _ [.finish 0 none, .child 0 0 false, .child 0 0 false,
      .completions (.run 0)] = some _ from rfl)
  have h₃ := h₂.step (l := .spawn) (by exact fun _ => rfl) rfl
  have h₄ := h₃.run (by simp [SpawnsFirst])
    (show run (system Unit) _ [.join 0 false 1 false, .joinStep 0 1 false, .joinStep 0 1 false,
      .joinStep 0 1 false, .completions (.run 1), .completions (.run 1), .completions (.run 1),
      .completions (.run 1), .joinStep 0 1 false, .joinStep 0 1 false] = some _ from rfl)
  exact absurd (hall _ h₄ 0 _ rfl).1 (by decide)

/-- Two children spawned before either has finished. -/
theorem join_waits_two : ∃ s : Scope Unit, (s.joins 0).pc = .done .completed ∧ s.JoinsAll := by
  have h₀ : ReachableBy (system Unit) (fun s l => SpawnsFirst s l ∧ Unclosed s l) Scope.new :=
    .init rfl
  have h₁ := h₀.step (l := .spawn) (by exact ⟨fun _ => rfl, trivial⟩) rfl
  have h₂ := h₁.step (l := .spawn) (by exact ⟨fun _ => rfl, trivial⟩) rfl
  have h₃ := h₂.step (l := .join 0 false 9 false)
    (by exact ⟨trivial, .inr fun ⟨c, hc, he⟩ => by simp [Scope.new, spawn] at hc; subst hc; cases he⟩) rfl
  have h₄ := h₃.run (by simp [SpawnsFirst, Unclosed])
    (show run (system Unit) _ [.joinStep 0 1 false, .joinStep 0 1 false, .joinStep 0 1 false,
      .completions (.run 1), .completions (.run 1), .finish 0 none, .child 0 0 false,
      .finish 1 none, .child 1 0 false, .child 1 2 true,
      .completions (.run 2), .completions (.run 2), .completions (.run 2), .completions (.run 2),
      .completions (.runPosted 0 0), .completions .flushSwap, .completions (.flushResume 0),
      .completions (.run 1), .completions (.run 1), .completions (.run 1),
      .joinStep 0 1 false, .joinStep 0 1 false] = some _ from rfl)
  exact ⟨_, rfl, join_waits h₄⟩

end LuvCoro.TaskScope
