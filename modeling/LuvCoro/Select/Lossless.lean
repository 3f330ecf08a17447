import LuvCoro.Channel.Drained
import LuvCoro.Select.System

/-! # What a call of `select` takes

A losing contender is still a receive: it takes a message it finds, or is handed
one later, and nobody returns it. A call on which messages come to one contender only
takes one message at most, and returns it. -/
namespace LuvCoro.Select

open Transition LuvCoro.Channel

universe u v
variable {ι : Type u} {T : ι → Type v}

/-- What the contenders of a call have taken, from all channels. -/
def World.removed (w : World ι T) (sel : Selection ι T) : List (Σ c, T c) :=
  sel.contenders.flatMap fun x => ((w.chan x.1).takenBy x.2).map (Sigma.mk x.1)

/-- The message a call of `select` returns. -/
def Selection.returned (sel : Selection ι T) : List (Σ c, T c) :=
  match sel.winner with
  | some ⟨c, _, .value (some v)⟩ => [⟨c, v⟩]
  | _ => []

/-- The values of a channel in lock order: accepted, and what became of them. -/
def Kept {T : Type v} (s : Sys T) : Prop :=
  s.log.filterMap Event.accepted? = s.log.filterMap Event.taken? ++ s.chan.messages ++
    s.chan.parked.map Prod.snd ++ s.log.filterMap Event.failed?

/-- A call takes at most one message, which is the one it returns; from a channel
that was not selected it has taken nothing, and whatever that channel accepted
is taken by others, still there, or failed by `close`. -/
structure Lossless (w : World ι T) (sel : Selection ι T) : Prop where
  once : (w.removed sel).length ≤ 1
  returned : sel.winner ≠ none → w.removed sel = sel.returned
  others : ∀ c i r, sel.winner = some ⟨c, i, r⟩ → ∀ x ∈ sel.contenders, x ≠ (c, i) →
    (w.chan x.1).takenBy x.2 = []
  kept : ∀ c, Kept (w.chan c)

/-- The runs in which messages come to one contender of each call at most, which
`favoured` names for the call. Every other contender finds its channel without a message
when it looks, and nobody sends on that channel while it is the receiver that has waited
longest; and it does not complete before the favoured one by finding its channel closed.
No contender that wakes the loop is refused. -/
def Clean (favoured : Nat → Option (ι × OpId)) (w : World ι T) : Label ι T → Prop
  | .chan c l => ∀ k sel i, w.calls k = some sel → (c, i) ∈ sel.contenders →
      ¬ Cut (w.chan c) l i ∧ (Hands (w.chan c) l i → favoured k = some (c, i))
  | .select _ _ _ => True
  | .complete k c i => ∀ x, favoured k = some x → x ≠ (c, i) → (w.chan c).chan.closed = false

/-! ## The bookkeeping of a call -/

variable {w w' : World ι T}

theorem flatMap_single {α : Type u} {β : Type v} {l : List α} {f : α → List β} {a : α}
    (ha : a ∈ l) (hn : l.Nodup) (h : ∀ x ∈ l, x ≠ a → f x = []) : l.flatMap f = f a := by
  induction l with
  | nil => cases ha
  | cons y ys ih =>
    obtain ⟨hy, hys⟩ := List.nodup_cons.mp hn
    rw [List.flatMap_cons]
    rcases List.mem_cons.mp ha with rfl | ha
    · have hnil : ys.flatMap f = [] := by
        refine List.flatMap_eq_nil_iff.mpr fun x hx => ?_
        exact h x (List.mem_cons_of_mem _ hx) fun he => hy (he ▸ hx)
      rw [hnil, List.append_nil]
    · have hne : y ≠ a := fun he => hy (he ▸ ha)
      rw [h y List.mem_cons_self hne, List.nil_append]
      exact ih ha hys fun x hx => h x (List.mem_cons_of_mem _ hx)

/-- Only `x` has taken anything. -/
theorem removed_single {sel : Selection ι T} {x : ι × OpId} (hx : x ∈ sel.contenders)
    (hn : sel.contenders.Nodup)
    (h : ∀ y ∈ sel.contenders, y ≠ x → (w.chan y.1).takenBy y.2 = []) :
    w.removed sel = ((w.chan x.1).takenBy x.2).map (Sigma.mk x.1) := by
  refine flatMap_single hx hn fun y hy hne => ?_
  rw [h y hy hne, List.map_nil]

/-- What holds of one call: only the favoured contender has taken anything, and the winner
has returned what it took; no other contender was favoured. -/
structure Fair (favoured : Option (ι × OpId)) (w : World ι T) (sel : Selection ι T) : Prop where
  nodup : sel.contenders.Nodup
  next : ∀ x ∈ sel.contenders, Next (w.chan x.1) x.2
  losers : ∀ x ∈ sel.contenders, favoured ≠ some x → (w.chan x.1).takenBy x.2 = []
  decided : ∀ c i r, sel.winner = some ⟨c, i, r⟩ → (c, i) ∈ sel.contenders ∧
    ((w.chan c).pc i).spent = true ∧
    (∃ o, r = .value o ∧ (w.chan c).takenBy i = o.toList) ∧
    ∀ x, favoured = some x → x = (c, i)

variable {favoured : Option (ι × OpId)}

/-- A call takes one message at most. -/
theorem Fair.once {sel : Selection ι T} (hf : Fair favoured w sel) :
    (w.removed sel).length ≤ 1 := by
  by_cases hx : ∃ x ∈ sel.contenders, favoured = some x
  · obtain ⟨x, hm, hfav⟩ := hx
    have hrest : ∀ y ∈ sel.contenders, y ≠ x → (w.chan y.1).takenBy y.2 = [] := by
      intro y hy hne
      refine hf.losers y hy fun he => hne ?_
      exact Option.some.inj (he.symm.trans hfav)
    rw [removed_single hm hf.nodup hrest, List.length_map]
    exact next_length (hf.next x hm)
  · have hnil : w.removed sel = [] := by
      refine List.flatMap_eq_nil_iff.mpr fun x hm => ?_
      rw [hf.losers x hm fun he => hx ⟨x, hm, he⟩, List.map_nil]
    rw [hnil]
    exact Nat.zero_le _

/-- Contenders that have not moved keep a call fair. -/
theorem fair_congr {sel : Selection ι T} (hf : Fair favoured w sel)
    (h : ∀ x ∈ sel.contenders, Next (w'.chan x.1) x.2 ∧
      (w'.chan x.1).takenBy x.2 = (w.chan x.1).takenBy x.2 ∧
      (((w.chan x.1).pc x.2).spent = true → ((w'.chan x.1).pc x.2).spent = true)) :
    Fair favoured w' sel := by
  refine ⟨hf.nodup, fun x hx => (h x hx).1, fun x hx hne => ?_, fun c i r hw => ?_⟩
  · exact (h x hx).2.1.trans (hf.losers x hx hne)
  · obtain ⟨hm, hspent, ⟨o, hr, ho⟩, hfav⟩ := hf.decided c i r hw
    obtain ⟨_, htaken, hkeep⟩ := h (c, i) hm
    exact ⟨hm, hkeep hspent, ⟨o, hr, htaken.trans ho⟩, hfav⟩

/-- Every channel is in a state of its own system. -/
def ChansReachable (w : World ι T) : Prop :=
  ∀ c, Reachable (Channel.system (T c)) (w.chan c)

/-! ## What a step does to a contender -/

variable [DecidableEq ι]

/-- The first contender to complete returns what it has taken: it is the favoured one, for
another would have found its channel closed. -/
theorem fair_complete {c : ι} {i : OpId} {r : Result (T c)} {sel : Selection ι T}
    (hchan : ChansReachable w) (hf : Fair favoured w sel) (hm : (c, i) ∈ sel.contenders)
    (hr : (w.chan c).pc i = .done r)
    (hopen : ∀ x, favoured = some x → x ≠ (c, i) → (w.chan c).chan.closed = false) :
    Fair favoured w { sel with winner := some ⟨c, i, r⟩ } := by
  refine ⟨hf.nodup, hf.next, hf.losers, fun d j q hw => ?_⟩
  cases hw
  have hn := hf.next (c, i) hm
  obtain ⟨o, rfl, ho⟩ := next_done hn hr
  refine ⟨hm, by rw [hr]; rfl, ⟨o, rfl, ho⟩, fun x hx => ?_⟩
  by_contra hne
  have hlost : (w.chan c).takenBy i = [] :=
    hf.losers (c, i) hm fun he => hne (Option.some.inj (hx.symm.trans he))
  have hnone : o = none := by
    rw [hlost] at ho
    cases o with
    | none => rfl
    | some v => cases ho
  subst hnone
  have hclosed := (Iterates.none_drained (.task hn) (hchan c) hr).1
  rw [hopen x hx hne] at hclosed
  cases hclosed

theorem chanStep_reachable {c : ι} {l : Channel.Label (T c)} (hr : ChansReachable w)
    (hs : w.chanStep c l = some w') : ChansReachable w' := by
  obtain ⟨s, hstep, rfl⟩ := Option.map_eq_some_iff.mp hs
  intro d
  by_cases hd : d = c
  · subst hd
    show Reachable _ (Function.update w.chan d s d)
    rw [Function.update_self]
    exact (hr d).next hstep
  · show Reachable _ (Function.update w.chan c s d)
    rw [Function.update_of_ne hd]
    exact hr d

/-- A contender takes a message only in a step that hands it one. -/
theorem chanStep_next {c : ι} {l : Channel.Label (T c)} {x : ι × OpId} (hr : ChansReachable w)
    (hs : w.chanStep c l = some w') (hn : Next (w.chan x.1) x.2)
    (hcut : ∀ i, x = (c, i) → ¬ Cut (w.chan c) l i) : Next (w'.chan x.1) x.2 ∧
      ((w'.chan x.1).takenBy x.2 = (w.chan x.1).takenBy x.2 ∨
        ∃ i, x = (c, i) ∧ Hands (w.chan c) l i) := by
  obtain ⟨s, hstep, rfl⟩ := Option.map_eq_some_iff.mp hs
  obtain ⟨d, i⟩ := x
  by_cases hd : d = c
  · subst hd
    obtain ⟨hn', htaken⟩ := next_step (reachable_inv (hr d)) hn hstep (hcut i rfl)
    dsimp only
    rw [Function.update_self]
    exact ⟨hn', htaken.imp_right fun hh => ⟨i, rfl, hh⟩⟩
  · dsimp only
    rw [Function.update_of_ne hd]
    exact ⟨hn, .inl rfl⟩

/-- A contender that is over stays as it is. -/
theorem chanStep_spent {c : ι} {l : Channel.Label (T c)} {x : ι × OpId} (hr : ChansReachable w)
    (hs : w.chanStep c l = some w') (hspent : ((w.chan x.1).pc x.2).spent = true) :
    ((w'.chan x.1).pc x.2).spent = true ∧
      (w'.chan x.1).takenBy x.2 = (w.chan x.1).takenBy x.2 := by
  obtain ⟨s, hstep, rfl⟩ := Option.map_eq_some_iff.mp hs
  obtain ⟨d, i⟩ := x
  by_cases hd : d = c
  · subst hd
    have hi := reachable_inv (hr d)
    dsimp only
    rw [Function.update_self]
    exact ⟨spent_step hi hspent hstep, spent_takes hi (reachable_kept (hr d) i) hspent hstep⟩
  · dsimp only
    rw [Function.update_of_ne hd]
    exact ⟨hspent, rfl⟩

theorem start_not_hands {T : Type v} {s : Sys T} {i j : OpId} {loop : Bool} {call : Call T} :
    ¬ Cut s (.start i loop call) j ∧ ¬ Hands s (.start i loop call) j := by
  refine ⟨fun h => ?_, fun h => ?_⟩
  · cases h.1
  · rcases h with ⟨h, _⟩ | ⟨_, h, _⟩ <;> cases h

/-- Starting the contenders of one call leaves those of the others alone. -/
theorem startContenders_spec {loop : Bool} (cs : List (ι × OpId)) (hr : ChansReachable w)
    (hs : startContenders w loop cs = some w') : ChansReachable w' ∧ w'.calls = w.calls ∧
      (∀ x : ι × OpId, Next (w.chan x.1) x.2 → Next (w'.chan x.1) x.2 ∧
        (w'.chan x.1).takenBy x.2 = (w.chan x.1).takenBy x.2 ∧
        (((w.chan x.1).pc x.2).spent = true → ((w'.chan x.1).pc x.2).spent = true)) ∧
      ∀ x ∈ cs, Next (w'.chan x.1) x.2 ∧ (w'.chan x.1).takenBy x.2 = [] := by
  induction cs generalizing w with
  | nil =>
    cases hs
    exact ⟨hr, rfl, fun x hn => ⟨hn, rfl, id⟩, by simp⟩
  | cons y ys ih =>
    obtain ⟨c, i⟩ := y
    simp only [startContenders, Option.bind_eq_some_iff] at hs
    obtain ⟨u, hu, hs⟩ := hs
    have hru := chanStep_reachable hr hu
    obtain ⟨hr', hcalls, hold, hnew⟩ := ih hru hs
    have hstep : ∀ x : ι × OpId, Next (w.chan x.1) x.2 →
        Next (u.chan x.1) x.2 ∧ (u.chan x.1).takenBy x.2 = (w.chan x.1).takenBy x.2 := by
      intro x hn
      obtain ⟨hn', htaken⟩ := chanStep_next hr hu hn fun j _ => start_not_hands.1
      exact ⟨hn', htaken.resolve_right fun ⟨j, _, hh⟩ => start_not_hands.2 hh⟩
    have hfirst : Next (u.chan c) i ∧ (u.chan c).takenBy i = [] := by
      obtain ⟨s, hstart, rfl⟩ := Option.map_eq_some_iff.mp hu
      dsimp only
      rw [Function.update_self]
      exact next_start (hr c) hstart
    have hcallsu : u.calls = w.calls := by
      obtain ⟨s, _, rfl⟩ := Option.map_eq_some_iff.mp hu
      rfl
    refine ⟨hr', hcalls.trans hcallsu, fun x hn => ?_, fun x hx => ?_⟩
    · obtain ⟨h₁, h₂⟩ := hstep x hn
      obtain ⟨h₃, h₄, h₅⟩ := hold x h₁
      exact ⟨h₃, h₄.trans h₂, fun hspent => h₅ (chanStep_spent hr hu hspent).1⟩
    · rcases List.mem_cons.mp hx with rfl | hx
      · obtain ⟨h₁, h₂, _⟩ := hold (c, i) hfirst.1
        exact ⟨h₁, h₂.trans hfirst.2⟩
      · exact hnew x hx

/-- A step of a channel keeps a call fair when it hands a message to the favoured one of
its contenders, or to none. -/
theorem fair_chan {c : ι} {l : Channel.Label (T c)} {sel : Selection ι T}
    (hr : ChansReachable w) (hs : w.chanStep c l = some w')
    (hclean : ∀ i, (c, i) ∈ sel.contenders → ¬ Cut (w.chan c) l i ∧
      (Hands (w.chan c) l i → favoured = some (c, i)))
    (hf : Fair favoured w sel) : Fair favoured w' sel := by
  have hstep := fun x (hx : x ∈ sel.contenders) => chanStep_next hr hs (hf.next x hx)
    fun i he => (hclean i (he ▸ hx)).1
  refine ⟨hf.nodup, fun x hx => (hstep x hx).1, fun x hx hne => ?_, fun d i r hw => ?_⟩
  · rcases (hstep x hx).2 with he | ⟨i, rfl, hhands⟩
    · exact he.trans (hf.losers x hx hne)
    · exact absurd ((hclean i hx).2 hhands) hne
  · obtain ⟨hm, hspent, ⟨o, hro, ho⟩, hfav⟩ := hf.decided d i r hw
    obtain ⟨hspent', htaken⟩ := chanStep_spent (x := (d, i)) hr hs hspent
    exact ⟨hm, hspent', ⟨o, hro, htaken.trans ho⟩, hfav⟩

/-! ## Every run -/

structure Race (favoured : Nat → Option (ι × OpId)) (w : World ι T) : Prop where
  chan : ChansReachable w
  fair : ∀ k sel, w.calls k = some sel → Fair (favoured k) w sel

variable {favoured : Nat → Option (ι × OpId)}

theorem race_step {l : Label ι T} (h : Race favoured w) (hclean : Clean favoured w l)
    (hs : step w l = some w') : Race favoured w' := by
  cases l with
  | chan c l =>
    have hcalls : w'.calls = w.calls := by
      obtain ⟨s, _, rfl⟩ := Option.map_eq_some_iff.mp hs
      rfl
    refine ⟨chanStep_reachable h.chan hs, fun k sel hk => ?_⟩
    rw [hcalls] at hk
    exact fair_chan h.chan hs (fun i hm => hclean k sel i hk hm) (h.fair k sel hk)
  | select k loop cs =>
    simp only [step, Option.ite_none_right_eq_some, Option.map_eq_some_iff] at hs
    obtain ⟨⟨_, hn⟩, u, hu, rfl⟩ := hs
    obtain ⟨hr, hcalls, hold, hnew⟩ := startContenders_spec cs h.chan hu
    refine ⟨hr, fun k' sel hk => ?_⟩
    by_cases he : k' = k
    · subst he
      cases (Function.update_self k' _ u.calls).symm.trans hk
      exact ⟨hn, fun x hx => (hnew x hx).1, fun x hx _ => (hnew x hx).2, by simp⟩
    · have hk' : w.calls k' = some sel :=
        hcalls ▸ (Function.update_of_ne he _ u.calls).symm.trans hk
      have hf := h.fair k' sel hk'
      have hf' : Fair (favoured k') u sel := fair_congr hf fun x hx => hold x (hf.next x hx)
      exact ⟨hf'.nodup, hf'.next, hf'.losers, hf'.decided⟩
  | complete k c i =>
    simp only [step, completeContender] at hs
    split at hs
    swap
    · cases hs
    rename_i sel hk
    split at hs
    swap
    · cases hs
    rename_i hm
    split at hs
    swap
    · cases hs
    rename_i r hr
    cases hs
    refine ⟨h.chan, fun k' sel' hk' => ?_⟩
    by_cases he : k' = k
    · subst he
      cases (Function.update_self k' _ w.calls).symm.trans hk'
      have hf := fair_complete h.chan (h.fair k' sel hk) hm.1 hr hclean
      exact ⟨hf.nodup, hf.next, hf.losers, hf.decided⟩
    · have hf := h.fair k' sel' ((Function.update_of_ne he _ w.calls).symm.trans hk')
      exact ⟨hf.nodup, hf.next, hf.losers, hf.decided⟩

theorem reachable_race (h : ReachableBy (system ι T) (Clean favoured) w) : Race favoured w := by
  refine h.invariant ?_ ?_
  · intro w h0
    obtain ⟨capacity, rfl⟩ := h0
    exact ⟨fun c => reachable_new _, by simp [World.new]⟩
  · intro w l w' _ hI hclean hs
    exact race_step hI hclean hs

theorem kept_of_reachable {T : Type v} {s : Sys T} (h : Reachable (Channel.system T) s) :
    Kept s := by
  have hb : s.log.filterMap Event.taken? ++ (s.chan.messages ++ s.chan.parked.map Prod.snd) ++
      s.log.filterMap Event.failed? = s.log.filterMap Event.accepted? :=
    (reachable_inv h).sound.balanced
  unfold Kept
  rw [← hb]
  simp only [List.append_assoc]

/-- In a clean run no call of `select` loses a message. -/
theorem select_lossless (h : ReachableBy (system ι T) (Clean favoured) w) {k : Nat}
    {sel : Selection ι T} (hk : w.calls k = some sel) : Lossless w sel := by
  obtain ⟨hr, hfair⟩ := reachable_race h
  have hf := hfair k sel hk
  have hothers : ∀ c i r, sel.winner = some ⟨c, i, r⟩ → ∀ x ∈ sel.contenders, x ≠ (c, i) →
      (w.chan x.1).takenBy x.2 = [] := by
    intro c i r hw x hx hne
    exact hf.losers x hx fun he => hne ((hf.decided c i r hw).2.2.2 x he)
  refine ⟨hf.once, fun hw => ?_, hothers, fun c => kept_of_reachable (hr c)⟩
  cases hw' : sel.winner with
  | none => exact absurd hw' hw
  | some x =>
    obtain ⟨c, i, r⟩ := x
    obtain ⟨hm, _, ⟨o, rfl, ho⟩, _⟩ := hf.decided c i r hw'
    have hret : sel.returned = o.toList.map (Sigma.mk c) := by
      unfold Selection.returned
      rw [hw']
      cases o <;> rfl
    rw [removed_single hm hf.nodup (hothers c i _ hw'), hret]
    dsimp only
    rw [ho]

/-- `select` on two empty channels returns the 7 of the first; the 8 that the
second one accepts afterwards goes to the contender that lost. -/
theorem loser_takes_message : ¬ ∀ w : World Bool (fun _ => Nat),
    Reachable (system Bool fun _ => Nat) w →
      ∀ k sel, w.calls k = some sel → Lossless w sel := by
  intro hall
  have h₀ : Reachable (system Bool fun _ => Nat) (World.new fun _ => 1) := .init ⟨_, rfl⟩
  have hr := h₀.run (show run (system Bool fun _ => Nat) _
    [.select 0 false [(false, 0), (true, 0)],
      .chan false (.run 0), .chan false (.run 0), .chan true (.run 0), .chan true (.run 0),
      .chan false (.start 1 false (.trySend 7)), .chan false (.run 1), .chan false (.run 1),
      .chan false (.run 1), .chan false (.run 1), .chan false .onAsync, .chan false .flushSwap,
      .chan false (.flushResume 0), .chan false (.run 0), .chan false (.run 0),
      .chan false (.run 0), .complete 0 false 0,
      .chan true (.start 1 false (.trySend 8)), .chan true (.run 1)] = some _ from rfl)
  exact absurd (hall _ hr 0 _ rfl).once (by decide)

/-- Messages come to the first contender only. -/
def firstFavoured : Nat → Option (Bool × OpId) := fun _ => some (false, 0)

/-- `select` finds a 7 on the first channel; its other contender waits on the second one,
where nobody sends. -/
theorem ready_message_selected : ∃ (w : World Bool fun _ => Nat)
    (sel : Selection Bool fun _ => Nat), w.calls 0 = some sel ∧
      sel.returned = [⟨false, 7⟩] ∧ (w.chan true).chan.activeReceivers = [0] ∧
      Lossless w sel := by
  have h₀ : ReachableBy (system Bool fun _ => Nat) (Clean firstFavoured)
      (World.new fun _ => 1) := .init ⟨_, rfl⟩
  have h₁ := h₀.step (l := .chan false (.start 1 false (.trySend 7)))
    (by intro k sel i hk; cases hk) rfl
  have h₂ := h₁.step (l := .chan false (.run 1)) (by intro k sel i hk; cases hk) rfl
  have h₃ := h₂.step (l := .select 0 false [(false, 0), (true, 0)]) (by exact trivial) rfl
  have h₄ := h₃.step (l := .chan false (.run 0)) (by
    intro k sel i hk hm
    have h0 : k = 0 := Decidable.byContradiction fun hn => by
      cases (Function.update_of_ne hn _ _).symm.trans hk
    subst h0
    cases hk
    have hi : i = 0 := by simpa using hm
    subst hi
    exact ⟨fun hc => (by cases hc.2.1), fun _ => rfl⟩) rfl
  have hquiet : ∀ (c : Bool) (w : World Bool fun _ => Nat), (w.chan c).asyncClosing = false →
      (((w.chan c).pc 0).looks = true → (w.chan c).chan.messages = []) →
      ((w.chan c).pc 0).sends = false → Clean firstFavoured w (.chan c (.run 0)) := by
    intro c w ha hl hs k sel i _ _
    refine ⟨fun hc => ?_, fun hh => ?_⟩
    · rw [hc.2.1] at ha
      cases ha
    · rcases hh with ⟨he, hlook, hne⟩ | ⟨j, he, hsend, _⟩
      · cases he
        exact absurd (hl hlook) hne
      · cases he
        rw [hs] at hsend
        cases hsend
  have h₅ := h₄.step (l := .chan true (.run 0)) (hquiet true _ rfl (fun _ => rfl) rfl) rfl
  have h₆ := h₅.step (l := .chan true (.run 0)) (hquiet true _ rfl (fun _ => rfl) rfl) rfl
  have h₇ := h₆.step (l := .chan false (.run 0)) (hquiet false _ rfl (fun _ => rfl) rfl) rfl
  have h₈ := h₇.step (l := .chan false (.run 0)) (hquiet false _ rfl (fun _ => rfl) rfl) rfl
  have h₉ := h₈.step (l := .chan false (.run 0)) (hquiet false _ rfl (fun _ => rfl) rfl) rfl
  have h₁₀ := h₉.step (l := .complete 0 false 0) (by intro x _ _; rfl) rfl
  let sel : Selection Bool fun _ => Nat :=
    { contenders := [(false, 0), (true, 0)], winner := some ⟨false, 0, .value (some 7)⟩ }
  have hl : Lossless _ sel := select_lossless (k := 0) h₁₀ rfl
  exact ⟨_, sel, rfl, rfl, rfl, hl⟩

end LuvCoro.Select
