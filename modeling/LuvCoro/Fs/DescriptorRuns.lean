import LuvCoro.Fs.Descriptors

/-! # What becomes of every descriptor

A step of one request, of a coroutine or of an object keeps the invariant; so every
descriptor has a holder until it is closed, which happens once. -/
namespace LuvCoro.Fs.Descriptors

open Transition Request

section
variable {s t : State} {c f r : Nat}

/-! ## The requests -/

/-- One request goes on, perhaps with its descriptor. -/
theorem Inv.set (h : Inv s) {p p' : Pending} (hp : s.requests[r]? = some p)
    (hrequests : t.requests = s.requests.set r p') (hcoroutines : t.coroutines = s.coroutines)
    (hwork : p'.work = p.work)
    (htracked : Tracked t.custody t.names (Awaited s r) r p')
    (hheld : ∀ r', r' ≠ r → t.custody.held (.request r') = s.custody.held (.request r'))
    (hnames : ∀ (d : Nat) (n : Int), s.names[d]? = some n → t.names[d]? = some n)
    (htaken : ∀ d ∈ s.custody.taken, d ∈ t.custody.taken)
    (hkernel : Kernel t.custody t.names t.table)
    (hobjs : ∀ f, HasFd t.custody t.names f (t.objs f).fd)
    (hclosed : Closed t.closes t.custody.released)
    (htransferred : Transferred t.transfers t.custody.released) : Inv t := by
  have hr : r < s.requests.length := (List.getElem?_eq_some_iff.mp hp).1
  have hawaited : ∀ r, Awaited t r ↔ Awaited s r := by
    intro r
    simp only [Awaited, hcoroutines]
  refine ⟨hkernel, hobjs, ?_, ?_, ?_, ?_, hclosed, htransferred⟩
  · intro r' d hd
    rw [hrequests, List.length_set]
    by_cases hrr : r' = r
    · exact hrr ▸ hr
    · exact h.bound r' d (hheld r' hrr ▸ hd)
  · intro r' q hq
    rw [hrequests] at hq
    by_cases hrr : r' = r
    · subst hrr
      rw [List.getElem?_set_self hr] at hq
      cases hq
      exact htracked.frame rfl (fun _ _ hd => hd) (fun _ hd => hd) (hawaited r')
    · rw [List.getElem?_set_ne (Ne.symm hrr)] at hq
      exact (h.tracked r' q hq).frame (hheld r' hrr) hnames htaken (hawaited r')
  · intro c' r' next hc'
    obtain ⟨q, hq, hw⟩ := h.awaits c' r' next (hcoroutines ▸ hc')
    rw [hrequests]
    by_cases hrr : r' = r
    · subst hrr
      cases hp.symm.trans hq
      exact ⟨p', List.getElem?_set_self hr, by rw [hwork, hw]⟩
    · exact ⟨q, by rw [List.getElem?_set_ne (Ne.symm hrr), hq], hw⟩
  · intro c' d r' next next' hc' hd
    exact h.unique c' d r' next next' (hcoroutines ▸ hc') (hcoroutines ▸ hd)

/-- A step that does not do the work changes nothing about the descriptor. -/
theorem Tracked.step {k : Custody.Records Holder Nat} {names : List Int} {a : Prop}
    {p : Pending} (h : Tracked k names a r p) {l : Request.Label} {sys : Request.Sys}
    (hs : Request.step runFsRequest true p.sys l = some sys) (hl : l.isWork = false) :
    Tracked k names a r { p with sys := sys, acted := p.acted || l.isWork } := by
  obtain ⟨hanswered, hlater⟩ := step_answered h.answered (reachable_base h.reach)
    (reachable_carried h.reach) hs
  have hproduced : sys.produced = p.sys.produced := by
    rcases step_produced hs with he | ⟨result, hw, _⟩
    · exact he
    · rw [hw] at hl
      cases hl
  have hacted : (p.acted || l.isWork) = p.acted := by rw [hl, Bool.or_false]
  refine ⟨h.reach.next hs, hanswered, ?_, ?_, ?_, ?_, ?_, ?_, h.transferring⟩
  · intro hn
    rw [hlater.outcome (h.gone hn)]
    exact h.gone hn
  · intro hw ha
    exact h.unopened hw (hacted ▸ ha)
  · intro hw d hd
    rw [hproduced]
    exact h.opened hw d hd
  · intro hw hp ha
    rw [hproduced] at hp
    exact h.kept hw hp ha
  · intro hw hn v hv
    rw [hlater.outcome (h.gone hn)] at hv
    exact h.stored hw hn v hv
  · intro fd hw
    dsimp only
    rw [hacted]
    exact h.closing fd hw

/-- What is known of a request when its work is done. -/
theorem Tracked.works {k : Custody.Records Holder Nat} {names : List Int} {a : Prop}
    {p : Pending} (h : Tracked k names a r p) {result : Int} {sys : Request.Sys}
    (hs : Request.step runFsRequest true p.sys (.work result) = some sys) :
    p.acted = false ∧ sys.produced = (if 0 ≤ result then some result else none) ∧
      Answered sys true ∧ (¬ a → sys.outcome ≠ none) ∧
      ∀ v, ¬ a → sys.outcome ≠ some (.ok v) := by
  have hcarried := reachable_carried h.reach
  obtain ⟨hanswered, hlater⟩ := step_answered h.answered (reachable_base h.reach) hcarried hs
  have hflight : p.sys.flight = .working := by
    simp only [Request.step] at hs
    split at hs
    · assumption
    · cases hs
  have hacted : p.acted = false := by
    cases ha : p.acted with
    | false => rfl
    | true =>
      rcases h.answered.worked ha with hd | ⟨v, hw⟩
      · rw [hflight] at hd
        cases hd
      · rw [hflight] at hw
        cases hw
  have hnone : p.sys.produced = none := by
    refine hcarried.none_of_ne ?_ ?_
    · simp [hflight]
    · simp [hflight]
  refine ⟨hacted, ?_, ?_, ?_, ?_⟩
  · simp only [Request.step, hflight, if_true, Option.some.injEq] at hs
    rw [← hs]
  · simpa [Request.Label.isWork] using hanswered
  · intro hn
    rw [hlater.outcome (h.gone hn)]
    exact h.gone hn
  · intro v hn hv
    rw [hlater.outcome (h.gone hn)] at hv
    rw [h.answered.value v hv] at hnone
    cases hnone

theorem inv_act (h : Inv s) {p : Pending} (hp : s.requests[r]? = some p) {result : Int}
    {sys : Request.Sys} (hs : Request.step runFsRequest true p.sys (.work result) = some sys)
    (ht : ({ s with requests := s.requests.set r { p with sys := sys, acted := true } } : State).act
      r p result = some t) : Inv t := by
  have htracked := h.tracked r p hp
  obtain ⟨hacted, hproduced, hanswered, hgone, hnot⟩ := htracked.works hs
  have hreach : Reachable (Request.system runFsRequest true) sys :=
    htracked.reach.next (l := .work result) hs
  unfold State.act at ht
  split at ht
  · rename_i hwork
    have hnone := htracked.unopened hwork hacted
    split at ht
    · rename_i hresult
      rw [if_pos hresult] at hproduced
      split at ht <;> cases ht
      rename_i hfree
      have hheld : ∀ k, (Custody.take s.custody (.request r) s.names.length).held k =
          if k = .request r then some s.names.length else s.custody.held k :=
        fun k => take_held_eq k
      have hname : ∀ (d : Nat) (n : Int), s.names[d]? = some n →
          (s.names ++ [result])[d]? = some n := by
        intro d n hd
        rw [List.getElem?_append_left (List.getElem?_eq_some_iff.mp hd).1, hd]
      refine h.set hp rfl rfl rfl ?_ ?_ hname (fun d hd => List.mem_append_left _ hd)
        (kernel_take h.kernel hfree hresult hnone (by simp)) ?_ h.closed h.transferred
      · refine ⟨hreach, hanswered, hgone, by simp, ?_, ?_, ?_, ?_, ?_⟩
        · intro _ d hd
          refine ⟨result, hproduced, ?_⟩
          cases ((hheld _).trans (if_pos rfl)).symm.trans hd
          show (s.names ++ [result])[s.names.length]? = some result
          simp
        · intro _ _ _ hd
          cases ((hheld _).trans (if_pos rfl)).symm.trans hd
        · intro _ hn v hv
          exact absurd hv (hnot v hn)
        · intro fd hw
          cases hwork.symm.trans hw
        · intro fd hw
          cases hwork.symm.trans hw
      · intro r' hr'
        exact (hheld _).trans (if_neg (by simp [hr']))
      · intro f
        have hf := (hheld (.file f)).trans (if_neg (by simp))
        exact ⟨fun d hd => hname d _ ((h.objs f).held d (hf ▸ hd)),
          fun hd => (h.objs f).empty (hf ▸ hd)⟩
    · rename_i hresult
      rw [if_neg hresult] at hproduced
      cases ht
      refine h.set hp rfl rfl rfl ?_ (fun _ _ => rfl) (fun _ _ hd => hd) (fun _ hd => hd)
        h.kernel h.objs h.closed h.transferred
      refine ⟨hreach, hanswered, hgone, by simp, ?_, ?_, fun _ _ _ _ => hnone, ?_, ?_⟩
      · intro _ d hd
        cases hnone.symm.trans hd
      · intro _ hp'
        exact absurd hproduced hp'
      · intro fd hw
        cases hwork.symm.trans hw
      · intro fd hw
        cases hwork.symm.trans hw
  · rename_i fd hwork
    cases ht
    obtain ⟨d, hmeant, hname, hd⟩ := htracked.closing fd hwork
    rw [hacted] at hd
    obtain ⟨hkernel, htable⟩ := kernel_release h.kernel hd hname
    have hheld : ∀ k, (Custody.release s.custody (.request r)).held k =
        if k = .request r then none else s.custody.held k := fun k => Custody.release_held ..
    have hreleased : (Custody.release s.custody (.request r)).released =
        s.custody.released ++ [d] := by rw [Custody.release_some hd]
    have hsame : (Custody.release s.custody (.request r)).taken = s.custody.taken := by
      rw [Custody.release_some hd]
    refine h.set hp rfl rfl rfl ?_ ?_ (fun _ _ hd => hd) ?_ hkernel ?_ ?_ ?_
    · refine ⟨hreach, hanswered, hgone, by simp, ?_, ?_, ?_, ?_, ?_⟩
      · intro hw
        cases hwork.symm.trans hw
      · intro hw
        cases hwork.symm.trans hw
      · intro hw
        cases hwork.symm.trans hw
      · intro fd' hw
        cases hwork.symm.trans hw
        exact ⟨d, hmeant, hname, (hheld _).trans (if_pos rfl)⟩
      · intro fd' hw
        cases hwork.symm.trans hw
    · intro r' hr'
      exact (hheld _).trans (if_neg (by simp [hr']))
    · intro e he
      exact hsame ▸ he
    · intro f
      have hf := (hheld (.file f)).trans (if_neg (by simp))
      exact ⟨fun e he => (h.objs f).held e (hf ▸ he), fun he => (h.objs f).empty (hf ▸ he)⟩
    · dsimp only
      rw [hreleased, hmeant, htable]
      exact closed_cons h.closed d
    · dsimp only
      rw [hreleased]
      exact transferred_append h.transferred d
  · rename_i fd hwork
    cases ht
    obtain ⟨d, hmeant, hname, htaken, hnone⟩ := htracked.transferring fd hwork
    refine h.set hp rfl rfl rfl ?_ (fun _ _ => rfl) (fun _ _ hd => hd) (fun _ hd => hd)
      h.kernel h.objs h.closed ?_
    · refine ⟨hreach, hanswered, hgone, by simp, ?_, ?_, ?_, ?_, htracked.transferring⟩
      · intro hw
        cases hwork.symm.trans hw
      · intro hw
        cases hwork.symm.trans hw
      · intro hw
        cases hwork.symm.trans hw
      · intro fd' hw
        cases hwork.symm.trans hw
    · intro k hk
      rcases List.mem_cons.mp hk with rfl | hk
      · refine ⟨d, hmeant, ?_⟩
        by_cases hr : d ∈ s.custody.released
        · exact .inr hr
        · obtain ⟨n, hn, _, htable⟩ := h.kernel.named d htaken hr
          cases hname.symm.trans hn
          exact .inl htable
      · exact h.transferred k hk

/-! ## Runs -/

/-- The coroutine `c` awaits nothing, or a request that is over and has opened nothing. -/
def AtRest (s : State) (c : Nat) : Prop :=
  ∀ r next p, (s.coroutines c).pc = .awaits r next → s.requests[r]? = some p →
    p.sys.outcome ≠ none ∧ p.work ≠ .openPath

theorem AtRest.mayLeave (hc : AtRest s c) (hcoroutines : t.coroutines = s.coroutines)
    (hrequests : t.requests = s.requests) : MayLeave t c := by
  intro r next p hn hp
  obtain ⟨ho, hw⟩ := hc r next p (hcoroutines ▸ hn) (hrequests ▸ hp)
  exact ⟨ho, fun hopen => absurd hopen hw⟩

theorem inv_step_duplicate (h : Inv s) (hc : AtRest s c) {dup : Int}
    (hs : s.duplicate c f dup = some t) : Inv t := by
  unfold State.duplicate at hs
  split at hs
  · cases hs
    exact inv_ends h (hc.mayLeave rfl rfl) f _
  · rename_i hpos
    split at hs <;> cases hs
    rename_i hfree
    have hf := forgets s f .overwritten
    exact inv_ends (inv_duplicate h f (Int.not_lt.mp hpos) hfree)
      (hc.mayLeave hf.coroutines hf.requests) f _

theorem inv_call (h : Inv s) (hidle : (s.coroutines c).pc = .idle) {stopped : Bool} {dup : Int}
    {op : Op} (hs : s.call c f stopped dup op = some t) : Inv t := by
  have hnot : ∀ r next, (s.coroutines c).pc ≠ .awaits r next := by
    intro r next
    simp [hidle]
  have hrest : AtRest s c := fun r next _ hc => absurd hc (hnot r next)
  cases op with
  | openPath =>
    simp only [State.call] at hs
    split at hs
    · split at hs <;> cases hs
      · rename_i hopen
        exact inv_awaitClose h hnot hopen stopped (by simp)
      · exact inv_awaitOpen h hnot f stopped
    · cases hs
  | openDescriptor fd =>
    simp only [State.call] at hs
    split at hs
    · cases hs
      exact inv_ends h (hrest.mayLeave rfl rfl) f _
    · split at hs
      · cases hs
        exact inv_ends h (hrest.mayLeave rfl rfl) f _
      · split at hs
        · rename_i hopen
          split at hs <;> cases hs
          exact inv_awaitClose h hnot hopen stopped (by simp)
        · exact inv_step_duplicate h hrest hs
  | close =>
    simp only [State.call] at hs
    split at hs
    · rename_i hopen
      split at hs <;> cases hs
      exact inv_awaitClose h hnot hopen stopped (by simp)
    · cases hs
      exact inv_ends h (hrest.mayLeave rfl rfl) f _
  | transfer =>
    simp only [State.call] at hs
    split at hs
    · rename_i hopen
      split at hs <;> cases hs
      exact inv_awaitTransfer h hnot hopen stopped
    · cases hs
      exact inv_ends h (hrest.mayLeave rfl rfl) f _

theorem await_ends (s : State) (c f : Nat) (work : Work) (meant : Option Nat) (stopped : Bool)
    (next : Next) (result : Except Error Unit) :
    (s.ends c f result).await c f work meant stopped next =
      s.await c f work meant stopped next := by
  simp [State.await, State.ends, Function.update_idem]

theorem inv_resume (h : Inv s) {next : Next} {p : Pending} {o : Except Error Int}
    (hc : (s.coroutines c).pc = .awaits r next) (hp : s.requests[r]? = some p)
    (ho : p.sys.outcome = some o) {stopped : Bool} {dup : Int}
    (hs : s.resume c f r next stopped dup o = some t) : Inv t := by
  have hsome : p.sys.outcome ≠ none := by simp [ho]
  have hpc : ∀ r' next' p', (s.coroutines c).pc = .awaits r' next' →
      s.requests[r']? = some p' → r' = r ∧ p' = p := by
    intro r' next' p' hc' hp'
    cases hc.symm.trans hc'
    cases hp.symm.trans hp'
    exact ⟨rfl, rfl⟩
  have hrest : next ≠ .store → AtRest s c := by
    intro hn r' next' p' hc' hp'
    obtain ⟨rfl, rfl⟩ := hpc r' next' p' hc' hp'
    obtain ⟨q, hq, hw⟩ := h.awaits c r' next hc
    cases hp.symm.trans hq
    exact ⟨hsome, fun hopen => hn (hw.mpr hopen)⟩
  cases o with
  | error e =>
    cases hs
    refine inv_ends h ?_ f _
    intro r' next' p' hc' hp'
    obtain ⟨rfl, rfl⟩ := hpc r' next' p' hc' hp'
    exact ⟨hsome, fun _ v hv => by rw [ho] at hv; cases hv⟩
  | ok value =>
    cases next with
    | reopen =>
      simp only [State.resume] at hs
      split at hs <;> cases hs
      rw [← await_ends s c f .openPath none stopped .store (.ok ())]
      refine inv_awaitOpen (inv_ends h ((hrest (by simp)).mayLeave rfl rfl) f _) ?_ f stopped
      intro r' next'
      simp [State.ends]
    | duplicate fd => exact inv_step_duplicate h (hrest (by simp)) hs
    | store =>
      cases hs
      have htracked := h.tracked r p hp
      obtain ⟨q, hq, hw⟩ := h.awaits c r .store hc
      cases hp.symm.trans hq
      have hwork := hw.mp rfl
      have hproduced := htracked.answered.value value ho
      have hkept := htracked.kept hwork (by simp [hproduced]) ⟨c, .store, hc⟩
      obtain ⟨d, hd⟩ := Option.ne_none_iff_exists'.mp hkept
      obtain ⟨n, hn, hname⟩ := htracked.opened hwork d hd
      cases hproduced.symm.trans hn
      exact inv_store h hc hp hsome hd hname
    | leave =>
      cases hs
      exact inv_ends h ((hrest (by simp)).mayLeave rfl rfl) f _

theorem inv_request (h : Inv s) {p : Pending} (hp : s.requests[r]? = some p)
    {l : Request.Label} {sys : Request.Sys}
    (hs : Request.step runFsRequest true p.sys l = some sys) (hl : l.isWork = false) :
    Inv { s with
      requests := s.requests.set r { p with sys := sys, acted := p.acted || l.isWork } } :=
  h.set hp rfl rfl rfl ((h.tracked r p hp).step hs hl) (fun _ _ => rfl) (fun _ _ hd => hd)
    (fun _ hd => hd) h.kernel h.objs h.closed h.transferred

theorem inv_step {l : Label} (h : Inv s) (hs : s.step l = some t) : Inv t := by
  cases l with
  | call c f op stopped dup =>
    simp only [State.step] at hs
    split at hs
    · rename_i hidle
      exact inv_call h hidle hs
    · cases hs
  | resume c stopped dup =>
    simp only [State.step] at hs
    split at hs
    · rename_i r next hc
      simp only [Option.bind_eq_some_iff] at hs
      obtain ⟨o, ⟨p, hp, ho⟩, hs⟩ := hs
      exact inv_resume h hc hp ho hs
    · cases hs
  | request r l =>
    simp only [State.step, Option.bind_eq_some_iff] at hs
    obtain ⟨p, hp, sys, hsys, hs⟩ := hs
    cases l with
    | work result =>
      simp only [Request.Label.isWork, Bool.or_true] at hs
      exact inv_act h hp hsys hs
    | _ =>
      cases hs
      exact inv_request h hp hsys rfl
  | destroy f refused =>
    cases hs
    exact inv_destroy h f refused (by decide) .orphaned
  | move f g refused =>
    simp only [State.step] at hs
    split at hs
    · cases hs
      exact h
    · rename_i hne
      cases hs
      have hu := inv_destroy h g refused (show ({} : Obj).fd < 0 by decide) .overwritten
      have hf := forgets (s.closeSync g refused) g .overwritten
      generalize (s.closeSync g refused).forget g .overwritten = u at hu hf
      have hmove := inv_move hu hne ((hf.file g).trans (if_pos rfl))
      simp only [Function.update_idem, Function.update_of_ne hne] at hmove
      exact hmove

theorem inv_reachable (h : Reachable system s) : Inv s := by
  refine h.invariant (I := Inv) ?_ fun s l t _ hi hs => inv_step hi hs
  rintro s rfl
  refine ⟨⟨Custody.sound_empty, by simp, by simp, by simp, by simp⟩, ?_, by simp, by simp,
    by simp, by simp, ⟨rfl, by simp⟩, by simp [Transferred]⟩
  intro f
  refine ⟨by simp, ?_⟩
  intro _
  show (-1 : Int) < 0
  decide

end

/-! ## What becomes of every descriptor -/

/-- An object is not destroyed while a coroutine is in a call on it. -/
def Outlives (s : State) (l : Label) : Prop :=
  ∀ f refused, l = .destroy f refused → ∀ c r next,
    (s.coroutines c).pc = .awaits r next → (s.coroutines c).file ≠ f

/-- Who has the descriptor `d`, whose number is `fd`: an open object; a request that a
coroutine waits for; one that somebody has cancelled, or that libuv has not accepted; or
nobody any more, for one of the three reasons of `Loss`. -/
inductive Has (s : State) (fd : Int) (d : Nat) : Prop
  | file (f : Nat) : s.custody.held (.file f) = some d → (s.objs f).fd = fd → Has s fd d
  | awaited (r : Nat) : s.custody.held (.request r) = some d → Awaited s r → Has s fd d
  | abandoned (r : Nat) (p : Pending) : s.custody.held (.request r) = some d →
      s.requests[r]? = some p →
      p.sys.op.cancelRequested = true ∨ p.sys.flight = .idle → Has s fd d
  | lost (why : Loss) : s.custody.held (.lost why d) = some d → Has s fd d

theorem Inv.has {s : State} (h : Inv s) {fd : Int} {d : Nat} (hd : s.table fd = some d) :
    Has s fd d := by
  obtain ⟨htaken, hreleased, hname⟩ := h.kernel.live fd d hd
  obtain ⟨holder, hheld⟩ := h.kernel.sound.kept htaken hreleased
  cases holder with
  | file f =>
    have hn := (h.objs f).held d hheld
    exact .file f hheld (Option.some.inj (hn.symm.trans hname))
  | request r =>
    by_cases ha : Awaited s r
    · exact .awaited r hheld ha
    · have hr := h.bound r d hheld
      have hp : s.requests[r]? = some s.requests[r] := List.getElem?_eq_getElem hr
      generalize s.requests[r] = p at hp
      refine .abandoned r p hheld hp ?_
      have ht := h.tracked r p hp
      have hcarried := reachable_carried ht.reach
      have ho := ht.gone ha
      cases hw : p.work with
      | openPath =>
        -- a coroutine that has not been cancelled has gone on with the descriptor
        obtain ⟨n, hn, _⟩ := ht.opened hw d hheld
        obtain ⟨o, ho⟩ := Option.ne_none_iff_exists'.mp ho
        cases hc : p.sys.op.cancelRequested with
        | true => exact .inl rfl
        | false =>
          have hok := outcome_eq_produced ht.reach hc hn ho
          have hnone := ht.stored hw ha n (hok ▸ ho)
          cases hheld.symm.trans hnone
      | close fd' =>
        obtain ⟨e, _, _, he⟩ := ht.closing fd' hw
        have hacted : p.acted = false := by
          cases hacted : p.acted with
          | false => rfl
          | true =>
            rw [hacted, hheld] at he
            cases he
        exact outcome_unworked (hacted ▸ ht.answered) hcarried ho
      | transfer fd' =>
        obtain ⟨e, _, _, _, he⟩ := ht.transferring fd' hw
        cases hheld.symm.trans he
  | lost why d' =>
    cases h.kernel.lost why d' d hheld
    exact .lost why hheld

/-- The steps of the request `r` and of the coroutine that awaits it. -/
def answered (c r : Nat) (result : Int) : List Label :=
  [.request r .run, .request r .run, .request r .run, .request r (.runPosted 0 0),
    .request r .begin, .request r (.work result), .request r .callback, .resume c false 0]

def reuse : List Label :=
  .call 0 0 .openPath false 0 :: answered 0 0 3 ++
    .call 1 0 .close false 0 :: answered 1 1 0 ++
    .call 2 1 .openPath false 0 :: answered 2 2 3

end LuvCoro.Fs.Descriptors
