import Mathlib.Logic.Function.Basic

/-! # Programs with state and exceptions

A program runs on a state and returns or throws, or gets stuck. `Leads` is one
run of it; `Keeps` says that every run keeps an invariant, and has a rule for
each way to put a program together. -/
namespace Stateful

/-- `none` is a program that is stuck. -/
abbrev Program (σ ε : Type) := ExceptT ε (StateT σ Option)

variable {σ ε α β : Type} {s t u : σ} {r : Except ε α} {p : Program σ ε α} {I : σ → Prop}

def ofFn (f : σ → Option (Except ε α × σ)) : Program σ ε α := ExceptT.mk f

def stuck : Program σ ε α := ofFn fun _ => none

/-- `q` runs when `p` is left, in either way. -/
def cleanUp (p : Program σ ε α) (q : Program σ ε Unit) : Program σ ε α :=
  ofFn fun s => (p.run.run s).bind fun x => (q.run.run x.2).map fun y => (x.1, y.2)

/-- `f` is run for one after the other. -/
def each {ι : Type} (f : ι → Program σ ε Unit) : List ι → Program σ ε Unit
  | [] => pure ()
  | x :: xs => do
    f x
    each f xs

/-- `p` runs from `s` to `t`, and returns or throws `r`. -/
def Leads (p : Program σ ε α) (s : σ) (r : Except ε α) (t : σ) : Prop := p.run.run s = some (r, t)

theorem leads_ofFn {f : σ → Option (Except ε α × σ)} :
    Leads (ofFn f) s r t ↔ f s = some (r, t) := Iff.rfl

theorem leads_pure {a : α} : Leads (pure a : Program σ ε α) s r t ↔ r = .ok a ∧ t = s := by
  constructor
  · intro h
    cases h
    exact ⟨rfl, rfl⟩
  · intro ⟨hr, ht⟩
    rw [hr, ht]
    rfl

theorem leads_throw {e : ε} : Leads (throw e : Program σ ε α) s r t ↔ r = .error e ∧ t = s := by
  constructor
  · intro h
    cases h
    exact ⟨rfl, rfl⟩
  · intro ⟨hr, ht⟩
    rw [hr, ht]
    rfl

theorem leads_get {x : Except ε σ} :
    Leads (get : Program σ ε σ) s x t ↔ x = .ok s ∧ t = s := by
  constructor
  · intro h
    cases h
    exact ⟨rfl, rfl⟩
  · intro ⟨hr, ht⟩
    rw [hr, ht]
    rfl

theorem leads_modify {f : σ → σ} {x : Except ε Unit} :
    Leads (modify f : Program σ ε Unit) s x t ↔ x = .ok () ∧ t = f s := by
  constructor
  · intro h
    cases h
    exact ⟨rfl, rfl⟩
  · intro ⟨hr, ht⟩
    rw [hr, ht]
    rfl

theorem leads_bind {f : α → Program σ ε β} {x : Except ε β} :
    Leads (p >>= f) s x t ↔ (∃ a u, Leads p s (.ok a) u ∧ Leads (f a) u x t) ∨
      ∃ e, x = .error e ∧ Leads p s (.error e) t := by
  have hrun : (p >>= f).run.run s = (p.run.run s).bind fun y =>
      match y.1 with
      | .ok a => (f a).run.run y.2
      | .error e => some (.error e, y.2) := by
    show Option.bind _ _ = _
    congr 1
    funext y
    obtain ⟨y, u⟩ := y
    cases y <;> rfl
  unfold Leads
  rw [hrun, Option.bind_eq_some_iff]
  constructor
  · intro ⟨⟨y, u⟩, hp, hf⟩
    cases y with
    | ok a => exact .inl ⟨a, u, hp, hf⟩
    | error e =>
      cases hf
      exact .inr ⟨e, rfl, hp⟩
  · intro h
    rcases h with ⟨a, u, hp, hf⟩ | ⟨e, rfl, hp⟩
    · exact ⟨(.ok a, u), hp, hf⟩
    · exact ⟨(.error e, t), hp, rfl⟩

theorem leads_bind_ok {f : α → Program σ ε β} {b : β} :
    Leads (p >>= f) s (.ok b) t ↔ ∃ a u, Leads p s (.ok a) u ∧ Leads (f a) u (.ok b) t := by
  rw [leads_bind]
  exact or_iff_left fun ⟨_, he, _⟩ => nomatch he

theorem leads_each_nil {ι : Type} {f : ι → Program σ ε Unit} :
    Leads (each f []) s (.ok ()) t ↔ t = s :=
  leads_pure.trans (and_iff_right rfl)

theorem leads_each_cons {ι : Type} {f : ι → Program σ ε Unit} {x : ι} {xs : List ι} :
    Leads (each f (x :: xs)) s (.ok ()) t ↔
      ∃ u, Leads (f x) s (.ok ()) u ∧ Leads (each f xs) u (.ok ()) t := by
  refine leads_bind_ok.trans ⟨?_, ?_⟩
  · rintro ⟨⟨⟩, u, hx, hxs⟩
    exact ⟨u, hx, hxs⟩
  · rintro ⟨u, hx, hxs⟩
    exact ⟨(), u, hx, hxs⟩

theorem leads_tryCatch {h : ε → Program σ ε α} :
    Leads (tryCatch p h) s r t ↔ (∃ a, r = .ok a ∧ Leads p s (.ok a) t) ∨
      ∃ e u, Leads p s (.error e) u ∧ Leads (h e) u r t := by
  have hrun : (tryCatch p h).run.run s = (p.run.run s).bind fun y =>
      match y.1 with
      | .ok a => some (.ok a, y.2)
      | .error e => (h e).run.run y.2 := by
    show Option.bind _ _ = _
    congr 1
    funext y
    obtain ⟨y, u⟩ := y
    cases y <;> rfl
  unfold Leads
  rw [hrun, Option.bind_eq_some_iff]
  constructor
  · intro ⟨⟨y, u⟩, hp, hf⟩
    cases y with
    | ok a =>
      cases hf
      exact .inl ⟨a, rfl, hp⟩
    | error e => exact .inr ⟨e, u, hp, hf⟩
  · intro h
    rcases h with ⟨a, rfl, hp⟩ | ⟨e, u, hp, hf⟩
    · exact ⟨(.ok a, t), hp, rfl⟩
    · exact ⟨(.error e, u), hp, hf⟩

theorem leads_cleanUp {q : Program σ ε Unit} :
    Leads (cleanUp p q) s r t ↔ ∃ u x, Leads p s r u ∧ Leads q u x t := by
  unfold Leads
  show ((p.run.run s).bind fun x => (q.run.run x.2).map fun y => (x.1, y.2)) = some (r, t) ↔ _
  rw [Option.bind_eq_some_iff]
  constructor
  · intro ⟨⟨x, u⟩, hp, hq⟩
    rw [Option.map_eq_some_iff] at hq
    obtain ⟨⟨y, v⟩, hq, he⟩ := hq
    cases he
    exact ⟨u, y, hp, hq⟩
  · intro ⟨u, x, hp, hq⟩
    exact ⟨(r, u), hp, Option.map_eq_some_iff.mpr ⟨(x, t), hq, rfl⟩⟩

/-! ## Invariants -/

def Keeps (I : σ → Prop) (p : Program σ ε α) : Prop := ∀ s r t, I s → Leads p s r t → I t

theorem keeps_pure (a : α) : Keeps I (pure a : Program σ ε α) := by
  intro s r t hs h
  obtain ⟨_, rfl⟩ := leads_pure.mp h
  exact hs

theorem keeps_throw (e : ε) : Keeps I (throw e : Program σ ε α) := by
  intro s r t hs h
  obtain ⟨_, rfl⟩ := leads_throw.mp h
  exact hs

theorem keeps_get : Keeps I (get : Program σ ε σ) := by
  intro s r t hs h
  obtain ⟨_, rfl⟩ := leads_get.mp h
  exact hs

theorem keeps_modify {f : σ → σ} (hf : ∀ s, I s → I (f s)) :
    Keeps I (modify f : Program σ ε Unit) := by
  intro s r t hs h
  obtain ⟨_, rfl⟩ := leads_modify.mp h
  exact hf s hs

theorem keeps_bind {f : α → Program σ ε β} (hp : Keeps I p) (hf : ∀ a, Keeps I (f a)) :
    Keeps I (p >>= f) := by
  intro s r t hs h
  rcases leads_bind.mp h with ⟨a, u, hpu, hfu⟩ | ⟨e, _, hpe⟩
  · exact hf a u r t (hp s _ u hs hpu) hfu
  · exact hp s _ t hs hpe

theorem keeps_tryCatch {h : ε → Program σ ε α} (hp : Keeps I p) (hh : ∀ e, Keeps I (h e)) :
    Keeps I (tryCatch p h) := by
  intro s r t hs hl
  rcases leads_tryCatch.mp hl with ⟨a, _, hpa⟩ | ⟨e, u, hpu, hhu⟩
  · exact hp s _ t hs hpa
  · exact hh e u r t (hp s _ u hs hpu) hhu

theorem keeps_each {ι : Type} {f : ι → Program σ ε Unit} (hf : ∀ x, Keeps I (f x))
    (xs : List ι) : Keeps I (each f xs) := by
  induction xs with
  | nil => exact keeps_pure ()
  | cons x xs ih => exact keeps_bind (hf x) fun _ => ih

/-! ## Programs that come to an end -/

/-- The program never gets stuck, and keeps the invariant. -/
structure Runs (I : σ → Prop) (p : Program σ ε α) : Prop where
  total (s : σ) : ∃ r t, Leads p s r t
  keeps : Keeps I p

theorem runs_pure (a : α) : Runs I (pure a : Program σ ε α) :=
  ⟨fun s => ⟨_, s, leads_pure.mpr ⟨rfl, rfl⟩⟩, keeps_pure a⟩

theorem runs_throw (e : ε) : Runs I (throw e : Program σ ε α) :=
  ⟨fun s => ⟨_, s, leads_throw.mpr ⟨rfl, rfl⟩⟩, keeps_throw e⟩

theorem runs_bind {f : α → Program σ ε β} (hp : Runs I p) (hf : ∀ a, Runs I (f a)) :
    Runs I (p >>= f) := by
  refine ⟨?_, keeps_bind hp.keeps fun a => (hf a).keeps⟩
  intro s
  obtain ⟨r, u, hpu⟩ := hp.total s
  cases r with
  | error e => exact ⟨.error e, u, leads_bind.mpr (.inr ⟨e, rfl, hpu⟩)⟩
  | ok a =>
    obtain ⟨r, t, hft⟩ := (hf a).total u
    exact ⟨r, t, leads_bind.mpr (.inl ⟨a, u, hpu, hft⟩)⟩

theorem runs_tryCatch {h : ε → Program σ ε α} (hp : Runs I p) (hh : ∀ e, Runs I (h e)) :
    Runs I (tryCatch p h) := by
  refine ⟨?_, keeps_tryCatch hp.keeps fun e => (hh e).keeps⟩
  intro s
  obtain ⟨r, u, hpu⟩ := hp.total s
  cases r with
  | ok a => exact ⟨.ok a, u, leads_tryCatch.mpr (.inl ⟨a, rfl, hpu⟩)⟩
  | error e =>
    obtain ⟨r, t, hht⟩ := (hh e).total u
    exact ⟨r, t, leads_tryCatch.mpr (.inr ⟨e, u, hpu, hht⟩)⟩

end Stateful
