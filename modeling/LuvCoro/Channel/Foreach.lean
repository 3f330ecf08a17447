import LuvCoro.Lib.Transition

/-! # `co_foreach`

Translated from `include/luvcoro/message.hpp`. With a window the loop keeps a task
for each message until there are `max_concurrency` of them, and awaits these
together. A task is a coroutine that has not begun: what it keeps of its message
is a reference to the variable of the round it was made in. -/
namespace LuvCoro.Channel.Foreach

open Transition

variable {μ ε : Type}

/-- What is looped over, and what becomes of the invocation for each message. -/
structure Loop (μ ε : Type) where
  messages : List μ
  fn : Nat → Except ε Unit

/-- `co_foreach` without a window, from message `k` on: the invocations, and how
the loop ends. -/
def coForeach (fn : Nat → Except ε Unit) (k : Nat) : List μ → List (Nat × μ) × Except ε Unit
  | [] => ([], .ok ())
  | message :: messages =>
    match fn k with
    | .error e => ([(k, message)], .error e)
    | .ok () =>
      let rest := coForeach fn (k + 1) messages
      ((k, message) :: rest.1, rest.2)

/-! ## With a window -/

structure Windowed (μ ε : Type) extends Loop μ ε where
  maxConcurrency : Nat
  positive : 0 < maxConcurrency

def windowed (loop : Loop μ ε) (maxConcurrency : Nat) : Except String (Windowed μ ε) :=
  if h : maxConcurrency = 0 then
    .error "co_foreach max_concurrency must be greater than 0"
  else .ok { loop with maxConcurrency := maxConcurrency, positive := Nat.pos_of_ne_zero h }

inductive Phase (ε : Type) where
  | receiving
  /-- In `when_all`; `last` after the loop. -/
  | joining (last : Bool)
  | done (result : Except ε Unit)

structure State (μ ε : Type) where
  received : Nat := 0
  /-- The round whose `message` is in scope. -/
  current : Option Nat := none
  /-- Tasks that have not begun. -/
  batch : List Nat := []
  inFlight : List Nat := []
  phase : Phase ε := .receiving
  /-- The invocations and what they are given; nothing is known of an argument
  that refers to a variable which is gone. -/
  started : List (Nat × Option μ) := []
  /-- What the tasks have left in the container that `when_all` returns. -/
  outcomes : List (Nat × Except ε Unit) := []

inductive Label where
  | receive
  /-- `when_all` starts the next task. -/
  | start
  | finish (k : Nat)
  /-- `when_all` returns. -/
  | join
  deriving DecidableEq, Repr

/-- What task `k` reads through its reference when it begins. -/
def State.argument (s : State μ ε) (messages : List μ) (k : Nat) : Option μ :=
  if s.current = some k then messages[k]? else none

def step (loop : Windowed μ ε) (s : State μ ε) : Label → Option (State μ ε)
  | .receive =>
    match s.phase with
    | .receiving =>
      if s.received < loop.messages.length then
        let batch := s.batch ++ [s.received]
        if loop.maxConcurrency ≤ batch.length then
          some { s with
            received := s.received + 1
            batch := batch
            current := some s.received
            phase := .joining false }
        else
          -- the round ends, and its `message` with it
          some { s with received := s.received + 1, batch := batch, current := none }
      else if s.batch = [] then some { s with phase := .done (.ok ()) }
      else some { s with phase := .joining true }
    | _ => none
  | .start =>
    match s.phase, s.batch with
    | .joining _, k :: batch =>
      some { s with
        batch := batch
        inFlight := k :: s.inFlight
        started := s.started ++ [(k, s.argument loop.messages k)] }
    | _, _ => none
  | .finish k =>
    match s.phase with
    | .joining _ =>
      if k ∈ s.inFlight then
        some { s with
          inFlight := s.inFlight.erase k
          outcomes := s.outcomes ++ [(k, loop.fn k)] }
      else none
    | _ => none
  | .join =>
    match s.phase with
    | .joining last =>
      if s.batch = [] ∧ s.inFlight = [] then
        -- no outcome in the container is asked for
        some { s with
          current := none
          phase := if last then .done (.ok ()) else .receiving }
      else none
    | _ => none

def system (loop : Windowed μ ε) : System (State μ ε) Label where
  init s := s = {}
  step := step loop

/-! ## What a step does -/

/-- What a step does, by where the loop is. -/
inductive Moves (loop : Windowed μ ε) (s : State μ ε) : State μ ε → Prop
  | fills : s.phase = .receiving → s.received < loop.messages.length →
      loop.maxConcurrency ≤ s.batch.length + 1 →
      Moves loop s { s with
        received := s.received + 1
        batch := s.batch ++ [s.received]
        current := some s.received
        phase := .joining false }
  | gathers : s.phase = .receiving → s.received < loop.messages.length →
      s.batch.length + 1 < loop.maxConcurrency →
      Moves loop s { s with
        received := s.received + 1, batch := s.batch ++ [s.received], current := none }
  | ends : s.phase = .receiving → s.received ≥ loop.messages.length → s.batch = [] →
      Moves loop s { s with phase := .done (.ok ()) }
  | flushes : s.phase = .receiving → s.received ≥ loop.messages.length → s.batch ≠ [] →
      Moves loop s { s with phase := .joining true }
  | starts {last : Bool} {k : Nat} {batch : List Nat} : s.phase = .joining last →
      s.batch = k :: batch →
      Moves loop s { s with
        batch := batch
        inFlight := k :: s.inFlight
        started := s.started ++ [(k, s.argument loop.messages k)] }
  | finishes {last : Bool} {k : Nat} : s.phase = .joining last → k ∈ s.inFlight →
      Moves loop s { s with
        inFlight := s.inFlight.erase k, outcomes := s.outcomes ++ [(k, loop.fn k)] }
  | joins : s.phase = .joining false → s.batch = [] → s.inFlight = [] →
      Moves loop s { s with current := none, phase := .receiving }
  | completes : s.phase = .joining true → s.batch = [] → s.inFlight = [] →
      Moves loop s { s with current := none, phase := .done (.ok ()) }

theorem moves_of_step {loop : Windowed μ ε} {s t : State μ ε} {l : Label}
    (h : step loop s l = some t) : Moves loop s t := by
  cases l with
  | receive =>
    simp only [step] at h
    split at h
    · rename_i hp
      split at h
      · rename_i hlt
        split at h
        · rename_i hfull
          cases h
          exact .fills hp hlt (by simpa using hfull)
        · rename_i hfull
          cases h
          exact .gathers hp hlt (by simpa using hfull)
      · rename_i hge
        split at h
        · rename_i hb
          cases h
          exact .ends hp (Nat.not_lt.mp hge) hb
        · rename_i hb
          cases h
          exact .flushes hp (Nat.not_lt.mp hge) hb
    · cases h
  | start =>
    simp only [step] at h
    split at h
    · rename_i hp hb
      cases h
      exact .starts hp hb
    · cases h
  | finish k =>
    simp only [step] at h
    split at h
    · rename_i hp
      split at h
      · rename_i hk
        cases h
        exact .finishes hp hk
      · cases h
    · cases h
  | join =>
    simp only [step] at h
    split at h
    · rename_i last hp
      split at h
      · rename_i hb
        cases h
        cases last with
        | false => exact .joins hp hb.1 hb.2
        | true => exact .completes hp hb.1 hb.2
      · cases h
    · cases h

/-! ## The loop and its tasks -/

/-- What is known where the loop is. -/
inductive Stage (loop : Windowed μ ε) (s : State μ ε) : Prop
  | receiving : s.phase = .receiving → s.current = none → s.inFlight = [] →
      s.batch.length < loop.maxConcurrency → Stage loop s
  /-- The batch is full, and the last message of it is in scope. -/
  | full {c : Nat} : s.phase = .joining false → s.current = some c → s.received = c + 1 →
      loop.maxConcurrency ≤ s.received → Stage loop s
  | last : s.phase = .joining true → s.current = none → 1 < loop.maxConcurrency →
      s.received = loop.messages.length → Stage loop s
  | done : s.phase = .done (.ok ()) → s.batch = [] → s.inFlight = [] →
      s.received = loop.messages.length → Stage loop s

structure Inv (loop : Windowed μ ε) (s : State μ ε) : Prop where
  /-- The tasks are begun in the order of the messages. -/
  order : s.started.map Prod.fst ++ s.batch = List.range s.received
  room : s.batch.length + s.inFlight.length ≤ loop.maxConcurrency
  bound : s.received ≤ loop.messages.length
  running : ∀ k ∈ s.started.map Prod.fst, k ∈ s.inFlight ∨ k ∈ s.outcomes.map Prod.fst
  /-- A window of one keeps the message in scope. -/
  single : loop.maxConcurrency = 1 → ∀ x ∈ s.started, x.2 = loop.messages[x.1]?
  /-- A larger one does not keep the first. -/
  lost : 1 < loop.maxConcurrency → ∀ x ∈ s.started, x.1 = 0 → x.2 = none
  stage : Stage loop s

section
variable {loop : Windowed μ ε} {s t : State μ ε}

theorem inv_init (loop : Windowed μ ε) : Inv loop {} where
  order := rfl
  room := Nat.zero_le _
  bound := Nat.zero_le _
  running := by simp
  single _ := by simp
  lost _ := by simp
  stage := .receiving rfl rfl rfl loop.positive

theorem Stage.of_receiving (h : Stage loop s) (hp : s.phase = .receiving) :
    s.current = none ∧ s.inFlight = [] ∧ s.batch.length < loop.maxConcurrency := by
  cases h with
  | receiving _ hc hf hb => exact ⟨hc, hf, hb⟩
  | full hj => rw [hp] at hj; cases hj
  | last hj => rw [hp] at hj; cases hj
  | done hj => rw [hp] at hj; cases hj

theorem Stage.of_done {r : Except ε Unit} (h : Stage loop s) (hp : s.phase = .done r) :
    r = .ok () ∧ s.batch = [] ∧ s.inFlight = [] ∧ s.received = loop.messages.length := by
  cases h with
  | receiving hj => rw [hp] at hj; cases hj
  | full hj => rw [hp] at hj; cases hj
  | last hj => rw [hp] at hj; cases hj
  | done hj hb hf hr =>
    rw [hp] at hj
    cases hj
    exact ⟨rfl, hb, hf, hr⟩

/-- While tasks are started the last message of a full batch is in scope, or none. -/
theorem Stage.of_joining {last : Bool} (h : Stage loop s) (hp : s.phase = .joining last) :
    (∃ c, last = false ∧ s.current = some c ∧ s.received = c + 1 ∧
        loop.maxConcurrency ≤ s.received) ∨
      last = true ∧ s.current = none ∧ 1 < loop.maxConcurrency ∧
        s.received = loop.messages.length := by
  cases h with
  | receiving hj => rw [hp] at hj; cases hj
  | @full c hj hc hr hn =>
    rw [hp] at hj
    cases hj
    exact .inl ⟨c, rfl, hc, hr, hn⟩
  | last hj hc hn hr =>
    rw [hp] at hj
    cases hj
    exact .inr ⟨rfl, hc, hn, hr⟩
  | done hj => rw [hp] at hj; cases hj

/-- With a window of one the task that is started is that of the message in scope. -/
theorem argument_single (h : Inv loop s) {last : Bool} {k : Nat} {batch : List Nat}
    (hp : s.phase = .joining last) (hb : s.batch = k :: batch) (h1 : loop.maxConcurrency = 1) :
    s.argument loop.messages k = loop.messages[k]? := by
  rcases h.stage.of_joining hp with ⟨c, _, hc, hr, _⟩ | ⟨_, _, hn, _⟩
  · have hroom := h.room
    rw [hb, List.length_cons, h1] at hroom
    have hnil : batch = [] := List.eq_nil_of_length_eq_zero (by omega)
    have horder := h.order
    rw [hb, hnil, hr, List.range_succ] at horder
    have hk : k = c := (List.append_inj' horder rfl).2 |> List.singleton_inj.mp
    unfold State.argument
    rw [hc, hk, if_pos rfl]
  · omega

/-- With a larger one the first is gone when its task is started. -/
theorem argument_lost (h : Inv loop s) {last : Bool} (hp : s.phase = .joining last)
    (hn : 1 < loop.maxConcurrency) : s.argument loop.messages 0 = none := by
  unfold State.argument
  rcases h.stage.of_joining hp with ⟨c, _, hc, hr, hle⟩ | ⟨_, hc, _, _⟩
  · refine if_neg ?_
    rw [hc]
    intro he
    cases he
    omega
  · refine if_neg ?_
    rw [hc]
    intro he
    cases he

theorem inv_moves (h : Inv loop s) (hm : Moves loop s t) : Inv loop t := by
  obtain ⟨horder, hroom, hbound, hrunning, hsingle, hlost, hstage⟩ := h
  have hgathered : s.started.map Prod.fst ++ (s.batch ++ [s.received]) =
      List.range (s.received + 1) := by
    rw [List.range_succ, ← horder, List.append_assoc]
  cases hm with
  | fills hp hlt hfull =>
    obtain ⟨_, hf, hb⟩ := hstage.of_receiving hp
    have hle : s.batch.length ≤ s.received := by
      have := congrArg List.length horder
      rw [List.length_append, List.length_range] at this
      omega
    refine ⟨hgathered, ?_, hlt, hrunning, hsingle, hlost, .full rfl rfl rfl (by dsimp only; omega)⟩
    dsimp only
    rw [hf, List.length_append, List.length_singleton, List.length_nil]
    omega
  | gathers hp hlt hfull =>
    obtain ⟨_, hf, hb⟩ := hstage.of_receiving hp
    have hlen : (s.batch ++ [s.received]).length < loop.maxConcurrency := by
      rw [List.length_append]
      exact hfull
    refine ⟨hgathered, ?_, hlt, hrunning, hsingle, hlost, .receiving hp rfl hf hlen⟩
    dsimp only
    rw [hf]
    exact Nat.le_of_lt hlen
  | ends hp hge hb =>
    obtain ⟨_, hf, _⟩ := hstage.of_receiving hp
    exact ⟨horder, hroom, hbound, hrunning, hsingle, hlost,
      .done rfl hb hf (Nat.le_antisymm hbound hge)⟩
  | flushes hp hge hb =>
    obtain ⟨hc, _, hlen⟩ := hstage.of_receiving hp
    have hpos := List.length_pos_iff.mpr hb
    exact ⟨horder, hroom, hbound, hrunning, hsingle, hlost,
      .last rfl hc (by omega) (Nat.le_antisymm hbound hge)⟩
  | @starts last k batch hp hb =>
    have harg := argument_single ⟨horder, hroom, hbound, hrunning, hsingle, hlost, hstage⟩ hp hb
    have hgone := argument_lost ⟨horder, hroom, hbound, hrunning, hsingle, hlost, hstage⟩ hp
    refine ⟨?_, ?_, hbound, ?_, ?_, ?_, ?_⟩
    · rw [hb] at horder
      dsimp only
      rw [List.map_append, List.append_assoc]
      exact horder
    · rw [hb, List.length_cons] at hroom
      dsimp only
      rw [List.length_cons]
      omega
    · intro j hj
      rw [List.map_append] at hj
      rcases List.mem_append.mp hj with hj | hj
      · exact (hrunning j hj).imp_left (List.mem_cons_of_mem k)
      · cases List.mem_singleton.mp hj
        exact .inl List.mem_cons_self
    · intro h1 x hx
      rcases List.mem_append.mp hx with hx | hx
      · exact hsingle h1 x hx
      · cases List.mem_singleton.mp hx
        exact harg h1
    · intro hn x hx h0
      rcases List.mem_append.mp hx with hx | hx
      · exact hlost hn x hx h0
      · cases List.mem_singleton.mp hx
        cases h0
        exact hgone hn
    · rcases hstage.of_joining hp with ⟨c, rfl, hc, hr, hle⟩ | ⟨rfl, hc, hn, hr⟩
      · exact .full hp hc hr hle
      · exact .last hp hc hn hr
  | @finishes last k hp hk =>
    refine ⟨horder, ?_, hbound, ?_, hsingle, hlost, ?_⟩
    · have := (List.erase_sublist : (s.inFlight.erase k).Sublist _).length_le
      dsimp only
      omega
    · intro j hj
      rw [List.map_append]
      by_cases hjk : j = k
      · exact .inr (List.mem_append_right _ (by simp [hjk]))
      · rcases hrunning j hj with hj | hj
        · exact .inl ((List.mem_erase_of_ne hjk).mpr hj)
        · exact .inr (List.mem_append_left _ hj)
    · rcases hstage.of_joining hp with ⟨c, rfl, hc, hr, hle⟩ | ⟨rfl, hc, hn, hr⟩
      · exact .full hp hc hr hle
      · exact .last hp hc hn hr
  | joins hp hb hf =>
    refine ⟨horder, hroom, hbound, hrunning, hsingle, hlost, .receiving rfl rfl hf ?_⟩
    dsimp only
    rw [hb]
    exact loop.positive
  | completes hp hb hf =>
    rcases hstage.of_joining hp with ⟨_, h, _⟩ | ⟨_, _, _, hr⟩
    · cases h
    · exact ⟨horder, hroom, hbound, hrunning, hsingle, hlost, .done rfl hb hf hr⟩

theorem inv_reachable (h : Reachable (system loop) s) : Inv loop s := by
  refine h.invariant ?_ ?_
  · rintro s rfl
    exact inv_init loop
  · intro s l t _ hs hstep
    exact inv_moves hs (moves_of_step hstep)

end

/-! ## Against the loop without a window -/

/-- The loop without a window throws when an invocation does, and starts the others
in the order of the messages. -/
theorem coForeach_throws (fn : Nat → Except ε Unit) (k : Nat) (messages : List μ) :
    ((∀ i < messages.length, fn (k + i) = .ok ()) →
      (coForeach fn k messages).1.map Prod.snd = messages ∧
        (coForeach fn k messages).2 = .ok ()) ∧
    ((∃ i < messages.length, ∃ e, fn (k + i) = .error e) →
      ∃ e, (coForeach fn k messages).2 = .error e) := by
  induction messages generalizing k with
  | nil => exact ⟨fun _ => ⟨rfl, rfl⟩, by rintro ⟨i, hi, _⟩; cases hi⟩
  | cons message messages ih =>
    have hshift : ∀ i, k + (i + 1) = k + 1 + i := fun i => by omega
    unfold coForeach
    cases hk : fn k with
    | error e =>
      refine ⟨?_, fun _ => ⟨e, rfl⟩⟩
      intro hall
      have := hall 0 (by simp)
      rw [Nat.add_zero, hk] at this
      cases this
    | ok _ =>
      obtain ⟨hok, hthrows⟩ := ih (k + 1)
      refine ⟨?_, ?_⟩
      · intro hall
        obtain ⟨hs, hr⟩ := hok fun i hi => hshift i ▸ hall (i + 1) (by simpa using hi)
        exact ⟨congrArg (message :: ·) hs, hr⟩
      · rintro ⟨i, hi, e, he⟩
        cases i with
        | zero =>
          rw [Nat.add_zero, hk] at he
          cases he
        | succ i => exact hthrows ⟨i, by simpa using hi, e, hshift i ▸ he⟩

/-- The window makes no difference: the callback is invoked once for each message,
in order, when none throws, and the loop throws when one does. -/
structure Agrees (loop : Windowed μ ε) (s : State μ ε) (r : Except ε Unit) : Prop where
  each : (∀ k < loop.messages.length, loop.fn k = .ok ()) →
    s.started.map Prod.snd = loop.messages.map some
  throws : (∃ k ∈ s.started.map Prod.fst, ∃ e, loop.fn k = .error e) → ∃ e, r = .error e

theorem map_getElem?_range (messages : List μ) :
    ((List.range messages.length).map fun k => messages[k]?) = messages.map some := by
  refine List.ext_getElem (by simp) ?_
  intro k hk _
  simp

/-- There are never more in flight than the window allows, and none when the loop
completes. It then agrees with the loop without a window if there are no messages,
or if the window is one and no invocation throws, and only then. -/
theorem co_foreach_agrees_iff {loop : Windowed μ ε} {s : State μ ε}
    (h : Reachable (system loop) s) :
    s.inFlight.length ≤ loop.maxConcurrency ∧
      ∀ r, s.phase = .done r →
        (∀ k < loop.messages.length, k ∈ s.outcomes.map Prod.fst) ∧
        (Agrees loop s r ↔ loop.messages = [] ∨
          loop.maxConcurrency = 1 ∧ ∀ k < loop.messages.length, loop.fn k = .ok ()) := by
  have hinv := inv_reachable h
  have hroom := hinv.room
  refine ⟨by omega, ?_⟩
  intro r hr
  obtain ⟨rfl, hb, hf, hlen⟩ := hinv.stage.of_done hr
  have horder : s.started.map Prod.fst = List.range loop.messages.length := by
    have := hinv.order
    rw [hb, List.append_nil, hlen] at this
    exact this
  refine ⟨?_, ?_, ?_⟩
  · intro k hk
    have hmem : k ∈ s.started.map Prod.fst := by
      rw [horder]
      exact List.mem_range.mpr hk
    rcases hinv.running k hmem with hk | hk
    · rw [hf] at hk
      cases hk
    · exact hk
  · intro hagrees
    have hok : ∀ k < loop.messages.length, loop.fn k = .ok () := by
      intro k hk
      cases hfn : loop.fn k with
      | ok _ => rfl
      | error e =>
        obtain ⟨e', he'⟩ := hagrees.throws
          ⟨k, by rw [horder]; exact List.mem_range.mpr hk, e, hfn⟩
        cases he'
    have heach := hagrees.each hok
    by_cases h1 : loop.maxConcurrency = 1
    · exact .inr ⟨h1, hok⟩
    · refine .inl ?_
      have hpos := loop.positive
      cases hm : loop.messages with
      | nil => rfl
      | cons message messages =>
        -- the first invocation has lost its message
        rw [hm] at heach horder
        cases hs : s.started with
        | nil =>
          rw [hs] at heach
          cases heach
        | cons x xs =>
          rw [hs] at heach horder
          rw [List.length_cons, List.range_succ_eq_map] at horder
          have hfirst : x.1 = 0 := (List.cons.inj horder).1
          have hsome : x.2 = some message := (List.cons.inj heach).1
          have hnone := hinv.lost (by omega) x (by rw [hs]; exact List.mem_cons_self) hfirst
          rw [hsome] at hnone
          cases hnone
  · rintro (hm | ⟨h1, hok⟩)
    · rw [hm] at horder
      have hs : s.started = [] := List.map_eq_nil_iff.mp horder
      refine ⟨?_, ?_⟩
      · intro _
        rw [hs, hm]
        rfl
      · rintro ⟨k, hk, _⟩
        rw [hs] at hk
        cases hk
    · refine ⟨?_, ?_⟩
      · intro _
        have hargs : s.started.map Prod.snd =
            (s.started.map Prod.fst).map fun k => loop.messages[k]? := by
          rw [List.map_map]
          exact List.map_congr_left fun x hx => hinv.single h1 x hx
        rw [hargs, horder]
        exact map_getElem?_range loop.messages
      · rintro ⟨k, hk, e, he⟩
        rw [horder] at hk
        rw [hok k (List.mem_range.mp hk)] at he
        cases he

/-- Two messages, and invocations that return. -/
def twoMessages (maxConcurrency : Nat) (h : 0 < maxConcurrency) : Windowed Nat String where
  messages := [10, 20]
  fn _ := .ok ()
  maxConcurrency := maxConcurrency
  positive := h

/-- One message, and an invocation that throws. -/
def throwing : Windowed Nat String where
  messages := [10]
  fn _ := .error "failed"
  maxConcurrency := 1
  positive := Nat.one_pos

/-- In a window of two the first of two messages is gone when it is to be read. In
a window of one what the invocation throws is not heard of. -/
theorem co_foreach_disagrees :
    (¬ ∀ s r, Reachable (system (twoMessages 2 Nat.two_pos)) s → s.phase = .done r →
      Agrees (twoMessages 2 Nat.two_pos) s r) ∧
    ¬ ∀ s r, Reachable (system throwing) s → s.phase = .done r → Agrees throwing s r := by
  constructor
  · intro h
    have h0 : Reachable (system (twoMessages 2 Nat.two_pos)) {} := .init rfl
    have hrun := h0.run (show run (system (twoMessages 2 Nat.two_pos)) {}
      [.receive, .receive, .start, .start, .finish 0, .finish 1, .join, .receive] = some _ from rfl)
    have heach := (h _ _ hrun rfl).each fun _ _ => rfl
    cases heach
  · intro h
    have h0 : Reachable (system throwing) {} := .init rfl
    have hrun := h0.run (show run (system throwing) {}
      [.receive, .start, .finish 0, .join, .receive] = some _ from rfl)
    obtain ⟨e, he⟩ := (h _ _ hrun rfl).throws ⟨0, List.mem_cons_self, "failed", rfl⟩
    cases he

theorem co_foreach_agrees_one :
    ∃ s, Agrees (twoMessages 1 Nat.one_pos) s (.ok ()) ∧
      s.started = [(0, some 10), (1, some 20)] := by
  have h0 : Reachable (system (twoMessages 1 Nat.one_pos)) {} := .init rfl
  have hrun := h0.run (show run (system (twoMessages 1 Nat.one_pos)) {}
    [.receive, .start, .finish 0, .join, .receive, .start, .finish 1, .join, .receive] =
      some _ from rfl)
  exact ⟨_, ((co_foreach_agrees_iff hrun).2 _ rfl).2.mpr (.inr ⟨rfl, fun _ _ => rfl⟩), rfl⟩

end LuvCoro.Channel.Foreach
