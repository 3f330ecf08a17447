import LuvCoro.Io.Stdio

/-! # When an open `stdio_stream` has an open backend

A backend forgets what it had before it waits, and `open` says what it has guessed before
the backend is open. These are the two ways in which a call can fail half way, and the
conditions of the streams exclude just them. -/
namespace LuvCoro.Stdio

open Transition

@[simp] theorem andThen_none {S : Type} (s : S) (rest : S → Outcome S) :
    andThen (none, s) rest = rest s := rfl

@[simp] theorem andThen_some {S : Type} (e : Error) (s : S) (rest : S → Outcome S) :
    andThen (some e, s) rest = (some e, s) := rfl

/-- A check that throws. -/
theorem check_iff {S : Type} {c : Prop} [Decidable c] {e : Error} {s : S} {r : Outcome S} :
    (if c then (some e, s) else r).1 = none ↔ ¬ c ∧ r.1 = none := by
  by_cases hc : c
  · rw [if_pos hc]
    exact ⟨fun h => absurd h (by simp), fun h => absurd hc h.1⟩
  · rw [if_neg hc]
    exact ⟨fun h => ⟨hc, h⟩, fun h => h.2⟩

theorem call_iff {S : Type} {call : Option Error} {s : S} {r : Outcome S} :
    (if call.isSome = true then (call, s) else r).1 = none ↔ call = none ∧ r.1 = none := by
  cases call with
  | none => exact ⟨fun h => ⟨rfl, h⟩, fun h => h.2⟩
  | some e => exact ⟨fun h => absurd h (by simp), fun h => absurd h.1 (by simp)⟩

/-! ## The backends -/

theorem Tty.openFd_iff (readable : Bool) (a : OpenAnswers) :
    (({ runtime := true } : Tty).openFd readable a).1 = none ↔
      a.stopped = false ∧ a.guess = .TTY ∧ 0 ≤ a.dup ∧ a.call = none ∧ 0 ≤ a.initRc := by
  unfold Tty.openFd
  rw [check_iff, check_iff, if_neg (by simp [Tty.isOpen]), andThen_none, check_iff, call_iff,
    check_iff]
  simp only [Bool.not_eq_true, ne_eq, Decidable.not_not, Int.not_lt, and_true]

theorem Tty.openFd_isOpen (readable : Bool) (a : OpenAnswers)
    (h : (({ runtime := true } : Tty).openFd readable a).1 = none) :
    (({ runtime := true } : Tty).openFd readable a).2.isOpen = true := by
  obtain ⟨hs, hg, hd, hc, hi⟩ := (Tty.openFd_iff readable a).mp h
  unfold Tty.openFd
  rw [if_neg (by simp [hs]), if_neg (fun hn => hn hg), if_neg (by simp [Tty.isOpen]), andThen_none,
    if_neg (Int.not_lt.mpr hd), if_neg (by simp [hc]), if_neg (Int.not_lt.mpr hi)]
  rfl

theorem Pipe.openFd_iff (p : Pipe) (fd : Int) (a : OpenAnswers) :
    (p.openFd fd a).1 = none ↔ a.stopped = false ∧ 0 ≤ fd ∧ 0 ≤ a.dup ∧ a.call = none ∧
      0 ≤ a.initRc ∧ 0 ≤ a.openRc := by
  unfold Pipe.openFd
  rw [check_iff, check_iff, check_iff, call_iff, check_iff, check_iff]
  simp only [Bool.not_eq_true, Int.not_lt, and_true]

theorem Pipe.openFd_isOpen (p : Pipe) (fd : Int) (a : OpenAnswers)
    (h : (p.openFd fd a).1 = none) : (p.openFd fd a).2.isOpen = true := by
  obtain ⟨hs, hfd, hd, hc, hi, ho⟩ := (Pipe.openFd_iff p fd a).mp h
  unfold Pipe.openFd
  rw [if_neg (by simp [hs]), if_neg (Int.not_lt.mpr hfd), if_neg (Int.not_lt.mpr hd),
    if_neg (by simp [hc]), if_neg (Int.not_lt.mpr hi), if_neg (Int.not_lt.mpr ho)]
  rfl

theorem File.openFd_iff (fd : Int) (a : OpenAnswers) :
    (({ runtime := true } : File).openFd fd a).1 = none ↔
      a.stopped = false ∧ 0 ≤ fd ∧ 0 ≤ a.dup := by
  unfold File.openFd
  rw [check_iff, check_iff, if_neg (by simp [File.isOpen]), andThen_none, check_iff]
  simp only [Bool.not_eq_true, Int.not_lt, and_true]

theorem File.openFd_isOpen (fd : Int) (a : OpenAnswers)
    (h : (({ runtime := true } : File).openFd fd a).1 = none) :
    (({ runtime := true } : File).openFd fd a).2.isOpen = true := by
  obtain ⟨hs, hfd, hd⟩ := (File.openFd_iff fd a).mp h
  unfold File.openFd
  rw [if_neg (by simp [hs]), if_neg (Int.not_lt.mpr hfd), if_neg (by simp [File.isOpen]),
    andThen_none, if_neg (Int.not_lt.mpr hd)]
  exact decide_eq_true hd

/-! ## One stream -/

/-- Between the calls a stream that is not open has nothing left of an open one. -/
structure Stream.Inv (s : Stream) : Prop where
  backend : s.isOpen = true → s.backendOpen = true
  closed : s.isOpen = false → s.Closed

namespace Stream

variable {s : Stream} {a : CloseAnswers}

theorem closed_resetState (s : Stream) : s.resetState.Closed := ⟨rfl, rfl, rfl⟩

theorem Closed.inv (h : s.Closed) : s.Inv where
  backend ho := by
    rw [h.1] at ho
    cases ho
  closed _ := h

theorem isOpen_of_kind {k : StdioKind} (hk : s.kind = k) (hn : k ≠ .none) : s.isOpen = true := by
  unfold isOpen
  rw [hk]
  exact decide_eq_true hn

theorem Inv.tty (h : s.Inv) (hk : s.kind = .tty) : ∃ t, s.tty = some t ∧ t.isOpen = true := by
  have hb := h.backend (isOpen_of_kind hk (by simp))
  unfold backendOpen at hb
  rw [hk] at hb
  exact (Option.any_eq_true _ _).mp hb

theorem Inv.file (h : s.Inv) (hk : s.kind = .file) : ∃ f, s.file = some f ∧ f.isOpen = true := by
  have hb := h.backend (isOpen_of_kind hk (by simp))
  unfold backendOpen at hb
  rw [hk] at hb
  exact (Option.any_eq_true _ _).mp hb

/-- A stream whose backend is a terminal that is open, or a file. -/
theorem Inv.tty_eq (h : s.Inv) (hk : s.kind = .tty) : ∃ t : Tty, t.isOpen = true ∧
    s = { s with kind := .tty, tty := some t } := by
  obtain ⟨t, ht, hopen⟩ := h.tty hk
  refine ⟨t, hopen, ?_⟩
  rw [← hk, ← ht]

theorem Inv.file_eq (h : s.Inv) (hk : s.kind = .file) : ∃ f : File, f.isOpen = true ∧
    s = { s with kind := .file, file := some f } := by
  obtain ⟨f, hf, hopen⟩ := h.file hk
  refine ⟨f, hopen, ?_⟩
  rw [← hk, ← hf]

/-- The close of a terminal looks at its token first. -/
theorem close_cancelled (h : s.Inv) (hk : s.kind = .tty) (hs : a.stopped = true) :
    s.close a = (some .operationCancelled, s) := by
  obtain ⟨t, _, hst⟩ := h.tty_eq hk
  have hclose : t.close a = (some .operationCancelled, t) := by
    unfold Tty.close
    rw [if_pos hs]
  rw [hst]
  unfold close
  dsimp only
  rw [hclose]

/-- Otherwise, when the backend does not throw, the stream is closed. -/
theorem close_done (h : s.Inv) (hf : s.CloseFine a) (hn : ¬ (s.kind = .tty ∧ a.stopped = true)) :
    (s.close a).1 = none ∧ (s.close a).2.Closed := by
  cases hk : s.kind with
  | none =>
    unfold close
    rw [hk]
    exact ⟨rfl, closed_resetState s⟩
  | pipe =>
    unfold close
    rw [hk]
    exact ⟨rfl, closed_resetState _⟩
  | tty =>
    obtain ⟨t, hopen, hst⟩ := h.tty_eq hk
    have hstop : ¬ a.stopped = true := fun hs => hn ⟨hk, hs⟩
    have hclose : t.close a = (none, { t with handle := false, fd := -1, readable := false }) := by
      unfold Tty.close
      rw [if_neg hstop, if_neg (by simp [hopen]), (hf.1 hk).resolve_left hstop]
    rw [hst]
    unfold close
    dsimp only
    rw [hclose]
    exact ⟨rfl, closed_resetState _⟩
  | file =>
    obtain ⟨f, hopen, hst⟩ := h.file_eq hk
    have hclose : f.close a = (none, { f with fd := -1, offset := 0 }) := by
      unfold File.close
      rw [if_neg (by simp [hopen]), hf.2 hk]
    rw [hst]
    unfold close
    dsimp only
    rw [hclose]
    exact ⟨rfl, closed_resetState _⟩

/-- And when it throws, it is closed already while the stream is not. -/
theorem close_broken (h : s.Inv) (hf : ¬ s.CloseFine a) :
    (s.close a).1 ≠ none ∧ (s.close a).2.isOpen = true ∧ (s.close a).2.backendOpen = false := by
  cases hk : s.kind with
  | none =>
    refine absurd ⟨fun ht => ?_, fun hfile => ?_⟩ hf
    · cases hk.symm.trans ht
    · cases hk.symm.trans hfile
  | pipe =>
    refine absurd ⟨fun ht => ?_, fun hfile => ?_⟩ hf
    · cases hk.symm.trans ht
    · cases hk.symm.trans hfile
  | tty =>
    obtain ⟨t, hopen, hst⟩ := h.tty_eq hk
    have hthrows : ¬ (a.stopped = true ∨ a.call = none) := fun hc =>
      hf ⟨fun _ => hc, fun hfile => by cases hk.symm.trans hfile⟩
    rw [not_or] at hthrows
    obtain ⟨e, he⟩ := Option.ne_none_iff_exists'.mp hthrows.2
    have hclose :
        t.close a = (some e, { t with handle := false, fd := -1, readable := false }) := by
      unfold Tty.close
      rw [if_neg hthrows.1, if_neg (by simp [hopen]), he]
    rw [hst]
    unfold close
    dsimp only
    rw [hclose]
    exact ⟨(by simp), rfl, rfl⟩
  | file =>
    obtain ⟨f, hopen, hst⟩ := h.file_eq hk
    have hthrows : a.await ≠ none := fun hc =>
      hf ⟨(fun ht => by cases hk.symm.trans ht), fun _ => hc⟩
    obtain ⟨e, he⟩ := Option.ne_none_iff_exists'.mp hthrows
    have hclose : f.close a = (some e, { f with fd := -1, offset := 0 }) := by
      unfold File.close
      rw [if_neg (by simp [hopen]), he]
    rw [hst]
    unfold close
    dsimp only
    rw [hclose]
    exact ⟨by simp, rfl, rfl⟩

theorem close_keeps (h : s.Inv) : s.Keeps (s.close a) ↔ s.CloseFine a := by
  constructor
  · intro hk
    by_cases hf : s.CloseFine a
    · exact hf
    · obtain ⟨_, hopen, hb⟩ := close_broken h hf
      cases hb.symm.trans (hk.1 hopen)
  · intro hf
    by_cases hn : s.kind = .tty ∧ a.stopped = true
    · rw [close_cancelled h hn.1 hn.2]
      exact ⟨h.backend, fun _ => .inr rfl⟩
    · obtain ⟨hdone, hclosed⟩ := close_done h hf hn
      exact ⟨hclosed.inv.backend, fun ht => absurd hdone ht⟩

/-! ## Opening -/

variable {fd : Int} {readable : Bool} {b : Answers}

/-- What `open` is to do with a stream that is closed: a backend that can be opened is, and
one that is not supported leaves the stream closed. -/
structure Opened (r : Outcome Stream) : Prop where
  inv : r.2.Inv
  thrown : r.1 ≠ none → r.2.Closed

/-- The backend has thrown, and the stream says what was guessed. -/
structure HalfOpen (r : Outcome Stream) : Prop where
  thrown : r.1 ≠ none
  notOpen : r.2.isOpen = false
  guessed : r.2.guessedHandle ≠ .UNKNOWN_HANDLE

theorem opened_of_backend (h : s.backendOpen = true) (hk : s.kind ≠ .none) : Opened (none, s) where
  inv := ⟨fun _ => h, fun hn => absurd (decide_eq_false_iff_not.mp hn) (not_not_intro hk)⟩
  thrown hn := absurd rfl hn

theorem openGuessed_tty (hs : s.isOpen = false) (hg : b.guess = .TTY) :
    (Opens fd b → Opened (s.openGuessed fd readable b)) ∧
      (¬ Opens fd b → HalfOpen (s.openGuessed fd readable b)) := by
  have hiff := Tty.openFd_iff readable b.backend
  have hopens : Opens fd b ↔ (({ runtime := true } : Tty).openFd readable b.backend).1 = none := by
    unfold Opens
    rw [hg, hiff]
  have hopen := Tty.openFd_isOpen readable b.backend
  unfold openGuessed
  rw [hopens, hg]
  dsimp only
  generalize ({ runtime := true } : Tty).openFd readable b.backend = r at hopen
  obtain ⟨thrown, t⟩ := r
  cases thrown with
  | none => exact ⟨fun _ => opened_of_backend (hopen rfl) (by simp), fun hn => absurd rfl hn⟩
  | some e => exact ⟨fun hn => absurd hn (by simp), fun _ => ⟨by simp, hs, by simp⟩⟩

theorem openGuessed_file (hs : s.isOpen = false) (hg : b.guess = .FILE) :
    (Opens fd b → Opened (s.openGuessed fd readable b)) ∧
      (¬ Opens fd b → HalfOpen (s.openGuessed fd readable b)) := by
  have hiff := File.openFd_iff fd b.backend
  have hopens : Opens fd b ↔ (({ runtime := true } : File).openFd fd b.backend).1 = none := by
    unfold Opens
    rw [hg, hiff]
  have hopen := File.openFd_isOpen fd b.backend
  unfold openGuessed
  rw [hopens, hg]
  dsimp only
  generalize ({ runtime := true } : File).openFd fd b.backend = r at hopen
  obtain ⟨thrown, f⟩ := r
  cases thrown with
  | none => exact ⟨fun _ => opened_of_backend (hopen rfl) (by simp), fun hn => absurd rfl hn⟩
  | some e => exact ⟨fun hn => absurd hn (by simp), fun _ => ⟨by simp, hs, by simp⟩⟩

/-- A pipe makes its handle when it is constructed, which can fail as well. -/
theorem openGuessed_pipe (hs : s.isOpen = false) (hg : b.guess = .NAMED_PIPE) :
    (Opens fd b → Opened (s.openGuessed fd readable b)) ∧
      (¬ Opens fd b → HalfOpen (s.openGuessed fd readable b)) := by
  unfold openGuessed
  rw [hg]
  dsimp only
  have hcases : (∃ e, Pipe.construct false b.newCall b.newRc = .error e ∧ ¬ Opens fd b) ∨
      ∃ p : Pipe, Pipe.construct false b.newCall b.newRc = .ok p ∧
        (Opens fd b ↔ (p.openFd fd b.backend).1 = none) := by
    unfold Pipe.construct Opens
    rw [hg]
    dsimp only
    cases hc : b.newCall with
    | some e => exact .inl ⟨e, rfl, fun hn => absurd hn.1 (by simp)⟩
    | none =>
      by_cases hr : b.newRc < 0
      · exact .inl ⟨_, if_pos hr, fun hn => absurd hn.2.1 (Int.not_le.mpr hr)⟩
      · refine .inr ⟨_, if_neg hr, ?_⟩
        rw [Pipe.openFd_iff]
        exact ⟨fun hn => hn.2.2, fun hn => ⟨rfl, Int.not_lt.mp hr, hn⟩⟩
  rcases hcases with ⟨e, hnew, hno⟩ | ⟨p, hnew, hopens⟩
  · rw [hnew]
    exact ⟨fun hn => absurd hn hno, fun _ => ⟨by simp, hs, by simp⟩⟩
  · have hopen := Pipe.openFd_isOpen p fd b.backend
    rw [hnew, hopens]
    dsimp only
    generalize p.openFd fd b.backend = r at hopen
    obtain ⟨thrown, p⟩ := r
    cases thrown with
    | none => exact ⟨fun _ => opened_of_backend (hopen rfl) (by simp), fun hn => absurd rfl hn⟩
    | some e => exact ⟨fun hn => absurd hn (by simp), fun _ => ⟨by simp, hs, by simp⟩⟩

theorem openGuessed_spec (hs : s.isOpen = false) (fd : Int) (readable : Bool) (b : Answers) :
    (Opens fd b → Opened (s.openGuessed fd readable b)) ∧
      (¬ Opens fd b → HalfOpen (s.openGuessed fd readable b)) := by
  have hother : (Opens fd b ↔ True) →
      s.openGuessed fd readable b = (some (.runtimeError "unsupported stdio handle type"),
        { s with guessedHandle := b.guess, readable }.resetState) →
      (Opens fd b → Opened (s.openGuessed fd readable b)) ∧
        (¬ Opens fd b → HalfOpen (s.openGuessed fd readable b)) := by
    intro hopens heq
    rw [heq]
    exact ⟨fun _ => ⟨(closed_resetState _).inv, fun _ => closed_resetState _⟩,
      fun hn => absurd (hopens.mpr trivial) hn⟩
  cases hg : b.guess with
  | TTY => exact openGuessed_tty hs hg
  | NAMED_PIPE => exact openGuessed_pipe hs hg
  | FILE => exact openGuessed_file hs hg
  | UNKNOWN_HANDLE | TCP | UDP =>
    refine hother ?_ ?_
    · unfold Opens
      rw [hg]
    · unfold openGuessed
      rw [hg]

theorem openFd_of_stopped (hs : b.stopped = true) :
    s.openFd fd readable b = (some .operationCancelled, s) := by
  unfold openFd
  rw [if_pos hs]

/-- What the stream is closed with comes first. -/
theorem openFd_of_not_stopped (hs : b.stopped = false) :
    s.openFd fd readable b = andThen (if s.isOpen then s.close b.close else (none, s))
      fun s => s.openGuessed fd readable b := by
  unfold openFd
  rw [if_neg (by simp [hs])]

theorem kind_none_of_not_open (hs : s.isOpen = false) : s.kind = .none :=
  Decidable.not_not.mp (decide_eq_false_iff_not.mp hs)

/-- The stream that is opened after what was open has been closed. -/
theorem openFd_closes (h : s.Inv) (hs : b.stopped = false) (hf : s.CloseFine b.close)
    (hn : ¬ (s.kind = .tty ∧ b.close.stopped = true)) (fd : Int) (readable : Bool) :
    ∃ t : Stream, t.isOpen = false ∧
      s.openFd fd readable b = t.openGuessed fd readable b ∧ (s.isOpen = false → t = s) := by
  rw [openFd_of_not_stopped hs]
  cases ho : s.isOpen with
  | false =>
    rw [if_neg (by simp), andThen_none]
    exact ⟨s, ho, rfl, fun _ => rfl⟩
  | true =>
    rw [if_pos rfl]
    obtain ⟨hdone, hclosed⟩ := close_done h hf hn
    generalize s.close b.close = r at hdone hclosed
    obtain ⟨thrown, t⟩ := r
    cases hdone
    exact ⟨t, hclosed.1, rfl, fun hfalse => by cases hfalse⟩

theorem openFd_inv (h : s.Inv) (hf : s.OpenFine fd b) :
    (s.openFd fd readable b).2.Inv ∧ s.Keeps (s.openFd fd readable b) := by
  cases hs : b.stopped with
  | true =>
    rw [openFd_of_stopped hs]
    exact ⟨h, h.backend, fun _ => .inr rfl⟩
  | false =>
    obtain ⟨hc, hopens⟩ := hf.resolve_left (by simp [hs])
    by_cases hn : s.kind = .tty ∧ b.close.stopped = true
    · rw [openFd_of_not_stopped hs, if_pos (isOpen_of_kind hn.1 (by simp)),
        close_cancelled h hn.1 hn.2, andThen_some]
      exact ⟨h, h.backend, fun _ => .inr rfl⟩
    · obtain ⟨t, ht, heq, _⟩ := openFd_closes h hs hc hn fd readable
      have hopened := (openGuessed_spec ht fd readable b).1 (hopens.resolve_left hn)
      rw [heq]
      exact ⟨hopened.inv, hopened.inv.backend, fun hthrown => .inl (hopened.thrown hthrown)⟩

theorem openFd_keeps (h : s.Inv) : s.Keeps (s.openFd fd readable b) ↔ s.OpenFine fd b := by
  refine ⟨fun hk => ?_, fun hf => (openFd_inv h hf).2⟩
  cases hs : b.stopped with
  | true => exact .inl hs
  | false =>
    refine .inr ?_
    by_cases hc : s.CloseFine b.close
    · refine ⟨hc, ?_⟩
      by_cases hn : s.kind = .tty ∧ b.close.stopped = true
      · exact .inl hn
      · by_cases hopens : Opens fd b
        · exact .inr hopens
        · obtain ⟨t, ht, heq, hsame⟩ := openFd_closes h hs hc hn fd readable
          have hhalf := (openGuessed_spec ht fd readable b).2 hopens
          rw [heq] at hk
          rcases hk.2 hhalf.thrown with hclosed | hback
          · exact absurd hclosed.2.2 hhalf.guessed
          · have hnot := hhalf.notOpen
            rw [hback] at hnot
            have hguess := hhalf.guessed
            rw [hback] at hguess
            exact absurd (h.closed hnot).2.2 hguess
    · -- the close throws, and the open with it
      have ho : s.isOpen = true := by
        cases ho : s.isOpen with
        | true => rfl
        | false =>
          have hkind := kind_none_of_not_open ho
          refine absurd ⟨fun ht => ?_, fun hfile => ?_⟩ hc
          · cases hkind.symm.trans ht
          · cases hkind.symm.trans hfile
      obtain ⟨hthrown, hopen, hb⟩ := close_broken h hc
      rw [openFd_of_not_stopped hs, if_pos ho] at hk
      generalize s.close b.close = r at hthrown hopen hb hk
      obtain ⟨thrown, t⟩ := r
      cases thrown with
      | none => exact absurd rfl hthrown
      | some e => cases hb.symm.trans (hk.1 hopen)

theorem close_inv (h : s.Inv) (hf : s.CloseFine a) : (s.close a).2.Inv := by
  by_cases hn : s.kind = .tty ∧ a.stopped = true
  · rw [close_cancelled h hn.1 hn.2]
    exact h
  · exact (close_done h hf hn).2.inv

theorem movedFrom_inv (s : Stream) : s.movedFrom.Inv := (closed_resetState _).inv

theorem Inv.movedTo (h : s.Inv) : s.movedTo.Inv := h

end Stream

/-! ## Any number of streams -/

variable {s t : List Stream}

/-- One step under `Good`. -/
theorem step_inv (h : ∀ x ∈ s, x.Inv) {l : Label} (hg : Good s l) (hs : step s l = some t) :
    ∀ x ∈ t, x.Inv := by
  have hset : ∀ {u : List Stream} {i : Nat} {y : Stream}, (∀ x ∈ u, x.Inv) → y.Inv →
      ∀ x ∈ u.set i y, x.Inv := by
    intro u i y hu hy x hx
    rcases List.mem_or_eq_of_mem_set hx with hm | rfl
    · exact hu x hm
    · exact hy
  cases l with
  | construct =>
    cases hs
    intro x hx
    rcases List.mem_append.mp hx with hm | hm
    · exact h x hm
    · rw [List.mem_singleton.mp hm]
      exact Stream.Closed.inv ⟨rfl, rfl, rfl⟩
  | openFd i fd readable a =>
    obtain ⟨x, hx, rfl⟩ := Option.map_eq_some_iff.mp hs
    exact hset h (Stream.openFd_inv (h x (List.mem_of_getElem? hx)) (hg x hx)).1
  | close i a =>
    obtain ⟨x, hx, rfl⟩ := Option.map_eq_some_iff.mp hs
    exact hset h (Stream.close_inv (h x (List.mem_of_getElem? hx)) (hg x hx))
  | moveConstruct i =>
    obtain ⟨x, hx, rfl⟩ := Option.map_eq_some_iff.mp hs
    intro y hy
    rcases List.mem_append.mp hy with hm | hm
    · exact hset h x.movedFrom_inv y hm
    · rw [List.mem_singleton.mp hm]
      exact (h x (List.mem_of_getElem? hx)).movedTo
  | moveAssign i j =>
    by_cases hij : i = j
    · rw [step, if_pos hij] at hs
      cases hs
      exact h
    · rw [step, if_neg hij] at hs
      obtain ⟨x, _, hs⟩ := Option.bind_eq_some_iff.mp hs
      obtain ⟨y, hy, rfl⟩ := Option.map_eq_some_iff.mp hs
      exact hset (hset h (h y (List.mem_of_getElem? hy)).movedTo) y.movedFrom_inv

theorem inv (h : ReachableBy system Good s) : ∀ x ∈ s, x.Inv := by
  refine h.invariant ?_ fun s l t _ hI hg hs => step_inv hI hg hs
  intro s h0
  cases h0
  exact fun x hx => absurd hx List.not_mem_nil

/-- In every run of good calls an open stream has an open backend, and the next call of a
stream keeps it just if that call is good too. -/
theorem stdio_keeps (h : ReachableBy system Good s) :
    (∀ x ∈ s, x.isOpen = true → x.backendOpen = true) ∧
      ∀ x ∈ s, (∀ fd readable a, x.Keeps (x.openFd fd readable a) ↔ x.OpenFine fd a) ∧
        ∀ a, x.Keeps (x.close a) ↔ x.CloseFine a := by
  have hinv := inv h
  refine ⟨fun x hx => (hinv x hx).backend, fun x hx => ⟨fun fd readable a => ?_, fun a => ?_⟩⟩
  · exact Stream.openFd_keeps (hinv x hx)
  · exact Stream.close_keeps (hinv x hx)

/-- A file that is opened, moved and closed. -/
theorem stdio_keeps_file : ∃ s, ReachableBy system Good s ∧
    (∀ x ∈ s, x.isOpen = true → x.backendOpen = true) ∧ s.length = 2 := by
  have h₀ : ReachableBy system Good [] := .init rfl
  have h₁ := h₀.step (l := .construct) (by exact trivial) rfl
  have h₂ := h₁.step (l := .openFd 0 0 true { guess := .FILE }) (by
    intro x hx
    cases hx
    exact .inr ⟨⟨fun hk => (by cases hk), fun hk => (by cases hk)⟩,
      .inr ⟨rfl, by decide, by decide⟩⟩) rfl
  have h₃ := h₂.step (l := .moveConstruct 0) (by exact trivial) rfl
  have h₄ := h₃.step (l := .close 1 {}) (by
    intro x hx
    cases hx
    exact ⟨fun hk => (by cases hk), fun _ => rfl⟩) rfl
  exact ⟨_, h₄, (stdio_keeps h₄).1, rfl⟩

/-- A close of a file that is cancelled at its await leaves an open stream on a closed
file; and an open that fails at the duplicate of the descriptor leaves a stream that is not
open but says that it is readable and what was guessed. -/
theorem stdio_half_way :
    (∃ s x y, Reachable system s ∧ s[0]? = some x ∧
      x.close { await := some .operationCancelled } = (some .operationCancelled, y) ∧
      y.isOpen = true ∧ y.kind = .file ∧ y.backendOpen = false ∧ ¬ y.Closed ∧ y ≠ x) ∧
    ∃ s x y, Reachable system s ∧ s[0]? = some x ∧
      x.openFd 0 true { guess := .TTY, backend := { guess := .TTY, dup := -24 } } =
        (some (.uvError (-24) "dup"), y) ∧
      y.isOpen = false ∧ y.readable = true ∧ y.guessedHandle = .TTY ∧ ¬ y.Closed ∧ y ≠ x := by
  have h0 : Reachable system [] := .init rfl
  refine ⟨⟨_, _, _, h0.run (show run system [] [.construct, .openFd 0 0 true { guess := .FILE }] =
      some _ from rfl), rfl, rfl, rfl, rfl, rfl, fun hc => ?_, fun he => ?_⟩,
    _, _, _, h0.run (show run system [] [.construct] = some _ from rfl), rfl, rfl, rfl, rfl, rfl,
      fun hc => ?_, fun he => ?_⟩
  · cases hc.1
  · have hfile := congrArg Stream.backendOpen he
    cases hfile
  · cases hc.2.1
  · have hreadable := congrArg Stream.readable he
    cases hreadable

end LuvCoro.Stdio
