import LuvCoro.Fs.RoundTrip

/-! # Appends that run at the same time

Any number of calls of `append_file` on one path take turns at the file system.
Each reads the size of the file in one request and writes in a later one. -/
namespace LuvCoro.Content

open Coroutine Transition

structure Append where
  data : Bytes
  mode : Nat := 420

/-- Where a call is: the request it awaits, or how it was left. -/
inductive Phase
  | looking
  | sizing
  | opening (offset : Nat)
  | writing (fd : Int) (offset : Nat)
  | closing (fd : Int)
  | unwinding (fd : Int) (e : Error)
  | returned
  | thrown (e : Error)

namespace Phase

def query (path : String) (c : Append) : Phase → Option Query
  | looking | sizing => some (.stat path)
  | opening _ => some (.openPath path { creat := true, wronly := true } c.mode)
  | writing fd offset => some (.write fd (c.data.take (uvBufInit c.data.length)) offset)
  | closing fd | unwinding fd _ => some (.close fd)
  | returned | thrown _ => none

def next (c : Append) : Phase → Answer → Phase
  | looking, a =>
    if a.result < 0 then
      if a.result = UV_ENOENT then opening 0 else thrown (.uvError a.result "uv_fs_stat")
    else sizing
  | sizing, a =>
    if a.result < 0 then thrown (.uvError a.result "uv_fs_stat") else opening a.size
  | opening offset, a =>
    if a.result < 0 then thrown (.uvError a.result "uv_fs_open")
    else if c.data = [] then closing a.result
    else writing a.result offset
  | writing fd _, a =>
    if a.result < 0 then unwinding fd (.uvError a.result "uv_fs_write") else closing fd
  | closing _, a =>
    if a.result < 0 then thrown (.uvError a.result "uv_fs_close") else returned
  | unwinding _ e, _ => thrown e
  | returned, _ => returned
  | thrown e, _ => thrown e

/-- The rest of `append_file` at this request. -/
def coro (path : String) (c : Append) : Phase → Task Unit
  | looking => appendFile path c.data c.mode
  | sizing => do
    let offset ← fileSize path
    opened path c offset
  | opening offset => opened path c offset
  | writing fd offset => written { fd := fd } c offset
  | closing fd => do
    let _ ← File.close { fd := fd }
    pure ()
  | unwinding fd e => do
    File.closeSync { fd := fd }
    throw e
  | returned => pure ()
  | thrown e => throw e
where
  written (f : File) (c : Append) (offset : Nat) : Task Unit := do
    let _ ← Coroutine.unwinding f.closeSync (f.writeAt c.data offset)
    let _ ← f.close
    pure ()
  opened (path : String) (c : Append) (offset : Nat) : Task Unit := do
    let f ← File.openPath {} path { creat := true, wronly := true } c.mode
    written f c offset

def fd? : Phase → Option Int
  | writing fd _ | closing fd | unwinding fd _ => some fd
  | _ => none

variable {path : String} {c : Append} {ph : Phase} {q : Query}

theorem looking_asks : looking.coro path c =
    .asks (.stat path) fun a => (looking.next c a).coro path c := by
  simp only [coro, appendFile, appendOffset, pathExists, statPath, runFsRequest_eq, asks_bind,
    tryCatch_asks]
  congr 1
  funext a
  by_cases hneg : a.result < 0
  · simp only [hneg, ↓reduceIte, fails_bind, tryCatch_fails, next]
    by_cases he : a.result = UV_ENOENT
    · simp only [he, ↓reduceIte]
      rfl
    · simp only [he, ↓reduceIte]
      rfl
  · simp only [hneg, ↓reduceIte, next]
    rfl

theorem written_nothing (path : String) {fd : Int} {offset : Nat} (h0 : 0 ≤ fd) (hd : c.data = []) :
    (writing fd offset).coro path c = (closing fd).coro path c := by
  have hopen : ({ fd := fd } : File).isOpen = true := decide_eq_true h0
  simp only [coro, coro.written, File.writeAt, writeFileAsync, hopen, hd, ↓reduceIte, pure_eq]
  rfl

theorem closing_asks {fd : Int} (h0 : 0 ≤ fd) : (closing fd).coro path c =
    .asks (.close fd) fun a => ((closing fd).next c a).coro path c := by
  have hopen : ({ fd := fd } : File).isOpen = true := decide_eq_true h0
  simp only [coro, File.close, closeFileAsync, hopen, ↓reduceIte, runFsRequest_eq, asks_bind]
  congr 1
  funext a
  by_cases hneg : a.result < 0
  · simp only [hneg, ↓reduceIte, next]
    rfl
  · simp only [hneg, ↓reduceIte, next]
    rfl

theorem writing_asks {fd : Int} {offset : Nat} (h0 : 0 ≤ fd) (hd : c.data ≠ []) :
    (writing fd offset).coro path c =
      .asks (.write fd (c.data.take (uvBufInit c.data.length)) offset) fun a =>
        ((writing fd offset).next c a).coro path c := by
  have hopen : ({ fd := fd } : File).isOpen = true := decide_eq_true h0
  simp only [coro, coro.written, File.writeAt, writeFileAsync, hopen, hd, ↓reduceIte,
    runFsRequest_eq, asks_bind, Coroutine.unwinding, tryCatch_asks]
  congr 1
  funext a
  by_cases hneg : a.result < 0
  · simp only [hneg, ↓reduceIte, next, File.closeSync, not_lt.mpr h0]
    rfl
  · simp only [hneg, ↓reduceIte, next]
    rfl

theorem opening_asks {offset : Nat} : (opening offset).coro path c =
    .asks (.openPath path { creat := true, wronly := true } c.mode) fun a =>
      ((opening offset).next c a).coro path c := by
  have hclosed : ({} : File).isOpen = false := rfl
  simp only [coro, coro.opened, File.openPath, openFileAsync, hclosed, Bool.false_eq_true,
    ↓reduceIte, runFsRequest_eq, asks_bind, pure_eq, done_bind]
  congr 1
  funext a
  by_cases hneg : a.result < 0
  · simp only [hneg, ↓reduceIte, next]
    rfl
  · by_cases hd : c.data = []
    · simp only [hneg, hd, ↓reduceIte, next]
      exact written_nothing path (not_lt.mp hneg) hd
    · simp only [hneg, hd, ↓reduceIte, next]
      rfl

/-- A call is always at one of the phases. -/
theorem coro_asks (hfd : ∀ fd, ph.fd? = some fd → 0 ≤ fd)
    (hw : ∀ fd offset, ph = writing fd offset → c.data ≠ []) (h : ph.query path c = some q) :
    ph.coro path c = .asks q fun a => (ph.next c a).coro path c := by
  cases ph with
  | looking =>
    cases h
    exact looking_asks
  | sizing =>
    cases h
    simp only [coro, fileSize, statPath, runFsRequest_eq, asks_bind]
    congr 1
    funext a
    by_cases hneg : a.result < 0
    · simp only [hneg, ↓reduceIte, next]
      rfl
    · simp only [hneg, ↓reduceIte, next]
      rfl
  | opening offset =>
    cases h
    exact opening_asks
  | writing fd offset =>
    cases h
    exact writing_asks (hfd fd rfl) (hw fd offset rfl)
  | closing fd =>
    cases h
    exact closing_asks (hfd fd rfl)
  | unwinding fd e =>
    cases h
    simp only [coro, File.closeSync, not_lt.mpr (hfd fd rfl), ↓reduceIte, ask_bind, asks_bind]
    rfl
  | returned => cases h
  | thrown e => cases h

end Phase

/-! ## The system -/

/-- The calls of `append_file` on `path`, all of them at their start. -/
def appends (s : FileSystem) (path : String) (calls : List Append) :
    System (Pool (Fin calls.length) Query Answer Error Unit FileSystem)
      (Fin calls.length × Answer) :=
  pool FileSystem.serve fun p =>
    p = { state := s, coros := fun i => appendFile path calls[i].data calls[i].mode }

variable {s s' : FileSystem} {path path' : String} {calls : List Append} {q : Query} {a : Answer}
  {fd : Int} {p p' : Pool (Fin calls.length) Query Answer Error Unit FileSystem}

def size (s : FileSystem) (path : String) : Nat := ((s.content path).getD []).length

/-- A write that succeeds transfers all that its call is to append. -/
def FullWrite (calls : List Append) (p : Pool (Fin calls.length) Query Answer Error Unit FileSystem)
    (l : Fin calls.length × Answer) : Prop :=
  match p.coros l.1 with
  | .asks (.write _ _ _) _ => 0 ≤ l.2.result → l.2.result = calls[l.1].data.length
  | _ => True

/-- A call writes where the file ends: it is as long as when the call read its size. -/
def WritesAtEnd (path : String) (calls : List Append)
    (p : Pool (Fin calls.length) Query Answer Error Unit FileSystem)
    (l : Fin calls.length × Answer) : Prop :=
  match p.coros l.1 with
  | .asks (.write _ _ offset) _ => offset = size p.state path
  | _ => True

/-- What `t` has at `path` is what `s` had and what the calls append, in some order. -/
def AppendedInSomeOrder (path : String) (calls : List Append) (s t : FileSystem) : Prop :=
  (∃ order : List Append, order.Perm calls ∧
    (t.content path).getD [] = (s.content path).getD [] ++ order.flatMap Append.data) ∧
  (calls ≠ [] → t.content path ≠ none)

/-! ## What one request does -/

/-- The ways a request is served. -/
inductive Served (s : FileSystem) (a : Answer) : Query → FileSystem → Prop
  | failed {q : Query} : a.result < 0 → Served s a q s
  | stat {path : String} : (s.content path).map List.length = some a.size → Served s a (.stat path) s
  | read {fd : Int} {len offset : Nat} : Served s a (.read fd len offset) s
  | opened {path : String} {flags : Flags} {mode : Nat} :
      0 ≤ a.result → s.path? a.result = none →
      Served s a (.openPath path flags mode)
        { s.store path (if flags.trunc then [] else (s.content path).getD []) with
          opened := (a.result, path) :: s.opened }
  | written {path : String} {fd : Int} {buf : Bytes} {offset : Nat} :
      0 ≤ a.result → a.result ≤ buf.length → s.path? fd = some path →
      Served s a (.write fd buf offset)
        (s.store path (overlay ((s.content path).getD []) offset (buf.take a.result.toNat)))
  | closed {fd : Int} :
      Served s a (.close fd) { s with opened := s.opened.filter fun x => x.1 ≠ fd }

theorem served_of_serve (h : s.serve q a = some s') : Served s a q s' := by
  by_cases h0 : a.result < 0
  · simp only [FileSystem.serve, if_pos h0] at h
    split at h
    · split at h
      · cases h
      · cases h
        exact .failed h0
    · cases h
      exact .failed h0
  · rw [serve_granted (not_lt.mp h0)] at h
    cases q with
    | stat path =>
      simp only [FileSystem.grants] at h
      split at h
      · rename_i hsize
        cases h
        exact .stat hsize
      · cases h
    | openPath path flags mode =>
      simp only [FileSystem.grants] at h
      split at h
      · rename_i hc
        cases h
        exact .opened (not_lt.mp h0) hc.1
      · cases h
    | read fd len offset =>
      simp only [FileSystem.grants, Option.bind_eq_bind, Option.bind_eq_some_iff] at h
      obtain ⟨p, _, hs⟩ := h
      split at hs
      · cases hs
        exact .read
      · cases hs
    | write fd buf offset =>
      simp only [FileSystem.grants, Option.bind_eq_bind, Option.bind_eq_some_iff] at h
      obtain ⟨p, hp, hs⟩ := h
      split at hs
      · rename_i hc
        cases hs
        exact .written (not_lt.mp h0) hc.1 hp
      · cases hs
    | close fd =>
      cases h
      exact .closed

theorem store_getD {data : Bytes} (h : data = (s.content path').getD []) :
    ((s.store path' data).content path).getD [] = (s.content path).getD [] := by
  by_cases he : path = path'
  · subst he
    rw [store_content, h]
    rfl
  · exact congrArg (Option.getD · []) (Function.update_of_ne he _ _)

theorem store_there {data : Bytes} (h : s.content path ≠ none) :
    (s.store path' data).content path ≠ none := by
  by_cases he : path = path'
  · subst he
    simp
  · exact ne_of_eq_of_ne (Function.update_of_ne he _ _) h

theorem lookup_closed {fd closed : Int} (h : fd ≠ closed) (opened : List (Int × String)) :
    (opened.filter fun x => x.1 ≠ closed).lookup fd = opened.lookup fd := by
  induction opened with
  | nil => rfl
  | cons x rest ih =>
    obtain ⟨other, path⟩ := x
    by_cases ho : other = closed
    · subst ho
      rw [List.filter_cons_of_neg (by simp), List.lookup_cons, beq_false_of_ne h]
      exact ih
    · rw [List.filter_cons_of_pos (by simpa using ho), List.lookup_cons, List.lookup_cons, ih]

/-- A descriptor stays until it is closed. -/
theorem Served.path? (h : Served s a q s') (hp : s.path? fd = some path) (hq : q ≠ .close fd) :
    s'.path? fd = some path := by
  cases h with
  | failed => exact hp
  | stat => exact hp
  | read => exact hp
  | opened _ hfresh =>
    have hne : fd ≠ a.result := by
      rintro rfl
      rw [hfresh] at hp
      cases hp
    rw [FileSystem.path?, List.lookup_cons, beq_false_of_ne hne]
    exact hp
  | written => exact hp
  | closed =>
    rw [← hp]
    refine lookup_closed ?_ s.opened
    rintro rfl
    exact hq rfl

theorem Served.content (h : Served s a q s') (hw : ∀ fd buf offset, q ≠ .write fd buf offset)
    (ho : ∀ p flags mode, q = .openPath p flags mode → flags.trunc = false) :
    (s'.content path).getD [] = (s.content path).getD [] := by
  cases h with
  | failed => rfl
  | stat => rfl
  | read => rfl
  | opened => exact store_getD (by rw [ho _ _ _ rfl]; rfl)
  | written => exact absurd rfl (hw _ _ _)
  | closed => rfl

theorem Served.there (h : Served s a q s') (hc : s.content path ≠ none) :
    s'.content path ≠ none := by
  cases h with
  | failed => exact hc
  | stat => exact hc
  | read => exact hc
  | opened => exact store_there hc
  | written => exact store_there hc
  | closed => exact hc

/-! ## The invariant -/

namespace Phase

/-- The call has its bytes in the file. -/
def wrote : Phase → Prop
  | closing _ | returned => True
  | _ => False

def opened? : Phase → Prop
  | writing _ _ | closing _ | unwinding _ _ | returned => True
  | _ => False

end Phase

/-- `phase` is where each call is. -/
structure Positions (path : String) (calls : List Append)
    (p : Pool (Fin calls.length) Query Answer Error Unit FileSystem)
    (phase : Fin calls.length → Phase) : Prop where
  coros : ∀ i, p.coros i = (phase i).coro path calls[i]
  descriptor : ∀ i fd, (phase i).fd? = some fd → 0 ≤ fd ∧ p.state.path? fd = some path
  apart : ∀ i j fd, (phase i).fd? = some fd → (phase j).fd? = some fd → i = j
  something : ∀ i fd offset, phase i = .writing fd offset → calls[i].data ≠ []
  there : ∀ i, (phase i).opened? → p.state.content path ≠ none

variable {phase : Fin calls.length → Phase} {i j : Fin calls.length}

theorem Positions.init : Positions path calls
    { state := s, coros := fun i => appendFile path calls[i].data calls[i].mode }
    fun _ => .looking where
  coros i := rfl
  descriptor i fd h := by cases h
  apart i j fd h := by cases h
  something i fd offset h := by cases h
  there i h := by cases h

theorem Phase.query_eq_none {ph : Phase} {c : Append} (h : ph.query path c = none) :
    (∃ e, ph = .thrown e) ∨ ph = .returned := by
  cases ph with
  | returned => exact .inr rfl
  | thrown e => exact .inl ⟨e, rfl⟩
  | _ => cases h

theorem Positions.asks (hp : Positions path calls p phase)
    (hq : (phase i).query path calls[i] = some q) :
    p.coros i = .asks q fun a => ((phase i).next calls[i] a).coro path calls[i] := by
  rw [hp.coros i]
  exact (phase i).coro_asks (fun fd h => (hp.descriptor i fd h).1) (hp.something i) hq

theorem Positions.step_cases (hp : Positions path calls p phase)
    (hs : p.step FileSystem.serve (i, a) = some p') :
    ∃ q u, (phase i).query path calls[i] = some q ∧ Served p.state a q u ∧
      p' = { state := u
             coros := Function.update p.coros i (((phase i).next calls[i] a).coro path calls[i]) } := by
  obtain ⟨q, next, u, hc, hu, rfl⟩ := Pool.step_cases hs
  cases hq : (phase i).query path calls[i] with
  | none =>
    rw [hp.coros i] at hc
    rcases Phase.query_eq_none hq with ⟨e, he⟩ | hr
    · rw [he] at hc
      cases hc
    · rw [hr] at hc
      cases hc
  | some q' =>
    rw [hp.asks hq] at hc
    cases hc
    exact ⟨q, u, rfl, served_of_serve hu, rfl⟩

/-- What an answer may do to a call. -/
inductive Moves (c : Append) (a : Answer) : Phase → Phase → Prop
  | looked : 0 ≤ a.result → Moves c a .looking .sizing
  | missing : a.result = UV_ENOENT → Moves c a .looking (.opening 0)
  | lookFailed {e : Error} : Moves c a .looking (.thrown e)
  | sized : 0 ≤ a.result → Moves c a .sizing (.opening a.size)
  | sizeFailed {e : Error} : Moves c a .sizing (.thrown e)
  | opened {offset : Nat} : 0 ≤ a.result → c.data ≠ [] →
      Moves c a (.opening offset) (.writing a.result offset)
  | openedEmpty {offset : Nat} : 0 ≤ a.result → c.data = [] →
      Moves c a (.opening offset) (.closing a.result)
  | openFailed {offset : Nat} {e : Error} : Moves c a (.opening offset) (.thrown e)
  | written {fd : Int} {offset : Nat} : 0 ≤ a.result → Moves c a (.writing fd offset) (.closing fd)
  | writeFailed {fd : Int} {offset : Nat} {e : Error} : a.result < 0 →
      Moves c a (.writing fd offset) (.unwinding fd e)
  | closed {fd : Int} : Moves c a (.closing fd) .returned
  | closeFailed {fd : Int} {e : Error} : Moves c a (.closing fd) (.thrown e)
  | unwound {fd : Int} {e : Error} : Moves c a (.unwinding fd e) (.thrown e)

theorem moves_next {ph : Phase} {c : Append} (h : ph.query path c = some q) :
    Moves c a ph (ph.next c a) := by
  by_cases h0 : a.result < 0
  · cases ph with
    | looking =>
      by_cases he : a.result = UV_ENOENT
      · have hn : Phase.looking.next c a = .opening 0 := (if_pos h0).trans (if_pos he)
        rw [hn]
        exact .missing he
      · simpa only [Phase.next, h0, he, ↓reduceIte] using Moves.lookFailed
    | sizing => simpa only [Phase.next, h0, ↓reduceIte] using Moves.sizeFailed
    | opening offset => simpa only [Phase.next, h0, ↓reduceIte] using Moves.openFailed
    | writing fd offset => simpa only [Phase.next, h0, ↓reduceIte] using Moves.writeFailed h0
    | closing fd => simpa only [Phase.next, h0, ↓reduceIte] using Moves.closeFailed
    | unwinding fd e => exact .unwound
    | returned => cases h
    | thrown e => cases h
  · have hpos := not_lt.mp h0
    cases ph with
    | looking => simpa only [Phase.next, h0, ↓reduceIte] using Moves.looked hpos
    | sizing => simpa only [Phase.next, h0, ↓reduceIte] using Moves.sized hpos
    | opening offset =>
      by_cases hd : c.data = []
      · simpa only [Phase.next, h0, hd, ↓reduceIte] using Moves.openedEmpty hpos hd
      · simpa only [Phase.next, h0, hd, ↓reduceIte] using Moves.opened hpos hd
    | writing fd offset => simpa only [Phase.next, h0, ↓reduceIte] using Moves.written hpos
    | closing fd => simpa only [Phase.next, h0, ↓reduceIte] using Moves.closed
    | unwinding fd e => exact .unwound
    | returned => cases h
    | thrown e => cases h

/-- Who awaits the close of a descriptor is the one who has it. -/
theorem Phase.fd?_of_close {ph : Phase} {c : Append} (h : ph.query path c = some (.close fd)) :
    ph.fd? = some fd := by
  cases ph with
  | closing fd' =>
    cases h
    rfl
  | unwinding fd' e =>
    cases h
    rfl
  | _ => cases h

variable {ph ph' : Phase} {c : Append}

/-- A call that has a descriptor had it before, or has just opened it. -/
theorem Moves.fd? (h : Moves c a ph ph') (hfd : ph'.fd? = some fd) :
    (∃ offset, ph = .writing fd offset) ∨
      ∃ offset, ph = .opening offset ∧ 0 ≤ a.result ∧ fd = a.result := by
  cases h with
  | opened h0 _ =>
    cases hfd
    exact .inr ⟨_, rfl, h0, rfl⟩
  | openedEmpty h0 _ =>
    cases hfd
    exact .inr ⟨_, rfl, h0, rfl⟩
  | written =>
    cases hfd
    exact .inl ⟨_, rfl⟩
  | writeFailed =>
    cases hfd
    exact .inl ⟨_, rfl⟩
  | _ => cases hfd

theorem Moves.opened? (h : Moves c a ph ph') (ho : ph'.opened?) :
    ph.opened? ∨ ∃ offset, ph = .opening offset ∧ 0 ≤ a.result := by
  cases h with
  | opened h0 _ => exact .inr ⟨_, rfl, h0⟩
  | openedEmpty h0 _ => exact .inr ⟨_, rfl, h0⟩
  | written => exact .inl trivial
  | writeFailed => exact .inl trivial
  | closed => exact .inl trivial
  | _ => cases ho

theorem Positions.step (hp : Positions path calls p phase)
    (hs : p.step FileSystem.serve (i, a) = some p') :
    Positions path calls p' (Function.update phase i ((phase i).next calls[i] a)) := by
  obtain ⟨q, u, hq, hu, rfl⟩ := hp.step_cases hs
  have hmove := moves_next (a := a) hq
  have hkeep : ∀ j fd, (phase j).fd? = some fd → q ≠ .close fd → u.path? fd = some path := by
    intro j fd hj hne
    exact hu.path? (hp.descriptor j fd hj).2 hne
  have hopened : ∀ offset, phase i = .opening offset → 0 ≤ a.result →
      p.state.path? a.result = none ∧ u.path? a.result = some path ∧ u.content path ≠ none := by
    intro offset hi h0
    rw [hi] at hq
    cases hq
    cases hu with
    | failed hneg => exact absurd hneg (not_lt.mpr h0)
    | opened _ hnone =>
      refine ⟨hnone, ?_, ?_⟩
      · simp [FileSystem.path?]
      · simp [FileSystem.store]
  have hfresh : ∀ j offset, phase i = .opening offset → 0 ≤ a.result →
      (phase j).fd? ≠ some a.result := by
    intro j offset hi h0 hj
    have hnone := (hopened offset hi h0).1
    rw [(hp.descriptor j _ hj).2] at hnone
    cases hnone
  have hwriting : ∀ fd offset, phase i = .writing fd offset →
      (phase i).fd? = some fd ∧ q ≠ .close fd := by
    intro fd offset hi
    rw [hi] at hq ⊢
    cases hq
    exact ⟨rfl, by simp⟩
  refine ⟨?_, ?_, ?_, ?_, ?_⟩
  · intro j
    rcases eq_or_ne j i with rfl | hj
    · simp only [Function.update_self]
    · simp only [Function.update_of_ne hj]
      exact hp.coros j
  · intro j fd hj
    rcases eq_or_ne j i with rfl | hne
    · rw [Function.update_self] at hj
      rcases hmove.fd? hj with ⟨offset, hi⟩ | ⟨offset, hi, h0, rfl⟩
      · obtain ⟨hfd, hclose⟩ := hwriting fd offset hi
        exact ⟨(hp.descriptor j fd hfd).1, hkeep j fd hfd hclose⟩
      · exact ⟨h0, (hopened offset hi h0).2.1⟩
    · rw [Function.update_of_ne hne] at hj
      refine ⟨(hp.descriptor j fd hj).1, hkeep j fd hj ?_⟩
      rintro rfl
      exact hne (hp.apart j i fd hj (Phase.fd?_of_close hq))
  · have hnew : ∀ j fd, j ≠ i → ((phase i).next calls[i] a).fd? = some fd →
        (phase j).fd? ≠ some fd := by
      intro j fd hne hi hj
      rcases hmove.fd? hi with ⟨offset, he⟩ | ⟨offset, he, h0, rfl⟩
      · exact hne (hp.apart j i fd hj (hwriting fd offset he).1)
      · exact hfresh j offset he h0 hj
    intro j k fd hj hk
    rcases eq_or_ne j i with rfl | hji
    · rcases eq_or_ne k j with rfl | hkj
      · rfl
      · rw [Function.update_self] at hj
        rw [Function.update_of_ne hkj] at hk
        exact absurd hk (hnew k fd hkj hj)
    · rw [Function.update_of_ne hji] at hj
      rcases eq_or_ne k i with rfl | hki
      · rw [Function.update_self] at hk
        exact absurd hj (hnew j fd hji hk)
      · rw [Function.update_of_ne hki] at hk
        exact hp.apart j k fd hj hk
  · intro j fd offset hj
    rcases eq_or_ne j i with rfl | hne
    · rw [Function.update_self] at hj
      rw [hj] at hmove
      generalize phase j = ph at hmove
      cases hmove with
      | opened _ hd => exact hd
    · rw [Function.update_of_ne hne] at hj
      exact hp.something j fd offset hj
  · intro j hj
    rcases eq_or_ne j i with rfl | hne
    · rw [Function.update_self] at hj
      rcases hmove.opened? hj with ho | ⟨offset, hi, h0⟩
      · exact hu.there (hp.there j ho)
      · exact (hopened offset hi h0).2.2
    · rw [Function.update_of_ne hne] at hj
      exact hu.there (hp.there j hj)

/-! ## The order of the appends -/

def joined (calls : List Append) (order : List (Fin calls.length)) : Bytes :=
  order.flatMap fun i => calls[i].data

/-- The calls in `order` are those that have their bytes in the file, and the file
has them in this order. -/
structure Ordered (s : FileSystem) (path : String) (calls : List Append) (now : FileSystem)
    (phase : Fin calls.length → Phase) (order : List (Fin calls.length)) : Prop where
  nodup : order.Nodup
  mem : ∀ i, i ∈ order ↔ (phase i).wrote
  content : (now.content path).getD [] = (s.content path).getD [] ++ joined calls order

variable {now : FileSystem} {order : List (Fin calls.length)}

/-- A request that is not a write of the call leaves the order. -/
theorem Ordered.keep (h : Ordered s path calls now phase order) (hw : ph'.wrote ↔ (phase i).wrote)
    (hc : (s'.content path).getD [] = (now.content path).getD []) :
    Ordered s path calls s' (Function.update phase i ph') order where
  nodup := h.nodup
  mem j := by
    rw [h.mem j]
    rcases eq_or_ne j i with rfl | hne
    · rw [Function.update_self, hw]
    · rw [Function.update_of_ne hne]
  content := hc.trans h.content

/-- A call that has written comes last. -/
theorem Ordered.snoc (h : Ordered s path calls now phase order) (hw : ph'.wrote)
    (hn : ¬ (phase i).wrote)
    (hc : (s'.content path).getD [] = (now.content path).getD [] ++ calls[i].data) :
    Ordered s path calls s' (Function.update phase i ph') (order ++ [i]) where
  nodup := by
    have hi : i ∉ order := by
      rw [h.mem i]
      exact hn
    rw [← List.concat_eq_append]
    exact h.nodup.concat hi
  mem j := by
    rw [List.mem_append, List.mem_singleton, h.mem j]
    rcases eq_or_ne j i with rfl | hne
    · rw [Function.update_self]
      exact iff_of_true (.inr rfl) hw
    · rw [Function.update_of_ne hne]
      exact or_iff_left hne
  content := by
    rw [hc, h.content, List.append_assoc]
    simp [joined]

/-- A whole write at the end of the file appends the bytes of the call. -/
theorem written_content {offset : Nat} {data : Bytes}
    (hu : Served s a (.write fd (data.take (uvBufInit data.length)) offset) s')
    (hp : s.path? fd = some path) (h0 : 0 ≤ a.result) (hfull : a.result = data.length)
    (hend : offset = size s path) :
    (s'.content path).getD [] = (s.content path).getD [] ++ data := by
  cases hu with
  | failed hneg => exact absurd hneg (not_lt.mpr h0)
  | written _ hle hq =>
    rw [hp] at hq
    cases hq
    have hbuf : data.take (uvBufInit data.length) = data := by
      rw [List.take_eq_self_iff]
      rw [hfull, List.length_take] at hle
      omega
    rw [store_content, hend, hbuf, hfull, Int.toNat_natCast, List.take_length, size,
      overlay_at_end]
    rfl

/-- No call has thrown, or the file has the bytes of the calls in some order. -/
def Progress (s : FileSystem) (path : String) (calls : List Append) (now : FileSystem)
    (phase : Fin calls.length → Phase) : Prop :=
  (∃ i e, phase i = .thrown e) ∨ ∃ order, Ordered s path calls now phase order

theorem Progress.step (hp : Positions path calls p phase)
    (h : Progress s path calls p.state phase)
    (hfull : FullWrite calls p (i, a)) (hend : WritesAtEnd path calls p (i, a))
    (hs : p.step FileSystem.serve (i, a) = some p') :
    Progress s path calls p'.state (Function.update phase i ((phase i).next calls[i] a)) := by
  obtain ⟨q, u, hq, hu, rfl⟩ := hp.step_cases hs
  have hmove := moves_next (a := a) hq
  have hasks := hp.asks hq
  rcases h with ⟨j, e, hj⟩ | ⟨order, ho⟩
  · have hne : j ≠ i := by
      rintro rfl
      rw [hj] at hq
      cases hq
    exact .inl ⟨j, e, by rw [Function.update_of_ne hne, hj]⟩
  · have hcontent : (∀ fd offset, phase i ≠ .writing fd offset) →
        (u.content path).getD [] = (p.state.content path).getD [] := by
      intro hw
      generalize phase i = ph at *
      refine hu.content ?_ ?_
      · rintro fd buf offset rfl
        cases ph with
        | writing fd' offset' => exact hw _ _ rfl
        | _ => cases hq
      · rintro p' flags mode rfl
        cases ph with
        | opening offset => cases hq; rfl
        | _ => cases hq
    have hthrown : ∀ e, (phase i).next calls[i] a = .thrown e →
        Progress s path calls u (Function.update phase i ((phase i).next calls[i] a)) := by
      intro e he
      exact .inl ⟨i, e, by rw [Function.update_self, he]⟩
    have hkeep : (((phase i).next calls[i] a).wrote ↔ (phase i).wrote) →
        (u.content path).getD [] = (p.state.content path).getD [] → 
        Progress s path calls u (Function.update phase i ((phase i).next calls[i] a)) := by
      intro hw hc
      exact .inr ⟨order, ho.keep hw hc⟩
    generalize hph : phase i = ph at hmove hq hasks hcontent hthrown hkeep ⊢
    generalize ph.next calls[i] a = ph' at hmove hthrown hkeep ⊢
    cases hmove with
    | looked => exact hkeep Iff.rfl (hcontent (by simp))
    | missing => exact hkeep Iff.rfl (hcontent (by simp))
    | lookFailed => exact hthrown _ rfl
    | sized => exact hkeep Iff.rfl (hcontent (by simp))
    | sizeFailed => exact hthrown _ rfl
    | opened => exact hkeep Iff.rfl (hcontent (by simp))
    | openedEmpty _ hd =>
      refine .inr ⟨order ++ [i], ho.snoc trivial (by rw [hph]; exact id) ?_⟩
      rw [hcontent (by simp), hd, List.append_nil]
    | openFailed => exact hthrown _ rfl
    | written h0 =>
      cases hq
      have hfd := (hp.descriptor i _ (by rw [hph]; rfl)).2
      refine .inr ⟨order ++ [i], ho.snoc trivial (by rw [hph]; exact id) ?_⟩
      simp only [FullWrite, hasks] at hfull
      simp only [WritesAtEnd, hasks] at hend
      exact written_content hu hfd h0 (hfull h0) hend
    | writeFailed hneg =>
      cases hq
      refine hkeep Iff.rfl ?_
      cases hu with
      | failed => rfl
      | written h0 => exact absurd hneg (not_lt.mpr h0)
    | closed => exact hkeep Iff.rfl (hcontent (by simp))
    | closeFailed => exact hthrown _ rfl
    | unwound => exact hthrown _ rfl

/-- The condition on the steps of a run. -/
def Undisturbed (path : String) (calls : List Append)
    (p : Pool (Fin calls.length) Query Answer Error Unit FileSystem)
    (l : Fin calls.length × Answer) : Prop :=
  FullWrite calls p l ∧ WritesAtEnd path calls p l

theorem progress_of_reachable
    (h : ReachableBy (appends s path calls) (Undisturbed path calls) p) :
    ∃ phase, Positions path calls p phase ∧ Progress s path calls p.state phase := by
  refine h.invariant (I := fun p => ∃ phase, Positions path calls p phase ∧
    Progress s path calls p.state phase) ?_ ?_
  · rintro p rfl
    refine ⟨fun _ => .looking, Positions.init, .inr ⟨[], List.nodup_nil, ?_, ?_⟩⟩
    · intro i
      simp [Phase.wrote]
    · simp [joined]
  · rintro p ⟨i, a⟩ p' _ ⟨phase, hp, hg⟩ ⟨hfull, hend⟩ hs
    exact ⟨_, hp.step hs, hg.step hp hfull hend hs⟩

theorem Positions.returned (hp : Positions path calls p phase) (h : p.coros i = .done ()) :
    phase i = .returned := by
  cases hq : (phase i).query path calls[i] with
  | some q =>
    rw [hp.asks hq] at h
    cases h
  | none =>
    rcases Phase.query_eq_none hq with ⟨e, he⟩ | hr
    · rw [hp.coros i, he] at h
      cases h
    · exact hr

/-- If every call writes where the file ends, and whole, then the file has what it
had before and the bytes of all the calls in some order, once all have returned. -/
theorem appends_in_some_order (s : FileSystem) (path : String) (calls : List Append)
    (p : Pool (Fin calls.length) Query Answer Error Unit FileSystem)
    (h : ReachableBy (appends s path calls) (Undisturbed path calls) p)
    (hd : ∀ i, p.coros i = .done ()) : AppendedInSomeOrder path calls s p.state := by
  obtain ⟨phase, hp, hprogress⟩ := progress_of_reachable h
  have hreturned : ∀ i, phase i = .returned := fun i => hp.returned (hd i)
  rcases hprogress with ⟨i, e, he⟩ | ⟨order, ho⟩
  · rw [hreturned i] at he
    cases he
  · refine ⟨⟨order.map fun i => calls[i], ?_, ?_⟩, ?_⟩
    · have hall : order.Perm (List.finRange calls.length) := by
        rw [List.perm_ext_iff_of_nodup ho.nodup (List.nodup_finRange _)]
        intro i
        rw [ho.mem i, hreturned i]
        exact iff_of_true trivial (List.mem_finRange i)
      have hcalls : (List.finRange calls.length).map (fun i => calls[i]) = calls :=
        List.map_getElem_finRange calls
      simpa only [hcalls] using hall.map fun i => calls[i]
    · rw [ho.content, joined, List.flatMap_map]
    · intro hne
      refine hp.there ⟨0, List.length_pos_of_ne_nil hne⟩ ?_
      rw [hreturned]
      trivial

def noFile : FileSystem := { content := fun _ => none }

def request (i : Fin calls.length) (result : Int) : Fin calls.length × Answer :=
  (i, { result := result })

abbrev bothAppends : List Append := [{ data := [1, 1, 1] }, { data := [2, 2, 2, 2] }]

/-- The second call looks for the size when the first has written, and writes while the
first is closing. -/
theorem both_appends_in_order :
    ∃ p, ReachableBy (appends noFile "log" bothAppends) (Undisturbed "log" bothAppends) p ∧
      AppendedInSomeOrder "log" bothAppends noFile p.state := by
  have h0 : ReachableBy (appends noFile "log" bothAppends) (Undisturbed "log" bothAppends) _ :=
    .init rfl
  have h1 := h0.step (l := request 0 UV_ENOENT) ⟨trivial, trivial⟩ rfl
  have h2 := h1.step (l := request 0 3) ⟨trivial, trivial⟩ rfl
  have h3 := h2.step (l := request 0 3) ⟨fun _ => rfl, rfl⟩ rfl
  have h4 := h3.step (l := (1, { result := 0, size := 3 })) ⟨trivial, trivial⟩ rfl
  have h5 := h4.step (l := (1, { result := 0, size := 3 })) ⟨by trivial, by trivial⟩ rfl
  have h6 := h5.step (l := request 1 4) ⟨trivial, trivial⟩ rfl
  have h7 := h6.step (l := request 1 4) ⟨fun _ => rfl, rfl⟩ rfl
  have h8 := h7.step (l := request 0 0) ⟨trivial, trivial⟩ rfl
  have h9 := h8.step (l := request 1 0) ⟨trivial, trivial⟩ rfl
  exact ⟨_, h9,
    appends_in_some_order noFile "log" _ _ h9 (Fin.forall_fin_two.mpr ⟨rfl, rfl⟩)⟩

/-- Two calls read the size before either has written. -/
theorem appends_overwrite : ¬ ∀ (s : FileSystem) (path : String) (calls : List Append)
    (p : Pool (Fin calls.length) Query Answer Error Unit FileSystem),
    ReachableBy (appends s path calls) (FullWrite calls) p → (∀ i, p.coros i = .done ()) →
      AppendedInSomeOrder path calls s p.state := by
  intro h
  have h0 : ReachableBy (appends noFile "log" bothAppends) (FullWrite bothAppends) _ := .init rfl
  have h1 := h0.step (l := request 0 UV_ENOENT) trivial rfl
  have h2 := h1.step (l := request 1 UV_ENOENT) trivial rfl
  have h3 := h2.step (l := request 0 3) trivial rfl
  have h4 := h3.step (l := request 1 4) trivial rfl
  have h5 := h4.step (l := request 0 3) (fun _ => rfl) rfl
  have h6 := h5.step (l := request 1 4) (fun _ => rfl) rfl
  have h7 := h6.step (l := request 0 0) trivial rfl
  have h8 := h7.step (l := request 1 0) trivial rfl
  obtain ⟨⟨order, hperm, hcontent⟩, _⟩ :=
    h noFile "log" bothAppends _ h8 (Fin.forall_fin_two.mpr ⟨rfl, rfl⟩)
  have hlen := (hperm.flatMap_right Append.data).length_eq
  have hfour : order.flatMap Append.data = [2, 2, 2, 2] := hcontent.symm
  rw [hfour] at hlen
  exact absurd hlen (by decide)

end LuvCoro.Content
