import LuvCoro.Lib.Stateful
import LuvCoro.Request.Outcome

/-! # `luvcoro::file` and its descriptor

Translated from `src/fs.cpp`. A coroutine is a program that awaits requests; each
request it awaits is a run of `run_fs_request`, taken to any state in which the
coroutine has gone on. What it works on is one `file` and the descriptors. -/
namespace LuvCoro.Fs

open Transition Stateful Request

def UV_ENOENT : Int := -2

structure File where
  fd : Int := -1
  offset : Int := 0

def File.isOpen (f : File) : Bool := decide (0 ≤ f.fd)

inductive Call
  | openPath
  | close (fd : Int)
  | read | write | stat
  deriving DecidableEq

/-- The descriptor that a call is to close. -/
def Call.closes : Call → List Int
  | .close fd => [fd]
  | _ => []

/-- What the coroutine meets next: a request, an answer of `stop_requested()`, or
one of `dup`. -/
inductive Event
  | request (c : Call) (s : Sys)
  | stopRequested (stopped : Bool)
  | dup (rc : Int)

/-- The descriptors that the system has handed out, those for which `uv_fs_close` has
been issued, and those it has closed: `uv_cancel` may take a close out of the queue. -/
structure World where
  script : List Event
  file : File := {}
  opened : List Int := []
  issued : List Int := []
  closed : List Int := []

/-- A request of `run_fs_request` has come to `s`. -/
def World.after (w : World) (c : Call) (s : Sys) (es : List Event) : World :=
  { w with
    script := es
    opened := w.opened ++ if c = .openPath then s.produced.toList else []
    issued := w.issued ++ if s.op.started then c.closes else []
    closed := w.closed ++ if s.acted then c.closes else [] }

def await (c : Call) : Program World Error Int := ofFn fun w =>
  match w.script with
  | .request c' s :: es =>
    if c' = c then s.outcome.map fun o => (o, w.after c s es) else none
  | _ => none

/-- `stop_token.stop_requested()`. -/
def stopRequested : Program World Error Bool := ofFn fun w =>
  match w.script with
  | .stopRequested stopped :: es => some (.ok stopped, { w with script := es })
  | _ => none

/-- `duplicate_file_descriptor`. -/
def duplicateFileDescriptor : Program World Error Int := ofFn fun w =>
  match w.script with
  | .dup rc :: es =>
    if rc < 0 then some (.error (.uvError rc), { w with script := es })
    else some (.ok rc, { w with script := es, opened := w.opened ++ [rc] })
  | _ => none

def setFile (f : File) : Program World Error Unit := modify fun w => { w with file := f }

/-- `file::close`. -/
def close : Program World Error Unit := do
  let w ← get
  if w.file.isOpen then
    setFile {}
    let _ ← await (.close w.file.fd)
    pure ()
  else pure ()

/-- `file::open` of a path. -/
def openPath : Program World Error Unit := do
  close
  let fd ← await .openPath
  setFile { fd := fd }

/-- `file::open` of a descriptor. -/
def openDescriptor (fd : Int) : Program World Error Unit := do
  let stopped ← stopRequested
  if stopped then throw .operationCancelled
  else if fd < 0 then throw (.runtimeError "file descriptor is invalid")
  else
    close
    let dupFd ← duplicateFileDescriptor
    setFile { fd := dupFd }

/-- `file::close_sync_noexcept`. -/
def closeSync : Program World Error Unit := modify fun w =>
  if w.file.isOpen then
    { w with
      file := {}
      issued := w.issued ++ [w.file.fd]
      closed := w.closed ++ [w.file.fd] }
  else w

/-- A call on a file that must be open. -/
def onOpenFile (c : Call) : Program World Error Int := do
  let w ← get
  if w.file.isOpen then await c else throw (.runtimeError "file is not open")

/-- `file::read`. -/
def read : Program World Error Int := do
  let size ← onOpenFile .read
  modify fun w => { w with file := { w.file with offset := w.file.offset + size } }
  pure size

/-- The loop of `file::read_all`, for at most `n` rounds. -/
def readAll : Nat → Program World Error Unit
  | 0 => stuck
  | n + 1 => do
    let stopped ← stopRequested
    if stopped then throw .operationCancelled
    else
      let size ← read
      if size = 0 then pure () else readAll n

/-- `file::write_at` of so many bytes. -/
def writeAt (size : Nat) : Program World Error Int := do
  let w ← get
  if !w.file.isOpen then throw (.runtimeError "file is not open")
  else if size = 0 then pure 0
  else await .write

/-- `file::write`. -/
def write (size : Nat) : Program World Error Unit := do
  let written ← writeAt size
  modify fun w => { w with file := { w.file with offset := w.file.offset + written } }

/-- `fs::exists`. -/
def pathExists : Program World Error Bool :=
  tryCatch (do let _ ← await .stat; pure true) fun e =>
    if e = .uvError UV_ENOENT then pure false else throw e

/-- `fs::read_file`; the local `file` is closed when it is left. -/
def readFile (n : Nat) : Program World Error Unit := cleanUp (do openPath; readAll n; close) closeSync

/-- `fs::write_file`. -/
def writeFile (size : Nat) : Program World Error Unit :=
  cleanUp (do openPath; write size; close) closeSync

/-- The offset at which `fs::append_file` writes. -/
def appendOffset : Program World Error Int := do
  let present ← pathExists
  if present then await .stat else pure 0

/-- `fs::append_file`. -/
def appendFile (size : Nat) : Program World Error Unit := do
  let _ ← appendOffset
  cleanUp (do openPath; let _ ← writeAt size; close) closeSync

/-- The calls which work on a file of their own. -/
inductive Helper
  | readFile (n : Nat)
  | writeFile (size : Nat)
  | appendFile (size : Nat)

def Helper.program : Helper → Program World Error Unit
  | .readFile n => Fs.readFile n
  | .writeFile size => Fs.writeFile size
  | .appendFile size => Fs.appendFile size

/-! ## Runs -/

/-- Every request that is awaited is a run of `run_fs_request` whose steps meet
the condition for its call. -/
def Follows (good : Call → Sys → Label → Prop) (w : World) : Prop :=
  ∀ c s, .request c s ∈ w.script →
    ∃ stopPossible, ReachableBy (system runFsRequest stopPossible) (good c) s

/-- Nobody asks to cancel an open that succeeds. -/
def OpenUndisturbed : Call → Sys → Label → Prop
  | .openPath => DeliversResult
  | _ => fun _ _ => True

/-- Nobody asks to stop before a close has been started. -/
def CloseStarts : Call → Sys → Label → Prop
  | .close _ => StartsFirst
  | _ => fun _ _ => True

/-- Nobody asks to cancel an open that succeeds, or to stop before a worker has taken
up a close. -/
def Undisturbed : Call → Sys → Label → Prop
  | .openPath => DeliversResult
  | .close _ => WorkedOn
  | _ => fun _ _ => True

section
variable {good : Call → Sys → Label → Prop} {w w' : World} {c : Call}

theorem leads_await {r : Except Error Int} : Leads (await c) w r w' ↔
    ∃ s es, w.script = .request c s :: es ∧ s.outcome = some r ∧ w' = w.after c s es := by
  unfold await
  rw [leads_ofFn]
  constructor
  · intro h
    split at h
    · rename_i c' s es hs
      split at h
      · rename_i hc
        obtain ⟨o, ho, he⟩ := Option.map_eq_some_iff.mp h
        cases he
        exact ⟨s, es, hc ▸ hs, ho, rfl⟩
      · cases h
    · cases h
  · intro ⟨s, es, hs, ho, hw⟩
    simp [hs, ho, hw]

theorem follows_after {s : Sys} {es : List Event} (h : Follows good w)
    (hs : w.script = .request c s :: es) : Follows good (w.after c s es) :=
  fun c' s' hm => h c' s' (hs ▸ List.mem_cons_of_mem _ hm)

/-- `file::close` forgets the descriptor and issues a close for it, if the request
gets that far. -/
theorem close_spec {r : Except Error Unit} (h : Leads close w r w') :
    (w.file.isOpen = false ∧ r = .ok () ∧ w' = w) ∨
    w.file.isOpen = true ∧ ∃ s es o, w.script = .request (.close w.file.fd) s :: es ∧
      s.outcome = some o ∧ w' = { w with file := {} }.after (.close w.file.fd) s es := by
  rcases leads_bind.mp h with ⟨w₀, u, hget, hbody⟩ | ⟨e, _, hget⟩
  · obtain ⟨he, rfl⟩ := leads_get.mp hget
    cases he
    split at hbody
    · rename_i hopen
      refine .inr ⟨hopen, ?_⟩
      rcases leads_bind.mp hbody with ⟨_, v, hset, hrest⟩ | ⟨e, _, hset⟩
      · obtain ⟨_, rfl⟩ := leads_modify.mp hset
        rcases leads_bind.mp hrest with ⟨n, v, hawait, hend⟩ | ⟨e, _, hawait⟩
        · obtain ⟨s, es, hs, ho, rfl⟩ := leads_await.mp hawait
          obtain ⟨_, rfl⟩ := leads_pure.mp hend
          exact ⟨s, es, _, hs, ho, rfl⟩
        · obtain ⟨s, es, hs, ho, rfl⟩ := leads_await.mp hawait
          exact ⟨s, es, _, hs, ho, rfl⟩
      · cases (leads_modify.mp hset).1
    · rename_i hopen
      obtain ⟨hr, hw⟩ := leads_pure.mp hbody
      exact .inl ⟨Bool.eq_false_iff.mpr hopen, hr, hw⟩
  · cases (leads_get.mp hget).1

theorem follows_close {r : Except Error Unit} (hf : Follows good w) (h : Leads close w r w') :
    Follows good w' := by
  rcases close_spec h with ⟨_, _, rfl⟩ | ⟨_, s, es, o, hs, _, rfl⟩
  · exact hf
  · exact follows_after (w := { w with file := {} }) hf hs

/-- After `file::close` the file has no descriptor. -/
theorem close_file {r : Except Error Unit} (h : Leads close w r w') :
    w'.file.isOpen = false ∧ w'.opened = w.opened := by
  rcases close_spec h with ⟨hc, _, rfl⟩ | ⟨_, s, es, o, hs, _, rfl⟩
  · exact ⟨hc, rfl⟩
  · exact ⟨rfl, List.append_nil _⟩

/-- How `file::open` ends: when it closes the file, when its request fails or is
cancelled, or with a descriptor. -/
inductive Opens (w : World) : Except Error Unit → World → Prop
  | closing {e : Error} {u : World} : Leads close w (.error e) u → Opens w (.error e) u
  | failed {e : Error} {u : World} {s : Sys} {es : List Event} : Leads close w (.ok ()) u →
      u.script = .request .openPath s :: es → s.outcome = some (.error e) →
      Opens w (.error e) (u.after .openPath s es)
  | opened {fd : Int} {u : World} {s : Sys} {es : List Event} : Leads close w (.ok ()) u →
      u.script = .request .openPath s :: es → s.outcome = some (.ok fd) →
      Opens w (.ok ()) { u.after .openPath s es with file := { fd := fd } }

theorem openPath_spec {r : Except Error Unit} (h : Leads openPath w r w') : Opens w r w' := by
  rcases leads_bind.mp h with ⟨_, u, hclose, hrest⟩ | ⟨e, rfl, hclose⟩
  · rcases leads_bind.mp hrest with ⟨fd, v, hawait, hset⟩ | ⟨e, rfl, hawait⟩
    · obtain ⟨s, es, hs, ho, rfl⟩ := leads_await.mp hawait
      obtain ⟨rfl, rfl⟩ := leads_modify.mp hset
      exact .opened hclose hs ho
    · obtain ⟨s, es, hs, ho, rfl⟩ := leads_await.mp hawait
      exact .failed hclose hs ho
  · exact .closing hclose

/-- What the system has handed out for an open that nobody has asked to cancel. -/
theorem outcome_of_produced {s : Sys} {o : Except Error Int} {fd : Int} {es : List Event}
    (hf : Follows good w) (hgood : ∀ s l, good .openPath s l → DeliversResult s l)
    (hs : w.script = .request .openPath s :: es) (ho : s.outcome = some o)
    (hp : s.produced = some fd) : o = .ok fd ∧ 0 ≤ fd := by
  obtain ⟨stopPossible, hr⟩ := hf .openPath s (hs ▸ List.mem_cons_self)
  have hr' := hr.mono hgood
  have hc := not_cancelled_of_produced hr' (by rw [hp]; nofun)
  exact ⟨outcome_eq_produced hr hc hp ho, produced_nonneg hr fd hp⟩

/-- What has happened to the file and the descriptors since `u`: nothing, or one
has been handed out, and it is the file's. -/
def Takes (u w : World) : Prop :=
  w.closed = u.closed ∧ (w.opened = u.opened ∨
    ∃ fd, w.opened = u.opened ++ [fd] ∧ w.file.fd = fd ∧ 0 ≤ fd)

theorem openPath_takes {r : Except Error Unit} (hf : Follows good w)
    (hgood : ∀ s l, good .openPath s l → DeliversResult s l) (h : Leads openPath w r w') :
    ∃ u x, Leads close w x u ∧ Follows good w' ∧ Takes u w' := by
  cases openPath_spec h with
  | closing hclose => exact ⟨w', _, hclose, follows_close hf hclose, rfl, .inl rfl⟩
  | failed hclose hs ho =>
    rename_i e u s es
    have hfu := follows_close hf hclose
    refine ⟨u, _, hclose, follows_after hfu hs, by simp [World.after, Call.closes], ?_⟩
    cases hp : s.produced with
    | none => exact .inl (by simp [World.after, hp])
    | some fd => cases (outcome_of_produced hfu hgood hs ho hp).1
  | opened hclose hs ho =>
    rename_i v u s es
    have hfu := follows_close hf hclose
    refine ⟨u, _, hclose, follows_after hfu hs, by simp [World.after, Call.closes], ?_⟩
    cases hp : s.produced with
    | none => exact .inl (by simp [World.after, hp])
    | some fd =>
      obtain ⟨he, h0⟩ := outcome_of_produced hfu hgood hs ho hp
      cases he
      exact .inr ⟨v, by simp [World.after, hp], rfl, h0⟩

/-- In every run of `file::open` in which nobody asks to cancel an open that
succeeds, the descriptor that the system has handed out is the one of the file,
once the call has returned or thrown. -/
theorem openPath_keeps_descriptor (w w' : World) (r : Except Error Unit)
    (hf : Follows OpenUndisturbed w) (h : Leads openPath w r w') :
    ∀ fd, w'.opened = w.opened ++ [fd] → w'.file.fd = fd := by
  intro fd hfd
  obtain ⟨u, x, hclose, _, _, htakes⟩ := openPath_takes hf (fun _ _ hg => hg) h
  have hopened := (close_file hclose).2
  rcases htakes with hsame | ⟨fd', hfd', hfile, _⟩
  · rw [hsame, hopened] at hfd
    exact absurd hfd (by simp)
  · rw [hfd', hopened] at hfd
    have he : fd' = fd := by simpa using hfd
    exact he ▸ hfile

/-- A script of one request. -/
theorem follows_single {s : Sys} (hw : w.script = [.request c s])
    (h : ∃ stopPossible, ReachableBy (system runFsRequest stopPossible) (good c) s) :
    Follows good w := by
  intro c' s' hm
  rw [hw, List.mem_singleton] at hm
  cases hm
  exact h

/-- An open without a stop token. -/
theorem openPath_keeps_descriptor_three : ∃ w w' : World, w'.opened = w.opened ++ [3] ∧
    w'.file.fd = 3 := by
  have h0 : ReachableBy (system runFsRequest false) DeliversResult {} := .init ⟨false, nofun, rfl⟩
  have h1 := h0.step (l := .run) (by exact trivial) rfl
  have h2 := h1.step (l := .run) (by exact trivial) rfl
  have h3 := h2.step (l := .runPosted 0 0) (by intro cs hp; cases hp) rfl
  have h4 := h3.step (l := .begin) (by exact trivial) rfl
  have h5 := h4.step (l := .work 3) (by exact fun _ => rfl) rfl
  have h6 := h5.step (l := .callback) (by exact trivial) rfl
  have hf : Follows OpenUndisturbed _ :=
    follows_single (w := { script := [.request .openPath _] }) rfl ⟨false, h6⟩
  exact ⟨_, _, rfl, openPath_keeps_descriptor _ _ (.ok ()) hf rfl 3 rfl⟩

/-- The stop is requested when the system has handed the descriptor out, and
`uv_cancel` comes too late: `open` throws, and nobody has the descriptor. -/
theorem openPath_loses_descriptor : ∃ w w' : World,
    Follows (fun _ _ _ => True) w ∧ Leads openPath w (.error .operationCancelled) w' ∧
      w'.opened = w.opened ++ [3] ∧ w'.file.fd = -1 ∧ w'.closed = [] := by
  have h0 : Reachable (system runFsRequest true) {} := .init ⟨false, nofun, rfl⟩
  have h := h0.run (show Transition.run (system runFsRequest true) {} [.run, .run, .run,
    .runPosted 0 0, .begin, .work 3, .requestStop, .stopCallback, .runPosted 0 UV_EBUSY,
    .callback] = some _ from rfl)
  exact ⟨{ script := [.request .openPath _] }, _, follows_single rfl ⟨true, h⟩, rfl, rfl, rfl, rfl⟩

/-! ## Balance -/

/-- The descriptor of the file. -/
def World.owned (w : World) : List Int := if w.file.isOpen then [w.file.fd] else []

/-- No descriptor is lost: each time one has been handed out, it has been closed or
is the file's. -/
def Balanced (w : World) : Prop :=
  ∀ fd, w.opened.count fd ≤ w.closed.count fd + w.owned.count fd

/-- What the programs keep. -/
def Sound (w : World) : Prop := Follows Undisturbed w ∧ Balanced w

theorem owned_nil (h : w.file.isOpen = false) : w.owned = [] := by
  unfold World.owned
  rw [h]
  rfl

/-- A close that is not stopped before it is started is issued. -/
theorem close_issues {r : Except Error Unit} (hf : Follows CloseStarts w)
    (h : Leads close w r w') : w'.issued = w.issued ++ w.owned := by
  rcases close_spec h with ⟨hc, _, rfl⟩ | ⟨hopen, s, es, o, hs, ho, rfl⟩
  · rw [owned_nil hc, List.append_nil]
  · obtain ⟨stopPossible, hr⟩ := hf _ s (hs ▸ List.mem_cons_self)
    have hst : s.op.started = true := started_of_outcome hr (by rw [ho]; nofun)
    simp [World.after, World.owned, Call.closes, hopen, hst]

/-- A close that is not stopped before a worker has taken it up is carried out. -/
theorem close_closes {r : Except Error Unit} (hf : Follows Undisturbed w)
    (h : Leads close w r w') : w'.closed = w.closed ++ w.owned := by
  rcases close_spec h with ⟨hc, _, rfl⟩ | ⟨hopen, s, es, o, hs, ho, rfl⟩
  · rw [owned_nil hc, List.append_nil]
  · obtain ⟨stopPossible, hr⟩ := hf _ s (hs ▸ List.mem_cons_self)
    have hacted : s.acted = true := acted_of_outcome hr (by rw [ho]; nofun)
    simp [World.after, World.owned, Call.closes, hopen, hacted]

theorem keeps_close : Keeps Sound close := by
  intro w r w' ⟨hf, hb⟩ h
  obtain ⟨hc, hopened⟩ := close_file h
  refine ⟨follows_close hf h, fun fd => ?_⟩
  rw [hopened, close_closes hf h, owned_nil hc, List.count_append]
  exact hb fd

theorem sound_takes {u : World} (hu : Sound u) (hc : u.file.isOpen = false)
    (hf : Follows Undisturbed w) (h : Takes u w) : Sound w := by
  obtain ⟨hclosed, hopened⟩ := h
  refine ⟨hf, fun fd => ?_⟩
  have hb := hu.2 fd
  rw [owned_nil hc] at hb
  rw [hclosed]
  rcases hopened with hsame | ⟨fd', hnew, hfile, h0⟩
  · rw [hsame]
    exact Nat.le_trans hb (Nat.add_le_add_left (Nat.zero_le _) _)
  · have howned : w.owned = [fd'] := by
      unfold World.owned
      rw [if_pos (by rw [File.isOpen, hfile]; exact decide_eq_true h0), hfile]
    rw [hnew, howned, List.count_append]
    exact Nat.add_le_add_right hb _

theorem keeps_openPath : Keeps Sound openPath := by
  intro w r w' hw h
  obtain ⟨u, x, hclose, hf, htakes⟩ := openPath_takes hw.1 (fun _ _ hg => hg) h
  exact sound_takes (keeps_close w x u hw hclose) (close_file hclose).1 hf htakes

theorem keeps_stopRequested : Keeps Sound stopRequested := by
  intro w r w' ⟨hf, hb⟩ h
  have hrun := leads_ofFn.mp h
  split at hrun
  · rename_i hs
    cases hrun
    exact ⟨fun c s hm => hf c s (hs ▸ List.mem_cons_of_mem _ hm), hb⟩
  · cases hrun

theorem keeps_openDescriptor (fd : Int) : Keeps Sound (openDescriptor fd) := by
  refine keeps_bind keeps_stopRequested fun stopped => ?_
  split
  · exact keeps_throw _
  · split
    · exact keeps_throw _
    · intro w r w' hw h
      rcases leads_bind.mp h with ⟨_, u, hclose, hrest⟩ | ⟨e, _, hclose⟩
      · have hu := keeps_close w _ u hw hclose
        have hc := (close_file hclose).1
        rcases leads_bind.mp hrest with ⟨dupFd, v, hdup, hset⟩ | ⟨e, _, hdup⟩
        · obtain ⟨_, rfl⟩ := leads_modify.mp hset
          have hrun := leads_ofFn.mp hdup
          split at hrun
          · rename_i rc es hs
            split at hrun <;> cases hrun
            rename_i h0
            refine sound_takes hu hc ?_ ⟨rfl, .inr ⟨dupFd, rfl, rfl, by omega⟩⟩
            exact fun c s hm => hu.1 c s (hs ▸ List.mem_cons_of_mem _ hm)
          · cases hrun
        · have hrun := leads_ofFn.mp hdup
          split at hrun
          · rename_i rc es hs
            split at hrun <;> cases hrun
            refine sound_takes hu hc ?_ ⟨rfl, .inl rfl⟩
            exact fun c s hm => hu.1 c s (hs ▸ List.mem_cons_of_mem _ hm)
          · cases hrun
      · exact keeps_close w _ w' hw hclose

/-- Reading, writing and inspecting changes no descriptor. -/
theorem keeps_await {c : Call} (hopen : c ≠ .openPath) (hclose : ∀ fd, c ≠ .close fd) :
    Keeps Sound (await c) := by
  intro w r w' ⟨hf, hb⟩ h
  obtain ⟨s, es, hs, _, rfl⟩ := leads_await.mp h
  have hc : (w.after c s es).closed = w.closed := by
    have hnil : c.closes = [] := by
      cases c with
      | close fd => exact absurd rfl (hclose fd)
      | _ => rfl
    simp [World.after, hnil]
  have ho : (w.after c s es).opened = w.opened := by
    unfold World.after
    rw [if_neg hopen]
    exact List.append_nil _
  refine ⟨follows_after hf hs, fun fd => ?_⟩
  rw [hc, ho]
  exact hb fd

theorem keeps_offset (f : Int → Int) : Keeps Sound (modify fun w =>
    { w with file := { w.file with offset := f w.file.offset } } : Program World Error Unit) :=
  keeps_modify fun _ hw => hw

theorem keeps_read : Keeps Sound read := by
  refine keeps_bind (keeps_bind keeps_get fun w => ?_) fun size =>
    keeps_bind (keeps_offset (· + size)) fun _ => keeps_pure _
  split
  · exact keeps_await nofun nofun
  · exact keeps_throw _

/-- By induction on the rounds of the loop. -/
theorem keeps_readAll (n : Nat) : Keeps Sound (readAll n) := by
  induction n with
  | zero =>
    intro w r w' _ h
    cases h
  | succ n ih =>
    refine keeps_bind keeps_stopRequested fun stopped => ?_
    split
    · exact keeps_throw _
    · refine keeps_bind keeps_read fun size => ?_
      split
      · exact keeps_pure _
      · exact ih

theorem keeps_writeAt (size : Nat) : Keeps Sound (writeAt size) := by
  refine keeps_bind keeps_get fun w => ?_
  split
  · exact keeps_throw _
  · split
    · exact keeps_pure _
    · exact keeps_await nofun nofun

theorem keeps_closeSync : Keeps Sound closeSync := by
  refine keeps_modify fun w ⟨hf, hb⟩ => ?_
  split
  · rename_i hopen
    refine ⟨hf, fun fd => ?_⟩
    have h := hb fd
    unfold World.owned at h
    rw [if_pos hopen] at h
    show w.opened.count fd ≤ (w.closed ++ [w.file.fd]).count fd + 0
    rw [List.count_append]
    exact h
  · exact ⟨hf, hb⟩

/-- Behind the destructor every descriptor that was handed out has been closed. -/
theorem closed_of_cleanUp {α : Type} {p : Program World Error α} {r : Except Error α}
    (hp : Keeps Sound p) (hw : Sound w) (h : Leads (cleanUp p closeSync) w r w') :
    ∀ fd, w'.opened.count fd ≤ w'.closed.count fd := by
  obtain ⟨u, x, hpu, hq⟩ := leads_cleanUp.mp h
  have hsound := keeps_closeSync u x w' (hp w r u hw hpu) hq
  have hc : w'.file.isOpen = false := by
    obtain ⟨_, rfl⟩ := leads_modify.mp hq
    split
    · rfl
    · rename_i hopen
      exact Bool.eq_false_iff.mpr hopen
  intro fd
  have hb := hsound.2 fd
  rw [owned_nil hc] at hb
  exact hb

theorem keeps_write (size : Nat) : Keeps Sound (write size) :=
  keeps_bind (keeps_writeAt size) fun written => keeps_offset (· + written)

/-- What `read_file` and its kind do with the local file. -/
theorem keeps_body {α : Type} {p : Program World Error α} (hp : Keeps Sound p) :
    Keeps Sound (do openPath; let _ ← p; close) :=
  keeps_bind keeps_openPath fun _ => keeps_bind hp fun _ => keeps_close

/-- Before the local file is there. -/
def Fileless (w : World) : Prop := Sound w ∧ w.file.isOpen = false

theorem fileless_await {c : Call} (hopen : c ≠ .openPath) (hclose : ∀ fd, c ≠ .close fd) :
    Keeps Fileless (await c) := by
  intro w r w' ⟨hw, hc⟩ h
  refine ⟨keeps_await hopen hclose w r w' hw h, ?_⟩
  obtain ⟨s, es, _, _, rfl⟩ := leads_await.mp h
  exact hc

theorem fileless_appendOffset : Keeps Fileless appendOffset := by
  refine keeps_bind ?_ fun present => ?_
  · refine keeps_tryCatch (keeps_bind (fileless_await nofun nofun) fun _ => keeps_pure _)
      fun e => ?_
    split
    · exact keeps_pure _
    · exact keeps_throw _
  · split
    · exact fileless_await nofun nofun
    · exact keeps_pure _

theorem helper_closed (helper : Helper) {r : Except Error Unit} (hw : Fileless w)
    (h : Leads helper.program w r w') : ∀ fd, w'.opened.count fd ≤ w'.closed.count fd := by
  cases helper with
  | readFile n => exact closed_of_cleanUp (keeps_body (keeps_readAll n)) hw.1 h
  | writeFile size => exact closed_of_cleanUp (keeps_body (keeps_write size)) hw.1 h
  | appendFile size =>
    rcases leads_bind.mp h with ⟨_, u, hu, hrest⟩ | ⟨e, _, he⟩
    · have hsound := (fileless_appendOffset w _ u hw hu).1
      exact closed_of_cleanUp (keeps_body (keeps_writeAt size)) hsound hrest
    · obtain ⟨⟨_, hb⟩, hc⟩ := fileless_appendOffset w _ w' hw he
      intro fd
      have hle := hb fd
      rw [owned_nil hc] at hle
      exact hle

/-- In every run in which nobody asks to stop a close before it is started, `close`
issues a close for the descriptor it takes from the file; and in every run in which
nobody asks to stop before a worker has taken up a close, or to cancel an open that
succeeds, no descriptor is lost by opening the file again, or by the calls that work
on a file of their own. -/
theorem close_releases (w : World) :
    (Follows CloseStarts w → ∀ r w', Leads close w r w' → w.file.isOpen = true →
      w'.file = w.file ∨ w'.issued = w.issued ++ [w.file.fd]) ∧
    (Follows Undisturbed w → Balanced w →
      (∀ r w', Leads close w r w' → Balanced w') ∧
      (∀ r w', Leads openPath w r w' → Balanced w') ∧
      (∀ fd r w', Leads (openDescriptor fd) w r w' → Balanced w') ∧
      (w.file.isOpen = false → ∀ (helper : Helper) r w', Leads helper.program w r w' →
        ∀ fd, w'.opened.count fd ≤ w'.closed.count fd)) := by
  refine ⟨fun hf r w' h hopen => .inr ?_, fun hf hb => ⟨fun r w' h => ?_, fun r w' h => ?_,
    fun fd r w' h => ?_, fun hc helper r w' h => ?_⟩⟩
  · rw [close_issues hf h, World.owned, if_pos hopen]
  · exact (keeps_close w r w' ⟨hf, hb⟩ h).2
  · exact (keeps_openPath w r w' ⟨hf, hb⟩ h).2
  · exact (keeps_openDescriptor fd w r w' ⟨hf, hb⟩ h).2
  · exact helper_closed helper ⟨⟨hf, hb⟩, hc⟩ h

/-- A file is closed with a token that is stopped when a worker has begun. -/
theorem close_releases_three : ∃ w w' : World, Leads close w (.error .operationCancelled) w' ∧
    w.opened = [3] ∧ (w'.file = w.file ∨ w'.issued = w.issued ++ [3]) ∧ Balanced w' := by
  have h0 : ∀ good, ReachableBy (system runFsRequest true) good {} := fun _ =>
    .init ⟨false, nofun, rfl⟩
  have h1 := ((h0 WorkedOn).step (l := .run) (by exact fun _ => rfl) rfl).step (l := .run)
    (by intro hp; cases hp) rfl
  have h2 := (h1.step (l := .run) (by intro hp; cases hp) rfl).step (l := .runPosted 0 0)
    (by exact ⟨fun _ _ => .inr (Int.le_refl 0), by intro cs hp; cases hp⟩) rfl
  have h3 := ((h2.step (l := .begin) (by exact trivial) rfl).step (l := .requestStop)
    (by exact trivial) rfl).step (l := .stopCallback) (by exact trivial) rfl
  have h4 := h3.step (l := .runPosted 0 UV_EBUSY) (by
    refine ⟨?_, fun _ _ => .inr ⟨rfl, by decide, by decide⟩⟩
    intro cs hp
    cases hp) rfl
  have h5 := (h4.step (l := .work 0) (by exact trivial) rfl).step (l := .callback)
    (by exact trivial) rfl
  have hearly : ∀ s l, WorkedOn s l → StartsFirst s l := by
    intro s l hl
    cases l with
    | run => exact hl
    | runPosted parseRc rc => exact fun cs hp => (hl.2 cs hp).imp id And.left
    | _ => exact trivial
  have hstarts : ReachableBy (system runFsRequest true) StartsFirst _ := h5.mono hearly
  obtain ⟨s, hs, hs', ho⟩ : ∃ s, ReachableBy (system runFsRequest true) WorkedOn s ∧
      ReachableBy (system runFsRequest true) StartsFirst s ∧
      s.outcome = some (.error .operationCancelled) := ⟨_, h5, hstarts, rfl⟩
  let w : World := { script := [.request (.close 3) s], file := { fd := 3 }, opened := [3] }
  have hrun : Leads close w (.error .operationCancelled)
      ({ w with file := {} }.after (.close 3) s []) :=
    leads_bind.mpr (.inl ⟨w, w, rfl, leads_bind.mpr (.inl ⟨(), _, rfl, leads_bind.mpr
      (.inr ⟨_, rfl, leads_await.mpr ⟨s, [], rfl, ho, rfl⟩⟩)⟩)⟩)
  have hissues := (close_releases w).1 (follows_single rfl ⟨true, hs'⟩) _ _ hrun rfl
  have hbalanced := (close_releases w).2 (follows_single rfl ⟨true, hs⟩) fun fd => by
    simp [World.owned, w, File.isOpen]
  exact ⟨w, _, hrun, rfl, hissues, hbalanced.1 _ _ hrun⟩

/-- With a token that has already been stopped `close` throws, the file has forgotten
its descriptor, and no close has been issued. With one that is stopped before a
worker takes up the close, `uv_cancel` takes it out of the queue. -/
theorem close_loses_descriptor : (∃ w w' : World,
    Follows (fun _ _ _ => True) w ∧ Leads close w (.error .operationCancelled) w' ∧
      w.file.fd = 3 ∧ w'.file.fd = -1 ∧ w'.issued = []) ∧
    ∃ w w' : World,
      Follows CloseStarts w ∧ Leads close w (.error .operationCancelled) w' ∧
        w.file.fd = 3 ∧ w'.file.fd = -1 ∧ w'.issued = [3] ∧ w'.closed = [] := by
  have hstopped : Reachable (system runFsRequest true) { stopRequested := true } :=
    .init ⟨true, fun _ => rfl, rfl⟩
  have h := hstopped.run (show Transition.run (system runFsRequest true)
    { stopRequested := true } [.run] = some _ from rfl)
  refine ⟨⟨{ script := [.request (.close 3) _], file := { fd := 3 } }, _,
    follows_single rfl ⟨true, h⟩, rfl, rfl, rfl, rfl⟩, ?_⟩
  have h0 : ReachableBy (system runFsRequest true) StartsFirst {} := .init ⟨false, nofun, rfl⟩
  have h1 := (h0.step (l := .run) (by exact fun _ => rfl) rfl).step (l := .run)
    (by intro hp; cases hp) rfl
  have h2 := (h1.step (l := .run) (by intro hp; cases hp) rfl).step (l := .runPosted 0 0)
    (by intro cs hp; cases hp) rfl
  have h3 := (h2.step (l := .requestStop) (by exact trivial) rfl).step (l := .stopCallback)
    (by exact trivial) rfl
  have h4 := (h3.step (l := .runPosted 0 0) (by exact fun _ _ => .inr rfl) rfl).step
    (l := .callback) (by exact trivial) rfl
  exact ⟨{ script := [.request (.close 3) _], file := { fd := 3 } }, _,
    follows_single rfl ⟨true, h4⟩, rfl, rfl, rfl, rfl, rfl⟩

end

end LuvCoro.Fs
