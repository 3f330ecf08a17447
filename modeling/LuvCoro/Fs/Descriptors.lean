import LuvCoro.Lib.Custody
import LuvCoro.Request.Answer

/-! # The descriptors of all files

Translated from `src/fs.cpp`. Any number of coroutines on the loop thread call `open`,
`close` and the reads and writes of any number of `file` objects, which are also moved and
destroyed. Each request they await is a `run_fs_request` of its own, whose steps come
between those of the others; the work is done on the descriptor table of the process, where
a number that has been closed is free to be given out again. -/
namespace LuvCoro.Fs.Descriptors

open Transition Request

/-! ## The system -/

/-- Why nobody has a descriptor any more: another value was stored in `fd_`,
`uv_runtime::call` threw, or the object was destroyed after it had been moved from. -/
inductive Loss where
  | overwritten
  | refused
  | orphaned
  deriving DecidableEq

/-- What has a descriptor: an object, a request on its way, or nothing. -/
inductive Holder where
  | file (f : Nat)
  | request (r : Nat)
  | lost (why : Loss) (d : Nat)
  deriving DecidableEq

inductive Work where
  | openPath
  | close (fd : Int)
  /-- A read, a write or a truncation. -/
  | transfer (fd : Int)

/-- A request, and the descriptor that its number was given for. -/
structure Pending where
  work : Work
  sys : Request.Sys
  acted : Bool := false
  meant : Option Nat := none

/-- What a request was for, and what it has met. -/
structure Strike where
  meant : Option Nat
  hit : Option Nat

/-- A `luvcoro::file`; `runtime` is whether `runtime_` is set. -/
structure Obj where
  runtime : Bool := true
  fd : Int := -1

def Obj.isOpen (o : Obj) : Bool := decide (0 ≤ o.fd)

/-- How a coroutine goes on with the result of its request. -/
inductive Next where
  | reopen
  | duplicate (fd : Int)
  | store
  | leave

inductive Pc where
  | idle
  | awaits (r : Nat) (next : Next)
  | done (result : Except Error Unit)

/-- A coroutine and the object that it works on. -/
structure Coroutine where
  file : Nat := 0
  pc : Pc := .idle

/-- Descriptors are numbered in the order in which the system has made them; `names` are
the numbers that it has given them. -/
structure State where
  objs : Nat → Obj := fun _ => {}
  coroutines : Nat → Coroutine := fun _ => {}
  requests : List Pending := []
  names : List Int := []
  table : Int → Option Nat := fun _ => none
  custody : Custody.Records Holder Nat := {}
  /-- The latest first. -/
  closes : List Strike := []
  transfers : List Strike := []

inductive Op where
  | openPath
  | openDescriptor (fd : Int)
  | close
  | transfer

/-- `stopped` is whether stop has been requested of the token before, `dup` what `dup`
answers, and `refused` that `uv_runtime::call` throws. -/
inductive Label where
  | call (c f : Nat) (op : Op) (stopped : Bool) (dup : Int)
  | resume (c : Nat) (stopped : Bool) (dup : Int)
  | request (r : Nat) (l : Request.Label)
  | destroy (f : Nat) (refused : Bool)
  | move (f g : Nat) (refused : Bool)

namespace State

def setFd (s : State) (f : Nat) (fd : Int) : State :=
  { s with objs := Function.update s.objs f { s.objs f with fd := fd } }

/-- The coroutine `c` calls `run_fs_request`. -/
def await (s : State) (c f : Nat) (work : Work) (meant : Option Nat) (stopped : Bool)
    (next : Next) : State :=
  { s with
    requests := s.requests ++
      [{ work := work, sys := { stopRequested := stopped }, meant := meant }]
    coroutines := Function.update s.coroutines c
      { file := f, pc := .awaits s.requests.length next } }

def ends (s : State) (c f : Nat) (result : Except Error Unit) : State :=
  { s with coroutines := Function.update s.coroutines c { file := f, pc := .done result } }

/-- `file::close` of a file that is open: `fd_` is cleared, and the request has it. -/
def awaitClose (s : State) (c f : Nat) (stopped : Bool) (next : Next) : State :=
  { (s.await c f (.close (s.objs f).fd) (s.custody.held (.file f)) stopped next).setFd f (-1) with
    custody := Custody.move s.custody (.file f) (.request s.requests.length) }

/-- Nobody has what the object has had. -/
def forget (s : State) (f : Nat) (why : Loss) : State :=
  match s.custody.held (.file f) with
  | some d => { s with custody := Custody.move s.custody (.file f) (.lost why d) }
  | none => s

/-- The system makes a descriptor, and gives it a number that is free. -/
def handOut (s : State) (h : Holder) (fd : Int) : State :=
  { s with
    names := s.names ++ [fd]
    table := Function.update s.table fd (some s.names.length)
    custody := Custody.take s.custody h s.names.length }

/-- `fd_ = duplicate_file_descriptor(fd);` -/
def duplicate (s : State) (c f : Nat) (dup : Int) : Option State :=
  if dup < 0 then some (s.ends c f (.error (.uvError dup)))
  else if s.table dup = none then
    some ((((s.forget f .overwritten).handOut (.file f) dup).setFd f dup).ends c f (.ok ()))
  else none

/-- `fd_ = co_await open_file_async(...);` -/
def store (s : State) (c f r : Nat) (fd : Int) : State :=
  let t := (s.forget f .overwritten).setFd f fd
  { t with custody := Custody.move t.custody (.request r) (.file f) }.ends c f (.ok ())

/-- `close_sync_noexcept`; the system closes the descriptor at once. -/
def closeSync (s : State) (f : Nat) (refused : Bool) : State :=
  let o := s.objs f
  if o.runtime && o.isOpen then
    if refused then (s.forget f .refused).setFd f (-1)
    else
      { s.setFd f (-1) with
        table := Function.update s.table o.fd none
        custody := Custody.release s.custody (.file f)
        closes := { meant := s.custody.held (.file f), hit := s.table o.fd } :: s.closes }
  else s

/-- What the system does for a request. -/
def act (s : State) (r : Nat) (p : Pending) (result : Int) : Option State :=
  match p.work with
  | .openPath =>
    if 0 ≤ result then
      if s.table result = none then some (s.handOut (.request r) result) else none
    else some s
  | .close fd =>
    some { s with
      table := Function.update s.table fd none
      custody := Custody.release s.custody (.request r)
      closes := { meant := p.meant, hit := s.table fd } :: s.closes }
  | .transfer fd =>
    some { s with transfers := { meant := p.meant, hit := s.table fd } :: s.transfers }

/-- A call on the object `f`. Whoever needs a runtime and has none does not go on. -/
def call (s : State) (c f : Nat) (stopped : Bool) (dup : Int) : Op → Option State
  | .openPath =>
    if (s.objs f).runtime then
      if (s.objs f).isOpen then some (s.awaitClose c f stopped .reopen)
      else some (s.await c f .openPath none stopped .store)
    else none
  | .openDescriptor fd =>
    if stopped then some (s.ends c f (.error .operationCancelled))
    else if fd < 0 then
      some (s.ends c f (.error (.runtimeError "file descriptor is invalid")))
    else if (s.objs f).isOpen then
      if (s.objs f).runtime then some (s.awaitClose c f stopped (.duplicate fd)) else none
    else s.duplicate c f dup
  | .close =>
    if (s.objs f).isOpen then
      if (s.objs f).runtime then some (s.awaitClose c f stopped .leave) else none
    else some (s.ends c f (.ok ()))
  | .transfer =>
    if (s.objs f).isOpen then
      if (s.objs f).runtime then
        some (s.await c f (.transfer (s.objs f).fd) (s.custody.held (.file f)) stopped .leave)
      else none
    else some (s.ends c f (.error (.runtimeError "file is not open")))

/-- The coroutine goes on with what its request has come to. -/
def resume (s : State) (c f r : Nat) (next : Next) (stopped : Bool) (dup : Int) :
    Except Error Int → Option State
  | .error e => some (s.ends c f (.error e))
  | .ok value =>
    match next with
    | .reopen =>
      if (s.objs f).runtime then some (s.await c f .openPath none stopped .store) else none
    | .duplicate _ => s.duplicate c f dup
    | .store => some (s.store c f r value)
    | .leave => some (s.ends c f (.ok ()))

def step (s : State) : Label → Option State
  | .call c f op stopped dup =>
    match (s.coroutines c).pc with
    | .idle => s.call c f stopped dup op
    | _ => none
  | .resume c stopped dup =>
    match (s.coroutines c).pc with
    | .awaits r next =>
      ((s.requests[r]?).bind fun p => p.sys.outcome).bind
        (s.resume c (s.coroutines c).file r next stopped dup)
    | _ => none
  | .request r l =>
    (s.requests[r]?).bind fun p =>
      (Request.step runFsRequest true p.sys l).bind fun sys =>
        let t := { s with
          requests := s.requests.set r { p with sys := sys, acted := p.acted || l.isWork } }
        match l with
        | .work result => t.act r p result
        | _ => some t
  | .destroy f refused =>
    -- whoever comes next under this name is a new object
    let t := (s.closeSync f refused).forget f .orphaned
    some { t with objs := Function.update t.objs f {} }
  | .move f g refused =>
    if f = g then some s
    else
      let t := (s.closeSync g refused).forget g .overwritten
      some { t with
        objs := Function.update (Function.update t.objs g (t.objs f)) f
          { runtime := false, fd := -1 }
        custody := Custody.move t.custody (.file f) (.file g) }

end State

def system : System State Label where
  init s := s = {}
  step := State.step

theorem setFd_fd (s : State) (f : Nat) (fd : Int) (g : Nat) :
    ((s.setFd f fd).objs g).fd = if g = f then fd else (s.objs g).fd := by
  by_cases hg : g = f
  · subst hg
    simp [State.setFd]
  · simp [State.setFd, hg]

/-! ## The descriptors and their holders -/

/-- A number in the table leads to the descriptor it was given to, and a descriptor that
has not been closed is in the table. -/
structure Kernel (c : Custody.Records Holder Nat) (names : List Int)
    (table : Int → Option Nat) : Prop where
  sound : Custody.Sound c
  fresh : ∀ d ∈ c.taken, d < names.length
  named : ∀ d ∈ c.taken, d ∉ c.released →
    ∃ n, names[d]? = some n ∧ 0 ≤ n ∧ table n = some d
  live : ∀ n d, table n = some d → d ∈ c.taken ∧ d ∉ c.released ∧ names[d]? = some n
  lost : ∀ why d d', c.held (.lost why d) = some d' → d = d'

section
variable {c : Custody.Records Holder Nat} {names : List Int} {table : Int → Option Nat}
  {h h' : Holder} {d : Nat} {fd : Int}

theorem move_held_eq (hne : h ≠ h') (k : Holder) : (Custody.move c h h').held k =
    if k = h then none else if k = h' then c.held h else c.held k := by
  by_cases hk : k = h
  · subst hk
    simp [Custody.move]
  · rw [if_neg hk]
    by_cases hk' : k = h'
    · subst hk'
      simp [Custody.move, Function.update_of_ne hk]
    · simp [Custody.move, Function.update_of_ne hk, hk']

theorem take_held_eq (k : Holder) :
    (Custody.take c h d).held k = if k = h then some d else c.held k := by
  by_cases hk : k = h
  · subst hk
    simp [Custody.take]
  · simp [Custody.take, hk]

theorem kernel_move (hk : Kernel c names table) (hne : h ≠ h') (hfree : c.held h' = none)
    (hlost : ∀ why d d', h' = .lost why d → c.held h = some d' → d = d') :
    Kernel (Custody.move c h h') names table := by
  refine ⟨Custody.sound_move hk.sound hne hfree, hk.fresh, hk.named, hk.live, ?_⟩
  intro why d d' hd
  rw [move_held_eq hne] at hd
  split at hd
  · cases hd
  · split at hd
    · rename_i he
      exact hlost why d d' he.symm hd
    · exact hk.lost why d d' hd

theorem kernel_take (hk : Kernel c names table) (hfree : table fd = none) (hpos : 0 ≤ fd)
    (hheld : c.held h = none) (hlost : ∀ why d, h ≠ .lost why d) :
    Kernel (Custody.take c h names.length) (names ++ [fd])
      (Function.update table fd (some names.length)) := by
  have hnew : names.length ∉ c.taken := by
    intro ht
    exact absurd (hk.fresh _ ht) (Nat.lt_irrefl _)
  have hname : ∀ {d : Nat} {n : Int}, names[d]? = some n → (names ++ [fd])[d]? = some n := by
    intro d n hd
    obtain ⟨hlt, _⟩ := List.getElem?_eq_some_iff.mp hd
    rw [List.getElem?_append_left hlt, hd]
  refine ⟨Custody.sound_take hk.sound hheld hnew, ?_, ?_, ?_, ?_⟩
  · intro d hd
    rw [List.length_append, List.length_singleton]
    rcases List.mem_append.mp hd with hd | hd
    · exact Nat.lt_succ_of_lt (hk.fresh d hd)
    · rw [List.mem_singleton.mp hd]
      exact Nat.lt_succ_self _
  · intro d hd hr
    rcases List.mem_append.mp hd with hd | hd
    · obtain ⟨n, hn, h0, ht⟩ := hk.named d hd hr
      have hne : n ≠ fd := by
        rintro rfl
        rw [hfree] at ht
        cases ht
      exact ⟨n, hname hn, h0, by rw [Function.update_of_ne hne, ht]⟩
    · rw [List.mem_singleton.mp hd]
      exact ⟨fd, by simp, hpos, Function.update_self ..⟩
  · intro n d ht
    by_cases hne : n = fd
    · subst hne
      rw [Function.update_self] at ht
      cases ht
      exact ⟨List.mem_append_right _ (List.mem_singleton_self _),
        fun hr => hnew (hk.sound.releasedTaken hr), by simp⟩
    · rw [Function.update_of_ne hne] at ht
      obtain ⟨hd, hr, hn⟩ := hk.live n d ht
      exact ⟨List.mem_append_left _ hd, hr, hname hn⟩
  · intro why d d' hd
    rw [take_held_eq, if_neg (Ne.symm (hlost why d))] at hd
    exact hk.lost why d d' hd

theorem kernel_release (hk : Kernel c names table) (hheld : c.held h = some d)
    (hname : names[d]? = some fd) :
    Kernel (Custody.release c h) names (Function.update table fd none) ∧ table fd = some d := by
  obtain ⟨ht, hr⟩ := hk.sound.held hheld
  have hfd : table fd = some d := by
    obtain ⟨n, hn, _, htable⟩ := hk.named d ht hr
    rw [hname] at hn
    cases hn
    exact htable
  have htaken : (Custody.release c h).taken = c.taken := by rw [Custody.release_some hheld]
  have hreleased : (Custody.release c h).released = c.released ++ [d] := by
    rw [Custody.release_some hheld]
  refine ⟨⟨Custody.sound_release hk.sound h, htaken ▸ hk.fresh, ?_, ?_, ?_⟩, hfd⟩
  · intro e he hre
    rw [htaken] at he
    rw [hreleased] at hre
    obtain ⟨hre, hne⟩ := not_or.mp (mt List.mem_append.mpr hre)
    obtain ⟨n, hn, h0, htable⟩ := hk.named e he hre
    refine ⟨n, hn, h0, ?_⟩
    rw [Function.update_of_ne, htable]
    rintro rfl
    rw [hfd, Option.some.injEq] at htable
    exact hne (htable ▸ List.mem_singleton_self _)
  · intro n e hn
    by_cases hnf : n = fd
    · subst hnf
      rw [Function.update_self] at hn
      cases hn
    · rw [Function.update_of_ne hnf] at hn
      obtain ⟨het, her, hen⟩ := hk.live n e hn
      refine ⟨htaken ▸ het, ?_, hen⟩
      rw [hreleased]
      intro hmem
      rcases List.mem_append.mp hmem with hmem | hmem
      · exact her hmem
      · rw [List.mem_singleton.mp hmem, hname] at hen
        exact hnf (Option.some.inj hen).symm
  · intro why e e' he
    rw [Custody.release_held] at he
    split at he
    · cases he
    · exact hk.lost why e e' he

end

/-! ## The invariant -/

/-- `fd_` is the number of the descriptor that the object has, or no number. -/
structure HasFd (c : Custody.Records Holder Nat) (names : List Int) (f : Nat) (fd : Int) :
    Prop where
  held : ∀ d, c.held (.file f) = some d → names[d]? = some fd
  empty : c.held (.file f) = none → fd < 0

/-- What a request has to do with its descriptor; `awaited` is that a coroutine has not
gone on with its outcome. -/
structure Tracked (c : Custody.Records Holder Nat) (names : List Int) (awaited : Prop)
    (r : Nat) (p : Pending) : Prop where
  reach : Reachable (Request.system runFsRequest true) p.sys
  answered : Answered p.sys p.acted
  gone : ¬ awaited → p.sys.outcome ≠ none
  unopened : p.work = .openPath → p.acted = false → c.held (.request r) = none
  opened : p.work = .openPath → ∀ d, c.held (.request r) = some d →
    ∃ n, p.sys.produced = some n ∧ names[d]? = some n
  kept : p.work = .openPath → p.sys.produced ≠ none → awaited → c.held (.request r) ≠ none
  stored : p.work = .openPath → ¬ awaited → ∀ v, p.sys.outcome = some (.ok v) →
    c.held (.request r) = none
  closing : ∀ fd, p.work = .close fd → ∃ d, p.meant = some d ∧ names[d]? = some fd ∧
    c.held (.request r) = if p.acted then none else some d
  transferring : ∀ fd, p.work = .transfer fd → ∃ d, p.meant = some d ∧
    names[d]? = some fd ∧ d ∈ c.taken ∧ c.held (.request r) = none

/-- Each close has closed one descriptor, the one it was meant for. -/
def Closed (closes : List Strike) (released : List Nat) : Prop :=
  closes.map Strike.hit = released.reverse.map some ∧ ∀ k ∈ closes, k.meant = k.hit

/-- Each transfer has met the descriptor it was meant for, or that was closed before. -/
def Transferred (transfers : List Strike) (released : List Nat) : Prop :=
  ∀ k ∈ transfers, ∃ d, k.meant = some d ∧ (k.hit = some d ∨ d ∈ released)

def Awaited (s : State) (r : Nat) : Prop :=
  ∃ c next, (s.coroutines c).pc = .awaits r next

structure Inv (s : State) : Prop where
  kernel : Kernel s.custody s.names s.table
  objs : ∀ f, HasFd s.custody s.names f (s.objs f).fd
  bound : ∀ r d, s.custody.held (.request r) = some d → r < s.requests.length
  tracked : ∀ r p, s.requests[r]? = some p →
    Tracked s.custody s.names (Awaited s r) r p
  awaits : ∀ c r next, (s.coroutines c).pc = .awaits r next →
    ∃ p, s.requests[r]? = some p ∧ (next = .store ↔ p.work = .openPath)
  unique : ∀ c c' r next next', (s.coroutines c).pc = .awaits r next →
    (s.coroutines c').pc = .awaits r next' → c = c'
  closed : Closed s.closes s.custody.released
  transferred : Transferred s.transfers s.custody.released

theorem closed_cons {closes : List Strike} {released : List Nat} (h : Closed closes released)
    (d : Nat) : Closed ({ meant := some d, hit := some d } :: closes) (released ++ [d]) := by
  refine ⟨by simp [h.1], ?_⟩
  intro k hk
  rcases List.mem_cons.mp hk with rfl | hk
  · rfl
  · exact h.2 k hk

theorem transferred_append {transfers : List Strike} {released : List Nat}
    (h : Transferred transfers released) (d : Nat) : Transferred transfers (released ++ [d]) := by
  intro k hk
  obtain ⟨e, hm, hhit⟩ := h k hk
  exact ⟨e, hm, hhit.imp id fun he => List.mem_append_left _ he⟩

section
variable {c c' : Custody.Records Holder Nat} {names names' : List Int} {a a' : Prop}
  {r : Nat} {p : Pending}

theorem Tracked.frame (h : Tracked c names a r p)
    (hheld : c'.held (.request r) = c.held (.request r))
    (hnames : ∀ (d : Nat) (n : Int), names[d]? = some n → names'[d]? = some n)
    (htaken : ∀ d ∈ c.taken, d ∈ c'.taken) (ha : a' ↔ a) : Tracked c' names' a' r p where
  reach := h.reach
  answered := h.answered
  gone hn := h.gone (mt ha.mpr hn)
  unopened hw hacted := hheld.trans (h.unopened hw hacted)
  opened hw d hd := by
    obtain ⟨n, hp, hn⟩ := h.opened hw d (hheld ▸ hd)
    exact ⟨n, hp, hnames d n hn⟩
  kept hw hp ha' := hheld ▸ h.kept hw hp (ha.mp ha')
  stored hw hn v hv := hheld.trans (h.stored hw (mt ha.mpr hn) v hv)
  closing fd hw := by
    obtain ⟨d, hm, hn, hh⟩ := h.closing fd hw
    exact ⟨d, hm, hnames d fd hn, hheld.trans hh⟩
  transferring fd hw := by
    obtain ⟨d, hm, hn, ht, hh⟩ := h.transferring fd hw
    exact ⟨d, hm, hnames d fd hn, htaken d ht, hheld.trans hh⟩

end

section
variable {s t : State} {c f r : Nat}

/-- Nothing about the requests and the coroutines changes. -/
theorem Inv.same (h : Inv s) (hrequests : t.requests = s.requests)
    (hcoroutines : t.coroutines = s.coroutines)
    (hheld : ∀ r, t.custody.held (.request r) = s.custody.held (.request r))
    (hnames : ∀ (d : Nat) (n : Int), s.names[d]? = some n → t.names[d]? = some n)
    (htaken : ∀ d ∈ s.custody.taken, d ∈ t.custody.taken)
    (hkernel : Kernel t.custody t.names t.table)
    (hobjs : ∀ f, HasFd t.custody t.names f (t.objs f).fd)
    (hclosed : Closed t.closes t.custody.released)
    (htransferred : Transferred t.transfers t.custody.released) : Inv t where
  kernel := hkernel
  objs := hobjs
  bound r d hd := hrequests ▸ h.bound r d (hheld r ▸ hd)
  tracked r p hp := by
    refine (h.tracked r p (hrequests ▸ hp)).frame (hheld r) hnames htaken ?_
    simp only [Awaited, hcoroutines]
  awaits c r next hc := hrequests ▸ h.awaits c r next (hcoroutines ▸ hc)
  unique c c' r next next' hc hc' :=
    h.unique c c' r next next' (hcoroutines ▸ hc) (hcoroutines ▸ hc')
  closed := hclosed
  transferred := htransferred

/-- The coroutine `c` leaves what it awaits. -/
theorem Inv.leaves (h : Inv s) (hrequests : t.requests = s.requests)
    (hself : ∀ r next, (t.coroutines c).pc ≠ .awaits r next)
    (hother : ∀ c', c' ≠ c → t.coroutines c' = s.coroutines c')
    (hheld : ∀ r, (∀ next, (s.coroutines c).pc ≠ .awaits r next) →
      t.custody.held (.request r) = s.custody.held (.request r))
    (hleft : ∀ r next p, (s.coroutines c).pc = .awaits r next → s.requests[r]? = some p →
      Tracked t.custody t.names False r p)
    (hnames : ∀ (d : Nat) (n : Int), s.names[d]? = some n → t.names[d]? = some n)
    (htaken : ∀ d ∈ s.custody.taken, d ∈ t.custody.taken)
    (hkernel : Kernel t.custody t.names t.table)
    (hobjs : ∀ f, HasFd t.custody t.names f (t.objs f).fd)
    (hclosed : Closed t.closes t.custody.released)
    (htransferred : Transferred t.transfers t.custody.released) : Inv t := by
  have hold : ∀ c' r next, (t.coroutines c').pc = .awaits r next →
      c' ≠ c ∧ (s.coroutines c').pc = .awaits r next := by
    intro c' r next hc'
    have hne : c' ≠ c := by
      rintro rfl
      exact hself r next hc'
    rw [hother c' hne] at hc'
    exact ⟨hne, hc'⟩
  refine ⟨hkernel, hobjs, ?_, ?_, ?_, ?_, hclosed, htransferred⟩
  · intro r d hd
    rw [hrequests]
    by_cases hc : ∃ next, (s.coroutines c).pc = .awaits r next
    · obtain ⟨next, hc⟩ := hc
      obtain ⟨p, hp, _⟩ := h.awaits c r next hc
      exact (List.getElem?_eq_some_iff.mp hp).1
    · rw [hheld r fun next hn => hc ⟨next, hn⟩] at hd
      exact h.bound r d hd
  · intro r p hp
    rw [hrequests] at hp
    by_cases hc : ∃ next, (s.coroutines c).pc = .awaits r next
    · obtain ⟨next, hc⟩ := hc
      refine (hleft r next p hc hp).frame rfl (fun _ _ hd => hd) (fun _ hd => hd) ?_
      refine ⟨?_, False.elim⟩
      rintro ⟨c', next', hc'⟩
      obtain ⟨hne, hc'⟩ := hold c' r next' hc'
      exact hne (h.unique c' c r next' next hc' hc)
    · have hn : ∀ next, (s.coroutines c).pc ≠ .awaits r next := fun next hn => hc ⟨next, hn⟩
      refine (h.tracked r p hp).frame (hheld r hn) hnames htaken ?_
      constructor
      · rintro ⟨c', next, hc'⟩
        exact ⟨c', next, (hold c' r next hc').2⟩
      · rintro ⟨c', next, hc'⟩
        have hne : c' ≠ c := by
          rintro rfl
          exact hn next hc'
        exact ⟨c', next, by rw [hother c' hne, hc']⟩
  · intro c' r next hc'
    exact hrequests ▸ h.awaits c' r next (hold c' r next hc').2
  · intro c' d r next next' hc' hd
    exact h.unique c' d r next next' (hold c' r next hc').2 (hold d r next' hd).2

/-- A request whose coroutine has gone on, without a descriptor. -/
theorem Tracked.left {k : Custody.Records Holder Nat} {names : List Int} {a : Prop}
    {p : Pending} (h : Tracked k names a r p) (ho : p.sys.outcome ≠ none)
    (hs : p.work = .openPath → ∀ v, p.sys.outcome = some (.ok v) →
      k.held (.request r) = none) : Tracked k names False r p :=
  ⟨h.reach, h.answered, fun _ => ho, h.unopened, h.opened, fun _ _ hf => hf.elim,
    fun hw _ => hs hw, h.closing, h.transferring⟩

/-- The coroutine `c` may leave what it awaits, since what it has opened is not lost. -/
def MayLeave (s : State) (c : Nat) : Prop :=
  ∀ r next p, (s.coroutines c).pc = .awaits r next → s.requests[r]? = some p →
    p.sys.outcome ≠ none ∧ (p.work = .openPath → ∀ v, p.sys.outcome = some (.ok v) →
      s.custody.held (.request r) = none)

theorem inv_ends (h : Inv s) (hleaves : MayLeave s c) (f : Nat) (result : Except Error Unit) :
    Inv (s.ends c f result) := by
  refine h.leaves (c := c) rfl ?_ ?_ (fun _ _ => rfl) ?_ (fun _ _ hd => hd) (fun _ hd => hd)
    h.kernel h.objs h.closed h.transferred
  · intro r next
    simp only [State.ends, Function.update_self]
    simp
  · intro c' hne
    exact Function.update_of_ne hne ..
  · intro r next p hc hp
    obtain ⟨ho, hs⟩ := hleaves r next p hc hp
    exact (h.tracked r p hp).left ho hs

theorem tracked_new {k : Custody.Records Holder Nat} {names : List Int} {work : Work}
    {meant : Option Nat} (stopped : Bool)
    (hopen : work = .openPath → k.held (.request r) = none)
    (hclose : ∀ fd, work = .close fd → ∃ d, meant = some d ∧ names[d]? = some fd ∧
      k.held (.request r) = some d)
    (htransfer : ∀ fd, work = .transfer fd → ∃ d, meant = some d ∧ names[d]? = some fd ∧
      d ∈ k.taken ∧ k.held (.request r) = none) :
    Tracked k names True r
      { work := work, sys := { stopRequested := stopped }, meant := meant } where
  reach := .init ⟨stopped, fun _ => rfl, rfl⟩
  answered := answered_init stopped
  gone hn := absurd trivial hn
  unopened hw _ := hopen hw
  opened hw d hd := by
    rw [hopen hw] at hd
    cases hd
  kept _ hp := absurd rfl hp
  stored _ hn := absurd trivial hn
  closing := hclose
  transferring := htransfer

/-- The coroutine `c` awaits a new request, which may take over the descriptor of an
object. -/
theorem inv_await (h : Inv s) (hidle : ∀ r next, (s.coroutines c).pc ≠ .awaits r next)
    {o : Nat → Obj} {k : Custody.Records Holder Nat} {work : Work} {meant : Option Nat}
    {stopped : Bool} {next : Next}
    (hheld : ∀ r, r < s.requests.length → k.held (.request r) = s.custody.held (.request r))
    (hbound : ∀ r d, k.held (.request r) = some d → r ≤ s.requests.length)
    (htaken : k.taken = s.custody.taken) (hreleased : k.released = s.custody.released)
    (hkernel : Kernel k s.names s.table) (hobjs : ∀ f, HasFd k s.names f (o f).fd)
    (hnext : next = .store ↔ work = .openPath)
    (hnew : Tracked k s.names True s.requests.length
      { work := work, sys := { stopRequested := stopped }, meant := meant }) :
    Inv { s.await c f work meant stopped next with objs := o, custody := k } := by
  generalize ht : ({ s.await c f work meant stopped next with objs := o, custody := k } : State)
    = t
  have hrequests : t.requests = s.requests ++
      [{ work := work, sys := { stopRequested := stopped }, meant := meant }] := by
    rw [← ht]
    rfl
  have hpc : ∀ c' r next', (t.coroutines c').pc = .awaits r next' →
      c' = c ∧ r = s.requests.length ∧ next' = next ∨
        c' ≠ c ∧ r < s.requests.length ∧ (s.coroutines c').pc = .awaits r next' := by
    intro c' r next' hc'
    rw [← ht] at hc'
    by_cases hne : c' = c
    · subst hne
      simp only [State.await, Function.update_self, Pc.awaits.injEq] at hc'
      exact .inl ⟨rfl, hc'.1.symm, hc'.2.symm⟩
    · simp only [State.await, Function.update_of_ne hne] at hc'
      obtain ⟨p, hp, _⟩ := h.awaits c' r next' hc'
      exact .inr ⟨hne, (List.getElem?_eq_some_iff.mp hp).1, hc'⟩
  have hawaited : ∀ r, r < s.requests.length → (Awaited t r ↔ Awaited s r) := by
    intro r hr
    constructor
    · rintro ⟨c', next', hc'⟩
      rcases hpc c' r next' hc' with ⟨_, hlen, _⟩ | ⟨_, _, hc'⟩
      · omega
      · exact ⟨c', next', hc'⟩
    · rintro ⟨c', next', hc'⟩
      have hne : c' ≠ c := by
        rintro rfl
        exact hidle r next' hc'
      refine ⟨c', next', ?_⟩
      rw [← ht]
      simp only [State.await, Function.update_of_ne hne, hc']
  have hawaits : Awaited t s.requests.length :=
    ⟨c, next, by rw [← ht]; simp only [State.await, Function.update_self]⟩
  refine ⟨?_, ?_, ?_, ?_, ?_, ?_, ?_, ?_⟩
  · rw [← ht]
    exact hkernel
  · rw [← ht]
    exact hobjs
  · intro r d hd
    rw [← ht] at hd
    rw [hrequests, List.length_append, List.length_singleton]
    exact Nat.lt_succ_of_le (hbound r d hd)
  · intro r p hp
    rw [hrequests] at hp
    have hcustody : t.custody = k ∧ t.names = s.names := by rw [← ht]; exact ⟨rfl, rfl⟩
    rw [hcustody.1, hcustody.2]
    by_cases hr : r < s.requests.length
    · rw [List.getElem?_append_left hr] at hp
      refine (h.tracked r p hp).frame (hheld r hr) (fun _ _ hd => hd) ?_ (hawaited r hr)
      intro d hd
      exact htaken ▸ hd
    · have hlen : r = s.requests.length := by
        have := (List.getElem?_eq_some_iff.mp hp).1
        rw [List.length_append, List.length_singleton] at this
        omega
      subst hlen
      rw [List.getElem?_append_right (Nat.le_refl _)] at hp
      simp only [Nat.sub_self, List.getElem?_cons_zero, Option.some.injEq] at hp
      subst hp
      exact hnew.frame rfl (fun _ _ hd => hd) (fun _ hd => hd) ⟨fun _ => trivial, fun _ => hawaits⟩
  · intro c' r next' hc'
    rw [hrequests]
    rcases hpc c' r next' hc' with ⟨_, rfl, rfl⟩ | ⟨_, hr, hc'⟩
    · exact ⟨{ work := work, sys := { stopRequested := stopped }, meant := meant }, by simp, hnext⟩
    · obtain ⟨p, hp, hw⟩ := h.awaits c' r next' hc'
      exact ⟨p, by rw [List.getElem?_append_left hr, hp], hw⟩
  · intro c' d r next₁ next₂ hc' hd
    rcases hpc c' r next₁ hc' with ⟨rfl, hlen, _⟩ | ⟨_, hr, hc'⟩ <;>
      rcases hpc d r next₂ hd with ⟨rfl, hlen', _⟩ | ⟨_, hr', hd⟩
    · rfl
    · omega
    · omega
    · exact h.unique c' d r next₁ next₂ hc' hd
  · rw [← ht]
    exact hreleased ▸ h.closed
  · rw [← ht]
    exact hreleased ▸ h.transferred

theorem Inv.fresh_request (h : Inv s) :
    s.custody.held (.request s.requests.length) = none := by
  cases hd : s.custody.held (.request s.requests.length) with
  | none => rfl
  | some d => exact absurd (h.bound _ d hd) (Nat.lt_irrefl _)

theorem Inv.held_of_open (h : Inv s) (hopen : (s.objs f).isOpen = true) :
    ∃ d, s.custody.held (.file f) = some d ∧ s.names[d]? = some (s.objs f).fd ∧
      d ∈ s.custody.taken := by
  have hfd : 0 ≤ (s.objs f).fd := of_decide_eq_true hopen
  cases hd : s.custody.held (.file f) with
  | none =>
    have := (h.objs f).empty hd
    omega
  | some d => exact ⟨d, rfl, (h.objs f).held d hd, (h.kernel.sound.held hd).1⟩

theorem inv_awaitOpen (h : Inv s) (hidle : ∀ r next, (s.coroutines c).pc ≠ .awaits r next)
    (f : Nat) (stopped : Bool) : Inv (s.await c f .openPath none stopped .store) :=
  inv_await h hidle (fun _ _ => rfl) (fun r d hd => Nat.le_of_lt (h.bound r d hd)) rfl rfl
    h.kernel h.objs (by simp)
    (tracked_new stopped (fun _ => h.fresh_request) (by simp) (by simp))

theorem inv_awaitTransfer (h : Inv s) (hidle : ∀ r next, (s.coroutines c).pc ≠ .awaits r next)
    (hopen : (s.objs f).isOpen = true) (stopped : Bool) :
    Inv (s.await c f (.transfer (s.objs f).fd) (s.custody.held (.file f)) stopped .leave) := by
  obtain ⟨d, hd, hname, htaken⟩ := h.held_of_open hopen
  refine inv_await h hidle (fun _ _ => rfl) (fun r d hd => Nat.le_of_lt (h.bound r d hd)) rfl rfl
    h.kernel h.objs (by simp) (tracked_new stopped (by simp) (by simp) ?_)
  intro fd hfd
  cases hfd
  exact ⟨d, hd, hname, htaken, h.fresh_request⟩

theorem inv_awaitClose (h : Inv s) (hidle : ∀ r next, (s.coroutines c).pc ≠ .awaits r next)
    (hopen : (s.objs f).isOpen = true) (stopped : Bool) {next : Next} (hnext : next ≠ .store) :
    Inv (s.awaitClose c f stopped next) := by
  obtain ⟨d, hd, hname, htaken⟩ := h.held_of_open hopen
  have hne : Holder.file f ≠ Holder.request s.requests.length := by simp
  refine inv_await h hidle ?_ ?_ rfl rfl
    (kernel_move h.kernel hne h.fresh_request (by simp)) ?_ (by simp [hnext])
    (tracked_new stopped (by simp) ?_ (by simp))
  · intro r hr
    rw [move_held_eq hne, if_neg (by simp), if_neg (by simp; omega)]
  · intro r e he
    rw [move_held_eq hne, if_neg (by simp)] at he
    split at he
    · rename_i hr
      cases hr
      exact Nat.le_refl _
    · exact Nat.le_of_lt (h.bound r e he)
  · intro g
    by_cases hg : g = f
    · subst hg
      refine ⟨?_, ?_⟩
      · intro e he
        rw [move_held_eq hne, if_pos rfl] at he
        cases he
      · intro _
        simp [setFd_fd]
    · have hgf : Holder.file g ≠ Holder.file f := by simp [hg]
      have hheld : (Custody.move s.custody (.file f) (.request s.requests.length)).held (.file g) =
          s.custody.held (.file g) := by
        rw [move_held_eq hne, if_neg hgf, if_neg (by simp)]
      refine ⟨?_, ?_⟩
      · intro e he
        rw [hheld] at he
        rw [setFd_fd, if_neg hg]
        exact (h.objs g).held e he
      · intro he
        rw [hheld] at he
        rw [setFd_fd, if_neg hg]
        exact (h.objs g).empty he
  · intro fd hfd
    cases hfd
    exact ⟨d, hd, hname, by rw [move_held_eq hne, if_neg (by simp), if_pos rfl, hd]⟩

/-! ## Objects that lose their descriptor -/

/-- What `forget` leaves. -/
structure Forgets (s t : State) (f : Nat) : Prop where
  requests : t.requests = s.requests
  coroutines : t.coroutines = s.coroutines
  objs : t.objs = s.objs
  names : t.names = s.names
  table : t.table = s.table
  taken : t.custody.taken = s.custody.taken
  released : t.custody.released = s.custody.released
  closes : t.closes = s.closes
  transfers : t.transfers = s.transfers
  request : ∀ r, t.custody.held (.request r) = s.custody.held (.request r)
  file : ∀ g, t.custody.held (.file g) = if g = f then none else s.custody.held (.file g)

theorem forgets (s : State) (f : Nat) (why : Loss) : Forgets s (s.forget f why) f := by
  unfold State.forget
  cases hd : s.custody.held (.file f) with
  | none =>
    refine ⟨rfl, rfl, rfl, rfl, rfl, rfl, rfl, rfl, rfl, fun _ => rfl, ?_⟩
    intro g
    by_cases hg : g = f
    · rw [if_pos hg, hg, hd]
    · rw [if_neg hg]
  | some d =>
    have hne : Holder.file f ≠ Holder.lost why d := by simp
    refine ⟨rfl, rfl, rfl, rfl, rfl, rfl, rfl, rfl, rfl, ?_, ?_⟩
    · intro r
      dsimp only
      rw [move_held_eq hne, if_neg (by simp), if_neg (by simp)]
    · intro g
      dsimp only
      rw [move_held_eq hne]
      by_cases hg : g = f
      · rw [if_pos (by rw [hg]), if_pos hg]
      · rw [if_neg (by simp [hg]), if_neg (by simp), if_neg hg]

theorem kernel_forget (h : Kernel s.custody s.names s.table) (f : Nat) (why : Loss) :
    Kernel (s.forget f why).custody s.names s.table := by
  unfold State.forget
  cases hd : s.custody.held (.file f) with
  | none => exact h
  | some d =>
    refine kernel_move h (by simp) ?_ ?_
    · -- whoever has been lost has no other holder
      cases hl : s.custody.held (.lost why d) with
      | none => rfl
      | some d' =>
        have := h.lost why d d' hl
        subst this
        cases h.sound.unique hd hl
    · intro why' e d' he hd'
      cases he
      rw [hd] at hd'
      cases hd'
      rfl

/-- An object forgets its descriptor, and gets a value that is none. -/
theorem inv_forget (h : Inv s) (f : Nat) (why : Loss) {o : Nat → Obj} (hnone : (o f).fd < 0)
    (hother : ∀ g, g ≠ f → (o g).fd = (s.objs g).fd) :
    Inv { s.forget f why with objs := o } := by
  have hf := forgets s f why
  refine h.same hf.requests hf.coroutines hf.request ?_ ?_ ?_ ?_ ?_ ?_
  · intro d n hd
    exact hf.names ▸ hd
  · intro d hd
    exact hf.taken ▸ hd
  · dsimp only
    rw [hf.names, hf.table]
    exact kernel_forget h.kernel f why
  · intro g
    dsimp only
    rw [hf.names]
    by_cases hg : g = f
    · subst hg
      refine ⟨?_, fun _ => hnone⟩
      intro d hd
      rw [hf.file, if_pos rfl] at hd
      cases hd
    · rw [hother g hg]
      have hheld := hf.file g
      rw [if_neg hg] at hheld
      exact ⟨fun d hd => (h.objs g).held d (hheld ▸ hd), fun hd => (h.objs g).empty (hheld ▸ hd)⟩
  · dsimp only
    rw [hf.closes, hf.released]
    exact h.closed
  · dsimp only
    rw [hf.transfers, hf.released]
    exact h.transferred

/-- `close_sync_noexcept` closes the descriptor that the object has. -/
theorem inv_closeSync (h : Inv s) (f : Nat) (refused : Bool) : Inv (s.closeSync f refused) := by
  unfold State.closeSync
  dsimp only
  split
  case isFalse => exact h
  rename_i hopen
  have hopen : (s.objs f).isOpen = true := (Bool.and_eq_true _ _ ▸ hopen).2
  split
  · have hf := forgets s f .refused
    refine inv_forget h f .refused ?_ ?_
    · rw [Function.update_self]
      show (-1 : Int) < 0
      decide
    · intro g hg
      rw [Function.update_of_ne hg, hf.objs]
  · obtain ⟨d, hd, hname, htaken⟩ := h.held_of_open hopen
    obtain ⟨hkernel, htable⟩ := kernel_release h.kernel hd hname
    have hheld : ∀ k, (Custody.release s.custody (.file f)).held k =
        if k = .file f then none else s.custody.held k := fun k => Custody.release_held ..
    have hreleased : (Custody.release s.custody (.file f)).released =
        s.custody.released ++ [d] := by rw [Custody.release_some hd]
    have hsame : (Custody.release s.custody (.file f)).taken = s.custody.taken := by
      rw [Custody.release_some hd]
    refine h.same rfl rfl ?_ (fun _ _ hd => hd) ?_ hkernel ?_ ?_ ?_
    · intro r
      exact (hheld (.request r)).trans (if_neg (by simp))
    · intro e he
      exact hsame ▸ he
    · intro g
      show HasFd (Custody.release s.custody (.file f)) s.names g ((s.setFd f (-1)).objs g).fd
      rw [setFd_fd]
      by_cases hg : g = f
      · rw [if_pos hg]
        refine ⟨?_, fun _ => by decide⟩
        intro e he
        rw [hheld, if_pos (by rw [hg])] at he
        cases he
      · rw [if_neg hg]
        have hother : (Custody.release s.custody (.file f)).held (.file g) =
            s.custody.held (.file g) := by rw [hheld, if_neg (by simp [hg])]
        exact ⟨fun e he => (h.objs g).held e (hother ▸ he),
          fun he => (h.objs g).empty (hother ▸ he)⟩
    · dsimp only
      rw [hreleased, hd, htable]
      exact closed_cons h.closed d
    · dsimp only
      rw [hreleased]
      exact transferred_append h.transferred d

theorem inv_destroy (h : Inv s) (f : Nat) (refused : Bool) {o : Obj} (ho : o.fd < 0)
    (why : Loss) : Inv { (s.closeSync f refused).forget f why with
      objs := Function.update ((s.closeSync f refused).forget f why).objs f o } := by
  refine inv_forget (inv_closeSync h f refused) f why ?_ ?_
  · rw [Function.update_self]
    exact ho
  · intro g hg
    rw [Function.update_of_ne hg, (forgets _ f why).objs]

/-- The object `g` takes over what the object `f` has. -/
theorem inv_move (h : Inv s) {g : Nat} (hne : f ≠ g) (hnone : s.custody.held (.file g) = none) :
    Inv { s with
      objs := Function.update (Function.update s.objs g (s.objs f)) f
        { runtime := false, fd := -1 }
      custody := Custody.move s.custody (.file f) (.file g) } := by
  have hfg : Holder.file f ≠ Holder.file g := by simp [hne]
  refine h.same rfl rfl ?_ (fun _ _ hd => hd) (fun _ hd => hd)
    (kernel_move h.kernel hfg hnone (by simp)) ?_ h.closed h.transferred
  · intro r
    dsimp only
    rw [move_held_eq hfg, if_neg (by simp), if_neg (by simp)]
  · intro k
    dsimp only
    by_cases hkf : k = f
    · subst hkf
      rw [Function.update_self]
      refine ⟨?_, fun _ => by decide⟩
      intro d hd
      rw [move_held_eq hfg, if_pos rfl] at hd
      cases hd
    · rw [Function.update_of_ne hkf]
      by_cases hkg : k = g
      · subst hkg
        rw [Function.update_self]
        have hheld : (Custody.move s.custody (.file f) (.file k)).held (.file k) =
            s.custody.held (.file f) := by
          rw [move_held_eq hfg, if_neg (by simp [hkf]), if_pos rfl]
        exact ⟨fun d hd => (h.objs f).held d (hheld ▸ hd), fun hd => (h.objs f).empty (hheld ▸ hd)⟩
      · rw [Function.update_of_ne hkg]
        have hheld : (Custody.move s.custody (.file f) (.file g)).held (.file k) =
            s.custody.held (.file k) := by
          rw [move_held_eq hfg, if_neg (by simp [hkf]), if_neg (by simp [hkg])]
        exact ⟨fun d hd => (h.objs k).held d (hheld ▸ hd), fun hd => (h.objs k).empty (hheld ▸ hd)⟩

/-! ## Objects that get a descriptor -/

/-- The object has forgotten what it had, and the system makes a descriptor for it. -/
theorem inv_duplicate (h : Inv s) (f : Nat) {fd : Int} (hpos : 0 ≤ fd)
    (hfree : s.table fd = none) :
    Inv (((s.forget f .overwritten).handOut (.file f) fd).setFd f fd) := by
  have hf := forgets s f .overwritten
  have hkernel := kernel_forget h.kernel f .overwritten
  generalize s.forget f .overwritten = u at hf hkernel
  rw [← hf.names, ← hf.table] at hkernel
  have hnone : u.custody.held (.file f) = none := by rw [hf.file, if_pos rfl]
  refine h.same hf.requests hf.coroutines ?_ ?_ ?_
    (kernel_take hkernel (hf.table ▸ hfree) hpos hnone (by simp)) ?_ ?_ ?_
  · intro r
    refine (take_held_eq _).trans ?_
    rw [if_neg (by simp), hf.request]
  · intro d n hd
    show (u.names ++ [fd])[d]? = some n
    rw [hf.names, List.getElem?_append_left (List.getElem?_eq_some_iff.mp hd).1, hd]
  · intro d hd
    exact List.mem_append_left _ (hf.taken ▸ hd)
  · intro g
    show HasFd (Custody.take u.custody (.file f) u.names.length) (u.names ++ [fd]) g
      (((u.handOut (.file f) fd).setFd f fd).objs g).fd
    rw [setFd_fd]
    by_cases hg : g = f
    · rw [if_pos hg, hg]
      refine ⟨?_, ?_⟩
      · intro d hd
        rw [take_held_eq, if_pos rfl] at hd
        cases hd
        simp
      · intro hd
        rw [take_held_eq, if_pos rfl] at hd
        cases hd
    · have hheld : (Custody.take u.custody (.file f) u.names.length).held (.file g) =
          s.custody.held (.file g) := by
        rw [take_held_eq, if_neg (by simp [hg]), hf.file, if_neg hg]
      rw [if_neg hg]
      show HasFd _ _ g (u.objs g).fd
      rw [hf.names] at hheld
      rw [hf.objs, hf.names]
      refine ⟨?_, fun hd => (h.objs g).empty (hheld ▸ hd)⟩
      intro d hd
      have hname := (h.objs g).held d (hheld ▸ hd)
      rw [List.getElem?_append_left (List.getElem?_eq_some_iff.mp hname).1, hname]
  · show Closed u.closes u.custody.released
    rw [hf.closes, hf.released]
    exact h.closed
  · show Transferred u.transfers u.custody.released
    rw [hf.transfers, hf.released]
    exact h.transferred

/-- The object forgets what it had, and gets the descriptor that was opened for it. -/
theorem inv_store (h : Inv s) {p : Pending} {fd : Int} {d : Nat}
    (hc : (s.coroutines c).pc = .awaits r .store) (hp : s.requests[r]? = some p)
    (ho : p.sys.outcome ≠ none) (hd : s.custody.held (.request r) = some d)
    (hname : s.names[d]? = some fd) : Inv (s.store c f r fd) := by
  have hf := forgets s f .overwritten
  have hkernel := kernel_forget h.kernel f .overwritten
  unfold State.store
  generalize s.forget f .overwritten = u at hf hkernel
  have hne : Holder.request r ≠ Holder.file f := by simp
  have hnone : u.custody.held (.file f) = none := by rw [hf.file, if_pos rfl]
  have hkernel := kernel_move hkernel hne hnone (by simp)
  rw [← hf.names, ← hf.table] at hkernel
  have hwork : p.work = .openPath := by
    obtain ⟨p', hp', hw⟩ := h.awaits c r .store hc
    cases hp.symm.trans hp'
    exact hw.mp rfl
  have hpc : ∀ r' next, (s.coroutines c).pc = .awaits r' next → r' = r := by
    intro r' next hc'
    rw [hc] at hc'
    cases hc'
    rfl
  refine h.leaves (c := c) hf.requests ?_ ?_ ?_ ?_ ?_ ?_ hkernel ?_ ?_ ?_
  · intro r next
    simp only [State.ends, Function.update_self]
    simp
  · intro c' hc'
    exact (Function.update_of_ne hc' ..).trans (congrFun hf.coroutines c')
  · intro r' hr'
    refine (move_held_eq hne _).trans ?_
    have hrr : r' ≠ r := by
      rintro rfl
      exact hr' .store hc
    rw [if_neg (by simp [hrr]), if_neg (by simp)]
    exact hf.request r'
  · intro r' next p' hc' hp'
    cases hpc r' next hc'
    cases hp.symm.trans hp'
    have ht := h.tracked r p hp
    have hgone : (Custody.move u.custody (.request r) (.file f)).held (.request r) = none := by
      rw [move_held_eq hne, if_pos rfl]
    refine ⟨ht.reach, ht.answered, fun _ => ho, fun _ _ => hgone, ?_, fun _ _ hf => hf.elim,
      fun _ _ _ _ => hgone, ?_, ?_⟩
    · intro _ e he
      have := hgone.symm.trans he
      cases this
    · intro fd hw
      rw [hwork] at hw
      cases hw
    · intro fd hw
      rw [hwork] at hw
      cases hw
  · intro e n he
    show u.names[e]? = some n
    rw [hf.names, he]
  · intro e he
    exact hf.taken ▸ he
  · intro g
    show HasFd (Custody.move u.custody (.request r) (.file f)) u.names g
      ((u.setFd f fd).objs g).fd
    rw [setFd_fd, hf.names]
    by_cases hg : g = f
    · have hheld : (Custody.move u.custody (.request r) (.file f)).held (.file g) = some d := by
        rw [move_held_eq hne, if_neg (by simp), if_pos (by rw [hg]), hf.request, hd]
      rw [if_pos hg]
      refine ⟨?_, ?_⟩
      · intro e he
        cases hheld.symm.trans he
        exact hname
      · intro he
        cases hheld.symm.trans he
    · have hheld : (Custody.move u.custody (.request r) (.file f)).held (.file g) =
          s.custody.held (.file g) := by
        rw [move_held_eq hne, if_neg (by simp), if_neg (by simp [hg]), hf.file, if_neg hg]
      rw [if_neg hg, hf.objs]
      exact ⟨fun e he => (h.objs g).held e (hheld ▸ he), fun he => (h.objs g).empty (hheld ▸ he)⟩
  · show Closed u.closes u.custody.released
    rw [hf.closes, hf.released]
    exact h.closed
  · show Transferred u.transfers u.custody.released
    rw [hf.transfers, hf.released]
    exact h.transferred

end

end LuvCoro.Fs.Descriptors
