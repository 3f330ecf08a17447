import LuvCoro.Request.System
import Mathlib.Logic.Function.Basic

/-! # `dns::resolve` and `dns::reverse_lookup`

Translated from `src/dns.cpp` and, for `drain`, `src/runtime.cpp`, for any number of
calls. Nothing catches what a closure or a callback throws: it leaves `drain` with the
closures that are left in `local`, or the callback and libuv, and then `uv_run`. -/
namespace LuvCoro.Dns

open Request (UV_ECANCELED)
open Transition

abbrev CallId := Nat

inductive Error
  | operationCancelled
  | uvError (code : Int) (op : String)
  | runtimeError (what : String)
  deriving DecidableEq

structure IpEndpoint where
  address : String := ""
  port : Int := 0
  ipv6 : Bool := false
  deriving DecidableEq

/-! ## Addresses -/

def AF_INET : Int := 2
def AF_INET6 : Int := 10

/-- `family` is `sa_family`; the port is in the order of the host. -/
structure Sockaddr where
  family : Int
  address : Nat
  port : Int
  deriving DecidableEq

/-- The functions of libuv that convert addresses: `uv_ip4_addr`, `uv_ip6_addr`,
`uv_ip4_name` and `uv_ip6_name`, each with its error code. -/
structure Libuv where
  ip4Addr : String → Int → Except Int Sockaddr
  ip6Addr : String → Int → Except Int Sockaddr
  ip4Name : Sockaddr → Except Int String
  ip6Name : Sockaddr → Except Int String

/-- `sockaddr_to_endpoint` -/
def sockaddrToEndpoint (uv : Libuv) (addr : Sockaddr) : Except Error IpEndpoint :=
  if addr.family = AF_INET then
    match uv.ip4Name addr with
    | .error rc => .error (.uvError rc "uv_ip4_name")
    | .ok name => .ok { address := name, port := addr.port, ipv6 := false }
  else if addr.family = AF_INET6 then
    match uv.ip6Name addr with
    | .error rc => .error (.uvError rc "uv_ip6_name")
    | .ok name => .ok { address := name, port := addr.port, ipv6 := true }
  else .error (.runtimeError "unsupported address family")

/-- `endpoint_to_sockaddr` -/
def endpointToSockaddr (uv : Libuv) (endpoint : IpEndpoint) : Except Error Sockaddr :=
  match uv.ip4Addr endpoint.address endpoint.port with
  | .ok addr => .ok addr
  | .error _ =>
    match uv.ip6Addr endpoint.address endpoint.port with
    | .ok addr => .ok addr
    | .error rc => .error (.uvError rc "uv_ip*_addr")

/-! ## One call -/

inductive Query
  | resolve (host service : String) (family socktype flags : Int)
  | reverseLookup (endpoint : IpEndpoint) (flags : Int)

/-- The name that an error of the call has. -/
def Query.op : Query → String
  | resolve .. => "uv_getaddrinfo"
  | reverseLookup .. => "uv_getnameinfo"

inductive Result
  | none
  | endpoints (results : List IpEndpoint)
  | name (host service : String)
  deriving DecidableEq

inductive Flight
  | idle
  | queued
  | cancelled
  | delivered
  deriving DecidableEq

/-- The state of a call; `posted` is whether `await_suspend` has come to its end, `stale`
whether it has used its awaiter after the call was over, and `answers` what the coroutine
has gone on with. -/
structure Op where
  query : Query
  posted : Bool := false
  stale : Bool := false
  stopCallback : Bool := false
  completed : Bool := false
  status : Int := 0
  cancelRequested : Bool := false
  started : Bool := false
  result : Result := .none
  flight : Flight := .idle
  answers : List (Except Error Result) := []

namespace Op

def awaitResume (o : Op) : Except Error Result :=
  if o.status = UV_ECANCELED ∨ o.cancelRequested ∧ o.status = 0 then .error .operationCancelled
  else if o.status < 0 then .error (.uvError o.status o.query.op)
  else .ok o.result

def complete (o : Op) : Op :=
  if o.completed then o
  else { o with
    completed := true, stopCallback := false, answers := o.answers ++ [o.awaitResume] }

/-- The start of the request, with what libuv returns. -/
def start (o : Op) (rc : Int) : Op :=
  let o := { o with started := true }
  if rc < 0 then { o with status := rc }.complete else { o with flight := .queued }

/-- The closure of the stop callback, with what `uv_cancel` returns. -/
def cancel (o : Op) (rc : Int) : Op :=
  if o.completed then o
  else
    let o := { o with cancelRequested := true }
    if !o.started then { o with status := UV_ECANCELED }.complete
    else
      let flight := if rc = 0 ∧ o.flight = .queued then .cancelled else o.flight
      let o := { o with flight }
      if Request.Sys.GivesUp rc then { o with status := UV_ECANCELED }.complete else o

end Op

/-! ## The loop thread -/

inductive Job
  | start (i : CallId)
  | cancel (i : CallId)
  | other (k : Nat)
  deriving DecidableEq

/-- `batch` is `local` while `drain` runs; `escaped` is what nothing has caught. -/
structure State where
  op : CallId → Option Op := fun _ => none
  queue : List Job := []
  batch : Option (List Job) := none
  pushed : List Job := []
  ran : List Job := []
  escaped : Option Error := none

/-- What a callback of libuv is called with. -/
structure Callback where
  status : Int := 0
  addresses : List Sockaddr := []
  hostname : Option String := none
  service : Option String := none

namespace State

def put (s : State) (i : CallId) (o : Op) : State :=
  { s with op := Function.update s.op i (some o) }

def post (s : State) (j : Job) : State :=
  { s with queue := s.queue ++ [j], pushed := s.pushed ++ [j] }

def escape (s : State) (e : Error) : State := { s with batch := none, escaped := some e }

/-- The closure that starts a request. -/
def runStart (uv : Libuv) (s : State) (i : CallId) (o : Op) (rc : Int) : State :=
  if o.completed then s
  else
    match o.query with
    | .reverseLookup endpoint _ =>
      match endpointToSockaddr uv endpoint with
      | .error e => s.escape e
      | .ok _ => s.put i (o.start rc)
    | .resolve .. => s.put i (o.start rc)

def runJob (uv : Libuv) (s : State) (rc : Int) : Job → State
  | .start i =>
    match s.op i with
    | some o => s.runStart uv i o rc
    | none => s
  | .cancel i =>
    match s.op i with
    | some o => s.put i (o.cancel rc)
    | none => s
  | .other _ => s

/-- The callback of a request. -/
def callback (uv : Libuv) (s : State) (i : CallId) (o : Op) (a : Callback) : State :=
  let o := { o with flight := .delivered, status := a.status }
  match o.query with
  | .resolve .. =>
    if a.status = 0 then
      match a.addresses.mapM (sockaddrToEndpoint uv) with
      | .error e => s.escape e
      | .ok results => s.put i { o with result := .endpoints results }.complete
    else s.put i o.complete
  | .reverseLookup .. =>
    if a.status = 0 then
      s.put i { o with result := .name (a.hostname.getD "") (a.service.getD "") }.complete
    else s.put i o.complete

end State

/-! ## The system -/

/-- `call` goes up to the post of the closure, which is `post`; the stop callback may
run before. -/
inductive Label
  | call (i : CallId) (query : Query) (stopped stopPossible : Bool)
  | post (i : CallId)
  | stop (i : CallId)
  | other (k : Nat)
  | swap
  | runNext (rc : Int)
  | endDrain
  | callback (i : CallId) (a : Callback)

def stepCall (s : State) (i : CallId) (query : Query) (stopped stopPossible : Bool) : State :=
  if stopped then
    let o : Op := { query, cancelRequested := true, status := UV_ECANCELED }
    s.put i { o with posted := true, completed := true, answers := [o.awaitResume] }
  else s.put i { query, stopCallback := stopPossible }

/-- Once something has escaped, the process is gone. -/
def step (uv : Libuv) (s : State) (l : Label) : Option State :=
  if s.escaped.isSome then none
  else
    match l with
    | .call i query stopped stopPossible =>
      if s.op i = none then some (stepCall s i query stopped stopPossible) else none
    | .post i =>
      (s.op i).bind fun o =>
        if o.posted then none
        else some ((s.put i { o with posted := true, stale := o.completed }).post (.start i))
    | .stop i =>
      (s.op i).bind fun o =>
        if o.stopCallback then some ((s.put i { o with stopCallback := false }).post (.cancel i))
        else none
    | .other k => some (s.post (.other k))
    | .swap => if s.batch = none then some { s with queue := [], batch := some s.queue } else none
    | .runNext rc =>
      match s.batch with
      | some (j :: rest) => some ({ s with batch := some rest, ran := s.ran ++ [j] }.runJob uv rc j)
      | _ => none
    | .endDrain => if s.batch = some [] then some { s with batch := none } else none
    | .callback i a =>
      (s.op i).bind fun o =>
        if s.batch = none ∧ (o.flight = .queued ∨ o.flight = .cancelled ∧ a.status < 0) then
          some (s.callback uv i o a)
        else none

def system (uv : Libuv) : System State Label where
  init s := s = {}
  step := step uv

/-! ## What is promised -/

/-- The closures in `local`. -/
def State.localQueue (s : State) : List Job := s.batch.getD []

/-- Nothing has escaped, the closures run in the order in which they were pushed, no
call has two answers, and one without has its closure or its request on the way. -/
structure Sound (s : State) : Prop where
  alive : s.escaped = none
  fifo : s.pushed = s.ran ++ s.localQueue ++ s.queue
  once : ∀ i o, s.op i = some o → o.answers.length ≤ 1
  pending : ∀ i o, s.op i = some o → o.answers = [] →
    o.posted = false ∨ .start i ∈ s.localQueue ++ s.queue ∨ o.flight = .queued ∨
      o.flight = .cancelled

/-- The address of a lookup is one when its closure runs, unless the call is over; and
the results of `resolve` can be named. -/
def Good (uv : Libuv) (s : State) : Label → Prop
  | .runNext _ => ∀ i rest o endpoint flags, s.batch = some (.start i :: rest) → s.op i = some o →
      o.query = .reverseLookup endpoint flags → o.completed = false →
      ∃ addr, endpointToSockaddr uv endpoint = .ok addr
  | .callback i a => ∀ o host service family socktype flags, s.op i = some o →
      o.query = .resolve host service family socktype flags → a.status = 0 →
      ∀ addr ∈ a.addresses, ∃ endpoint, sockaddrToEndpoint uv addr = .ok endpoint
  | _ => True

/-! ## One call -/

variable {uv : Libuv} {s t : State} {i : CallId} {o : Op} {jobs : List Job}

/-- A call that is over has one answer, and one that is not is on its way to it. -/
structure Op.Held (i : CallId) (jobs : List Job) (o : Op) : Prop where
  ended : o.completed = true → o.answers.length = 1
  waits : o.completed = false → o.answers = [] ∧
    (o.posted = false ∨ .start i ∈ jobs ∨ o.flight = .queued ∨ o.flight = .cancelled)

/-- Whatever else is set, completing gives the one answer. -/
theorem Op.held_complete (h : o.completed = true → o.answers.length = 1)
    (ho : o.completed = false → o.answers = []) : o.complete.Held i jobs := by
  unfold Op.complete
  cases hc : o.completed with
  | true =>
    rw [if_pos rfl]
    exact ⟨fun _ => h hc, fun hn => absurd (hc.symm.trans hn) (by simp)⟩
  | false =>
    rw [if_neg (by simp), ho hc]
    exact ⟨fun _ => rfl, fun hn => absurd hn (by simp)⟩

theorem Op.Held.mono {jobs' : List Job} (h : o.Held i jobs)
    (hj : .start i ∈ jobs → .start i ∈ jobs') : o.Held i jobs' where
  ended := h.ended
  waits hc := by
    obtain ⟨ha, hp⟩ := h.waits hc
    exact ⟨ha, hp.imp_right fun hp => hp.imp_left hj⟩

theorem Op.held_start (h : o.Held i jobs) (hc : o.completed = false) (rc : Int) {jobs' : List Job} :
    (o.start rc).Held i jobs' := by
  have hno : o.completed = true → o.answers.length = 1 := h.ended
  have hans : o.completed = false → o.answers = [] := fun hc => (h.waits hc).1
  unfold Op.start
  dsimp only
  split
  · exact Op.held_complete hno hans
  · refine ⟨hno, fun _ => ⟨hans hc, .inr (.inr (.inl rfl))⟩⟩

theorem Op.held_cancel (h : o.Held i jobs) (rc : Int) : (o.cancel rc).Held i jobs := by
  have hno : o.completed = true → o.answers.length = 1 := h.ended
  have hans : o.completed = false → o.answers = [] := fun hc => (h.waits hc).1
  unfold Op.cancel
  cases hc : o.completed with
  | true =>
    rw [if_pos rfl]
    exact h
  | false =>
    rw [if_neg (by simp)]
    dsimp only
    split
    · exact Op.held_complete (by rw [hc] at hno; exact hno) fun _ => hans hc
    · split
      · exact Op.held_complete (by rw [hc] at hno; exact hno) fun _ => hans hc
      · refine ⟨fun hn => absurd hn (by simp), fun _ => ⟨hans hc, ?_⟩⟩
        rcases (h.waits hc).2 with hp | hs | hq | hq
        · exact .inl hp
        · exact .inr (.inl hs)
        · rw [hq]
          split
          · exact .inr (.inr (.inr rfl))
          · exact .inr (.inr (.inl rfl))
        · rw [hq]
          exact .inr (.inr (.inr (ite_self _)))

/-- The callback, with whatever result. -/
theorem Op.held_callback (h : o.Held i jobs) (status : Int) (result : Result) :
    ({ o with flight := .delivered, status, result } : Op).complete.Held i jobs :=
  Op.held_complete h.ended fun hc => (h.waits hc).1

theorem mapM_ok_iff {α β : Type} {f : α → Except Error β} {xs : List α} :
    (∃ ys, xs.mapM f = .ok ys) ↔ ∀ x ∈ xs, ∃ y, f x = .ok y := by
  induction xs with
  | nil => exact ⟨fun _ x hx => absurd hx List.not_mem_nil, fun _ => ⟨[], rfl⟩⟩
  | cons x xs ih =>
    rw [List.mapM_cons]
    constructor
    · intro h
      obtain ⟨ys, h⟩ := h
      cases hx : f x with
      | error e =>
        rw [hx] at h
        cases h
      | ok y =>
        rw [hx] at h
        cases hxs : xs.mapM f with
        | error e =>
          change (xs.mapM f >>= _) = _ at h
          rw [hxs] at h
          cases h
        | ok zs =>
          intro a ha
          rw [List.mem_cons] at ha
          obtain rfl | ha := ha
          · exact ⟨y, hx⟩
          · exact ih.mp ⟨zs, hxs⟩ a ha
    · intro h
      obtain ⟨y, hy⟩ := h x List.mem_cons_self
      obtain ⟨ys, hys⟩ := ih.mpr fun a ha => h a (List.mem_cons_of_mem x ha)
      rw [hy]
      change ∃ zs, (xs.mapM f >>= _) = .ok zs
      rw [hys]
      exact ⟨_, rfl⟩

/-! ## The loop -/

structure Kept (s : State) : Prop where
  alive : s.escaped = none
  fifo : s.pushed = s.ran ++ s.localQueue ++ s.queue
  held : ∀ i o, s.op i = some o → o.Held i (s.localQueue ++ s.queue)

theorem Kept.sound (h : Kept s) : Sound s where
  alive := h.alive
  fifo := h.fifo
  once i o ho := by
    have hh := h.held i o ho
    cases hc : o.completed with
    | true => exact Nat.le_of_eq (hh.ended hc)
    | false =>
      rw [(hh.waits hc).1]
      exact Nat.zero_le 1
  pending i o ho ha := by
    have hh := h.held i o ho
    cases hc : o.completed with
    | true =>
      have hlen := hh.ended hc
      rw [ha] at hlen
      cases hlen
    | false => exact (hh.waits hc).2

/-- A call is put in its place. -/
theorem Kept.put (h : Kept s) (ho : o.Held i (s.localQueue ++ s.queue)) : Kept (s.put i o) where
  alive := h.alive
  fifo := h.fifo
  held j x hj := by
    change Function.update s.op i (some o) j = some x at hj
    by_cases he : j = i
    · subst he
      rw [Function.update_self] at hj
      cases hj
      exact ho
    · rw [Function.update_of_ne he] at hj
      exact h.held j x hj

theorem Kept.post (h : Kept s) (j : Job) : Kept (s.post j) where
  alive := h.alive
  fifo := by
    change s.pushed ++ [j] = s.ran ++ s.localQueue ++ (s.queue ++ [j])
    rw [h.fifo, List.append_assoc, List.append_assoc]
  held i o ho := by
    refine (h.held i o ho).mono fun hm => ?_
    change _ ∈ s.localQueue ++ (s.queue ++ [j])
    rw [← List.append_assoc]
    exact List.mem_append_left _ hm

/-- `drain` takes a closure, whose own call is looked at next. -/
theorem Kept.pop (h : Kept s) {j : Job} {rest : List Job} (hb : s.batch = some (j :: rest)) :
    s.pushed = s.ran ++ [j] ++ rest ++ s.queue ∧
    ∀ i o, s.op i = some o → (j ≠ .start i ∨ o.completed = true) → o.Held i (rest ++ s.queue) := by
  have hlocal : s.localQueue = j :: rest := by
    unfold State.localQueue
    rw [hb]
    rfl
  constructor
  · rw [h.fifo, hlocal]
    simp
  · intro i o ho hj
    have hh := h.held i o ho
    rw [hlocal] at hh
    rcases hj with hj | hc
    · refine hh.mono fun hm => ?_
      rw [List.cons_append, List.mem_cons] at hm
      exact hm.resolve_left fun he => hj he.symm
    · exact ⟨hh.ended, fun hn => absurd (hc.symm.trans hn) (by simp)⟩

/-- The closure leaves every call as it is. -/
theorem Kept.pop_same (h : Kept s) {j : Job} {rest : List Job} (hb : s.batch = some (j :: rest))
    (hj : ∀ i o, s.op i = some o → j ≠ .start i ∨ o.completed = true) :
    Kept { s with batch := some rest, ran := s.ran ++ [j] } := by
  obtain ⟨hfifo, hheld⟩ := h.pop hb
  exact ⟨h.alive, hfifo, fun i o ho => hheld i o ho (hj i o ho)⟩

/-- The call of the closure is put back, and every other one is as it was. -/
theorem Kept.pop_put (h : Kept s) {j : Job} {rest : List Job} (hb : s.batch = some (j :: rest))
    (hj : ∀ k, k ≠ i → j ≠ .start k) (ho : o.Held i (rest ++ s.queue)) :
    Kept ({ s with batch := some rest, ran := s.ran ++ [j] }.put i o) := by
  obtain ⟨hfifo, hheld⟩ := h.pop hb
  refine ⟨h.alive, hfifo, fun k x hx => ?_⟩
  change Function.update s.op i (some o) k = some x at hx
  by_cases he : k = i
  · subst he
    rw [Function.update_self] at hx
    cases hx
    exact ho
  · rw [Function.update_of_ne he] at hx
    exact hheld k x hx (.inl (hj k he))

/-- The closure that starts a request, whose call is not over or has been stopped. -/
theorem kept_runStart (h : Kept s) {rest : List Job} (hb : s.batch = some (.start i :: rest))
    (ho : s.op i = some o) {rc : Int} (hg : Good uv s (.runNext rc)) :
    Kept ({ s with batch := some rest, ran := s.ran ++ [Job.start i] }.runStart uv i o rc) := by
  have hne : ∀ k, k ≠ i → Job.start i ≠ .start k := fun k hk he => hk (Job.start.inj he).symm
  unfold State.runStart
  cases hc : o.completed with
  | true =>
    rw [if_pos rfl]
    refine h.pop_same hb fun k x hk => ?_
    by_cases he : k = i
    · rw [he, ho] at hk
      cases hk
      exact .inr hc
    · exact .inl (hne k he)
  | false =>
    rw [if_neg (by simp)]
    have hstart := h.pop_put hb hne (Op.held_start (h.held i o ho) hc rc)
    cases hq : o.query with
    | resolve host service family socktype flags => exact hstart
    | reverseLookup endpoint flags =>
      obtain ⟨addr, haddr⟩ := hg i rest o endpoint flags hb ho hq hc
      dsimp only
      rw [haddr]
      exact hstart

theorem kept_runJob (h : Kept s) {j : Job} {rest : List Job} (hb : s.batch = some (j :: rest))
    {rc : Int} (hg : Good uv s (.runNext rc)) :
    Kept ({ s with batch := some rest, ran := s.ran ++ [j] }.runJob uv rc j) := by
  unfold State.runJob
  cases j with
  | start i =>
    dsimp only
    cases ho : s.op i with
    | none =>
      refine h.pop_same hb fun k o hk => .inl fun he => ?_
      rw [← Job.start.inj he, ho] at hk
      cases hk
    | some o => exact kept_runStart h hb ho hg
  | cancel i =>
    have hne : ∀ k, Job.cancel i ≠ .start k := fun k he => by cases he
    dsimp only
    cases ho : s.op i with
    | none => exact h.pop_same hb fun k _ _ => .inl (hne k)
    | some o =>
      have hheld := (h.pop hb).2 i o ho (.inl (hne i))
      exact h.pop_put hb (fun k _ => hne k) (Op.held_cancel hheld rc)
  | other k =>
    refine h.pop_same hb fun i _ _ => .inl fun he => ?_
    cases he

theorem kept_callback (h : Kept s) {a : Callback} (ho : s.op i = some o)
    (hg : Good uv s (.callback i a)) : Kept (s.callback uv i o a) := by
  have hheld := h.held i o ho
  have hput : ∀ r, Kept (s.put i ({ o with flight := .delivered, status := a.status, result := r } :
      Op).complete) := fun r => h.put (Op.held_callback hheld a.status r)
  unfold State.callback
  dsimp only
  cases hq : o.query with
  | resolve host service family socktype flags =>
    dsimp only
    by_cases hs : a.status = 0
    · rw [if_pos hs]
      obtain ⟨results, hres⟩ := mapM_ok_iff.mpr (hg o host service family socktype flags ho hq hs)
      rw [hres]
      have hdone := hput (.endpoints results)
      rw [hq] at hdone
      exact hdone
    · rw [if_neg hs]
      have hdone := hput o.result
      rw [hq] at hdone
      exact hdone
  | reverseLookup endpoint flags =>
    dsimp only
    by_cases hs : a.status = 0
    · rw [if_pos hs]
      have hdone := hput (.name (a.hostname.getD "") (a.service.getD ""))
      rw [hq] at hdone
      exact hdone
    · rw [if_neg hs]
      have hdone := hput o.result
      rw [hq] at hdone
      exact hdone

theorem kept_call (h : Kept s) (i : CallId) (query : Query) (stopped stopPossible : Bool) :
    Kept (stepCall s i query stopped stopPossible) := by
  unfold stepCall
  split
  · exact h.put ⟨fun _ => rfl, fun hc => absurd hc (by simp)⟩
  · exact h.put ⟨fun hc => absurd hc (by simp), fun _ => ⟨rfl, .inl rfl⟩⟩

/-- The closure of a call comes last in the queue. -/
theorem kept_post (h : Kept s) (ho : s.op i = some o) :
    Kept ((s.put i { o with posted := true, stale := o.completed }).post (.start i)) := by
  have hpost := h.post (.start i)
  have hheld := hpost.held i o ho
  refine hpost.put ⟨hheld.ended, fun hc => ⟨(hheld.waits hc).1, .inr (.inl ?_)⟩⟩
  exact List.mem_append_right _ (List.mem_append_right _ List.mem_cons_self)

theorem kept_stop (h : Kept s) (ho : s.op i = some o) :
    Kept ((s.put i { o with stopCallback := false }).post (.cancel i)) := by
  have hheld := h.held i o ho
  have hput : Kept (s.put i { o with stopCallback := false }) := h.put ⟨hheld.ended, hheld.waits⟩
  exact hput.post (.cancel i)

theorem localQueue_of_none (hb : s.batch = none) : s.localQueue = [] := by
  unfold State.localQueue
  rw [hb]
  rfl

theorem kept_swap (h : Kept s) (hb : s.batch = none) :
    Kept { s with queue := [], batch := some s.queue } := by
  have hfifo := h.fifo
  have hheld := h.held
  rw [localQueue_of_none hb] at hfifo hheld
  refine ⟨h.alive, ?_, fun i o ho => (hheld i o ho).mono fun hm => List.mem_append_left _ hm⟩
  change s.pushed = s.ran ++ s.queue ++ []
  rw [hfifo, List.append_nil, List.append_nil]

theorem kept_endDrain (h : Kept s) (hb : s.batch = some []) : Kept { s with batch := none } := by
  have hlocal : s.localQueue = [] := by
    unfold State.localQueue
    rw [hb]
    rfl
  have hfifo := h.fifo
  have hheld := h.held
  rw [hlocal] at hfifo hheld
  exact ⟨h.alive, hfifo, hheld⟩

/-- What a step does while nothing has escaped. -/
theorem step_cases (ha : s.escaped = none) {l : Label} (hs : step uv s l = some t) :
    (∃ i query stopped stopPossible, l = .call i query stopped stopPossible ∧
      t = stepCall s i query stopped stopPossible) ∨
    (∃ i o, l = .post i ∧ s.op i = some o ∧
      t = (s.put i { o with posted := true, stale := o.completed }).post (.start i)) ∨
    (∃ i o, l = .stop i ∧ s.op i = some o ∧
      t = (s.put i { o with stopCallback := false }).post (.cancel i)) ∨
    (∃ k, l = .other k ∧ t = s.post (.other k)) ∨
    (l = .swap ∧ s.batch = none ∧ t = { s with queue := [], batch := some s.queue }) ∨
    (∃ rc j rest, l = .runNext rc ∧ s.batch = some (j :: rest) ∧
      t = { s with batch := some rest, ran := s.ran ++ [j] }.runJob uv rc j) ∨
    (l = .endDrain ∧ s.batch = some [] ∧ t = { s with batch := none }) ∨
    ∃ i a o, l = .callback i a ∧ s.op i = some o ∧ t = s.callback uv i o a := by
  unfold step at hs
  rw [if_neg (by simp [ha])] at hs
  cases l with
  | call i query stopped stopPossible =>
    obtain ⟨_, hs⟩ := Option.ite_none_right_eq_some.mp hs
    exact .inl ⟨i, query, stopped, stopPossible, rfl, (Option.some.inj hs).symm⟩
  | post i =>
    obtain ⟨o, ho, hs⟩ := Option.bind_eq_some_iff.mp hs
    obtain ⟨_, hs⟩ := Option.ite_none_left_eq_some.mp hs
    exact .inr (.inl ⟨i, o, rfl, ho, (Option.some.inj hs).symm⟩)
  | stop i =>
    obtain ⟨o, ho, hs⟩ := Option.bind_eq_some_iff.mp hs
    obtain ⟨_, hs⟩ := Option.ite_none_right_eq_some.mp hs
    exact .inr (.inr (.inl ⟨i, o, rfl, ho, (Option.some.inj hs).symm⟩))
  | other k => exact .inr (.inr (.inr (.inl ⟨k, rfl, (Option.some.inj hs).symm⟩)))
  | swap =>
    obtain ⟨hb, hs⟩ := Option.ite_none_right_eq_some.mp hs
    exact .inr (.inr (.inr (.inr (.inl ⟨rfl, hb, (Option.some.inj hs).symm⟩))))
  | runNext rc =>
    have hne : ∃ j rest, s.batch = some (j :: rest) := by
      cases hb : s.batch with
      | none =>
        simp [hb] at hs
      | some jobs =>
        cases jobs with
        | nil => simp [hb] at hs
        | cons j rest => exact ⟨j, rest, rfl⟩
    obtain ⟨j, rest, hb⟩ := hne
    simp only [hb] at hs
    refine .inr (.inr (.inr (.inr (.inr (.inl ⟨rc, j, rest, rfl, hb, ?_⟩)))))
    exact (Option.some.inj hs).symm
  | endDrain =>
    obtain ⟨hb, hs⟩ := Option.ite_none_right_eq_some.mp hs
    exact .inr (.inr (.inr (.inr (.inr (.inr (.inl ⟨rfl, hb, (Option.some.inj hs).symm⟩))))))
  | callback i a =>
    obtain ⟨o, ho, hs⟩ := Option.bind_eq_some_iff.mp hs
    obtain ⟨_, hs⟩ := Option.ite_none_right_eq_some.mp hs
    refine .inr (.inr (.inr (.inr (.inr (.inr (.inr ⟨i, a, o, rfl, ho, ?_⟩))))))
    exact (Option.some.inj hs).symm

/-- One step under `Good`. -/
theorem step_kept (h : Kept s) {l : Label} (hg : Good uv s l) (hs : step uv s l = some t) :
    Kept t := by
  rcases step_cases h.alive hs with ⟨i, query, stopped, stopPossible, rfl, rfl⟩ |
    ⟨i, o, rfl, ho, rfl⟩ | ⟨i, o, rfl, ho, rfl⟩ | ⟨k, rfl, rfl⟩ | ⟨rfl, hb, rfl⟩ |
    ⟨rc, j, rest, rfl, hb, rfl⟩ | ⟨rfl, hb, rfl⟩ | ⟨i, a, o, rfl, ho, rfl⟩
  · exact kept_call h i query stopped stopPossible
  · exact kept_post h ho
  · exact kept_stop h ho
  · exact h.post _
  · exact kept_swap h hb
  · exact kept_runJob h hb hg
  · exact kept_endDrain h hb
  · exact kept_callback h ho hg

theorem kept (h : ReachableBy (system uv) (Good uv) s) : Kept s := by
  refine h.invariant ?_ fun s l t _ hI hg hs => step_kept hI hg hs
  intro s h0
  cases h0
  exact ⟨rfl, rfl, fun i o ho => by cases ho⟩

/-! ## What escapes -/

/-- The closure of a lookup goes on only where its address is one. -/
theorem good_of_runJob {j : Job} {rest : List Job} {rc : Int} (hb : s.batch = some (j :: rest))
    (ht : ({ s with batch := some rest, ran := s.ran ++ [j] }.runJob uv rc j).escaped = none) :
    Good uv s (.runNext rc) := by
  intro i rest' o endpoint flags hb' ho hq hc
  rw [hb] at hb'
  cases hb'
  unfold State.runJob at ht
  dsimp only at ht
  rw [ho] at ht
  dsimp only at ht
  unfold State.runStart at ht
  rw [if_neg (by simp [hc]), hq] at ht
  dsimp only at ht
  cases haddr : endpointToSockaddr uv endpoint with
  | ok addr => exact ⟨addr, rfl⟩
  | error e =>
    rw [haddr] at ht
    cases ht

/-- The callback of `resolve` goes on only where every address can be named. -/
theorem good_of_callback {a : Callback} (ho : s.op i = some o)
    (ht : (s.callback uv i o a).escaped = none) : Good uv s (.callback i a) := by
  intro o' host service family socktype flags ho' hq hs
  rw [ho] at ho'
  cases ho'
  unfold State.callback at ht
  dsimp only at ht
  rw [hq] at ht
  dsimp only at ht
  rw [if_pos hs] at ht
  refine mapM_ok_iff.mp ?_
  cases hres : a.addresses.mapM (sockaddrToEndpoint uv) with
  | ok results => exact ⟨results, rfl⟩
  | error e =>
    rw [hres] at ht
    cases ht

theorem good_of_alive (h : Kept s) {l : Label} (hs : step uv s l = some t)
    (ht : t.escaped = none) : Good uv s l := by
  rcases step_cases h.alive hs with ⟨i, query, stopped, stopPossible, rfl, rfl⟩ |
    ⟨i, o, rfl, ho, rfl⟩ | ⟨i, o, rfl, ho, rfl⟩ | ⟨k, rfl, rfl⟩ | ⟨rfl, hb, rfl⟩ |
    ⟨rc, j, rest, rfl, hb, rfl⟩ | ⟨rfl, hb, rfl⟩ | ⟨i, a, o, rfl, ho, rfl⟩
  iterate 5 trivial
  · exact good_of_runJob hb ht
  · trivial
  · exact good_of_callback ho ht

/-- In every run of good steps what is promised holds and the next closure in `local`
can run; and it still holds after one more step just if that one is good too. -/
theorem dns_answers (h : ReachableBy (system uv) (Good uv) s) :
    Sound s ∧
      (∀ j rest rc, s.batch = some (j :: rest) → ∃ t, step uv s (.runNext rc) = some t) ∧
      ∀ l t, step uv s l = some t → (Sound t ↔ Good uv s l) := by
  have hkept := kept h
  refine ⟨hkept.sound, fun j rest rc hb => ?_, fun l t hs => ⟨fun ht => ?_, fun hg => ?_⟩⟩
  · refine ⟨{ s with batch := some rest, ran := s.ran ++ [j] }.runJob uv rc j, ?_⟩
    unfold step
    rw [if_neg (by simp [hkept.alive])]
    simp only [hb]
  · exact good_of_alive hkept hs ht.alive
  · exact (step_kept hkept hg hs).sound

/-- Conversions that know of one address only. -/
def localhost : Libuv where
  ip4Addr s port := if s = "127.0.0.1" then .ok ⟨AF_INET, 0x7f000001, port⟩ else .error (-22)
  ip6Addr _ _ := .error (-22)
  ip4Name a := if a.address = 0x7f000001 then .ok "127.0.0.1" else .error (-28)
  ip6Name _ := .error (-28)

/-- A lookup with a closure behind it. -/
def lookup (address : String) : List Label :=
  [.call 0 (.reverseLookup { address, port := 80 } 0) false false, .post 0, .other 7, .swap,
    .runNext 0]

/-- The lookup of an address, up to the closure behind it. -/
theorem dns_answers_localhost : ∃ s, run (system localhost) {} (lookup "127.0.0.1") = some s ∧
    Sound s ∧ s.batch = some [.other 7] ∧ ∃ t, step localhost s (.runNext 0) = some t := by
  have h₀ : ReachableBy (system localhost) (Good localhost) {} := .init rfl
  have h₁ := h₀.step (l := .call 0 (.reverseLookup ⟨"127.0.0.1", 80, false⟩ 0) false false)
    (by exact trivial) rfl
  have h₂ := h₁.step (l := .post 0) (by exact trivial) rfl
  have h₃ := h₂.step (l := .other 7) (by exact trivial) rfl
  have h₄ := h₃.step (l := .swap) (by exact trivial) rfl
  have h₅ := h₄.step (l := .runNext 0) (by
    intro i rest o endpoint flags hb ho hq _
    cases hb
    cases ho
    cases hq
    exact ⟨_, rfl⟩) rfl
  exact ⟨_, rfl, (dns_answers h₅).1, rfl, (dns_answers h₅).2.1 _ _ 0 rfl⟩

/-- What is no address is thrown out of `drain`, with the closure behind it. -/
theorem lookup_escapes : ∃ s, Reachable (system localhost) s ∧ ¬ Sound s ∧
    s.escaped = some (.uvError (-22) "uv_ip*_addr") ∧ s.pushed = [.start 0, .other 7] ∧
    s.ran = [.start 0] ∧ s.localQueue ++ s.queue = [] ∧
    ∃ o, s.op 0 = some o ∧ o.posted = true ∧ o.flight = .idle ∧ o.answers = [] := by
  have h0 : Reachable (system localhost) {} := .init rfl
  refine ⟨_, h0.run (show run (system localhost) {} (lookup "not an address") = some _ from rfl),
    fun hsound => ?_, rfl, rfl, rfl, rfl, _, rfl, rfl, rfl, rfl⟩
  cases hsound.alive

end LuvCoro.Dns
