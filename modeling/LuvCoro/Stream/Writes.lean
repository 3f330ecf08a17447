import Mathlib.Data.List.Basic
import LuvCoro.Fs.Content
import LuvCoro.Request.Returns

/-! # All writes of one stream

Any number of tasks send their messages on one stream, each message with a
`stream_write` of `src/stream_ops.hpp` that is awaited before the next. The steps of a
write are those of a request of its own; what the writes share is the queue of the loop
and the handle inside libuv, which sends the requests in their order and may send each in
any number of pieces. -/
namespace LuvCoro.Stream.Writes

open Transition
open Request (streamWrite UV_EINVAL Posts)
open Content (uvBufInit)

/-- A write, by its task and its place among the messages of the task. -/
structure Id where
  task : Nat
  index : Nat
  deriving DecidableEq

/-- `stream_write(runtime, stream, data, stop_token)`. -/
def dataOf (messages : Nat → List (List UInt8)) (i : Id) : List UInt8 :=
  (messages i.task).getD i.index []

/-- `uv_buf_init(data.data(), static_cast<unsigned int>(data.size()))`. -/
def bufferOf (data : List UInt8) : List UInt8 := data.take (uvBufInit data.length)

def buffer (messages : Nat → List (List UInt8)) (i : Id) : List UInt8 :=
  bufferOf (dataOf messages i)

/-- `next` is the message that a task is at, and `turns` the queue of the loop, in which a
write has a turn for each closure that it has posted. The rest is the handle: the requests
that it has not sent yet, those whose callbacks are due, how much it has sent of each,
what it has accepted up to now, and the bytes that have left. -/
structure Sys where
  ops : Id → Request.Sys
  next : Nat → Nat := fun _ => 0
  turns : List Id := []
  queue : List Id := []
  sent : List Id := []
  progress : Id → Nat := fun _ => 0
  accepted : List Id := []
  wire : List UInt8 := []

/-- `rc` is what `uv_write` returns, `status` what the callback is called with, and `freed`
what libuv reads from a buffer that has been released. -/
inductive Label
  | run (task : Nat)
  | next (task : Nat)
  | requestStop (i : Id)
  | stopCallback (i : Id)
  | runPosted (rc : Int)
  | begin
  | transmit (n : Nat) (freed : List UInt8)
  | retire (status : Int)
  | callback

namespace Sys

def current (s : Sys) (task : Nat) : Id := { task, index := s.next task }

def set (s : Sys) (i : Id) (o : Request.Sys) : Sys :=
  { s with ops := Function.update s.ops i o }

/-- What the write has posted takes its turns after what is in the queue. -/
def post (s : Sys) (i : Id) (o : Request.Sys) : Sys :=
  { s.set i o with
    turns := s.turns ++ List.replicate (o.posted.length - (s.ops i).posted.length) i }

/-- A closure of the write has been run, and libuv may have taken the request. -/
def handOver (s : Sys) (i : Id) (o : Request.Sys) : Sys :=
  if (s.ops i).flight = .idle ∧ o.flight = .queued then
    { s.set i o with queue := s.queue ++ [i], accepted := s.accepted ++ [i] }
  else s.set i o

end Sys

/-- The next `n` bytes of the write, which libuv reads from the buffer of its state. -/
def Sys.bytes (s : Sys) (buffer : List UInt8) (i : Id) (n : Nat) (freed : List UInt8) :
    List UInt8 :=
  if (s.ops i).op.keepAlive then (buffer.drop (s.progress i)).take n else freed.take n

def returned : Option (Except Request.Error Int) → Bool
  | some (.ok _) => true
  | _ => false

/-- `uv_cancel` cannot cancel a `uv_write_t`. -/
def answer (o : Request.Sys) (rc : Int) : Int :=
  if o.posted.head? = some .cancel then UV_EINVAL else rc

variable (messages : Nat → List (List UInt8)) (stopPossible : Id → Bool)

def step (s : Sys) : Label → Option Sys
  | .run task =>
    let i := s.current task
    if dataOf messages i = [] then none
    else (Request.step streamWrite (stopPossible i) (s.ops i) .run).map (s.post i)
  | .next task =>
    let i := s.current task
    -- A write of no data returns at once.
    if s.next task < (messages task).length ∧
        (dataOf messages i = [] ∨ returned (s.ops i).outcome = true) then
      some { s with next := Function.update s.next task (s.next task + 1) }
    else none
  | .requestStop i =>
    (Request.step streamWrite (stopPossible i) (s.ops i) .requestStop).map (s.post i)
  | .stopCallback i =>
    (Request.step streamWrite (stopPossible i) (s.ops i) .stopCallback).map (s.post i)
  | .runPosted rc =>
    match s.turns with
    | [] => none
    | i :: is =>
      (Request.step streamWrite (stopPossible i) (s.ops i)
        (.runPosted 0 (answer (s.ops i) rc))).map ({ s with turns := is }.handOver i)
  | .begin =>
    match s.queue with
    | [] => none
    | i :: _ => (Request.step streamWrite (stopPossible i) (s.ops i) .begin).map (s.set i)
  | .transmit n freed =>
    match s.queue with
    | [] => none
    | i :: _ =>
      if (s.ops i).flight = .working ∧ s.progress i + n ≤ (buffer messages i).length then
        some { s with
          progress := Function.update s.progress i (s.progress i + n)
          wire := s.wire ++ s.bytes (buffer messages i) i n freed }
      else none
  | .retire status =>
    match s.queue with
    | [] => none
    | i :: is =>
      if status < 0 ∨ status = 0 ∧ s.progress i = (buffer messages i).length then
        (Request.step streamWrite (stopPossible i) (s.ops i) (.work status)).map fun o =>
          { s.set i o with queue := is, sent := s.sent ++ [i] }
      else none
  | .callback =>
    match s.sent with
    | [] => none
    | i :: is =>
      (Request.step streamWrite (stopPossible i) (s.ops i) .callback).map fun o =>
        { s.set i o with sent := is }

/-- A stop may have been requested before a write. -/
def system : System Sys Label where
  init s := ∃ stopped : Id → Bool, (∀ i, stopped i = true → stopPossible i = true) ∧
    s = { ops := fun i => { stopRequested := stopped i } }
  step := step messages stopPossible

/-- The cancelling closure of a write does not come while libuv has the write, whose
buffers it would release. -/
def KeepsWrites (s : Sys) : Label → Prop
  | .runPosted _ => ∀ i is cs, s.turns = i :: is → (s.ops i).posted = .cancel :: cs →
      ¬ (s.ops i).InFlight
  | _ => True

/-! ## What a step is to the writes -/

section
variable {messages : Nat → List (List UInt8)} {stopPossible : Id → Bool} {s t : Sys} {l : Label}
  {i j : Id} {o : Request.Sys}

@[simp] theorem set_ops_self (s : Sys) (i : Id) (o : Request.Sys) : (s.set i o).ops i = o :=
  Function.update_self ..

theorem set_ops_of_ne (h : j ≠ i) (s : Sys) (o : Request.Sys) : (s.set i o).ops j = s.ops j :=
  Function.update_of_ne h ..

theorem handOver_ops (s : Sys) (i : Id) (o : Request.Sys) :
    (s.handOver i o).ops = Function.update s.ops i o := by
  unfold Sys.handOver
  split <;> rfl

/-- The step that a write makes, and what comes of it for all of them. -/
inductive Stepped (messages : Nat → List (List UInt8)) (stopPossible : Id → Bool) (s : Sys) :
    Label → Sys → Prop
  | run {task : Nat} {o : Request.Sys} : dataOf messages (s.current task) ≠ [] →
      Request.step streamWrite (stopPossible (s.current task)) (s.ops (s.current task)) .run =
        some o →
      Stepped messages stopPossible s (.run task) (s.post (s.current task) o)
  | next {task : Nat} : s.next task < (messages task).length →
      dataOf messages (s.current task) = [] ∨ returned (s.ops (s.current task)).outcome = true →
      Stepped messages stopPossible s (.next task)
        { s with next := Function.update s.next task (s.next task + 1) }
  | requestStop {i : Id} {o : Request.Sys} :
      Request.step streamWrite (stopPossible i) (s.ops i) .requestStop = some o →
      Stepped messages stopPossible s (.requestStop i) (s.post i o)
  | stopCallback {i : Id} {o : Request.Sys} :
      Request.step streamWrite (stopPossible i) (s.ops i) .stopCallback = some o →
      Stepped messages stopPossible s (.stopCallback i) (s.post i o)
  | runPosted {rc : Int} {i : Id} {is : List Id} {o : Request.Sys} : s.turns = i :: is →
      Request.step streamWrite (stopPossible i) (s.ops i) (.runPosted 0 (answer (s.ops i) rc)) =
        some o →
      Stepped messages stopPossible s (.runPosted rc) ({ s with turns := is }.handOver i o)
  | begin {i : Id} {is : List Id} {o : Request.Sys} : s.queue = i :: is →
      Request.step streamWrite (stopPossible i) (s.ops i) .begin = some o →
      Stepped messages stopPossible s .begin (s.set i o)
  | transmit {n : Nat} {freed : List UInt8} {i : Id} {is : List Id} : s.queue = i :: is →
      (s.ops i).flight = .working → s.progress i + n ≤ (buffer messages i).length →
      Stepped messages stopPossible s (.transmit n freed) { s with
        progress := Function.update s.progress i (s.progress i + n)
        wire := s.wire ++ s.bytes (buffer messages i) i n freed }
  | retire {status : Int} {i : Id} {is : List Id} {o : Request.Sys} : s.queue = i :: is →
      status < 0 ∨ status = 0 ∧ s.progress i = (buffer messages i).length →
      Request.step streamWrite (stopPossible i) (s.ops i) (.work status) = some o →
      Stepped messages stopPossible s (.retire status)
        { s.set i o with queue := is, sent := s.sent ++ [i] }
  | callback {i : Id} {is : List Id} {o : Request.Sys} : s.sent = i :: is →
      Request.step streamWrite (stopPossible i) (s.ops i) .callback = some o →
      Stepped messages stopPossible s .callback { s.set i o with sent := is }

theorem step_stepped (h : step messages stopPossible s l = some t) :
    Stepped messages stopPossible s l t := by
  cases l with
  | run task =>
    simp only [step] at h
    split at h
    · cases h
    · rename_i hd
      obtain ⟨o, ho, rfl⟩ := Option.map_eq_some_iff.mp h
      exact .run hd ho
  | next task =>
    simp only [step] at h
    split at h <;> cases h
    rename_i hg
    exact .next hg.1 hg.2
  | requestStop i =>
    obtain ⟨o, ho, rfl⟩ := Option.map_eq_some_iff.mp h
    exact .requestStop ho
  | stopCallback i =>
    obtain ⟨o, ho, rfl⟩ := Option.map_eq_some_iff.mp h
    exact .stopCallback ho
  | runPosted rc =>
    simp only [step] at h
    split at h
    · cases h
    · rename_i i is hturns
      obtain ⟨o, ho, rfl⟩ := Option.map_eq_some_iff.mp h
      exact .runPosted hturns ho
  | begin =>
    simp only [step] at h
    split at h
    · cases h
    · rename_i i is hqueue
      obtain ⟨o, ho, rfl⟩ := Option.map_eq_some_iff.mp h
      exact .begin hqueue ho
  | transmit n freed =>
    simp only [step] at h
    split at h
    · cases h
    · rename_i i is hqueue
      split at h <;> cases h
      rename_i hg
      exact .transmit hqueue hg.1 hg.2
  | retire status =>
    simp only [step] at h
    split at h
    · cases h
    · rename_i i is hqueue
      split at h
      · rename_i hg
        obtain ⟨o, ho, rfl⟩ := Option.map_eq_some_iff.mp h
        exact .retire hqueue hg ho
      · cases h
  | callback =>
    simp only [step] at h
    split at h
    · cases h
    · rename_i i is hsent
      obtain ⟨o, ho, rfl⟩ := Option.map_eq_some_iff.mp h
      exact .callback hsent ho

/-- One write makes a step, and the others none. -/
theorem component_update {m : Request.Label} {u : Sys}
    (hs : Request.step streamWrite (stopPossible i) (s.ops i) m = some o)
    (hu : u.ops = Function.update s.ops i o) (hm : Request.KeepsRequest (s.ops i) m) :
    u.ops j = s.ops j ∨ ∃ m, Request.KeepsRequest (s.ops j) m ∧
      (Request.system streamWrite (stopPossible j)).step (s.ops j) m = some (u.ops j) := by
  rw [hu]
  by_cases hj : j = i
  · subst hj
    refine .inr ⟨m, hm, ?_⟩
    rw [Function.update_self]
    exact hs
  · exact .inl (Function.update_of_ne hj ..)

/-- Each write goes through a run of its own, in which it is not given up in flight. -/
theorem component (h : ReachableBy (system messages stopPossible) KeepsWrites s) (j : Id) :
    ReachableBy (Request.system streamWrite (stopPossible j)) Request.KeepsRequest (s.ops j) := by
  refine h.component (f := fun s => s.ops j) ?_ ?_
  · rintro s ⟨stopped, hstopped, rfl⟩
    exact ⟨stopped j, hstopped j, rfl⟩
  · intro s l t _ hg hs
    cases step_stepped hs with
    | run _ ho => exact component_update ho rfl trivial
    | next => exact .inl rfl
    | requestStop ho => exact component_update ho rfl trivial
    | stopCallback ho => exact component_update ho rfl trivial
    | runPosted hturns ho =>
      refine component_update ho (handOver_ops ..) fun cs hcs hf => ?_
      exact absurd hf (hg _ _ cs hturns hcs)
    | begin _ ho => exact component_update ho rfl trivial
    | transmit => exact .inl rfl
    | retire _ _ ho => exact component_update ho rfl trivial
    | callback _ ho => exact component_update ho rfl trivial

end

end LuvCoro.Stream.Writes
