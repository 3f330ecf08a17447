import LuvCoro.Channel.System

/-! # `select`: a race of `next` calls

Translated from `select_impl` in `include/luvcoro/message.hpp`. A call of
`select` starts one `next` on each of its channels under `coro::when_any`, which
has no stop source here: the first contender to complete decides the result, and
the others run on with their results discarded. Every channel goes on with all
its own steps meanwhile. -/
namespace LuvCoro.Select

open Transition LuvCoro.Channel

universe u v

/-- A call of `select`: its contenders, each a call of `next` on one of the
channels, and the one that completed first, with its result. -/
structure Selection (ι : Type u) (T : ι → Type v) where
  contenders : List (ι × OpId)
  winner : Option (Σ c : ι, OpId × Result (T c)) := none

/-- The channels, and the calls of `select` so far. -/
structure World (ι : Type u) (T : ι → Type v) where
  chan : ∀ c, Sys (T c)
  calls : Nat → Option (Selection ι T) := fun _ => none

inductive Label (ι : Type u) (T : ι → Type v) where
  | chan (c : ι) (l : Channel.Label (T c))
  | select (k : Nat) (loop : Bool) (contenders : List (ι × OpId))
  | complete (k : Nat) (c : ι) (i : OpId)

variable {ι : Type u} [DecidableEq ι] {T : ι → Type v}

def World.chanStep (w : World ι T) (c : ι) (l : Channel.Label (T c)) : Option (World ι T) :=
  (Channel.step (w.chan c) l).map fun s => { w with chan := Function.update w.chan c s }

/-- `when_any` starts every contender: `co_await channel.next()`. -/
def startContenders (w : World ι T) (loop : Bool) : List (ι × OpId) → Option (World ι T)
  | [] => some w
  | (c, i) :: cs => (w.chanStep c (.start i loop .next)).bind (startContenders · loop cs)

/-- The first contender to complete is the result of `when_any`. -/
def completeContender (w : World ι T) (k : Nat) (c : ι) (i : OpId) : Option (World ι T) :=
  match w.calls k with
  | some sel =>
    if (c, i) ∈ sel.contenders ∧ sel.winner.isNone then
      match (w.chan c).pc i with
      | .done r =>
        some { w with calls := Function.update w.calls k (some { sel with winner := some ⟨c, i, r⟩ }) }
      | _ => none
    else none
  | none => none

def step (w : World ι T) : Label ι T → Option (World ι T)
  | .chan c l => w.chanStep c l
  | .select k loop cs =>
    -- every contender is a call of its own
    if (w.calls k).isNone ∧ cs.Nodup then
      (startContenders w loop cs).map fun w =>
        { w with calls := Function.update w.calls k (some { contenders := cs }) }
    else none
  | .complete k c i => completeContender w k c i

/-- Newly constructed channels, of any capacities. -/
def World.new (capacity : ι → Nat) : World ι T := { chan := fun c => Sys.new (capacity c) }

def system (ι : Type u) [DecidableEq ι] (T : ι → Type v) : System (World ι T) (Label ι T) where
  init w := ∃ capacity, w = World.new capacity
  step := step

end LuvCoro.Select
