import LuvCoro.Fs.Content
import LuvCoro.Request.System

/-! # `sendfile` to one file

Translated from `src/fs.cpp`, for files that are open and have the same runtime.
The closure of `sendfile_async` seeks the descriptor of the target on the loop
thread, and a thread of the pool copies later, to where the descriptor is then. -/
namespace LuvCoro.Sendfile

open Content (Bytes overlay)
open Request (UV_ECANCELED UV_EINVAL)
open Transition

inductive Error
  | operationCancelled
  | uvError (code : Int) (op : String)
  deriving DecidableEq

/-- A call has posted its closure, libuv has its request in the queue of the pool, the
callback is to run, or the call has returned. -/
inductive Phase
  | posted
  | queued
  | done (status : Int) (transferred : Nat)
  | returned (result : Except Error Nat)

/-- A call of `sendfile`; `told` is the `tell()` of the target when it was made. -/
structure Op where
  told : Int
  source : Nat
  sourceOffset : Int
  maxBytes : Nat
  cancelRequested : Bool := false
  phase : Phase := .posted

/-- What one call has written, and where. -/
structure Landing where
  op : Nat
  position : Nat
  bytes : Bytes

structure Source where
  content : Bytes := []
  tell : Int := 0

/-- `offset` is where the kernel has the descriptor of the target, `tell` what the
`file` says of it. -/
structure World where
  offset : Nat := 0
  tell : Int := 0
  initial : Bytes := []
  sources : Nat → Source := fun _ => {}
  ops : List Op := []
  landed : List Landing := []

namespace World

/-- What the target has. -/
def content (w : World) : Bytes :=
  w.landed.foldl (fun data e => overlay data e.position e.bytes) w.initial

def put (w : World) (i : Nat) (op : Op) : World := { w with ops := w.ops.set i op }

/-- `seek` of the source. -/
def seekSource (w : World) (k : Nat) (offset : Int) : World :=
  { w with sources := Function.update w.sources k { w.sources k with tell := offset } }

/-- `sendfile`, up to its return or the `await_suspend` of its request. -/
def call (w : World) (source : Nat) (sourceOffset : Int) (maxBytes : Nat) (stopped : Bool) :
    World :=
  let op : Op := { told := w.tell, source, sourceOffset, maxBytes }
  if maxBytes = 0 then
    { w.seekSource source sourceOffset with ops := w.ops ++ [{ op with phase := .returned (.ok 0) }] }
  else if stopped then
    { w with ops := w.ops ++ [{ op with phase := .returned (.error .operationCancelled) }] }
  else { w with ops := w.ops ++ [op] }

/-- `seek_file_descriptor`, with what `lseek` answers. -/
def seekFileDescriptor (w : World) (offset rc : Int) : Int × World :=
  if offset < 0 then (UV_EINVAL, w)
  else if rc < 0 then (rc, w)
  else (0, { w with offset := offset.toNat })

/-- The closure that starts the request; `rc` is what `uv_fs_sendfile` returns. -/
def start (w : World) (i : Nat) (op : Op) (seekRc rc : Int) : World :=
  let (seekRc, w) := w.seekFileDescriptor op.told seekRc
  let rc := if seekRc < 0 then seekRc else rc
  if rc < 0 then
    w.put i { op with phase := .returned (.error (.uvError rc "uv_fs_sendfile")) }
  else w.put i { op with phase := .queued }

/-- The closure of the stop callback; `taken` where `uv_cancel` comes before the pool. -/
def cancel (w : World) (i : Nat) (op : Op) (taken : Bool) : World :=
  match op.phase with
  | .posted =>
    w.put i { op with cancelRequested := true, phase := .returned (.error .operationCancelled) }
  | .queued =>
    let phase := if taken then .done UV_ECANCELED 0 else .queued
    w.put i { op with cancelRequested := true, phase }
  | .done _ _ => w.put i { op with cancelRequested := true }
  | .returned _ => w

/-- A thread of the pool writes `chunk` to where the target is. -/
def copy (w : World) (i : Nat) (op : Op) (chunk : Bytes) : World :=
  { w.put i { op with phase := .done 0 chunk.length } with
    offset := w.offset + chunk.length
    landed := w.landed ++ [{ op := i, position := w.offset, bytes := chunk }] }

/-- What the source may give to a copy. -/
def gives (w : World) (op : Op) (chunk : Bytes) : Bool :=
  decide (0 ≤ op.sourceOffset) && chunk.length ≤ op.maxBytes &&
    chunk.isPrefixOf ((w.sources op.source).content.drop op.sourceOffset.toNat)

/-- The callback, and `sendfile` after its await. -/
def finish (w : World) (i : Nat) (op : Op) (status : Int) (transferred : Nat) : World :=
  if status = UV_ECANCELED ∨ op.cancelRequested ∧ status = 0 then
    w.put i { op with phase := .returned (.error .operationCancelled) }
  else if status < 0 then
    w.put i { op with phase := .returned (.error (.uvError status "uv_fs_sendfile")) }
  else
    let w := w.seekSource op.source (op.sourceOffset + transferred)
    { w.put i { op with phase := .returned (.ok transferred) } with tell := w.tell + transferred }

end World

/-! ## The system -/

/-- `seek` is of the target; a request that fails has copied nothing. -/
inductive Label
  | seek (offset : Int)
  | call (source : Nat) (sourceOffset : Int) (maxBytes : Nat) (stopped : Bool)
  | start (i : Nat) (seekRc rc : Int)
  | cancel (i : Nat) (taken : Bool)
  | copy (i : Nat) (chunk : Bytes)
  | fail (i : Nat) (status : Int)
  | finish (i : Nat)

def step (w : World) : Label → Option World
  | .seek offset => some { w with tell := offset }
  | .call source sourceOffset maxBytes stopped =>
    some (w.call source sourceOffset maxBytes stopped)
  | .start i seekRc rc =>
    w.ops[i]?.bind fun op =>
      match op.phase with
      | .posted => some (w.start i op seekRc rc)
      | _ => none
  | .cancel i taken => w.ops[i]?.map fun op => w.cancel i op taken
  | .copy i chunk =>
    w.ops[i]?.bind fun op =>
      match op.phase with
      | .queued => if w.gives op chunk then some (w.copy i op chunk) else none
      | _ => none
  | .fail i status =>
    w.ops[i]?.bind fun op =>
      match op.phase with
      | .queued => if status < 0 then some (w.put i { op with phase := .done status 0 }) else none
      | _ => none
  | .finish i =>
    w.ops[i]?.bind fun op =>
      match op.phase with
      | .done status transferred => some (w.finish i op status transferred)
      | _ => none

/-- No call has been made yet; where the descriptor is does not matter. -/
def system : System World Label where
  init w := w.ops = [] ∧ w.landed = []
  step := step

/-- Whatever was written is where its call was told to write it. -/
def Lands (w : World) : Prop :=
  ∀ e ∈ w.landed, ∃ op, w.ops[e.op]? = some op ∧ op.told = e.position

/-- The start of a call comes while no other is in the queue of the pool. -/
def Good (w : World) : Label → Prop
  | .start _ _ _ => ∀ op ∈ w.ops, op.phase ≠ .queued
  | _ => True

/-- What every step keeps, a start under `Good`: the one request that is in the queue
finds the descriptor where its start has put it. -/
structure Kept (w : World) : Prop where
  lands : Lands w
  sought {i : Nat} {op : Op} : w.ops[i]? = some op → op.phase = .queued → op.told = w.offset
  alone {i j : Nat} {op op' : Op} : w.ops[i]? = some op → w.ops[j]? = some op' →
    op.phase = .queued → op'.phase = .queued → i = j

/-! ## Steps that leave the descriptor alone -/

/-- From `w` to `t` nothing is written and nothing is put into the queue of the pool. -/
structure Leaves (w t : World) : Prop where
  offset : t.offset = w.offset
  landed : t.landed = w.landed
  told {i : Nat} {op : Op} : w.ops[i]? = some op → ∃ op', t.ops[i]? = some op' ∧ op'.told = op.told
  queued {i : Nat} {op' : Op} : t.ops[i]? = some op' → op'.phase = .queued →
    ∃ op, w.ops[i]? = some op ∧ op.phase = .queued ∧ op'.told = op.told

variable {w t : World} {i : Nat} {op : Op}

theorem Leaves.lands (h : Leaves w t) (hw : Lands w) : Lands t := by
  intro e he
  rw [h.landed] at he
  obtain ⟨op, hop, hp⟩ := hw e he
  obtain ⟨op', hop', ht⟩ := h.told hop
  exact ⟨op', hop', ht.trans hp⟩

theorem Leaves.kept (h : Leaves w t) (hw : Kept w) : Kept t where
  lands := h.lands hw.lands
  sought hop hq := by
    obtain ⟨op, hw', hq', ht⟩ := h.queued hop hq
    rw [ht, h.offset]
    exact hw.sought hw' hq'
  alone hop hop' hq hq' := by
    obtain ⟨_, hw₁, hq₁, _⟩ := h.queued hop hq
    obtain ⟨_, hw₂, hq₂, _⟩ := h.queued hop' hq'
    exact hw.alone hw₁ hw₂ hq₁ hq₂

theorem getElem?_put (hop : w.ops[i]? = some op) (op' : Op) (j : Nat) :
    (w.put i op').ops[j]? = if i = j then some op' else w.ops[j]? := by
  have hlt := (List.getElem?_eq_some_iff.mp hop).1
  unfold World.put
  rw [List.getElem?_set]
  by_cases hij : i = j
  · rw [if_pos hij, if_pos hij, if_pos hlt]
  · rw [if_neg hij, if_neg hij]

theorem leaves_put (hop : w.ops[i]? = some op) {op' : Op} (ht : op'.told = op.told)
    (hq : op'.phase = .queued → op.phase = .queued) : Leaves w (w.put i op') where
  offset := rfl
  landed := rfl
  told {j x} hj := by
    rw [getElem?_put hop]
    by_cases hij : i = j
    · subst hij
      rw [if_pos rfl]
      rw [hop] at hj
      cases hj
      exact ⟨op', rfl, ht⟩
    · rw [if_neg hij]
      exact ⟨x, hj, rfl⟩
  queued {j x} hj hqx := by
    rw [getElem?_put hop] at hj
    by_cases hij : i = j
    · subst hij
      rw [if_pos rfl] at hj
      cases hj
      exact ⟨op, hop, hq hqx, ht⟩
    · rw [if_neg hij] at hj
      exact ⟨x, hj, hqx, rfl⟩

/-- A call is made; its request is not in the queue of the pool. -/
theorem leaves_append (hops : t.ops = w.ops ++ [op]) (ho : t.offset = w.offset)
    (hl : t.landed = w.landed) (hq : op.phase ≠ .queued) : Leaves w t where
  offset := ho
  landed := hl
  told {j x} hj := by
    have hlt := (List.getElem?_eq_some_iff.mp hj).1
    rw [hops, List.getElem?_append_left hlt]
    exact ⟨x, hj, rfl⟩
  queued {j x} hj hqx := by
    rw [hops, List.getElem?_append] at hj
    split at hj
    · exact ⟨x, hj, hqx, rfl⟩
    · have hmem := List.mem_of_getElem? hj
      rw [List.mem_singleton] at hmem
      subst hmem
      exact absurd hqx hq

theorem call_leaves (w : World) (source : Nat) (sourceOffset : Int) (maxBytes : Nat)
    (stopped : Bool) : Leaves w (w.call source sourceOffset maxBytes stopped) := by
  unfold World.call
  dsimp only
  split
  · exact leaves_append rfl rfl rfl (by simp)
  · split
    · exact leaves_append rfl rfl rfl (by simp)
    · exact leaves_append rfl rfl rfl (by simp)

theorem cancel_leaves (hop : w.ops[i]? = some op) (taken : Bool) :
    Leaves w (w.cancel i op taken) := by
  unfold World.cancel
  cases hp : op.phase with
  | posted => exact leaves_put hop rfl (by simp)
  | queued => exact leaves_put hop rfl fun _ => hp
  | done status n => exact leaves_put hop rfl (by simp)
  | returned r => exact ⟨rfl, rfl, fun h => ⟨_, h, rfl⟩, fun h hq => ⟨_, h, hq, rfl⟩⟩

theorem finish_leaves (hop : w.ops[i]? = some op) (status : Int) (n : Nat) :
    Leaves w (w.finish i op status n) := by
  unfold World.finish
  split
  · exact leaves_put hop rfl (by simp)
  · split
    · exact leaves_put hop rfl (by simp)
    · have h : Leaves w (w.put i { op with phase := .returned (.ok n) }) :=
        leaves_put hop rfl (by simp)
      exact ⟨h.offset, h.landed, h.told, h.queued⟩

/-! ## Steps of the descriptor -/

/-- A start that seeks. -/
theorem start_moves (w : World) (i : Nat) (op : Op) {seekRc : Int} (hp : ¬ op.told < 0)
    (hs : ¬ seekRc < 0) (rc : Int) :
    w.start i op seekRc rc = { w with offset := op.told.toNat }.put i
      { op with phase :=
          if rc < 0 then .returned (.error (.uvError rc "uv_fs_sendfile")) else .queued } := by
  have hz : ¬ (0 : Int) < 0 := Int.lt_irrefl 0
  unfold World.start World.seekFileDescriptor
  rw [if_neg hp, if_neg hs]
  dsimp only
  rw [if_neg hz]
  by_cases hr : rc < 0
  · rw [if_pos hr, if_pos hr]
  · rw [if_neg hr, if_neg hr]

/-- The start of a call: it fails, or the descriptor is where it was told. -/
theorem start_cases (w : World) (i : Nat) (op : Op) (seekRc rc : Int) :
    (∃ e u, (u = w ∨ ∃ p, u = { w with offset := p }) ∧
      w.start i op seekRc rc = u.put i { op with phase := .returned (.error e) }) ∨
    ∃ p : Nat, op.told = p ∧
      w.start i op seekRc rc = { w.put i { op with phase := .queued } with offset := p } := by
  by_cases hneg : op.told < 0
  · refine .inl ⟨.uvError UV_EINVAL "uv_fs_sendfile", w, .inl rfl, ?_⟩
    unfold World.start World.seekFileDescriptor
    rw [if_pos hneg]
    rfl
  by_cases hrc : seekRc < 0
  · refine .inl ⟨.uvError seekRc "uv_fs_sendfile", w, .inl rfl, ?_⟩
    unfold World.start World.seekFileDescriptor
    rw [if_neg hneg, if_pos hrc]
    dsimp only
    rw [if_pos hrc, if_pos hrc]
  rw [start_moves w i op hneg hrc]
  by_cases hr : rc < 0
  · rw [if_pos hr]
    exact .inl ⟨_, _, .inr ⟨_, rfl⟩, rfl⟩
  · rw [if_neg hr]
    exact .inr ⟨op.told.toNat, by omega, rfl⟩

theorem start_kept (h : Kept w) (hg : ∀ x ∈ w.ops, x.phase ≠ .queued)
    (hop : w.ops[i]? = some op) (seekRc rc : Int) : Kept (w.start i op seekRc rc) := by
  have hidle : ∀ {j : Nat} {x : Op}, w.ops[j]? = some x → x.phase ≠ .queued :=
    fun hj => hg _ (List.mem_of_getElem? hj)
  obtain ⟨e, u, hu, ht⟩ | ⟨p, hp, ht⟩ := start_cases w i op seekRc rc
  · have hleaves : Leaves w (w.put i { op with phase := .returned (.error e) }) :=
      leaves_put hop rfl (by simp)
    have hlands := hleaves.lands h.lands
    have hnone : ∀ {j : Nat} {x : Op}, (w.put i { op with phase := .returned (.error e) }).ops[j]? =
        some x → x.phase ≠ .queued := by
      intro j x hj hq
      obtain ⟨y, hy, hqy, _⟩ := hleaves.queued hj hq
      exact hidle hy hqy
    rw [ht]
    obtain rfl | ⟨p, rfl⟩ := hu
    · exact hleaves.kept h
    · exact ⟨hlands, fun hj hq => absurd hq (hnone hj), fun hj _ hq _ => absurd hq (hnone hj)⟩
  · rw [ht]
    have hthis : ∀ {j : Nat} {x : Op}, (w.put i { op with phase := .queued }).ops[j]? = some x →
        x.phase = .queued → i = j ∧ x.told = p := by
      intro j x hj hq
      rw [getElem?_put hop] at hj
      by_cases hij : i = j
      · rw [if_pos hij] at hj
        cases hj
        exact ⟨hij, hp⟩
      · rw [if_neg hij] at hj
        exact absurd hq (hidle hj)
    refine ⟨fun e he => ?_, fun hj hq => (hthis hj hq).2, fun hj hk hq hq' =>
      (hthis hj hq).1.symm.trans (hthis hk hq').1⟩
    obtain ⟨x, hx, hpos⟩ := h.lands e he
    by_cases hij : i = e.op
    · have hxo : x = op := by
        rw [← hij, hop] at hx
        exact (Option.some.inj hx).symm
      refine ⟨{ op with phase := .queued }, ?_, hxo ▸ hpos⟩
      exact (getElem?_put hop _ _).trans (if_pos hij)
    · exact ⟨x, ((getElem?_put hop _ _).trans (if_neg hij)).trans hx, hpos⟩

theorem copy_kept (h : Kept w) (hop : w.ops[i]? = some op) (hq : op.phase = .queued)
    (chunk : Bytes) : Kept (w.copy i op chunk) := by
  have hleaves : Leaves w (w.put i { op with phase := .done 0 chunk.length }) :=
    leaves_put hop rfl (by simp)
  have hnone : ∀ {j : Nat} {x : Op}, (w.copy i op chunk).ops[j]? = some x → x.phase ≠ .queued := by
    intro j x hj hqx
    change (w.put i _).ops[j]? = some x at hj
    obtain ⟨y, hy, hqy, _⟩ := hleaves.queued hj hqx
    have hij := h.alone hop hy hq hqy
    rw [getElem?_put hop, if_pos hij] at hj
    cases hj
    cases hqx
  refine ⟨fun e he => ?_, fun hj hq => absurd hq (hnone hj), fun hj _ hq _ => absurd hq (hnone hj)⟩
  change e ∈ w.landed ++ [_] at he
  rw [List.mem_append, List.mem_singleton] at he
  obtain he | rfl := he
  · exact hleaves.lands h.lands e he
  · have hsought : op.told = w.offset := h.sought hop hq
    refine ⟨{ op with phase := .done 0 chunk.length }, ?_, hsought⟩
    exact (getElem?_put hop _ _).trans (if_pos rfl)

/-- One step, with the cases of its label. -/
theorem step_kept (h : Kept w) {l : Label} (hg : Good w l) (hs : step w l = some t) : Kept t := by
  cases l with
  | seek offset =>
    cases hs
    exact ⟨h.lands, h.sought, h.alone⟩
  | call source sourceOffset maxBytes stopped =>
    cases hs
    exact (call_leaves w source sourceOffset maxBytes stopped).kept h
  | start i seekRc rc =>
    obtain ⟨op, hop, hs⟩ := Option.bind_eq_some_iff.mp hs
    cases hp : op.phase with
    | posted =>
      rw [hp] at hs
      cases hs
      exact start_kept h hg hop seekRc rc
    | queued | done | returned =>
      rw [hp] at hs
      cases hs
  | cancel i taken =>
    obtain ⟨op, hop, rfl⟩ := Option.map_eq_some_iff.mp hs
    exact (cancel_leaves hop taken).kept h
  | copy i chunk =>
    obtain ⟨op, hop, hs⟩ := Option.bind_eq_some_iff.mp hs
    cases hp : op.phase with
    | queued =>
      rw [hp] at hs
      obtain ⟨_, hs⟩ := Option.ite_none_right_eq_some.mp hs
      cases hs
      exact copy_kept h hop hp chunk
    | posted | done | returned =>
      rw [hp] at hs
      cases hs
  | fail i status =>
    obtain ⟨op, hop, hs⟩ := Option.bind_eq_some_iff.mp hs
    cases hp : op.phase with
    | queued =>
      rw [hp] at hs
      obtain ⟨_, hs⟩ := Option.ite_none_right_eq_some.mp hs
      cases hs
      have hleaves : Leaves w (w.put i { op with phase := .done status 0 }) :=
        leaves_put hop rfl (by simp)
      exact hleaves.kept h
    | posted | done | returned =>
      rw [hp] at hs
      cases hs
  | finish i =>
    obtain ⟨op, hop, hs⟩ := Option.bind_eq_some_iff.mp hs
    cases hp : op.phase with
    | done status n =>
      rw [hp] at hs
      cases hs
      exact (finish_leaves hop status n).kept h
    | posted | queued | returned =>
      rw [hp] at hs
      cases hs

theorem kept (h : ReachableBy system Good w) : Kept w := by
  refine h.invariant ?_ fun s l t _ hI hg hs => step_kept hI hg hs
  intro s h0
  obtain ⟨hops, hl⟩ := h0
  refine ⟨fun e he => ?_, fun hop => ?_, fun hop => ?_⟩
  · rw [hl] at he
    cases he
  · rw [hops] at hop
    cases hop
  · rw [hops] at hop
    cases hop

/-! ## Where the bytes land -/

/-- Another start moves the descriptor under a request that is in the queue. -/
theorem lands_elsewhere {op' : Op} {j : Nat} {seekRc rc : Int} {chunk : Bytes} {u : World}
    (hop : w.ops[i]? = some op) (hq : op.phase = .queued) (hop' : w.ops[j]? = some op')
    (hne : op'.told ≠ op.told) (h0 : ¬ op'.told < 0) (hseek : ¬ seekRc < 0)
    (hs : step w (.start j seekRc rc) = some t) (hc : step t (.copy i chunk) = some u) :
    ¬ Lands u := by
  unfold step at hs hc
  dsimp only at hs hc
  rw [hop'] at hs
  obtain ⟨x, hx, hs⟩ := Option.bind_eq_some_iff.mp hs
  cases hx
  cases hp : op'.phase with
  | posted =>
    rw [hp] at hs
    cases hs
    have hij : j ≠ i := by
      intro he
      rw [he, hop] at hop'
      cases hop'
      rw [hq] at hp
      cases hp
    rw [start_moves w j op' h0 hseek rc] at hc
    generalize hx : { op' with phase := _ } = x at hc
    have hget : ({ w with offset := op'.told.toNat }.put j x).ops[i]? = some op :=
      ((getElem?_put hop' x i).trans (if_neg hij)).trans hop
    rw [hget, Option.bind_some, hq] at hc
    obtain ⟨_, hc⟩ := Option.ite_none_right_eq_some.mp hc
    cases hc
    intro hl
    obtain ⟨y, hy, hpos⟩ := hl { op := i, position := op'.told.toNat, bytes := chunk }
      (List.mem_append_right _ (List.mem_singleton_self _))
    have hyop : y.told = op.told := by
      have hself := (getElem?_put hget { op with phase := .done 0 chunk.length } i).trans (if_pos rfl)
      have hsame := hself.symm.trans hy
      cases hsame
      rfl
    refine hne ?_
    rw [← hyop, hpos]
    dsimp only
    omega
  | queued | done | returned =>
    rw [hp] at hs
    cases hs

/-- In every run in which no start comes while another request is in the queue; and
wherever a start does come between, with another position, what is copied next lands
there. -/
theorem sendfile_lands (h : ReachableBy system Good w) :
    Lands w ∧
    (∀ i chunk t, step w (.copy i chunk) = some t → ∃ op p, w.ops[i]? = some op ∧
      op.told = (p : Nat) ∧ t.content = overlay w.content p chunk) ∧
    ∀ i op j op' seekRc rc chunk t u, w.ops[i]? = some op → op.phase = .queued →
      w.ops[j]? = some op' → op'.told ≠ op.told → ¬ op'.told < 0 → ¬ seekRc < 0 →
      step w (.start j seekRc rc) = some t → step t (.copy i chunk) = some u → ¬ Lands u := by
  refine ⟨(kept h).lands, fun i chunk t hs => ?_, fun i op j op' seekRc rc chunk t u => lands_elsewhere⟩
  obtain ⟨op, hop, hs⟩ := Option.bind_eq_some_iff.mp hs
  refine ⟨op, w.offset, hop, ?_⟩
  cases hp : op.phase with
  | queued =>
    rw [hp] at hs
    obtain ⟨_, hs⟩ := Option.ite_none_right_eq_some.mp hs
    cases hs
    refine ⟨(kept h).sought hop hp, ?_⟩
    unfold World.content World.copy
    exact List.foldl_concat _ _ _ _
  | posted | done | returned =>
    rw [hp] at hs
    cases hs

/-- A file of ten bytes that is sent to a new one. -/
def tenBytes : World := { sources := fun _ => { content := List.replicate 10 1 } }

theorem good_start {x y : Op} {seekRc rc : Int} (hops : w.ops = [x, y]) (hx : x.phase ≠ .queued)
    (hy : y.phase ≠ .queued) : Good w (.start i seekRc rc) := by
  intro op hop
  rw [hops, List.mem_pair] at hop
  obtain rfl | rfl := hop
  · exact hx
  · exact hy

/-- Two calls, at 0 and at 100; the second starts when the first has been copied. -/
theorem sendfile_lands_one_by_one : ∃ w, ReachableBy system Good w ∧ Lands w ∧
    w.landed.map Landing.position = [0, 100] := by
  have h₀ : ReachableBy system Good tenBytes := .init ⟨rfl, rfl⟩
  have h₁ := h₀.step (l := .call 0 0 10 false) (by exact trivial) rfl
  have h₂ := h₁.step (l := .seek 100) (by exact trivial) rfl
  have h₃ := h₂.step (l := .call 0 0 10 false) (by exact trivial) rfl
  have h₄ := h₃.step (l := .start 0 0 0) (good_start rfl (by simp) (by simp)) rfl
  have h₅ := h₄.step (l := .copy 0 [1, 1]) (by exact trivial) rfl
  have h₆ := h₅.step (l := .start 1 0 0) (good_start rfl (by simp) (by simp)) rfl
  have h₇ := h₆.step (l := .copy 1 [1]) (by exact trivial) rfl
  exact ⟨_, h₇, (sendfile_lands h₇).1, rfl⟩

/-- Two calls, at 0 and at 100; the bytes of the first are written at 100. -/
theorem sendfile_lands_at_other : ∃ w, Reachable system w ∧ ¬ Lands w := by
  have h0 : Reachable system tenBytes := .init ⟨rfl, rfl⟩
  have hrun : run system tenBytes [.call 0 0 10 false, .seek 100, .call 0 0 10 false,
      .start 0 0 0, .start 1 0 0, .copy 0 [1]] = some _ := rfl
  refine ⟨_, h0.run hrun, fun hl => ?_⟩
  obtain ⟨op, hop, hpos⟩ := hl _ (List.mem_singleton_self _)
  cases hop
  cases hpos

end LuvCoro.Sendfile
