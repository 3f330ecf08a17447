import Mathlib.Logic.Function.Basic

/-! # The handles of an event loop

The memory of a handle is its user's until it is initialised and the loop's from
then on: the loop keeps it in its list until a close was asked for and the close
callback has run. So a handle that was initialised may be deleted by the callback
of its close and nowhere else. The loop below lets its user do anything, and
keeps a history for each handle; `Tracked` says of a user what it holds. -/
namespace HandleLoop

abbrev Handle := Nat

/-- What the callback of a close does with the handle. -/
inductive Callback
  | deletes
  | nothing
  deriving DecidableEq

inductive Place
  | direct
  | closeCallback
  deriving DecidableEq

inductive Event
  | initialised
  | closeIssued (callback : Callback)
  | deleted (place : Place)
  deriving DecidableEq

inductive Stage
  | unallocated
  | allocated
  | linked
  | closing (callback : Callback)
  | closed
  deriving DecidableEq

namespace Event

def isDeletion : Event → Bool
  | deleted _ => true
  | _ => false

end Event

/-- `next` is the handle that is allocated next; a history has its latest event first. -/
structure Loop where
  next : Handle := 0
  stage : Handle → Stage := fun _ => .unallocated
  history : Handle → List Event := fun _ => []

namespace Loop

def allocate (l : Loop) : Loop :=
  { l with next := l.next + 1, stage := Function.update l.stage l.next .allocated }

def initialise (l : Loop) (h : Handle) : Loop :=
  { l with
    stage := Function.update l.stage h .linked
    history := Function.update l.history h (.initialised :: l.history h) }

def close (l : Loop) (callback : Callback) (h : Handle) : Loop :=
  { l with
    stage := Function.update l.stage h (.closing callback)
    history := Function.update l.history h (.closeIssued callback :: l.history h) }

def delete (l : Loop) (place : Place) (h : Handle) : Loop :=
  { l with history := Function.update l.history h (.deleted place :: l.history h) }

/-- Whether the loop has a handle in its list. -/
def listed (l : Loop) (h : Handle) : Bool :=
  match l.stage h with
  | .linked | .closing _ => true
  | _ => false

def freed (l : Loop) (h : Handle) : Bool := (l.history h).any Event.isDeletion

def closeIssued (l : Loop) (h : Handle) : Bool :=
  match l.stage h with
  | .closing _ | .closed => true
  | _ => false

/-- What a user reads of the flags of a handle. Once the handle is freed this may
be anything: it is what `stale` says. -/
def isClosing (l : Loop) (stale : Handle → Bool) (h : Handle) : Bool :=
  if l.freed h then stale h else l.closeIssued h

def closeOnce (stale : Handle → Bool) (callback : Callback) (l : Loop) (h : Handle) : Loop :=
  if l.isClosing stale h then l else l.close callback h

/-- The loop runs the callback of a close. -/
def runCallback (l : Loop) (h : Handle) : Option Loop :=
  match l.stage h with
  | .closing .deletes =>
    some ({ l with stage := Function.update l.stage h .closed }.delete .closeCallback h)
  | .closing .nothing => some { l with stage := Function.update l.stage h .closed }
  | _ => none

/-- Close whatever is in the list of the loop, without a callback. -/
def walk (stale : Handle → Bool) (l : Loop) : Loop :=
  (List.range l.next).foldl
    (fun l h => if l.listed h then l.closeOnce stale .nothing h else l) l

end Loop

/-- A handle is deleted at most once, and only inside the callback of a close that
was issued for it. -/
structure Disposed (es : List Event) : Prop where
  once : (es.filter Event.isDeletion).length ≤ 1
  inCallback : ∀ later place earlier, es = later ++ .deleted place :: earlier →
    place = .closeCallback ∧ .closeIssued .deletes ∈ earlier

theorem not_disposed {es : List Event} (h : .deleted .direct ∈ es) : ¬ Disposed es := by
  intro hd
  obtain ⟨later, earlier, rfl⟩ := List.append_of_mem h
  have hplace := (hd.inCallback later .direct earlier rfl).1
  cases hplace

/-! ## The life of a handle -/

/-- How far a handle can be, with its history, when its user has `n` references to it. -/
inductive Life : Stage → List Event → Nat → Prop
  | unused : Life .unallocated [] 0
  | failed : Life .allocated [.deleted .direct] 0
  | held {n : Nat} : n ≤ 1 → Life .linked [.initialised] n
  | closing : Life (.closing .deletes) [.closeIssued .deletes, .initialised] 0
  | disposed :
    Life .closed [.deleted .closeCallback, .closeIssued .deletes, .initialised] 0
  | abandoned {n : Nat} {st : Stage} : n ≤ 1 → st = .closing .nothing ∨ st = .closed →
    Life st [.closeIssued .nothing, .initialised] n

namespace Life

variable {st : Stage} {es : List Event} {n m : Nat}

theorem mono (h : Life st es n) (hle : m ≤ n) : Life st es m := by
  cases h with
  | unused =>
    obtain rfl : m = 0 := by omega
    exact .unused
  | failed =>
    obtain rfl : m = 0 := by omega
    exact .failed
  | held hn => exact .held (by omega)
  | closing =>
    obtain rfl : m = 0 := by omega
    exact .closing
  | disposed =>
    obtain rfl : m = 0 := by omega
    exact .disposed
  | abandoned hn hst => exact .abandoned (by omega) hst

theorem le_one (h : Life st es n) : n ≤ 1 := by
  cases h <;> omega

/-- A user has no reference to a handle whose memory is gone. -/
theorem not_freed (h : Life st es n) (hn : 1 ≤ n) : es.any Event.isDeletion = false := by
  cases h with
  | unused => omega
  | failed => omega
  | held => rfl
  | closing => rfl
  | disposed => omega
  | abandoned => rfl

theorem initialised (h : Life st es n) (hn : 1 ≤ n) : .initialised ∈ es := by
  cases h with
  | unused => omega
  | failed => omega
  | held => simp
  | closing => omega
  | disposed => omega
  | abandoned => simp

theorem not_freed_of_closing {callback : Callback} (h : Life (.closing callback) es n) :
    es.any Event.isDeletion = false := by
  cases h <;> rfl

theorem disposed_of_initialised (h : Life st es n) (hi : .initialised ∈ es) : Disposed es := by
  cases h with
  | unused => cases hi
  | failed => simp at hi
  | held =>
    refine ⟨by simp [Event.isDeletion], fun later place earlier he => ?_⟩
    have hm : Event.deleted place ∈ [Event.initialised] := by simp [he]
    simp at hm
  | closing =>
    refine ⟨by simp [Event.isDeletion], fun later place earlier he => ?_⟩
    have hm : Event.deleted place ∈ [Event.closeIssued .deletes, .initialised] := by simp [he]
    simp at hm
  | disposed =>
    refine ⟨by decide, fun later place earlier he => ?_⟩
    cases later with
    | nil =>
      simp only [List.nil_append, List.cons.injEq, Event.deleted.injEq] at he
      exact ⟨he.1.symm, by simp [← he.2]⟩
    | cons e later =>
      have hm : Event.deleted place ∈ [Event.closeIssued .deletes, .initialised] := by
        simp only [List.cons_append, List.cons.injEq] at he
        simp [he.2]
      simp at hm
  | abandoned =>
    refine ⟨by simp [Event.isDeletion], fun later place earlier he => ?_⟩
    have hm : Event.deleted place ∈ [Event.closeIssued .nothing, .initialised] := by simp [he]
    simp at hm

end Life

/-! ## What a user holds -/

/-- `held` counts the references that the user of a loop has to each handle. -/
structure Tracked (l : Loop) (held : Handle → Nat) : Prop where
  life : ∀ h, Life (l.stage h) (l.history h) (held h)
  fresh : ∀ h, l.next ≤ h → l.stage h = .unallocated

namespace Tracked

variable {l : Loop} {held held' : Handle → Nat} {stale : Handle → Bool}

theorem init : Tracked {} fun _ => 0 := ⟨fun _ => .unused, fun _ _ => rfl⟩

theorem mono (ht : Tracked l held) (hle : ∀ x, held' x ≤ held x) : Tracked l held' :=
  ⟨fun h => (ht.life h).mono (hle h), ht.fresh⟩

/-- What is known of the next handle. -/
theorem unused (ht : Tracked l held) :
    l.history l.next = [] ∧ held l.next = 0 := by
  have hl := ht.life l.next
  rw [ht.fresh l.next (Nat.le_refl _)] at hl
  generalize l.history l.next = es at hl
  generalize held l.next = n at hl
  cases hl with
  | unused => exact ⟨rfl, rfl⟩
  | abandoned _ hst => simp at hst

/-- One handle is moved on, and the others are as before. -/
theorem change {l' : Loop} {h : Handle} (ht : Tracked l held) (hn : l'.next = l.next)
    (hst : ∀ x, x ≠ h → l'.stage x = l.stage x)
    (hes : ∀ x, x ≠ h → l'.history x = l.history x)
    (hlife : Life (l'.stage h) (l'.history h) (held' h))
    (hlt : l.stage h ≠ .unallocated) (hle : ∀ x, x ≠ h → held' x ≤ held x) :
    Tracked l' held' := by
  constructor
  · intro x
    by_cases hx : x = h
    · rw [hx]
      exact hlife
    · rw [hst x hx, hes x hx]
      exact (ht.life x).mono (hle x hx)
  · intro x hxn
    rw [hn] at hxn
    have hx : x ≠ h := fun hx => hlt (hx ▸ ht.fresh x hxn)
    rw [hst x hx]
    exact ht.fresh x hxn

/-- The initialisation of a new handle has failed, and its memory is given back. -/
theorem fail (ht : Tracked l held) : Tracked (l.allocate.delete .direct l.next) held := by
  obtain ⟨he, hz⟩ := ht.unused
  constructor
  · intro x
    by_cases hx : x = l.next
    · subst hx
      simp only [Loop.delete, Loop.allocate, Function.update_self, he, hz]
      exact .failed
    · simp only [Loop.delete, Loop.allocate, Function.update_of_ne hx]
      exact ht.life x
  · intro x hxn
    have hx : x ≠ l.next := Nat.ne_of_gt hxn
    simp only [Loop.delete, Loop.allocate, Function.update_of_ne hx]
    exact ht.fresh x (Nat.le_of_succ_le hxn)

/-- The user has a reference to a handle that it has just initialised. -/
theorem initialise (ht : Tracked l held) (hle : ∀ x, held' x ≤ held x + [l.next].count x) :
    Tracked (l.allocate.initialise l.next) held' := by
  obtain ⟨he, hz⟩ := ht.unused
  constructor
  · intro x
    have hx' := hle x
    by_cases hx : x = l.next
    · subst hx
      simp only [Loop.initialise, Loop.allocate, Function.update_self, he]
      rw [hz] at hx'
      exact .held (by simpa using hx')
    · simp only [Loop.initialise, Loop.allocate, Function.update_of_ne hx]
      refine (ht.life x).mono ?_
      simpa [List.count_singleton, Ne.symm hx] using hx'
  · intro x hxn
    have hx : x ≠ l.next := Nat.ne_of_gt hxn
    simp only [Loop.initialise, Loop.allocate, Function.update_of_ne hx]
    exact ht.fresh x (Nat.le_of_succ_le hxn)

/-- The user gives up its reference to a handle that is not closing, and closes it. -/
theorem close {h : Handle} (ht : Tracked l held) (hh : 1 ≤ held h)
    (hc : l.closeIssued h = false) (hle : ∀ x, held' x + [h].count x ≤ held x) :
    Tracked (l.close .deletes h) held' := by
  have hl := ht.life h
  have h0 : held' h = 0 := by
    have hone := hl.le_one
    have hle := hle h
    simp only [List.count_singleton_self] at hle
    omega
  refine ht.change (h := h) rfl (fun x hx => ?_) (fun x hx => ?_) ?_ ?_ fun x _ => ?_
  · exact Function.update_of_ne hx _ _
  · exact Function.update_of_ne hx _ _
  · unfold Loop.closeIssued at hc
    simp only [Loop.close, Function.update_self, h0]
    generalize l.stage h = st at hl hc
    generalize l.history h = es at hl
    generalize held h = n at hl hh
    cases hl with
    | unused => omega
    | failed => omega
    | held => exact .closing
    | closing => cases hc
    | disposed => cases hc
    | abandoned _ hst =>
      obtain rfl | rfl := hst
      · cases hc
      · cases hc
  · intro hu
    rw [hu] at hl
    generalize l.history h = es at hl
    generalize held h = n at hl hh
    cases hl with
    | unused => omega
    | abandoned _ hst => simp at hst
  · have := hle x
    omega

theorem closeOnce {h : Handle} (ht : Tracked l held) (hh : 1 ≤ held h)
    (hle : ∀ x, held' x + [h].count x ≤ held x) :
    Tracked (l.closeOnce stale .deletes h) held' := by
  have hf : l.freed h = false := (ht.life h).not_freed hh
  unfold Loop.closeOnce
  split
  · exact ht.mono fun x => by have := hle x; omega
  · rename_i hc
    simp only [Loop.isClosing, hf, Bool.false_eq_true, if_false, Bool.not_eq_true] at hc
    exact ht.close hh hc hle

theorem closeAll {hs : List Handle} (ht : Tracked l held)
    (hle : ∀ x, held' x + hs.count x ≤ held x) :
    Tracked (hs.foldl (Loop.closeOnce stale .deletes) l) held' := by
  induction hs generalizing l held with
  | nil => exact ht.mono fun x => by simpa using hle x
  | cons h hs ih =>
    rw [List.foldl_cons]
    have hrest : Tracked (l.closeOnce stale .deletes h) fun x => held' x + hs.count x := by
      refine ht.closeOnce ?_ fun x => ?_
      · have := hle h
        simp only [List.count_cons_self] at this
        omega
      · have := hle x
        rw [List.count_cons] at this
        rw [List.count_singleton]
        omega
    exact ih hrest fun x => Nat.le_refl _

/-- A close without a callback: the handle is never deleted, whoever refers to it. -/
theorem closeListed {h : Handle} (ht : Tracked l held) (hl : l.listed h = true) :
    Tracked (l.closeOnce stale .nothing h) held := by
  unfold Loop.closeOnce
  split
  · exact ht
  rename_i hc
  have hlife := ht.life h
  have hcl : l.stage h = .linked := by
    unfold Loop.listed at hl
    split at hl
    · assumption
    · rename_i hs
      rw [hs] at hlife
      simp [Loop.isClosing, Loop.freed, Loop.closeIssued, hs, hlife.not_freed_of_closing] at hc
    · cases hl
  refine ht.change (h := h) rfl (fun x hx => ?_) (fun x hx => ?_) ?_ ?_ fun x _ => Nat.le_refl _
  · exact Function.update_of_ne hx _ _
  · exact Function.update_of_ne hx _ _
  · simp only [Loop.close, Function.update_self]
    rw [hcl] at hlife
    generalize l.history h = es at hlife
    generalize held h = n at hlife
    cases hlife with
    | held hn => exact .abandoned hn (.inl rfl)
    | abandoned _ hst => simp at hst
  · rw [hcl]
    simp

theorem walk (ht : Tracked l held) : Tracked (l.walk stale) held := by
  unfold Loop.walk
  generalize List.range l.next = hs
  induction hs generalizing l with
  | nil => exact ht
  | cons h hs ih =>
    rw [List.foldl_cons]
    split
    · rename_i hl
      exact ih (ht.closeListed hl)
    · exact ih ht

theorem runCallback {l' : Loop} {h : Handle} (ht : Tracked l held)
    (hr : l.runCallback h = some l') : Tracked l' held := by
  have hlife := ht.life h
  unfold Loop.runCallback at hr
  split at hr
  · rename_i hs
    cases hr
    refine ht.change (h := h) rfl (fun x hx => ?_) (fun x hx => ?_) ?_ ?_ fun x _ => Nat.le_refl _
    · exact Function.update_of_ne hx _ _
    · exact Function.update_of_ne hx _ _
    · simp only [Loop.delete, Function.update_self]
      rw [hs] at hlife
      generalize l.history h = es at hlife
      generalize held h = n at hlife
      cases hlife with
      | closing => exact .disposed
      | abandoned _ hst => simp at hst
    · rw [hs]
      simp
  · rename_i hs
    cases hr
    refine ht.change (h := h) rfl (fun x hx => ?_) (fun x hx => rfl) ?_ ?_ fun x _ => Nat.le_refl _
    · exact Function.update_of_ne hx _ _
    · simp only [Function.update_self]
      rw [hs] at hlife
      generalize l.history h = es at hlife
      generalize held h = n at hlife
      cases hlife with
      | abandoned hn _ => exact .abandoned hn (.inr rfl)
    · rw [hs]
      simp
  · cases hr

/-- Whatever the user did, each handle that it has initialised is disposed of properly. -/
theorem disposed (ht : Tracked l held) {h : Handle} (hi : .initialised ∈ l.history h) :
    Disposed (l.history h) := (ht.life h).disposed_of_initialised hi

end Tracked

end HandleLoop
