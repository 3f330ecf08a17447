import LuvCoro.Handles.System
import Mathlib.Data.List.Perm.Basic

/-! # No handle is deleted outside its close callback

Each handle that is initialised has one owner: an object, a closure on its way to
close it, or the call that is about to store it. What closes a handle gives up the
reference, so its callback is the only one left to delete it. -/
namespace LuvCoro.Handles

open Transition HandleLoop

/-! ## Who refers to a handle -/

def State.held (s : State) (x : Handle) : Nat :=
  (s.objects.flatMap Object.handles).count x + (s.queue.flatMap Closure.handles).count x +
    (s.returned.map Prod.snd).count x

theorem count_flatMap_set {α : Type} (f : α → List Handle) {xs : List α} {i : Nat} {a : α}
    (hi : xs[i]? = some a) (b : α) (x : Handle) :
    ((xs.set i b).flatMap f).count x + (f a).count x =
      (xs.flatMap f).count x + (f b).count x := by
  induction xs generalizing i with
  | nil => simp at hi
  | cons y ys ih =>
    cases i with
    | zero =>
      simp only [List.getElem?_cons_zero, Option.some.injEq] at hi
      simp only [List.set_cons_zero, List.flatMap_cons, List.count_append, hi]
      omega
    | succ i =>
      simp only [List.getElem?_cons_succ] at hi
      have := ih hi
      simp only [List.set_cons_succ, List.flatMap_cons, List.count_append]
      omega

namespace State

variable {s : State} {o : ObjectId} {x : Handle}

@[simp] theorem held_fail (e : Error) : (s.fail e).held x = s.held x := rfl

theorem held_put {a : Object} (ho : s.objects[o]? = some a) (b : Object) (x : Handle) :
    (s.put o b).held x + a.handles.count x = s.held x + b.handles.count x := by
  have := count_flatMap_set Object.handles ho b x
  simp only [held, put]
  omega

/-- `put`, where the object keeps its handles or gives some of them up. -/
theorem held_put_le {a b : Object} (ho : s.objects[o]? = some a)
    (hle : b.handles.count x ≤ a.handles.count x) : (s.put o b).held x ≤ s.held x := by
  have := held_put ho b x
  omega

theorem held_tryPost (k : Closure) :
    (s.tryPost k).held x ≤ s.held x + k.handles.count x := by
  unfold tryPost
  split
  · omega
  · simp only [held, List.flatMap_append, List.flatMap_singleton, List.count_append]
    omega

theorem held_post (k : Closure) : (s.post k).held x ≤ s.held x + k.handles.count x := by
  unfold post
  split
  · simp
  · simp only [held, List.flatMap_append, List.flatMap_singleton, List.count_append]
    omega

theorem held_push (k : Closure) :
    { s with queue := k :: s.queue }.held x = s.held x + k.handles.count x := by
  simp only [held, List.flatMap_cons, List.count_append]
  omega

theorem held_call (here : Bool) (k : Closure) :
    (s.call here k).held x ≤ s.held x + k.handles.count x := by
  unfold call
  split
  · exact Nat.le_of_eq (held_push k)
  · exact held_post k

theorem held_tryCall (here : Bool) (k : Closure) :
    (s.tryCall here k).held x ≤ s.held x + k.handles.count x := by
  unfold tryCall
  split
  · exact Nat.le_of_eq (held_push k)
  · exact held_tryPost k

theorem loop_tryPost (k : Closure) : (s.tryPost k).loop = s.loop := by
  unfold tryPost
  split <;> rfl

theorem loop_post (k : Closure) : (s.post k).loop = s.loop := by
  unfold post
  split <;> rfl

theorem loop_call (here : Bool) (k : Closure) : (s.call here k).loop = s.loop := by
  unfold call
  split
  · rfl
  · exact loop_post k

theorem loop_tryCall (here : Bool) (k : Closure) : (s.tryCall here k).loop = s.loop := by
  unfold tryCall
  split
  · rfl
  · exact loop_tryPost k

end State

/-- What a method does before its closure runs: the loop is left alone, and no
reference is made. -/
structure Quiet (s t : State) : Prop where
  loop : t.loop = s.loop
  held : ∀ x, t.held x ≤ s.held x

theorem Quiet.refl (s : State) : Quiet s s := ⟨rfl, fun _ => Nat.le_refl _⟩

theorem Quiet.fail (s : State) (e : Error) : Quiet s (s.fail e) := ⟨rfl, fun _ => Nat.le_refl _⟩

theorem Quiet.tracked {s t : State} (hq : Quiet s t) (ht : Tracked s.loop s.held) :
    Tracked t.loop t.held := by
  rw [hq.loop]
  exact ht.mono hq.held

/-- A call whose closure has no handle. -/
theorem Quiet.call {s : State} {here : Bool} {k : Closure} (hk : k.handles = []) :
    Quiet s (s.call here k) := by
  refine ⟨State.loop_call here k, fun x => ?_⟩
  have := State.held_call (s := s) (x := x) here k
  simpa [hk] using this

theorem Quiet.put {s : State} {o : ObjectId} {a b : Object} (ho : s.objects[o]? = some a)
    (hb : b.handles = a.handles) : Quiet s (s.put o b) :=
  ⟨rfl, fun _ => State.held_put_le ho (Nat.le_of_eq (by rw [hb]))⟩

/-! ## Methods -/

theorem SignalSet.add_quiet (set : SignalSet) (s : State) (here : Bool) (o : ObjectId)
    (signum : Int) : Quiet s (set.add s here o signum) := by
  unfold SignalSet.add
  split
  · exact Quiet.call rfl
  · exact Quiet.fail s _

theorem SignalSet.close_quiet {set : SignalSet} {s : State} {o : ObjectId}
    (ho : s.objects[o]? = some (.signalSet set)) : Quiet s (set.close s o) := by
  unfold SignalSet.close
  split
  · refine ⟨State.loop_tryPost _, fun x => ?_⟩
    have hput := State.held_put ho
      (.signalSet { set with state := false, closed := true, entries := [] }) x
    have hpost := State.held_tryPost (s := s.put o
      (.signalSet { set with state := false, closed := true, entries := [] })) (x := x)
      (.closeEntries (set.entries.map Prod.snd))
    simp only [Object.handles, Closure.handles, List.map_nil, List.count_nil] at hput hpost
    omega
  · exact Quiet.refl s

theorem Client.close_quiet {k : Stream} {c : Client} {s : State} {o : ObjectId}
    (ho : s.objects[o]? = some (.client k c)) : Quiet s (c.close k s o) := by
  unfold Client.close
  split
  · exact Quiet.refl s
  · rename_i h hc
    refine ⟨State.loop_tryPost _, fun x => ?_⟩
    have hput := State.held_put ho (.client k {}) x
    have hpost := State.held_tryPost (s := s.put o (.client k {})) (x := x) (.closeHandle h)
    simp only [Object.handles, Closure.handles, hc, Option.toList, List.count_nil] at hput hpost
    omega

/-- After `close` the object has no handle, and the other objects are as before. -/
theorem Client.close_objects {k : Stream} {c : Client} {s : State} {o : ObjectId}
    (ho : s.objects[o]? = some (.client k c)) :
    (∃ d : Client, (c.close k s o).objects[o]? = some (.client k d) ∧ d.handle = none) ∧
      ∀ p, p ≠ o → (c.close k s o).objects[p]? = s.objects[p]? := by
  have hpost : ∀ (t : State) (m : Closure), (t.tryPost m).objects = t.objects := by
    intro t m
    unfold State.tryPost
    split <;> rfl
  have hlt : o < s.objects.length := (List.getElem?_eq_some_iff.mp ho).1
  unfold Client.close
  split
  · rename_i hc
    exact ⟨⟨c, ho, hc⟩, fun p _ => rfl⟩
  · simp only [hpost, State.put]
    refine ⟨⟨{}, by simp [hlt], rfl⟩, fun p hp => ?_⟩
    exact List.getElem?_set_ne (Ne.symm hp)

theorem Client.openPipe_quiet {c : Client} {s : State} {o : ObjectId} {here : Bool} {fd dupRc : Int}
    (ho : s.objects[o]? = some (.client .pipe c)) : Quiet s (c.openPipe s here o fd dupRc) := by
  have hclose := Client.close_quiet ho
  unfold Client.openPipe
  split
  · exact Quiet.fail s _
  · split
    · exact ⟨hclose.loop, hclose.held⟩
    · have hcall : Quiet (c.close .pipe s o) ((c.close .pipe s o).call here (.openPipe o)) :=
        Quiet.call rfl
      exact ⟨hcall.loop.trans hclose.loop, fun x => Nat.le_trans (hcall.held x) (hclose.held x)⟩

theorem Client.move_quiet {k : Stream} {c d : Client} {s : State} {o p : ObjectId}
    (ho : s.objects[o]? = some (.client k c)) (hp : s.objects[p]? = some (.client k d)) :
    Quiet s (c.move k d s o p) := by
  unfold Client.move
  split
  · exact Quiet.refl s
  rename_i hne
  have hclose := Client.close_quiet ho
  obtain ⟨⟨e, he, hnone⟩, hother⟩ := Client.close_objects ho
  refine ⟨hclose.loop, fun x => ?_⟩
  have hp' : ((c.close k s o).put o (.client k d)).objects[p]? = some (.client k d) := by
    rw [← hp, ← hother p (Ne.symm hne)]
    exact List.getElem?_set_ne hne
  have hto := State.held_put he (.client k d) x
  have hfrom := State.held_put hp' (.client k {}) x
  have hle := hclose.held x
  simp only [Object.handles, hnone, Option.toList, List.count_nil] at hto hfrom
  omega

theorem Server.close_quiet {k : Stream} {v : Server} {s : State} {here : Bool} {o : ObjectId}
    (ho : s.objects[o]? = some (.server k v)) : Quiet s (v.close k s here o) := by
  unfold Server.close
  split
  · exact Quiet.refl s
  · rename_i h hv
    refine ⟨State.loop_tryCall here _, fun x => ?_⟩
    have hput := State.held_put ho (.server k { v with handle := none }) x
    have hcall := State.held_tryCall (s := s.put o (.server k { v with handle := none })) (x := x)
      here (.closeServer o h)
    simp only [Object.handles, Closure.handles, hv, Option.toList, List.count_append,
      List.count_nil] at hput hcall
    omega

theorem Server.accept_quiet {k : Stream} {v : Server} {s t : State} {o : ObjectId}
    (ho : s.objects[o]? = some (.server k v)) (h : v.accept k s o = some t) : Quiet s t := by
  unfold Server.accept at h
  split at h
  · cases h
  · rename_i c rest hv
    cases h
    refine ⟨rfl, fun x => ?_⟩
    have hput := State.held_put ho (.server k { v with pendingClients := rest }) x
    simp only [Object.handles, hv, List.count_append, List.count_cons] at hput
    simp only [State.held, State.put, List.flatMap_append, List.flatMap_singleton, Object.handles,
      Option.toList, List.count_append, List.count_singleton] at hput ⊢
    omega

theorem Watcher.start_quiet (k : Watch) (w : Watcher) (s : State) (here : Bool) (o : ObjectId)
    (path : String) (interval : Int) : Quiet s (w.start k s here o path interval) := by
  unfold Watcher.start
  split
  · exact Quiet.fail s _
  · split
    · exact Quiet.fail s _
    · exact Quiet.call rfl

theorem Watcher.stop_quiet (w : Watcher) (s : State) (here : Bool) (o : ObjectId) :
    Quiet s (w.stop s here o) := by
  unfold Watcher.stop
  split
  · exact Quiet.refl s
  · exact Quiet.call rfl

theorem Watcher.close_quiet {k : Watch} {w : Watcher} {s : State} {o : ObjectId}
    (ho : s.objects[o]? = some (.watcher k w)) : Quiet s (w.close k s o) := by
  unfold Watcher.close
  split
  · exact Quiet.put ho rfl
  · rename_i h hw
    refine ⟨State.loop_tryPost _, fun x => ?_⟩
    have hput := State.held_put ho (.watcher k { handle := none, closed := true }) x
    have hpost := State.held_tryPost (s := s.put o
      (.watcher k { handle := none, closed := true })) (x := x) (.closeHandle h)
    simp only [Object.handles, Closure.handles, hw, Option.toList, List.count_nil] at hput hpost
    omega

theorem State.close_quiet {s t : State} {here : Bool} {o : ObjectId}
    (h : s.close here o = some t) : Quiet s t := by
  unfold State.close at h
  split at h
  · rename_i ho
    cases h
    exact SignalSet.close_quiet ho
  · rename_i ho
    cases h
    exact Client.close_quiet ho
  · rename_i ho
    cases h
    exact Server.close_quiet ho
  · rename_i ho
    cases h
    exact Watcher.close_quiet ho
  · cases h

/-- What `open` stores was the call's, and is the object's then. -/
theorem State.store_quiet {s t : State} {i : Nat} (h : s.store i = some t) : Quiet s t := by
  unfold State.store at h
  split at h
  · cases h
  · rename_i o c hi
    split at h
    · rename_i k d ho
      cases h
      refine ⟨rfl, fun x => ?_⟩
      have hput := State.held_put ho (.client k { handle := some c, connected := true }) x
      have hmem : ((s.returned.eraseIdx i).map Prod.snd).count x + [c].count x =
          (s.returned.map Prod.snd).count x := by
        obtain ⟨hlt, hget⟩ := List.getElem?_eq_some_iff.mp hi
        have hperm := List.getElem_cons_eraseIdx_perm hlt
        rw [hget] at hperm
        have := (hperm.map Prod.snd).count_eq x
        rw [List.map_cons, List.count_cons] at this
        rw [List.count_singleton]
        exact this
      simp only [Object.handles, Option.toList] at hput
      simp only [State.held, State.put] at hput ⊢
      omega
    · cases h

/-! ## Closures -/

theorem newHandle_cases (init : String) (rc : Int) (l : Loop) :
    (rc < 0 ∧ newHandle init rc l =
      (.error (.uvError rc init), l.allocate.delete .direct l.next)) ∨
    (0 ≤ rc ∧ newHandle init rc l = (.ok l.next, l.allocate.initialise l.next)) := by
  unfold newHandle
  by_cases hrc : rc < 0
  · exact .inl ⟨hrc, by simp [hrc]⟩
  · exact .inr ⟨by omega, by simp [hrc]⟩

variable {l : Loop} {held held' : Handle → Nat} {stale : Handle → Bool}

/-- An entry that is not closing is closed, and not deleted. -/
theorem closeEntry_tracked {h : Handle} (ht : Tracked l held) (hh : 1 ≤ held h)
    (hc : l.closeIssued h = false) (hle : ∀ x, held' x + [h].count x ≤ held x) :
    Tracked (closeEntry stale l h) held' := by
  have hf : l.freed h = false := (ht.life h).not_freed hh
  have hno : l.isClosing stale h = false := by simp [Loop.isClosing, hf, hc]
  simp only [closeEntry, hno, Bool.false_eq_true, if_false]
  exact ht.close hh hc hle

theorem closeEntries_tracked {hs : List Handle} (ht : Tracked l held)
    (hc : ∀ h ∈ hs, l.closeIssued h = false) (hle : ∀ x, held' x + hs.count x ≤ held x) :
    Tracked (hs.foldl (closeEntry stale) l) held' := by
  induction hs generalizing l held with
  | nil => exact ht.mono fun x => by simpa using hle x
  | cons h hs ih =>
    have hone : held h ≤ 1 := (ht.life h).le_one
    have hself := hle h
    rw [List.count_cons_self] at hself
    have hh : 1 ≤ held h := by omega
    have hnot : h ∉ hs := List.count_eq_zero.mp (by omega)
    have hf : l.freed h = false := (ht.life h).not_freed hh
    have hno : l.isClosing stale h = false := by simp [Loop.isClosing, hf, hc h List.mem_cons_self]
    have hfirst : Tracked (closeEntry stale l h) fun x => held' x + hs.count x := by
      refine closeEntry_tracked ht hh (hc h List.mem_cons_self) fun x => ?_
      have := hle x
      rw [List.count_cons] at this
      rw [List.count_singleton]
      omega
    rw [List.foldl_cons]
    refine ih hfirst (fun x hx => ?_) fun x => Nat.le_refl _
    have hne : x ≠ h := fun he => hnot (he ▸ hx)
    have hcx := hc x (List.mem_cons_of_mem h hx)
    simp only [closeEntry, hno, Bool.false_eq_true, if_false, Loop.close, Loop.closeIssued,
      Function.update_of_ne hne] at hcx ⊢
    exact hcx

/-- A key that is found is found once and removed. -/
theorem count_remove {entries : List (Int × Handle)} {signum : Int} {h : Handle}
    (hf : entries.lookup signum = some h) (x : Handle) :
    ((entries.filter fun e => e.1 ≠ signum).map Prod.snd).count x + [h].count x ≤
      (entries.map Prod.snd).count x := by
  induction entries with
  | nil => cases hf
  | cons e es ih =>
    obtain ⟨n, c⟩ := e
    rw [List.lookup_cons] at hf
    by_cases hn : signum = n
    · subst hn
      simp only [beq_self_eq_true, Option.some.injEq] at hf
      subst hf
      have hsub : ((es.filter fun e => e.1 ≠ signum).map Prod.snd).count x ≤
          (es.map Prod.snd).count x := (List.filter_sublist.map Prod.snd).count_le x
      simp only [ne_eq, not_true_eq_false, decide_false, Bool.false_eq_true, not_false_eq_true,
        List.filter_cons_of_neg, List.map_cons, List.count_cons, List.count_nil] at hsub ⊢
      omega
    · have hb : (signum == n) = false := by simpa using hn
      rw [hb] at hf
      have := ih hf
      rw [List.filter_cons_of_pos (by simpa using Ne.symm hn)]
      simp only [List.map_cons, List.count_cons] at this ⊢
      omega

section Closures

variable {s t : State} {a : Answers} {o : ObjectId}

/-- The references of a state whose loop was changed are those it had. -/
theorem held_loop (l : Loop) : { s with loop := l }.held = s.held := rfl

theorem State.construct_tracked {role : Role} (ht : Tracked s.loop s.held) :
    Tracked (s.construct a role).loop (s.construct a role).held := by
  unfold State.construct
  rcases newHandle_cases role.init a.initRc s.loop with ⟨_, he⟩ | ⟨_, he⟩
  · rw [he]
    exact ht.fail
  · rw [he]
    refine ht.initialise fun x => ?_
    have hobj : (role.object s.loop.next).handles = [s.loop.next] := by cases role <;> rfl
    simp only [State.held, List.flatMap_append, List.flatMap_singleton, List.count_append, hobj]
    omega

theorem SignalSet.addClosure_quiet (set : SignalSet) (s : State) (o : ObjectId) (signum : Int) :
    Quiet s (set.addClosure s o signum) := by
  unfold SignalSet.addClosure
  split
  · exact Quiet.fail s _
  · exact ⟨rfl, fun x => by rw [State.held_push]; simp [Closure.handles]⟩

theorem SignalSet.addLocked_tracked {set : SignalSet} {signum : Int}
    (ho : s.objects[o]? = some (.signalSet set)) (ht : Tracked s.loop s.held)
    (hgood : signum ∉ set.entries.map Prod.fst → 0 ≤ a.initRc → 0 ≤ a.rc) :
    Tracked (set.addLocked s a o signum).loop (set.addLocked s a o signum).held := by
  unfold SignalSet.addLocked
  split
  · exact ht
  rename_i hnew
  rcases newHandle_cases "uv_signal_init" a.initRc s.loop with ⟨_, he⟩ | ⟨hrc, he⟩
  · rw [he]
    exact ht.fail
  · have hstart := hgood hnew hrc
    simp only [he, Int.not_lt.mpr hstart, if_false]
    refine ht.initialise fun x => ?_
    have hput := State.held_put (s := { s with loop := s.loop.allocate.initialise s.loop.next }) ho
      (.signalSet { set with entries := (signum, s.loop.next) :: set.entries }) x
    simp only [Object.handles, List.map_cons, List.count_cons, held_loop] at hput
    simp only [List.count_singleton]
    omega

theorem SignalSet.removeClosure_tracked {set : SignalSet} {signum : Int}
    (ho : s.objects[o]? = some (.signalSet set)) (ht : Tracked s.loop s.held)
    (hgood : ∀ h, set.entries.lookup signum = some h → s.loop.closeIssued h = false) :
    Tracked (set.removeClosure s a o signum).loop (set.removeClosure s a o signum).held := by
  unfold SignalSet.removeClosure
  split
  · exact ht
  rename_i h hf
  have hle : ∀ x, ({ s with loop := closeEntry a.stale s.loop h }.put o (.signalSet
      { set with entries := set.entries.filter fun e => e.1 ≠ signum })).held x + [h].count x ≤
      s.held x := by
    intro x
    have hput := State.held_put (s := { s with loop := closeEntry a.stale s.loop h }) ho
      (.signalSet { set with entries := set.entries.filter fun e => e.1 ≠ signum }) x
    have hcount := count_remove hf x
    simp only [Object.handles, held_loop] at hput
    omega
  refine closeEntry_tracked ht ?_ (hgood h hf) hle
  have := hle h
  rw [List.count_singleton_self] at this
  omega

theorem SignalSet.clearClosure_tracked {set : SignalSet}
    (ho : s.objects[o]? = some (.signalSet set)) (ht : Tracked s.loop s.held)
    (hgood : ∀ h ∈ set.entries.map Prod.snd, s.loop.closeIssued h = false) :
    Tracked (set.clearClosure s a o).loop (set.clearClosure s a o).held := by
  refine closeEntries_tracked ht hgood fun x => ?_
  have hput := State.held_put
    (s := { s with loop := (set.entries.map Prod.snd).foldl (closeEntry a.stale) s.loop }) ho
    (.signalSet { set with entries := [] }) x
  simp only [Object.handles, List.map_nil, List.count_nil, held_loop] at hput
  simp only [SignalSet.clearClosure]
  omega

theorem openClosure_tracked (ht : Tracked s.loop s.held) (hgood : 0 ≤ a.initRc → 0 ≤ a.rc) :
    Tracked (openClosure s a o).loop (openClosure s a o).held := by
  unfold openClosure
  rcases newHandle_cases "uv_pipe_init" a.initRc s.loop with ⟨_, he⟩ | ⟨hrc, he⟩
  · rw [he]
    exact ht.fail
  · simp only [he, Int.not_lt.mpr (hgood hrc), if_false]
    refine ht.initialise fun x => ?_
    simp only [State.held, List.map_append, List.map_cons, List.map_nil, List.count_append]
    omega

/-- A client that `uv_accept` refuses is closed as any other. -/
theorem Server.onConnection_tracked {k : Stream} {v : Server} {status : Int}
    (ho : s.objects[o]? = some (.server k v)) (ht : Tracked s.loop s.held) :
    Tracked (v.onConnection k s a o status).loop (v.onConnection k s a o status).held := by
  unfold Server.onConnection
  split
  · exact ht
  rcases newHandle_cases k.init a.initRc s.loop with ⟨_, he⟩ | ⟨_, he⟩
  · rw [he]
    exact ht.fail
  simp only [he]
  split
  · have hnew : Tracked (s.loop.allocate.initialise s.loop.next)
        fun x => s.held x + [s.loop.next].count x := ht.initialise fun x => Nat.le_refl _
    refine hnew.close (h := s.loop.next) ?_ ?_ fun x => Nat.le_refl _
    · rw [List.count_singleton_self]
      omega
    · simp [Loop.closeIssued, Loop.initialise]
  · refine ht.initialise fun x => ?_
    have hput := State.held_put (s := { s with loop := s.loop.allocate.initialise s.loop.next }) ho
      (.server k { v with pendingClients := v.pendingClients ++ [s.loop.next] }) x
    simp only [Object.handles, List.count_append, held_loop] at hput
    omega

theorem Server.closeClients_tracked {k : Stream} {v : Server} {h : Handle}
    (ho : s.objects[o]? = some (.server k v))
    (ht : Tracked s.loop fun x => s.held x + [h].count x) :
    Tracked (v.closeClients k s a o h).loop (v.closeClients k s a o h).held := by
  refine ht.closeAll fun x => ?_
  have hput := State.held_put
    (s := { s with loop :=
      (v.pendingClients ++ [h]).foldl (Loop.closeOnce a.stale .deletes) s.loop }) ho
    (.server k { v with pendingClients := [] }) x
  simp only [Object.handles, List.count_append, List.count_nil, held_loop] at hput
  simp only [Server.closeClients, List.count_append]
  omega

theorem Watcher.startClosure_quiet {k : Watch} {w : Watcher} {path : String}
    (ho : s.objects[o]? = some (.watcher k w)) : Quiet s (w.startClosure k s a o path) := by
  unfold Watcher.startClosure
  split
  · exact Quiet.fail s _
  · split
    · exact Quiet.fail s _
    · exact Quiet.put ho rfl

theorem Watcher.stopClosure_quiet {k : Watch} {w : Watcher}
    (ho : s.objects[o]? = some (.watcher k w)) : Quiet s (w.stopClosure k s a o) := by
  unfold Watcher.stopClosure
  split
  · exact Quiet.refl s
  · split
    · exact Quiet.fail s _
    · exact Quiet.put ho rfl

theorem State.entries_of {set : SignalSet} (ho : s.objects[o]? = some (.signalSet set)) :
    s.entries o = set.entries := by
  simp [State.entries, ho]

/-- A closure that runs well: the references in it are used up. -/
theorem runClosure_tracked {k : Closure}
    (ht : Tracked s.loop fun x => s.held x + k.handles.count x) (hgood : s.RunsWell a k)
    (h : s.runClosure a k = some t) : Tracked t.loop t.held := by
  have hs : Tracked s.loop s.held := ht.mono fun x => Nat.le_add_right _ _
  cases k with
  | construct role =>
    cases h
    exact State.construct_tracked hs
  | add o signum =>
    simp only [State.runClosure] at h
    split at h
    · cases h
      exact (SignalSet.addClosure_quiet _ s o signum).tracked hs
    · cases h
  | addLocked o signum =>
    simp only [State.runClosure] at h
    split at h
    · rename_i set ho
      cases h
      simp only [State.RunsWell, State.entries_of ho] at hgood
      exact SignalSet.addLocked_tracked ho hs hgood
    · cases h
  | remove o signum =>
    simp only [State.runClosure] at h
    split at h
    · rename_i set ho
      cases h
      simp only [State.RunsWell, State.toClose, State.entries_of ho, Option.mem_toList] at hgood
      exact SignalSet.removeClosure_tracked ho hs hgood
    · cases h
  | clear o =>
    simp only [State.runClosure] at h
    split at h
    · rename_i set ho
      cases h
      simp only [State.RunsWell, State.toClose, State.entries_of ho] at hgood
      exact SignalSet.clearClosure_tracked ho hs hgood
    · cases h
  | closeEntries entries =>
    cases h
    exact closeEntries_tracked ht hgood fun x => Nat.le_refl _
  | openPipe o =>
    cases h
    exact openClosure_tracked hs hgood
  | closeHandle c =>
    cases h
    refine ht.closeOnce ?_ fun x => Nat.le_refl _
    simp only [Closure.handles, List.count_singleton_self]
    omega
  | closeServer o c =>
    cases h
    refine ht.mono fun x => ?_
    rw [State.held_push]
    exact Nat.le_refl _
  | closeClients o c =>
    simp only [State.runClosure] at h
    split at h
    · rename_i ho
      cases h
      exact Server.closeClients_tracked ho ht
    · cases h
  | start o path =>
    simp only [State.runClosure] at h
    split at h
    · rename_i ho
      cases h
      exact (Watcher.startClosure_quiet ho).tracked hs
    · cases h
  | stop o =>
    simp only [State.runClosure] at h
    split at h
    · rename_i ho
      cases h
      exact (Watcher.stopClosure_quiet ho).tracked hs
    · cases h
  | walk =>
    cases h
    exact hs.walk

theorem step_tracked {l : Label} (ht : Tracked s.loop s.held) (hgood : Careful s l)
    (h : step s l = some t) : Tracked t.loop t.held := by
  cases l with
  | newSignalSet =>
    cases h
    exact ht.mono fun x => by simp [State.held, Object.handles]
  | construct here role =>
    cases h
    exact (Quiet.call rfl).tracked ht
  | add here o signum =>
    simp only [step] at h
    split at h
    · cases h
      exact (SignalSet.add_quiet _ s here o signum).tracked ht
    · cases h
  | remove here o signum =>
    simp only [step] at h
    split at h
    · cases h
      split
      · exact (Quiet.call rfl).tracked ht
      · exact ht
    · cases h
  | clear here o =>
    simp only [step] at h
    split at h
    · cases h
      split
      · exact (Quiet.call rfl).tracked ht
      · exact ht
    · cases h
  | openPipe here o fd dupRc =>
    simp only [step] at h
    split at h
    · rename_i ho
      cases h
      exact (Client.openPipe_quiet ho).tracked ht
    · cases h
  | store i => exact (State.store_quiet h).tracked ht
  | move o p =>
    simp only [step] at h
    split at h
    · rename_i ho hp
      split at h
      · rename_i hk
        cases h
        subst hk
        exact (Client.move_quiet ho hp).tracked ht
      · cases h
    · cases h
  | connection o status a =>
    simp only [step] at h
    split at h
    · rename_i ho
      cases h
      exact Server.onConnection_tracked ho ht
    · cases h
  | accept o =>
    simp only [step] at h
    split at h
    · rename_i ho
      exact (Server.accept_quiet ho h).tracked ht
    · cases h
  | start here o path interval =>
    simp only [step] at h
    split at h
    · cases h
      exact (Watcher.start_quiet _ _ s here o path interval).tracked ht
    · cases h
  | stop here o =>
    simp only [step] at h
    split at h
    · cases h
      exact (Watcher.stop_quiet _ s here o).tracked ht
    · cases h
  | close here o => exact (State.close_quiet h).tracked ht
  | shutdown =>
    simp only [step] at h
    split at h
    · cases h
    · cases h
      exact ht.mono fun x => by
        simp [State.held, List.flatMap_append, Closure.handles]
  | run a =>
    simp only [step] at h
    split at h
    · cases h
    · rename_i k rest hq
      refine runClosure_tracked (s := { s with queue := rest }) (ht.mono fun x => ?_)
        (hgood k rest hq) h
      simp only [State.held, hq, List.flatMap_cons, List.count_append]
      omega
  | closeCallback c =>
    simp only [step, Option.map_eq_some_iff] at h
    obtain ⟨l, hl, h⟩ := h
    cases h
    exact ht.runCallback hl

end Closures

theorem tracked_of_reachable {s : State} (h : ReachableBy system Careful s) :
    Tracked s.loop s.held := by
  refine h.invariant (I := fun s => Tracked s.loop s.held) ?_ ?_
  · rintro s rfl
    exact Tracked.init.mono fun x => by simp [State.held]
  · intro s l t _ ht hgood hs
    exact step_tracked ht hgood hs

/-! ## Careless steps -/

theorem history_closeEntry {l : Loop} {stale : Handle → Bool} {h x : Handle} {e : Event}
    (he : e ∈ l.history h) : e ∈ (closeEntry stale l x).history h := by
  unfold closeEntry
  by_cases hx : h = x
  · subst hx
    split <;> simp [Loop.delete, Loop.close, he]
  · split <;> simp [Loop.delete, Loop.close, Function.update_of_ne hx, he]

theorem history_closeEntries {stale : Handle → Bool} {hs : List Handle} {h : Handle} {e : Event}
    {l : Loop} (he : e ∈ l.history h) : e ∈ (hs.foldl (closeEntry stale) l).history h := by
  induction hs generalizing l with
  | nil => exact he
  | cons x hs ih => exact ih (history_closeEntry he)

/-- `close_entry` deletes an entry that it finds closing. -/
theorem closeEntries_deletes {stale : Handle → Bool} {hs : List Handle} {h : Handle} {l : Loop}
    (hh : h ∈ hs) (hc : l.closeIssued h = true) (hf : l.freed h = false) :
    .deleted .direct ∈ (hs.foldl (closeEntry stale) l).history h := by
  induction hs generalizing l with
  | nil => cases hh
  | cons x hs ih =>
    rw [List.foldl_cons]
    by_cases hx : h = x
    · subst hx
      refine history_closeEntries ?_
      simp [closeEntry, Loop.isClosing, hf, hc, Loop.delete]
    · have hmem : h ∈ hs := by simpa [hx] using hh
      have hsame : (closeEntry stale l x).closeIssued h = l.closeIssued h ∧
          (closeEntry stale l x).freed h = l.freed h := by
        unfold closeEntry
        split <;>
          simp [Loop.closeIssued, Loop.freed, Loop.delete, Loop.close, Function.update_of_ne hx]
      exact ih hmem (hsame.1.trans hc) (hsame.2.trans hf)

theorem held_of_entries {s : State} {o : ObjectId} {h : Handle}
    (hm : h ∈ (s.entries o).map Prod.snd) : 1 ≤ s.held h := by
  unfold State.entries at hm
  split at hm
  · rename_i set ho
    have hmem : h ∈ s.objects.flatMap Object.handles :=
      List.mem_flatMap.mpr ⟨_, List.mem_of_getElem? ho, hm⟩
    have := List.count_pos_iff.mpr hmem
    simp only [State.held]
    omega
  · cases hm

theorem mem_of_lookup {entries : List (Int × Handle)} {signum : Int} {h : Handle}
    (hf : entries.lookup signum = some h) : h ∈ entries.map Prod.snd := by
  refine List.count_pos_iff.mp ?_
  have := count_remove hf h
  rw [List.count_singleton_self] at this
  omega

/-- Each handle that a closure gives to `close_entry` is referred to. -/
theorem held_of_toClose {s : State} {k : Closure} {rest : List Closure} {h : Handle}
    (hq : s.queue = k :: rest) (hm : h ∈ s.toClose k) : 1 ≤ s.held h := by
  unfold State.toClose at hm
  split at hm
  · exact held_of_entries (mem_of_lookup (Option.mem_toList.mp hm))
  · exact held_of_entries hm
  · rename_i entries
    have := List.count_pos_iff.mpr hm
    simp only [State.held, hq, List.flatMap_cons, Closure.handles, List.count_append]
    omega
  · cases hm

/-- The handles of the list went through `close_entry`. -/
theorem runClosure_closes {s t : State} {a : Answers} {k : Closure} {h : Handle}
    (hm : h ∈ s.toClose k) (hr : s.runClosure a k = some t) :
    ∃ hs : List Handle, h ∈ hs ∧ t.loop = hs.foldl (closeEntry a.stale) s.loop := by
  unfold State.toClose at hm
  split at hm
  · rename_i o signum
    simp only [State.runClosure] at hr
    split at hr
    · rename_i set ho
      cases hr
      rw [State.entries_of ho] at hm
      have hf := Option.mem_toList.mp hm
      refine ⟨[h], List.mem_singleton_self h, ?_⟩
      simp [SignalSet.removeClosure, Option.mem_def.mp hf, State.put]
    · cases hr
  · rename_i o
    simp only [State.runClosure] at hr
    split at hr
    · rename_i set ho
      cases hr
      rw [State.entries_of ho] at hm
      exact ⟨_, hm, rfl⟩
    · cases hr
  · cases hr
    exact ⟨_, hm, rfl⟩
  · cases hm

/-- The condition is exact: the first step that does not meet it deletes a handle
that was initialised, and not in a callback. -/
theorem careless_step {s t : State} {l : Label} (hs : ReachableBy system Careful s)
    (h : step s l = some t) (hbad : ¬ Careful s l) :
    ∃ h, .initialised ∈ t.loop.history h ∧ ¬ Disposed (t.loop.history h) := by
  have ht := tracked_of_reachable hs
  cases l with
  | run a =>
    simp only [Careful, not_forall] at hbad
    obtain ⟨k, rest, hq, hbad⟩ := hbad
    simp only [step, hq] at h
    by_cases hcl : ∃ x ∈ s.toClose k, s.loop.closeIssued x = true
    · obtain ⟨x, hx, hc⟩ := hcl
      have hheld := held_of_toClose hq hx
      have hlife := ht.life x
      obtain ⟨hs, hmem, hl⟩ := runClosure_closes (s := { s with queue := rest }) hx h
      rw [hl]
      exact ⟨x, history_closeEntries (hlife.initialised hheld),
        not_disposed (closeEntries_deletes hmem hc (hlife.not_freed hheld))⟩
    · cases k with
      | addLocked o signum =>
        simp only [State.RunsWell, not_forall, Int.not_le] at hbad
        obtain ⟨hnew, hinit, hrc⟩ := hbad
        simp only [State.runClosure] at h
        split at h
        · rename_i set ho
          cases h
          rw [State.entries_of ho] at hnew
          refine ⟨s.loop.next, ?_⟩
          simp [SignalSet.addLocked, hnew, newHandle, Int.not_lt.mpr hinit, hrc, State.fail,
            Loop.delete, Loop.initialise, Loop.allocate, not_disposed]
        · cases h
      | openPipe o =>
        simp only [State.RunsWell, not_forall, Int.not_le] at hbad
        obtain ⟨hinit, hrc⟩ := hbad
        cases h
        refine ⟨s.loop.next, ?_⟩
        simp [openClosure, newHandle, Int.not_lt.mpr hinit, hrc, State.fail,
          Loop.delete, Loop.initialise, Loop.allocate, not_disposed]
      | _ =>
        refine absurd (fun x hx => ?_) hbad
        simpa using fun hc => hcl ⟨x, hx, hc⟩
  | _ => exact absurd trivial hbad

/-- In a run in which `uv_signal_start` and `uv_pipe_open` do not fail after the
handle was initialised, and `close_entry` finds no handle closing, no handle that was
initialised is deleted but once and by the callback of its close. -/
theorem deleted_in_close_callback {s : State} (hs : ReachableBy system Careful s) (h : Handle)
    (hi : .initialised ∈ s.loop.history h) : Disposed (s.loop.history h) :=
  (tracked_of_reachable hs).disposed hi

/-- A pipe client is constructed and closed. -/
theorem deleted_after_close : ∃ s : State,
    s.loop.history 0 = [.deleted .closeCallback, .closeIssued .deletes, .initialised] ∧
      Disposed (s.loop.history 0) := by
  have h0 : ReachableBy system Careful {} := .init rfl
  have h1 := h0.step (l := .construct true (.client .pipe)) (by trivial) rfl
  have h2 := h1.step (l := .run {}) (by intro k rest hq; cases hq; intro h hh; cases hh) rfl
  have h3 := h2.step (l := .close false 0) (by trivial) rfl
  have h4 := h3.step (l := .run {}) (by intro k rest hq; cases hq; intro h hh; cases hh) rfl
  have h5 := h4.step (l := .closeCallback 0) (by trivial) rfl
  exact ⟨_, rfl, deleted_in_close_callback h5 0 (by decide)⟩

/-- `uv_signal_start` refuses a signal number. -/
theorem deleted_while_linked : ¬ ∀ s : State, Reachable system s →
    ∀ h, .initialised ∈ s.loop.history h → Disposed (s.loop.history h) := by
  intro hall
  have h0 : Reachable system {} := .init rfl
  have hs := h0.run (show Transition.run system {}
    [.newSignalSet, .add false 0 (-1), .run {}, .run { rc := -22 }] = some _ from rfl)
  have hd := (hall _ hs 0 (by decide)).inCallback [] .direct [.initialised] rfl
  cases hd.1

end LuvCoro.Handles
