import LuvCoro.Lib.Custody
import LuvCoro.Sync.LocalCondition
import LuvCoro.Sync.Permits

/-! # `async_mutex_guard` and `local_async_mutex_guard`

Translated from `include/luvcoro/sync.hpp`. A guard has a pointer to a mutex, and
unlocks it when it is destroyed, assigned to or told to. Guards move; `scoped_lock`
makes one when its lock has come. What `unlock` resumes on the loop thread runs
inside it, so an assignment is in two steps. -/
namespace LuvCoro.Sync

open Transition PermitQueue Custody

/-! ## The two mutexes -/

inductive MutexKind
  | asyncMutex
  | localAsyncMutex

namespace MutexKind

def primitive : MutexKind → Primitive Bool Unit
  | asyncMutex => Sync.asyncMutex
  | localAsyncMutex => Local.localMutex

def system : MutexKind → System (Sys Bool) (Label Unit)
  | asyncMutex => Sync.system Sync.asyncMutex false
  | localAsyncMutex => Local.system Local.localMutex false

/-- `require_runtime_thread` is asked first. -/
def onLoopOnly : MutexKind → Bool
  | asyncMutex => false
  | localAsyncMutex => true

variable {kind : MutexKind} {m m' : Sys Bool} {l : Label Unit}

theorem ok (h : Reachable kind.system m) : MutexOk m := by
  cases kind with
  | asyncMutex => exact mutexOk_async h
  | localAsyncMutex => exact Local.mutexOk_local h

theorem safe (h : Reachable kind.system m) : MutexSafe m := by
  cases kind with
  | asyncMutex =>
    have hp : 0 ≤ Sync.asyncMutex.permits false := by decide
    exact mutexSafe_of_base (reachable_base hp h) (reachable_honest hp h).arrived
  | localAsyncMutex =>
    have hp : 0 ≤ Local.localMutex.permits false := by decide
    have hb := Local.reachable_base hp h
    exact mutexSafe_of_base hb.toBase hb.arrived

theorem moved (h : Reachable kind.system m) (hs : kind.system.step m l = some m')
    (hl : ∀ k onLoop, l ≠ .release k onLoop) : MutexStep m m' 0 := by
  cases kind with
  | asyncMutex => exact (mutexStep_async h hs hl).1
  | localAsyncMutex => exact (Local.mutexStep_local h hs hl).1

/-- The `unlock` of a locked mutex does not throw. -/
theorem unlocks (h : Reachable kind.system m) (hlocked : m.shared.resource = true)
    (onLoop : Bool) : (∃ r, m.shared.release kind.primitive () = .ok r) ∧
      ∃ m', kind.system.step m (.release () onLoop) = some m' ∧ MutexStep m m' 1 := by
  cases kind with
  | asyncMutex =>
    obtain ⟨is, sh, hr, -⟩ := release_locked "async_mutex is not locked" hlocked
    have hr' : m.shared.release Sync.asyncMutex () = .ok (is, sh) := hr
    have hs : Sync.step Sync.asyncMutex m (.release () onLoop) =
        some { m with shared := sh, toResumptions := m.toResumptions.start onLoop is } := by
      simp only [Sync.step, hr']
    exact ⟨⟨_, hr⟩, _, hs, (mutexStep_unlock h hlocked hs).1⟩
  | localAsyncMutex =>
    obtain ⟨is, sh, hr, -⟩ := release_locked "local_async_mutex is not locked" hlocked
    obtain ⟨-, m', -, hs, hm, -⟩ := Local.serve_locked h hlocked
    exact ⟨⟨_, hr⟩, m', hs, hm⟩

end MutexKind

/-- Whose lock has not been unlocked has the mutex, and nobody else. -/
theorem holder_of_granted {m : Sys Bool} {unlocked : List OpId} {i : OpId} (hok : MutexOk m)
    (hn : unlocked.Nodup) (hg : unlocked ⊆ m.shared.grants)
    (hc : m.shared.history.released = unlocked.length) (hi : i ∈ m.shared.grants)
    (hu : i ∉ unlocked) : m.shared.resource = true ∧
      ∀ j, j ∈ m.shared.grants ∧ j ∉ unlocked ↔ j = i := by
  have hbal : mutexPermits m.shared.resource + (m.shared.grants.length : Int) =
      1 + m.shared.history.released := hok.sound.balance
  rw [hc] at hbal
  have hsub : ∀ l : List OpId, l.Nodup → l ⊆ m.shared.grants → l.length ≤ m.shared.grants.length :=
    fun l hl hs => (List.Nodup.subperm hl hs).length_le
  have hnodup : (i :: unlocked).Nodup := List.nodup_cons.mpr ⟨hu, hn⟩
  have hmem : i :: unlocked ⊆ m.shared.grants := List.cons_subset.mpr ⟨hi, hg⟩
  have hle := hsub _ hnodup hmem
  rw [List.length_cons] at hle
  have hlocked : m.shared.resource = true := by
    by_contra hf
    rw [Bool.not_eq_true] at hf
    simp only [hf, mutexPermits, Bool.false_eq_true, if_false] at hbal
    omega
  refine ⟨hlocked, fun j => ⟨fun hj => ?_, fun hj => hj ▸ ⟨hi, hu⟩⟩⟩
  by_contra hne
  have hnot : j ∉ i :: unlocked := by simpa [hne] using hj.2
  have hle₂ := hsub _ (List.nodup_cons.mpr ⟨hnot, hnodup⟩) (List.cons_subset.mpr ⟨hj.1, hmem⟩)
  simp only [hlocked, mutexPermits, if_true, List.length_cons] at hbal hle₂
  omega

/-- A locked mutex has somebody whose lock has not been unlocked. -/
theorem holder_exists {m : Sys Bool} {unlocked : List OpId} (hok : MutexOk m)
    (hc : m.shared.history.released = unlocked.length) (hl : m.shared.resource = true) :
    ∃ i ∈ m.shared.grants, i ∉ unlocked := by
  by_contra hall
  push Not at hall
  have hbal : mutexPermits m.shared.resource + (m.shared.grants.length : Int) =
      1 + m.shared.history.released := hok.sound.balance
  have hnodup : m.shared.grants.Nodup := by
    refine List.nodup_append.mpr ⟨hok.sound.once, (List.nodup_append.mp hok.sound.queue_nodup).1,
      fun a ha b hb he => ?_⟩
    subst he
    exact hok.sound.direct a ha (hok.sound.mem_fifo.mp (.inl hb)).1
  have hle := (List.Nodup.subperm hnodup fun i hi => hall i hi).length_le
  simp only [hc, hl, mutexPermits, if_true] at hbal
  omega

/-! ## Guards -/

abbrev MutexId := Nat

abbrev GuardId := Nat

/-- The lock of a mutex by a call of `lock`, `try_lock` or `scoped_lock`. -/
structure Lock where
  mutex : MutexId
  call : OpId
  deriving DecidableEq

/-- A guard, with its `mutex_`: before its constructor and after its destructor,
otherwise, or in `operator=` after the `unlock`. -/
inductive Guard
  | dead
  | live (mutex : Option MutexId)
  | assigning (mutex : Option MutexId) (other : GuardId)
  deriving DecidableEq

namespace Guard

/-- `mutex_`. -/
def pointer : Guard → Option (Option MutexId)
  | dead => none
  | live m => some m
  | assigning m _ => some m

/-- `mutex_ = nullptr`. -/
def clear : Guard → Guard
  | dead => dead
  | live _ => live none
  | assigning _ other => assigning none other

end Guard

/-- `custody` records whose lock a guard has, and `thrown` counts the unlocks that threw,
with the posts of `resume_waiter` that were refused. -/
structure Guards where
  mutex : MutexId → Sys Bool := fun _ => Sys.new false
  guard : GuardId → Guard := fun _ => .dead
  custody : Records GuardId Lock := {}
  thrown : Nat := 0

inductive GuardLabel
  /-- A step of a mutex, other than an unlock. -/
  | mutex (m : MutexId) (l : Label Unit)
  /-- A coroutine unlocks what it has locked without a guard. -/
  | unlockMutex (k : Lock) (onLoop : Bool)
  /-- The end of `scoped_lock`, and the default constructor. -/
  | scopedLock (g : GuardId) (k : Lock)
  | default (g : GuardId)
  /-- The move constructor of `g` and the move assignment to `g`. -/
  | move (g other : GuardId)
  | assign (g other : GuardId) (onLoop : Bool)
  | endAssign (g : GuardId)
  | unlock (g : GuardId) (onLoop : Bool)
  | destroy (g : GuardId) (onLoop : Bool)

namespace Guards

variable (kind : MutexKind)

def set (s : Guards) (g : GuardId) (x : Guard) : Guards :=
  { s with guard := Function.update s.guard g x }

/-- `mutex->unlock()`. A guard swallows what it throws, and the mutex stays locked. -/
def unlockOf (s : Guards) (m : MutexId) (onLoop : Bool) : Option Guards :=
  if kind.onLoopOnly && !onLoop then some { s with thrown := s.thrown + 1 }
  else
    match (s.mutex m).shared.release kind.primitive () with
    | .error _ => some { s with thrown := s.thrown + 1 }
    | .ok _ =>
      (kind.system.step (s.mutex m) (.release () onLoop)).map fun m' =>
        { s with mutex := Function.update s.mutex m m' }

/-- The step is a call of `resume_waiter` whose post is refused. -/
def refuses (s : Guards) (m : MutexId) : Label Unit → Bool
  | .resume c => (s.mutex m).toResumptions.refuses (s.mutex m).continuation c
  | _ => false

/-- The call has locked, and its coroutine has not gone on. -/
def hasLocked (s : Guards) (k : Lock) : Bool :=
  decide (((s.mutex k.mutex).op k.call).pc = .done .acquired) && !s.custody.taken.contains k

/-- `g` gets the pointer of `other`. -/
def take (s : Guards) (g other : GuardId) (x : Option MutexId) : Guards :=
  { (s.set g (.live x)).set other (s.guard other).clear with
    custody := Custody.move s.custody other g }

/-- The guard `g`, which has the pointer, unlocks, and is `x` then. -/
def drop (s : Guards) (g : GuardId) (m : MutexId) (x : Guard) (onLoop : Bool) : Option Guards :=
  { s.set g x with custody := Custody.release s.custody g }.unlockOf kind m onLoop

def assign (s : Guards) (g other : GuardId) (onLoop : Bool) : Option Guards :=
  match s.guard g, (s.guard other).pointer with
  | .live mine, some its =>
    if g = other then some s
    else
      match mine with
      | some m => s.drop kind g m (.assigning (some m) other) onLoop
      | none => some (s.take g other its)
  | _, _ => none

def endAssign (s : Guards) (g : GuardId) : Option Guards :=
  match s.guard g with
  | .assigning _ other =>
    match (s.guard other).pointer with
    | some its => some (s.take g other its)
    | none => none
  | _ => none

/-- `unlock` forgets the pointer first. -/
def unlock (s : Guards) (g : GuardId) (onLoop : Bool) : Option Guards :=
  match s.guard g with
  | .live none => some s
  | .live (some m) => s.drop kind g m (.live none) onLoop
  | .assigning none _ => some s
  | .assigning (some m) other => s.drop kind g m (.assigning none other) onLoop
  | .dead => none

def destroy (s : Guards) (g : GuardId) (onLoop : Bool) : Option Guards :=
  match s.guard g with
  | .live none => some (s.set g .dead)
  | .live (some m) => s.drop kind g m .dead onLoop
  | _ => none

def step (s : Guards) : GuardLabel → Option Guards
  | .mutex m l =>
    match l with
    | .release _ _ => none
    | l => (kind.system.step (s.mutex m) l).map fun m' =>
      { s with
        mutex := Function.update s.mutex m m'
        thrown := if s.refuses m l then s.thrown + 1 else s.thrown }
  | .unlockMutex k onLoop =>
    if s.hasLocked k then
      { s with custody := { s.custody with
          taken := s.custody.taken ++ [k], released := s.custody.released ++ [k] } }.unlockOf kind
        k.mutex onLoop
    else none
  | .scopedLock g k =>
    if s.guard g = .dead ∧ s.hasLocked k then
      some { s.set g (.live (some k.mutex)) with custody := Custody.take s.custody g k }
    else none
  | .default g => if s.guard g = .dead then some (s.set g (.live none)) else none
  | .move g other =>
    match s.guard g, (s.guard other).pointer with
    | .dead, some x => some (s.take g other x)
    | _, _ => none
  | .assign g other onLoop => s.assign kind g other onLoop
  | .endAssign g => s.endAssign g
  | .unlock g onLoop => s.unlock kind g onLoop
  | .destroy g onLoop => s.destroy kind g onLoop

def system : System Guards GuardLabel where
  init s := s = {}
  step := step kind

/-- The step reads the pointer of the guard. -/
def Reads (s : Guards) (g : GuardId) : GuardLabel → Prop
  | .unlock h _ => g = h
  | .move _ other => g = other
  | .assign _ other _ => g = other
  | .endAssign h => ∃ x, s.guard h = .assigning x g
  | _ => False

/-- Nobody unlocks or moves from a guard that is being assigned to. -/
def Exclusive (s : Guards) (l : GuardLabel) : Prop :=
  ∀ g, s.Reads g l → ∀ x other, s.guard g ≠ .assigning x other

/-- A local mutex is unlocked on the loop thread, and no post is refused. -/
def Calm (s : Guards) : GuardLabel → Prop
  | .mutex m l => s.refuses m l = false
  | .unlockMutex _ onLoop => kind.onLoopOnly = true → onLoop = true
  | .assign g _ onLoop | .unlock g onLoop | .destroy g onLoop =>
    (∃ m, (s.guard g).pointer = some (some m)) → kind.onLoopOnly = true → onLoop = true
  | _ => True

end Guards

/-! ## What holds along a run -/

/-- The calls among locks of the mutex `m`. -/
def callsOf (ks : List Lock) (m : MutexId) : List OpId :=
  (ks.filter fun k => k.mutex = m).map Lock.call

/-- The pointer of a guard is set exactly while it has a lock to unlock, and every
unlock is of such a lock. -/
structure GuardInv (kind : MutexKind) (s : Guards) : Prop where
  reach : ∀ m, Reachable kind.system (s.mutex m)
  custody : Custody.Sound s.custody
  held : ∀ g m, s.guard g = .live (some m) ↔ ∃ i, s.custody.held g = some ⟨m, i⟩
  taken : ∀ k ∈ s.custody.taken, ((s.mutex k.mutex).op k.call).pc = .done .acquired
  count : ∀ m, (s.mutex m).shared.history.released = (callsOf s.custody.released m).length
  thrown : s.thrown = 0

section
variable {kind : MutexKind} {s t : Guards} {g other : GuardId} {m n : MutexId} {k : Lock}
  {i : OpId} {onLoop : Bool}

theorem mem_callsOf {ks : List Lock} : i ∈ callsOf ks m ↔ ⟨m, i⟩ ∈ ks := by
  unfold callsOf
  rw [List.mem_map]
  constructor
  · rintro ⟨k, hk, rfl⟩
    obtain ⟨hk, hm⟩ := List.mem_filter.mp hk
    rw [← of_decide_eq_true hm]
    exact hk
  · intro hk
    exact ⟨⟨m, i⟩, List.mem_filter.mpr ⟨hk, by simp⟩, rfl⟩

theorem callsOf_nodup {ks : List Lock} (h : ks.Nodup) : (callsOf ks m).Nodup := by
  refine List.Nodup.map_on (fun a ha b hb he => ?_) (h.filter _)
  have ham := of_decide_eq_true (List.mem_filter.mp ha).2
  have hbm := of_decide_eq_true (List.mem_filter.mp hb).2
  cases a
  cases b
  simp only at ham hbm he
  rw [ham, hbm, he]

theorem callsOf_concat (ks : List Lock) (k : Lock) (m : MutexId) :
    (callsOf (ks ++ [k]) m).length = (callsOf ks m).length + if k.mutex = m then 1 else 0 := by
  unfold callsOf
  rw [List.filter_append, List.map_append, List.length_append]
  by_cases hm : k.mutex = m <;> simp [hm]

theorem granted_of_done {x : Sys Bool} (hok : MutexOk x) (hi : (x.op i).pc = .done .acquired) :
    i ∈ x.shared.grants := by
  have ha := hok.arrived i
  unfold Arrived at ha
  rw [hi] at ha
  exact ha

/-- Whose lock has not been unlocked holds the mutex alone. -/
theorem GuardInv.holder (hi : GuardInv kind s)
    (hk : ((s.mutex m).op i).pc = .done .acquired) (hn : ⟨m, i⟩ ∉ s.custody.released) :
    (s.mutex m).shared.resource = true ∧
      ∀ j, j ∈ (s.mutex m).shared.grants ∧ ⟨m, j⟩ ∉ s.custody.released ↔ j = i := by
  have hok := MutexKind.ok (hi.reach m)
  have hsub : callsOf s.custody.released m ⊆ (s.mutex m).shared.grants := fun j hj =>
    granted_of_done hok (hi.taken _ (hi.custody.releasedTaken (mem_callsOf.mp hj)))
  have hh := holder_of_granted hok (callsOf_nodup hi.custody.releasedOnce) hsub (hi.count m)
    (granted_of_done hok hk) (mt mem_callsOf.mp hn)
  simpa only [mem_callsOf] using hh

/-- A step of one mutex, with what it does to guards and custody. -/
theorem GuardInv.change (hi : GuardInv kind s) {x : Sys Bool} {c : Nat}
    {custody : Records GuardId Lock} {guard : GuardId → Guard} (hx : Reachable kind.system x)
    (hm : MutexStep (s.mutex m) x c) (hs : Custody.Sound custody)
    (hheld : ∀ g n, guard g = .live (some n) ↔ ∃ i, custody.held g = some ⟨n, i⟩)
    (htaken : ∀ k ∈ custody.taken, k ∈ s.custody.taken ∨
      ((s.mutex k.mutex).op k.call).pc = .done .acquired)
    (hcount : ∀ n, (callsOf custody.released n).length =
      (callsOf s.custody.released n).length + if m = n then c else 0) :
    GuardInv kind { s with
      mutex := Function.update s.mutex m x, guard := guard, custody := custody } := by
  refine ⟨fun n => ?_, hs, hheld, fun k hk => ?_, fun n => ?_, hi.thrown⟩
  · by_cases hn : n = m
    · subst hn
      simpa using hx
    · simpa [Function.update_of_ne hn] using hi.reach n
  · have hold : ((s.mutex k.mutex).op k.call).pc = .done .acquired :=
      (htaken k hk).elim (hi.taken k) id
    by_cases hn : k.mutex = m
    · simp only [hn, Function.update_self]
      exact hm.done k.call _ (hn ▸ hold)
    · simp only [Function.update_of_ne hn]
      exact hold
  · rw [hcount n, ← hi.count n]
    by_cases hn : n = m
    · subst hn
      simpa using hm.released
    · simp [Function.update_of_ne hn, Ne.symm hn]

/-- `mutex->unlock()` by who has the lock `k`. -/
theorem unlockOf_inv (hi : GuardInv kind s) {custody : Records GuardId Lock}
    {guard : GuardId → Guard} (hk : ((s.mutex k.mutex).op k.call).pc = .done .acquired)
    (hn : k ∉ s.custody.released) (hs : Custody.Sound custody)
    (hheld : ∀ g n, guard g = .live (some n) ↔ ∃ i, custody.held g = some ⟨n, i⟩)
    (htaken : ∀ k' ∈ custody.taken, k' ∈ s.custody.taken ∨ k' = k)
    (hrel : custody.released = s.custody.released ++ [k])
    (hcalm : kind.onLoopOnly = true → onLoop = true)
    (ht : { s with guard := guard, custody := custody }.unlockOf kind k.mutex onLoop = some t) :
    GuardInv kind t := by
  have hlocked := (hi.holder hk hn).1
  obtain ⟨⟨r, hr⟩, x, hx, hm⟩ := MutexKind.unlocks (hi.reach k.mutex) hlocked onLoop
  have hloop : (kind.onLoopOnly && !onLoop) = false := by
    cases hk : kind.onLoopOnly with
    | true => rw [hcalm hk]; rfl
    | false => rfl
  simp only [Guards.unlockOf, hloop, Bool.false_eq_true, if_false, hr, hx, Option.map_some,
    Option.some.injEq] at ht
  rw [← ht]
  refine hi.change ((hi.reach k.mutex).next hx) hm hs hheld (fun k' hk' => ?_) fun n => ?_
  · rcases htaken k' hk' with h | h
    · exact .inl h
    · exact .inr (h ▸ hk)
  · rw [hrel, callsOf_concat]

/-- Guards and custody change, and no mutex. -/
theorem GuardInv.guards (hi : GuardInv kind s) {custody : Records GuardId Lock}
    {guard : GuardId → Guard} (hs : Custody.Sound custody)
    (hheld : ∀ g n, guard g = .live (some n) ↔ ∃ i, custody.held g = some ⟨n, i⟩)
    (htaken : ∀ k ∈ custody.taken, k ∈ s.custody.taken ∨
      ((s.mutex k.mutex).op k.call).pc = .done .acquired)
    (hrel : custody.released = s.custody.released) :
    GuardInv kind { s with guard := guard, custody := custody } :=
  ⟨hi.reach, hs, hheld, fun k hk => (htaken k hk).elim (hi.taken k) id,
    fun m => by rw [hi.count m, hrel], hi.thrown⟩

/-! ## The steps -/

theorem held_none (hi : GuardInv kind s) (h : ∀ m, s.guard g ≠ .live (some m)) :
    s.custody.held g = none := by
  cases hg : s.custody.held g with
  | none => rfl
  | some k => exact absurd ((hi.held g k.mutex).mpr ⟨k.call, hg⟩) (h k.mutex)

theorem drop_inv {x : Guard} (hi : GuardInv kind s) (hg : s.guard g = .live (some m))
    (hx : ∀ n, x ≠ .live (some n)) (hcalm : kind.onLoopOnly = true → onLoop = true)
    (ht : s.drop kind g m x onLoop = some t) : GuardInv kind t := by
  obtain ⟨i, hheld⟩ := (hi.held g m).mp hg
  obtain ⟨htaken, hn⟩ := hi.custody.held hheld
  have hrel := Custody.release_some hheld
  have hafter : ∀ h n, Function.update s.guard g x h = .live (some n) ↔
      ∃ i, (Custody.release s.custody g).held h = some ⟨n, i⟩ := by
    intro h n
    rw [Custody.release_held]
    by_cases hh : h = g
    · subst hh
      simp [hx n]
    · simpa [Function.update_of_ne hh, hh] using hi.held h n
  refine unlockOf_inv (k := ⟨m, i⟩) hi (hi.taken _ htaken) hn
    (Custody.sound_release hi.custody g) hafter (fun k hk => .inl ?_) ?_ hcalm ht
  · rw [hrel] at hk
    exact hk
  · rw [hrel]

/-- The pointer of another guard moves to `g`. -/
theorem take_inv {x : Option MutexId} (hi : GuardInv kind s) (hne : g ≠ other)
    (hg : ∀ m, s.guard g ≠ .live (some m)) (ho : s.guard other = .live x) :
    GuardInv kind (s.take g other x) := by
  have hfree := held_none hi hg
  have htake : s.take g other x = { (s.set g (.live x)).set other (.live none) with
      custody := Custody.move s.custody other g } := by
    rw [Guards.take, ho, Guard.clear]
  rw [htake]
  refine hi.guards (Custody.sound_move hi.custody (Ne.symm hne) hfree) (fun h n => ?_)
    (fun k hk => .inl hk) rfl
  show Function.update (Function.update s.guard g (.live x)) other (.live none) h = _ ↔
    ∃ i, Function.update (Function.update s.custody.held g (s.custody.held other)) other none h = _
  by_cases hho : h = other
  · subst hho
    simp
  · by_cases hhg : h = g
    · subst hhg
      have hother := hi.held other n
      rw [ho] at hother
      simpa [Function.update_of_ne hho] using hother
    · simpa [Function.update_of_ne hho, Function.update_of_ne hhg] using hi.held h n

theorem hasLocked_spec (h : s.hasLocked k = true) :
    ((s.mutex k.mutex).op k.call).pc = .done .acquired ∧ k ∉ s.custody.taken := by
  unfold Guards.hasLocked at h
  rw [Bool.and_eq_true] at h
  exact ⟨of_decide_eq_true h.1, by simpa using h.2⟩

/-- A coroutine unlocks without a guard. -/
theorem unlockMutex_inv (hi : GuardInv kind s) (hl : s.hasLocked k = true)
    (hcalm : kind.onLoopOnly = true → onLoop = true)
    (ht : { s with custody := { s.custody with
      taken := s.custody.taken ++ [k], released := s.custody.released ++ [k] } }.unlockOf kind
        k.mutex onLoop = some t) : GuardInv kind t := by
  obtain ⟨hk, hnot⟩ := hasLocked_spec hl
  have hn : k ∉ s.custody.released := fun hm => hnot (hi.custody.releasedTaken hm)
  have hs := hi.custody
  have hsound : Custody.Sound { s.custody with
      taken := s.custody.taken ++ [k], released := s.custody.released ++ [k] } := by
    refine ⟨Custody.nodup_concat hs.once hnot, Custody.nodup_concat hs.releasedOnce hn, ?_,
      fun {h k'} hk' => ?_, hs.unique, fun {k'} hk' hr => ?_⟩
    · exact List.append_subset.mpr ⟨fun a ha => List.mem_append_left _ (hs.releasedTaken ha),
        List.subset_append_right _ _⟩
    · refine ⟨List.mem_append_left _ (hs.held hk').1, fun hm => ?_⟩
      rcases List.mem_append.mp hm with hm | hm
      · exact (hs.held hk').2 hm
      · rw [List.mem_singleton.mp hm] at hk'
        exact hnot (hs.held hk').1
    · obtain ⟨hr, hne⟩ := not_or.mp (mt List.mem_append.mpr hr)
      exact hs.kept ((List.mem_append.mp hk').resolve_right hne) hr
  refine unlockOf_inv hi hk hn hsound hi.held (fun k' hk' => ?_) rfl hcalm ht
  rcases List.mem_append.mp hk' with h | h
  · exact .inl h
  · exact .inr (List.mem_singleton.mp h)

/-- `scoped_lock` makes its guard. -/
theorem scopedLock_inv (hi : GuardInv kind s) (hg : s.guard g = .dead) (hl : s.hasLocked k = true) :
    GuardInv kind
      { s.set g (.live (some k.mutex)) with custody := Custody.take s.custody g k } := by
  obtain ⟨hk, hnot⟩ := hasLocked_spec hl
  have hfree := held_none hi (g := g) (by simp [hg])
  refine hi.guards (Custody.sound_take hi.custody hfree hnot) (fun h n => ?_) (fun k' hk' => ?_) rfl
  · show Function.update s.guard g (.live (some k.mutex)) h = _ ↔
      ∃ i, Function.update s.custody.held g (some k) h = _
    by_cases hh : h = g
    · subst hh
      cases k
      simp [eq_comm]
    · simpa [Function.update_of_ne hh] using hi.held h n
  · rcases List.mem_append.mp hk' with h | h
    · exact .inl h
    · exact .inr (List.mem_singleton.mp h ▸ hk)

/-- A guard without a lock changes, and has none. -/
theorem set_inv {x : Guard} (hi : GuardInv kind s) (hg : ∀ m, s.guard g ≠ .live (some m))
    (hx : ∀ m, x ≠ .live (some m)) : GuardInv kind (s.set g x) := by
  refine hi.guards hi.custody (fun h n => ?_) (fun k hk => .inl hk) rfl
  show Function.update s.guard g x h = _ ↔ _
  by_cases hh : h = g
  · subst hh
    simp [hx n, held_none hi hg]
  · simpa [Function.update_of_ne hh] using hi.held h n

/-- The pointer of a guard that is not being assigned to. -/
theorem live_of_pointer {x : Option MutexId} (h : (s.guard g).pointer = some x)
    (hex : ∀ x other, s.guard g ≠ .assigning x other) : s.guard g = .live x := by
  cases hg : s.guard g with
  | dead =>
    rw [hg] at h
    cases h
  | live m =>
    rw [hg] at h
    cases h
    rfl
  | assigning m other => exact absurd hg (hex m other)

theorem assign_inv (hi : GuardInv kind s) (hex : ∀ x g', s.guard other ≠ .assigning x g')
    (hcalm : s.Calm kind (.assign g other onLoop))
    (ht : s.assign kind g other onLoop = some t) : GuardInv kind t := by
  unfold Guards.assign at ht
  split at ht
  · rename_i mine its hg ho
    have ho := live_of_pointer ho hex
    split at ht
    · cases ht
      exact hi
    · rename_i hne
      split at ht
      · rename_i m
        exact drop_inv hi hg (by simp) (hcalm ⟨m, by rw [hg]; rfl⟩) ht
      · cases ht
        exact take_inv hi hne (by simp [hg]) ho
  · cases ht

theorem endAssign_inv (hi : GuardInv kind s)
    (hex : ∀ other, s.Reads other (.endAssign g) → ∀ x h, s.guard other ≠ .assigning x h)
    (ht : s.endAssign g = some t) : GuardInv kind t := by
  unfold Guards.endAssign at ht
  split at ht
  · rename_i x other hg
    split at ht
    · rename_i its ho
      have ho := live_of_pointer ho (hex other ⟨x, hg⟩)
      cases ht
      have hne : g ≠ other := by
        rintro rfl
        rw [hg] at ho
        cases ho
      exact take_inv hi hne (by simp [hg]) ho
    · cases ht
  · cases ht

theorem unlock_inv (hi : GuardInv kind s) (hex : ∀ x other, s.guard g ≠ .assigning x other)
    (hcalm : s.Calm kind (.unlock g onLoop)) (ht : s.unlock kind g onLoop = some t) : GuardInv kind t := by
  unfold Guards.unlock at ht
  split at ht
  · cases ht
    exact hi
  · rename_i m hg
    exact drop_inv hi hg (by simp) (hcalm ⟨m, by rw [hg]; rfl⟩) ht
  · rename_i other hg
    exact absurd hg (hex none other)
  · rename_i m other hg
    exact absurd hg (hex (some m) other)
  · cases ht

theorem destroy_inv (hi : GuardInv kind s) (hcalm : s.Calm kind (.destroy g onLoop))
    (ht : s.destroy kind g onLoop = some t) : GuardInv kind t := by
  unfold Guards.destroy at ht
  split at ht
  · rename_i hg
    cases ht
    exact set_inv hi (by simp [hg]) (by simp)
  · rename_i m hg
    exact drop_inv hi hg (by simp) (hcalm ⟨m, by rw [hg]; rfl⟩) ht
  · cases ht

/-- The step lemma. -/
theorem step_inv {l : GuardLabel} (hi : GuardInv kind s) (hex : s.Exclusive l)
    (hcalm : s.Calm kind l) (ht : s.step kind l = some t) : GuardInv kind t := by
  cases l with
  | mutex m l =>
    have hrel : ∀ k onLoop, l ≠ .release k onLoop := by
      rintro k onLoop rfl
      cases ht
    have hs : ∃ x, kind.system.step (s.mutex m) l = some x ∧
        t = { s with mutex := Function.update s.mutex m x } := by
      have hposts : s.refuses m l = false := hcalm
      cases l with
      | release k onLoop => exact absurd rfl (hrel k onLoop)
      | _ =>
        obtain ⟨x, hx, rfl⟩ := Option.map_eq_some_iff.mp ht
        rw [hposts]
        exact ⟨x, hx, rfl⟩
    obtain ⟨x, hx, rfl⟩ := hs
    exact hi.change ((hi.reach m).next hx) (MutexKind.moved (hi.reach m) hx hrel) hi.custody hi.held
      (fun k hk => .inl hk) (by simp)
  | unlockMutex k onLoop =>
    simp only [Guards.step] at ht
    split at ht
    · rename_i hl
      exact unlockMutex_inv hi hl hcalm ht
    · cases ht
  | scopedLock g k =>
    simp only [Guards.step] at ht
    split at ht
    · rename_i hl
      cases ht
      exact scopedLock_inv hi hl.1 hl.2
    · cases ht
  | default g =>
    simp only [Guards.step] at ht
    split at ht
    · rename_i hg
      cases ht
      exact set_inv hi (by simp [hg]) (by simp)
    · cases ht
  | move g other =>
    dsimp only [Guards.step] at ht
    split at ht
    · rename_i x hg ho
      have ho := live_of_pointer ho (hex other rfl)
      cases ht
      have hne : g ≠ other := by
        rintro rfl
        rw [hg] at ho
        cases ho
      exact take_inv hi hne (by simp [hg]) ho
    · cases ht
  | assign g other onLoop => exact assign_inv hi (hex other rfl) hcalm ht
  | endAssign g => exact endAssign_inv hi hex ht
  | unlock g onLoop => exact unlock_inv hi (hex g rfl) hcalm ht
  | destroy g onLoop => exact destroy_inv hi hcalm ht

theorem guardInv_of_reachable
    (h : ReachableBy (Guards.system kind) (fun s l => s.Exclusive l ∧ s.Calm kind l) s) :
    GuardInv kind s := by
  refine h.invariant (fun s h0 => ?_) fun s l t _ hi hl hs => step_inv hi hl.1 hl.2 hs
  cases h0
  refine ⟨fun m => ?_, Custody.sound_empty, by simp, by simp, fun m => rfl, rfl⟩
  cases kind <;> exact .init rfl

/-! ## What guards promise -/

/-- The pointer of a guard is set only while its own lock is not unlocked, and
then nobody else has the mutex: no other guard, and no coroutine between its lock
and its guard or its `unlock`. Every lock is unlocked at most once, by a call of
`unlock` that does not throw, and a locked mutex is locked by a guard or by such
a coroutine. -/
structure GuardSafe (s : Guards) : Prop where
  owner : ∀ g m, s.guard g = .live (some m) → (s.mutex m).shared.resource = true ∧
    ∃ i, s.custody.held g = some ⟨m, i⟩ ∧
      ∀ j, j ∈ (s.mutex m).shared.grants ∧ ⟨m, j⟩ ∉ s.custody.released ↔ j = i
  unique : ∀ g other m, s.guard g = .live (some m) → s.guard other = .live (some m) → g = other
  once : s.custody.released.Nodup ∧ s.thrown = 0
  locked : ∀ m, (s.mutex m).shared.resource = true →
    (∃ g, s.guard g = .live (some m)) ∨ ∃ i ∈ (s.mutex m).shared.grants, ⟨m, i⟩ ∉ s.custody.taken
  free : ∀ m, (s.mutex m).shared.resource = false → (s.mutex m).shared.toWaiters.active = []

/-- In every run in which no guard is told to unlock or moved from while it is
assigned to, a local mutex is unlocked on the loop thread, and no post is refused, for
both mutexes and any number of them. -/
theorem guards_safe
    (h : ReachableBy (Guards.system kind) (fun s l => s.Exclusive l ∧ s.Calm kind l) s) :
    GuardSafe s := by
  have hi := guardInv_of_reachable h
  have howner : ∀ g m, s.guard g = .live (some m) → ∃ i, s.custody.held g = some ⟨m, i⟩ ∧
      ((s.mutex m).op i).pc = .done .acquired ∧ ⟨m, i⟩ ∉ s.custody.released := by
    intro g m hg
    obtain ⟨i, hheld⟩ := (hi.held g m).mp hg
    obtain ⟨htaken, hn⟩ := hi.custody.held hheld
    exact ⟨i, hheld, hi.taken _ htaken, hn⟩
  refine ⟨fun g m hg => ?_, fun g other m hg ho => ?_, ⟨hi.custody.releasedOnce, hi.thrown⟩,
    fun m hl => ?_, fun m hf => (MutexKind.safe (hi.reach m)).idle hf⟩
  · obtain ⟨i, hheld, hk, hn⟩ := howner g m hg
    obtain ⟨hl, hall⟩ := hi.holder hk hn
    exact ⟨hl, i, hheld, hall⟩
  · obtain ⟨i, hheld, hk, hn⟩ := howner g m hg
    obtain ⟨j, hheld', hk', hn'⟩ := howner other m ho
    have hok := MutexKind.ok (hi.reach m)
    have hij : j = i := ((hi.holder hk hn).2 j).mp ⟨granted_of_done hok hk', hn'⟩
    exact hi.custody.unique hheld (hij ▸ hheld')
  · obtain ⟨i, hg, hn⟩ := holder_exists (MutexKind.ok (hi.reach m)) (hi.count m) hl
    rw [mem_callsOf] at hn
    by_cases ht : ⟨m, i⟩ ∈ s.custody.taken
    · obtain ⟨g, hheld⟩ := hi.custody.kept ht hn
      exact .inl ⟨g, (hi.held g m).mpr ⟨i, hheld⟩⟩
    · exact .inr ⟨i, hg, ht⟩

/-- A guard that is destroyed on another thread leaves its local mutex as it is. -/
theorem destroy_elsewhere (hg : s.guard g = .live (some m))
    (ht : s.step .localAsyncMutex (.destroy g false) = some t) :
    t.guard g = .dead ∧ t.mutex = s.mutex ∧ t.thrown = s.thrown + 1 := by
  simp only [Guards.step, Guards.destroy, hg, Guards.drop, Guards.unlockOf, MutexKind.onLoopOnly,
    Bool.not_false, Bool.and_self, if_true, Option.some.injEq] at ht
  rw [← ht]
  exact ⟨Function.update_self .., rfl, rfl⟩

/-- The lock comes to a coroutine that has waited for it, when the guard unlocks that
the first lock was moved to. -/
theorem guards_safe_handed : ∃ s : Guards,
    s.guard 1 = .live none ∧ s.guard 2 = .live (some 0) ∧ GuardSafe s := by
  have h₀ : ReachableBy (Guards.system .asyncMutex)
      (fun s l => s.Exclusive l ∧ s.Calm .asyncMutex l) {} := .init rfl
  have h₁ := h₀.run (by simp [Guards.Exclusive, Guards.Reads, Guards.Calm, Guards.refuses])
    (show run _ _ [
      .mutex 0 (.call 1 false false), .mutex 0 (.run 1), .mutex 0 (.run 1), .scopedLock 0 ⟨0, 1⟩,
      .default 1, .mutex 0 (.call 2 true false), .mutex 0 (.run 2), .mutex 0 (.run 2),
      .mutex 0 (.run 2), .mutex 0 (.run 2), .mutex 0 (.run 2)] = some _ from rfl)
  have h₂ := ReachableBy.step h₁ (l := .assign 1 0 false)
    (by
      refine ⟨fun g hl x other hg => ?_, fun _ hk => by cases hk⟩
      cases hl
      have hlive : Guard.live (some 0) = .assigning x other := hg
      cases hlive) rfl
  have h₃ := ReachableBy.step h₂ (l := .unlock 1 true)
    (by
      refine ⟨fun g hl x other hg => ?_, fun _ _ => rfl⟩
      cases hl
      have hlive : Guard.live (some 0) = .assigning x other := hg
      cases hlive) rfl
  have h₄ := ReachableBy.step h₃ (l := .mutex 0 (.resume 0))
    (by
      refine ⟨by simp [Guards.Exclusive, Guards.Reads], ?_⟩
      show Guards.refuses _ _ _ = false
      rfl) rfl
  have h₅ := h₄.run (by simp [Guards.Exclusive, Guards.Reads, Guards.Calm, Guards.refuses])
    (show run _ _ [.mutex 0 (.run 2), .scopedLock 2 ⟨0, 2⟩] = some _ from rfl)
  exact ⟨_, rfl, rfl, guards_safe h₅⟩

end

end LuvCoro.Sync
