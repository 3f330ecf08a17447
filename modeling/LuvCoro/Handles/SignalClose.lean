import LuvCoro.Handles.Signals
import Mathlib.Data.List.Nodup
import Mathlib.Data.List.Perm.Basic

/-! # What becomes of the handles of a `signal_set`

An entry is in one place until its handle is closed, and the places hold one entry for
each signal. -/
namespace LuvCoro.Handles.Signals

open Transition

variable {heap : List Entry} {held held' : List EntryId} {s t : SignalSet} {i : EntryId} {n : Int}

/-! ## Entries and who has them -/

def signumOf (heap : List Entry) (i : EntryId) : Int := heap[i]?.elim 0 Entry.signum

theorem signumOf_modify (i j : EntryId) :
    signumOf (heap.modify i Entry.close) j = signumOf heap j := by
  have hkeep : ∀ e : Entry, e.close.signum = e.signum := by
    intro e
    unfold Entry.close
    split
    · split <;> rfl
    · rfl
  unfold signumOf
  rw [List.getElem?_modify]
  cases hj : heap[j]? with
  | none => rfl
  | some e =>
    change (if i = j then e.close else e).signum = e.signum
    split
    · exact hkeep e
    · rfl

theorem signumOf_append {e : Entry} (hi : i < heap.length) :
    signumOf (heap ++ [e]) i = signumOf heap i := by
  unfold signumOf
  rw [List.getElem?_append_left hi]

theorem signumOf_last {e : Entry} : signumOf (heap ++ [e]) heap.length = e.signum := by
  unfold signumOf
  rw [List.getElem?_concat_length]
  rfl

/-- The entries in `held` have their handles, and those of all others are closed. -/
structure Owned (heap : List Entry) (held : List EntryId) : Prop where
  bound : ∀ i ∈ held, i < heap.length
  fresh : ∀ i e, heap[i]? = some e → i ∈ held → e = { signum := e.signum }
  gone : ∀ i e, heap[i]? = some e → i ∉ held →
    e = { signum := e.signum, handle := false, stops := 1, closes := 1 }
  distinct : (held.map (signumOf heap)).Nodup

theorem Owned.perm (h : Owned heap held) (hp : held'.Perm held) : Owned heap held' where
  bound i hi := h.bound i (hp.mem_iff.mp hi)
  fresh i e he hi := h.fresh i e he (hp.mem_iff.mp hi)
  gone i e he hi := h.gone i e he fun hm => hi (hp.mem_iff.mpr hm)
  distinct := (hp.map _).nodup_iff.mpr h.distinct

/-- `close_entry` of the first. -/
theorem Owned.close (h : Owned heap (i :: held)) : Owned (heap.modify i Entry.close) held := by
  have hnodup : (i :: held).Nodup := h.distinct.of_map _
  have hnot : i ∉ held := (List.nodup_cons.mp hnodup).1
  have hother : ∀ j e, (heap.modify i Entry.close)[j]? = some e → i ≠ j → heap[j]? = some e := by
    intro j e he hne
    rw [List.getElem?_modify] at he
    simpa only [if_neg hne, Functor.map, Option.map_id_fun', id_eq] using he
  refine ⟨fun j hj => ?_, fun j e he hj => ?_, fun j e he hj => ?_, ?_⟩
  · rw [List.length_modify]
    exact h.bound j (List.mem_cons_of_mem i hj)
  · refine h.fresh j e (hother j e he fun hij => hnot (hij ▸ hj)) (List.mem_cons_of_mem i hj)
  · by_cases hij : i = j
    · subst hij
      rw [List.getElem?_modify] at he
      obtain ⟨a, ha, he⟩ := Option.map_eq_some_iff.mp he
      rw [if_pos rfl, h.fresh i a ha List.mem_cons_self] at he
      rw [← he]
      rfl
    · refine h.gone j e (hother j e he hij) fun hm => ?_
      rw [List.mem_cons] at hm
      exact hm.elim (fun heq => hij heq.symm) hj
  · rw [List.map_congr_left fun j _ => signumOf_modify i j]
    exact (List.nodup_cons.mp h.distinct).2

/-- A handle for a signal that has none. -/
theorem Owned.start (h : Owned heap held) (hn : n ∉ held.map (signumOf heap)) :
    Owned (heap ++ [{ signum := n }]) (heap.length :: held) := by
  have hmap : held.map (signumOf (heap ++ [{ signum := n }])) = held.map (signumOf heap) :=
    List.map_congr_left fun j hj => signumOf_append (h.bound j hj)
  have hold : ∀ j e, (heap ++ [({ signum := n } : Entry)])[j]? = some e → j ≠ heap.length →
      heap[j]? = some e := by
    intro j e he hne
    by_cases hj : j < heap.length
    · rwa [List.getElem?_append_left hj] at he
    · have hlen := (List.getElem?_eq_some_iff.mp he).1
      rw [List.length_append] at hlen
      exact absurd (Nat.le_antisymm (Nat.le_of_lt_succ hlen) (Nat.le_of_not_lt hj)) hne
  refine ⟨fun j hj => ?_, fun j e he hj => ?_, fun j e he hj => ?_, ?_⟩
  · rw [List.length_append]
    rw [List.mem_cons] at hj
    rcases hj with rfl | hj
    · exact Nat.lt_succ_self _
    · exact Nat.lt_succ_of_lt (h.bound j hj)
  · rw [List.mem_cons] at hj
    rcases hj with rfl | hj
    · rw [List.getElem?_concat_length] at he
      cases he
      rfl
    · exact h.fresh j e (hold j e he (Nat.ne_of_lt (h.bound j hj))) hj
  · rw [List.mem_cons, not_or] at hj
    exact h.gone j e (hold j e he hj.1) hj.2
  · rw [List.map_cons, signumOf_last, hmap]
    exact List.nodup_cons.mpr ⟨hn, h.distinct⟩

theorem Owned.live_iff (h : Owned heap held) {e : Entry} (he : heap[i]? = some e) :
    e.Live ↔ i ∈ held := by
  constructor
  · intro hl
    by_contra hi
    have hc := hl.1
    rw [h.gone i e he hi] at hc
    cases hc
  · intro hi
    rw [h.fresh i e he hi]
    exact ⟨rfl, rfl⟩

/-- When no handle is left the walk does nothing. -/
theorem Owned.walk (h : Owned heap held) (hl : ∀ e ∈ heap, ¬ e.Live) :
    heap.map Entry.walk = heap := by
  refine (List.map_congr_left fun e he => ?_).trans (List.map_id heap)
  obtain ⟨i, hi⟩ := List.mem_iff_getElem?.mp he
  rw [h.gone i e hi fun hm => hl e he ((h.live_iff hi).mpr hm)]
  rfl

/-- What `find` and `erase` leave of a map. -/
theorem lookup_perm {entries : List (Int × EntryId)} (hn : (entries.map Prod.fst).Nodup)
    (hl : entries.lookup n = some i) :
    (entries.map Prod.snd).Perm (i :: (entries.filter fun p => p.1 ≠ n).map Prod.snd) := by
  induction entries with
  | nil => cases hl
  | cons p ps ih =>
    obtain ⟨k, j⟩ := p
    rw [List.map_cons, List.nodup_cons] at hn
    by_cases hk : k = n
    · subst hk
      rw [List.lookup_cons_self] at hl
      cases hl
      have hrest : ps.filter (fun p => p.1 ≠ k) = ps := by
        refine List.filter_eq_self.mpr fun q hq => ?_
        rw [decide_eq_true_eq]
        intro he
        have hm := List.mem_map_of_mem (f := Prod.fst) hq
        rw [he] at hm
        exact hn.1 hm
      rw [List.filter_cons_of_neg (by simp), hrest]
      exact .refl _
    · have hb : (n == k) = false := beq_false_of_ne fun he => hk he.symm
      rw [List.lookup_cons, hb] at hl
      rw [List.filter_cons_of_pos (by simpa using hk)]
      exact ((ih hn.2 hl).cons j).trans (.swap i j _)

theorem handles_nil {queue : List Closure} (h : queue.countP Closure.closes = 0) :
    queue.flatMap Closure.handles = [] := by
  refine List.flatMap_eq_nil_iff.mpr fun k hk => ?_
  have hno := List.countP_eq_zero.mp h k hk
  cases k with
  | closeEntries entries => exact absurd rfl hno
  | _ => rfl

/-! ## The invariant -/

/-- `token` counts the closure of `close`. -/
structure Kept (s : SignalSet) : Prop where
  owned : Owned s.heap s.held
  keys : ∀ p ∈ s.entries, signumOf s.heap p.2 = p.1
  locked : ∀ n, s.pc = .locked n → n ∉ s.entries.map Prod.fst
  started : ∀ n i, s.pc = .started n i → signumOf s.heap i = n
  taken : s.caller = .notCalled ∨ s.caller = .stored ∨ s.entries = [] ∧ ∀ n i, s.pc ≠ .started n i
  token : s.queue.countP Closure.closes + s.pc.last.toNat = s.caller.hasPosted.toNat
  finished : s.caller = .finished → s.held = []

theorem mem_held {p : Int × EntryId} (hp : p ∈ s.entries) : p.2 ∈ s.held :=
  List.mem_append_left _ (List.mem_append_left _ (List.mem_append_left _ (List.mem_map_of_mem hp)))

theorem Kept.keys_map (h : Kept s) :
    (s.entries.map Prod.snd).map (signumOf s.heap) = s.entries.map Prod.fst := by
  rw [List.map_map]
  exact List.map_congr_left fun p hp => h.keys p hp

/-- The map has a signal once. -/
theorem Kept.keys_nodup (h : Kept s) : (s.entries.map Prod.fst).Nodup := by
  have hd := h.owned.distinct
  unfold SignalSet.held at hd
  rw [List.map_append, List.map_append, List.map_append, h.keys_map] at hd
  exact hd.of_append_left.of_append_left.of_append_left

theorem Kept.sound (h : Kept s) : Sound s where
  once e he := by
    obtain ⟨i, hi⟩ := List.mem_iff_getElem?.mp he
    by_cases hm : i ∈ s.held
    · rw [h.owned.fresh i e hi hm]
      exact ⟨rfl, Nat.zero_le 1, rfl⟩
    · rw [h.owned.gone i e hi hm]
      exact ⟨rfl, Nat.le_refl 1, rfl⟩
  owned i e hi hl := (h.owned.live_iff hi).mp hl
  single i j a b hi hj ha hb he := by
    refine List.inj_on_of_nodup_map h.owned.distinct ((h.owned.live_iff hi).mp ha)
      ((h.owned.live_iff hj).mp hb) ?_
    unfold signumOf
    rw [hi, hj]
    exact he
  closed hf := by
    have hnil := h.finished hf
    constructor
    · cases hs : s.entries with
      | nil => rfl
      | cons p ps =>
        have hp : p ∈ s.entries := hs ▸ List.mem_cons_self
        exact absurd (hnil ▸ mem_held hp) List.not_mem_nil
    · intro e he hl
      obtain ⟨i, hi⟩ := List.mem_iff_getElem?.mp he
      exact absurd (hnil ▸ (h.owned.live_iff hi).mp hl) List.not_mem_nil

/-! ## The steps -/

/-- The places change, and nothing else of the invariant. -/
theorem Kept.queue (h : Kept s) {queue : List Closure} {state shuttingDown : Bool}
    {thrown : List Error} (hh : queue.flatMap Closure.handles = s.queue.flatMap Closure.handles)
    (hc : queue.countP Closure.closes = s.queue.countP Closure.closes) :
    Kept { s with state, queue, shuttingDown, thrown } := by
  have hheld : ({ s with state, queue, shuttingDown, thrown } : SignalSet).held = s.held := by
    unfold SignalSet.held
    rw [hh]
  refine ⟨hheld.symm ▸ h.owned, h.keys, h.locked, h.started, h.taken, ?_, fun hf => ?_⟩
  · change queue.countP Closure.closes + _ = _
    rw [hc]
    exact h.token
  · exact hheld.trans (h.finished hf)

theorem Kept.fail (h : Kept s) (e : Error) : Kept (s.fail e) := h.queue rfl rfl

theorem Kept.call (h : Kept s) (here : Bool) {k : Closure} (hh : k.handles = [])
    (hc : k.closes = false) : Kept (s.call here k) := by
  unfold SignalSet.call
  split
  · refine h.queue ?_ ?_
    · rw [List.flatMap_cons, hh, List.nil_append]
    · rw [List.countP_cons_of_neg (by simp [hc])]
  · split
    · exact h.fail _
    · refine h.queue ?_ ?_
      · rw [List.flatMap_append, List.flatMap_singleton, hh, List.append_nil]
      · rw [List.countP_append, List.countP_singleton, hc]
        rfl

/-- The loop thread goes on with the same entries in its hands. -/
theorem Kept.pc (h : Kept s) {pc : Pc} (hh : pc.handles = s.pc.handles) (hl : pc.last = s.pc.last)
    (hlocked : ∀ n, pc = .locked n → n ∉ s.entries.map Prod.fst)
    (hstarted : ∀ n i, pc ≠ .started n i) :
    Kept { s with pc } := by
  have hheld : ({ s with pc } : SignalSet).held = s.held := by
    unfold SignalSet.held
    rw [hh]
  refine ⟨hheld.symm ▸ h.owned, h.keys, hlocked, fun n i he => absurd he (hstarted n i), ?_, ?_,
    fun hf => hheld.trans (h.finished hf)⟩
  · exact h.taken.imp_right fun ht => ht.imp_right fun ht => ⟨ht.1, hstarted⟩
  · change _ + pc.last.toNat = _
    rw [hl]
    exact h.token

theorem Kept.idle (h : Kept s) (hh : s.pc.handles = []) (hl : s.pc.last = false) :
    Kept { s with pc := .idle } :=
  h.pc hh.symm hl.symm (fun n hn => by cases hn) fun n i hn => by cases hn

theorem kept_addClosure (h : Kept s) (hpc : s.pc = .idle) (n : Int) : Kept (s.addClosure n) := by
  unfold SignalSet.addClosure
  split
  · exact h.fail _
  · exact h.pc (by rw [hpc]; rfl) (by rw [hpc]; rfl) (fun k hk => by cases hk)
      fun k i hk => by cases hk

theorem kept_addLock (h : Kept s) (hpc : s.pc = .checked n) : Kept (s.addLock n) := by
  unfold SignalSet.addLock
  split
  · exact h.idle (by rw [hpc]; rfl) (by rw [hpc]; rfl)
  case isFalse hn =>
    refine h.pc (by rw [hpc]; rfl) (by rw [hpc]; rfl) (fun k hk => ?_) fun k i hk => by cases hk
    cases hk
    exact hn

/-- Before `close` has taken the entries neither it nor its closure holds any. -/
theorem Kept.before (h : Kept s) (hl : s.pc.last = false)
    (hb : s.caller = .notCalled ∨ s.caller = .stored) :
    s.caller.handles = [] ∧ s.queue.flatMap Closure.handles = [] := by
  have htoken := h.token
  rw [hl] at htoken
  rcases hb with hb | hb
  · rw [hb] at htoken ⊢
    exact ⟨rfl, handles_nil htoken⟩
  · rw [hb] at htoken ⊢
    exact ⟨rfl, handles_nil htoken⟩

theorem kept_addStart (h : Kept s) (hpc : s.pc = .locked n) {initRc startRc : Int}
    (hg : Good s (.start initRc startRc)) : Kept (s.addStart n initRc startRc) := by
  have hidle : Kept { s with pc := .idle } := h.idle (by rw [hpc]; rfl) (by rw [hpc]; rfl)
  unfold SignalSet.addStart
  split
  · exact hidle.fail _
  case isFalse hinit =>
    split
    · exact hidle.fail _
    case isFalse hstart =>
      have hbefore := hg (Int.not_lt.mp hinit) (Int.not_lt.mp hstart)
      obtain ⟨hcaller, hqueue⟩ := h.before (by rw [hpc]; rfl) hbefore
      have hheld : s.held = s.entries.map Prod.snd := by
        unfold SignalSet.held
        rw [hcaller, hqueue, hpc]
        simp only [Pc.handles, List.append_nil]
      have howned := h.owned
      rw [hheld] at howned
      have hnew : n ∉ (s.entries.map Prod.snd).map (signumOf s.heap) := by
        rw [h.keys_map]
        exact h.locked n hpc
      have htoken := h.token
      rw [hpc] at htoken
      refine ⟨(howned.start hnew).perm ?_, fun p hp => ?_, (fun k hk => by cases hk),
        fun k i hk => ?_, hbefore.elim .inl fun hb => .inr (.inl hb), htoken, fun hf => ?_⟩
      · change (s.entries.map Prod.snd ++ [s.heap.length] ++ s.caller.handles ++
          s.queue.flatMap Closure.handles).Perm _
        rw [hcaller, hqueue, List.append_nil, List.append_nil]
        exact List.perm_append_comm
      · exact (signumOf_append (h.owned.bound _ (mem_held hp))).trans (h.keys p hp)
      · cases hk
        exact signumOf_last
      · change s.caller = .finished at hf
        rcases hbefore with hb | hb <;> rw [hb] at hf <;> cases hf

/-- The entries are moved about. -/
theorem Kept.moved (h : Kept s) (hheap : t.heap = s.heap) (hheld : t.held.Perm s.held)
    (hkeys : ∀ p ∈ t.entries, signumOf s.heap p.2 = p.1)
    (hpc : ∀ n, t.pc ≠ .locked n) (hstarted : ∀ n i, t.pc ≠ .started n i)
    (htaken : t.caller = .notCalled ∨ t.caller = .stored ∨ t.entries = [])
    (htoken : t.queue.countP Closure.closes + t.pc.last.toNat = t.caller.hasPosted.toNat)
    (hfinished : t.caller = .finished → s.caller = .finished) : Kept t where
  owned := hheap.symm ▸ h.owned.perm hheld
  keys := hheap.symm ▸ hkeys
  locked n hn := absurd hn (hpc n)
  started n i hn := absurd hn (hstarted n i)
  taken := htaken.imp_right fun ht => ht.imp_right fun ht => ⟨ht, hstarted⟩
  token := htoken
  finished hf := List.perm_nil.mp (h.finished (hfinished hf) ▸ hheld)

theorem kept_addInsert (h : Kept s) (hpc : s.pc = .started n i) : Kept (s.addInsert n i) := by
  have hbefore : s.caller = .notCalled ∨ s.caller = .stored := by
    rcases h.taken with hb | hb | hb
    · exact .inl hb
    · exact .inr hb
    · exact absurd hpc (hb.2 n i)
  have htoken := h.token
  rw [hpc] at htoken
  refine h.moved rfl ?_ (fun p hp => ?_) (fun k hk => by cases hk) (fun k j hk => by cases hk)
    (hbefore.imp_right .inl) htoken id
  · unfold SignalSet.held
    rw [hpc]
    refine List.perm_iff_count.mpr fun x => ?_
    simp only [SignalSet.addInsert, Pc.handles, List.map_cons, List.count_append, List.count_cons,
      List.count_nil]
    omega
  · change p ∈ (n, i) :: s.entries at hp
    rw [List.mem_cons] at hp
    rcases hp with rfl | hp
    · exact h.started n i hpc
    · exact h.keys p hp

theorem kept_removeClosure (h : Kept s) (hpc : s.pc = .idle) (n : Int) :
    Kept (s.removeClosure n) := by
  have htoken := h.token
  rw [hpc] at htoken
  unfold SignalSet.removeClosure
  cases hl : s.entries.lookup n with
  | none => exact h
  | some i =>
    have hperm := lookup_perm h.keys_nodup hl
    refine h.moved rfl ?_ (fun p hp => h.keys p (List.mem_filter.mp hp).1) (fun k hk => by cases hk)
      (fun k j hk => by cases hk) ?_ htoken id
    · unfold SignalSet.held
      rw [hpc]
      refine List.perm_iff_count.mpr fun x => ?_
      have hcount := hperm.count_eq x
      simp only [Pc.handles, List.count_append, List.count_cons, List.count_nil] at hcount ⊢
      omega
    · refine h.taken.imp_right fun ht => ht.imp_right fun ht => ?_
      rw [ht.1] at hl
      cases hl

theorem kept_clearClosure (h : Kept s) (hpc : s.pc = .idle) : Kept s.clearClosure := by
  have htoken := h.token
  rw [hpc] at htoken
  refine h.moved rfl ?_ (fun p hp => absurd hp List.not_mem_nil) (fun k hk => by cases hk)
    (fun k j hk => by cases hk) (.inr (.inr rfl)) htoken id
  unfold SignalSet.held
  rw [hpc]
  refine List.perm_iff_count.mpr fun x => ?_
  simp only [SignalSet.clearClosure, Pc.handles, List.count_append, List.map_nil, List.count_nil]
  omega

theorem kept_closeEntries (h : Kept s) (hpc : s.pc = .idle) {entries : List EntryId}
    {rest : List Closure} (hq : s.queue = .closeEntries entries :: rest) :
    Kept { s with queue := rest, pc := .closing entries true } := by
  have htoken := h.token
  rw [hpc, hq, List.countP_cons_of_pos rfl] at htoken
  refine h.moved rfl ?_ h.keys (fun k hk => by cases hk) (fun k j hk => by cases hk) ?_ htoken id
  · unfold SignalSet.held
    rw [hpc, hq]
    refine List.perm_iff_count.mpr fun x => ?_
    simp only [Pc.handles, Closure.handles, List.flatMap_cons, List.count_append, List.count_nil]
    omega
  · exact h.taken.imp_right fun ht => ht.imp_right fun ht => ht.1

/-- The loop thread takes a closure other than that of `close`. -/
theorem Kept.pop (h : Kept s) {k : Closure} {rest : List Closure} (hq : s.queue = k :: rest)
    (hh : k.handles = []) (hc : k.closes = false) : Kept { s with queue := rest } := by
  refine h.queue ?_ ?_
  · rw [hq, List.flatMap_cons, hh, List.nil_append]
  · rw [hq, List.countP_cons_of_neg (by simp [hc])]

theorem kept_run (h : Kept s) (hpc : s.pc = .idle) {k : Closure} {rest : List Closure}
    (hq : s.queue = k :: rest) (hg : Good s .run) :
    Kept ({ s with queue := rest }.runClosure k) := by
  cases k with
  | add n => exact kept_addClosure (h.pop hq rfl rfl) hpc n
  | remove n => exact kept_removeClosure (h.pop hq rfl rfl) hpc n
  | clear => exact kept_clearClosure (h.pop hq rfl rfl) hpc
  | closeEntries entries => exact kept_closeEntries h hpc hq
  | walk =>
    have hwalk := h.owned.walk (hg rest hq)
    have hpop := h.pop hq rfl rfl
    change Kept { s with queue := rest, heap := s.heap.map Entry.walk }
    rw [hwalk]
    exact hpop

theorem kept_closeEntry (h : Kept s) {rest : List EntryId} {last : Bool}
    (hpc : s.pc = .closing (i :: rest) last) : Kept (s.closeEntry i rest last) := by
  have htoken := h.token
  rw [hpc] at htoken
  have hperm : s.held.Perm (i :: (s.closeEntry i rest last).held) := by
    unfold SignalSet.held
    rw [hpc]
    refine List.perm_iff_count.mpr fun x => ?_
    simp only [SignalSet.closeEntry, Pc.handles, List.count_append, List.count_cons]
    omega
  refine ⟨(h.owned.perm hperm.symm).close, fun p hp => ?_, (fun k hk => by cases hk),
    (fun k j hk => by cases hk), ?_, htoken, fun hf => ?_⟩
  · exact (signumOf_modify i p.2).trans (h.keys p hp)
  · refine h.taken.imp_right fun ht => ht.imp_right fun ht => ⟨ht.1, fun k j hk => by cases hk⟩
  · have hnil := h.finished hf
    rw [hnil] at hperm
    cases List.nil_perm.mp hperm

theorem kept_endClosing (h : Kept s) {last : Bool} (hpc : s.pc = .closing [] last) :
    Kept (s.endClosing last) := by
  have htoken := h.token
  rw [hpc] at htoken
  cases last with
  | false => exact h.idle (by rw [hpc]; rfl) (by rw [hpc]; rfl)
  | true =>
    have hposted : s.caller = .posted := by
      cases hc : s.caller with
      | posted => rfl
      | _ =>
        rw [hc] at htoken
        cases htoken
    rw [hposted] at htoken
    have hqueue : s.queue.countP Closure.closes = 0 := Nat.succ.inj htoken
    have hentries : s.entries = [] := by
      rcases h.taken with hc | hc | hc
      · rw [hposted] at hc
        cases hc
      · rw [hposted] at hc
        cases hc
      · exact hc.1
    have hheld : (s.endClosing true).held = [] := by
      unfold SignalSet.held
      change s.entries.map Prod.snd ++ [] ++ [] ++ s.queue.flatMap Closure.handles = []
      rw [hentries, handles_nil hqueue]
      rfl
    have hsame : s.held = [] := by
      unfold SignalSet.held
      rw [hentries, handles_nil hqueue, hpc, hposted]
      rfl
    have howned := h.owned
    rw [hsame] at howned
    exact ⟨hheld.symm ▸ howned, h.keys, (fun k hk => by cases hk), (fun k j hk => by cases hk),
      .inr (.inr ⟨hentries, fun k j hk => by cases hk⟩), hqueue, fun _ => hheld⟩

theorem kept_closeStore (h : Kept s) (hc : s.caller = .notCalled) : Kept s.closeStore := by
  have htoken := h.token
  rw [hc] at htoken
  have hheld : s.closeStore.held = s.held := by
    unfold SignalSet.held
    rw [hc]
    rfl
  exact ⟨hheld.symm ▸ h.owned, h.keys, h.locked, h.started, .inr (.inl rfl), htoken,
    fun hf => by cases hf⟩

theorem kept_closeTake (h : Kept s) (hc : s.caller = .stored) (hm : s.pc.mutex = false) :
    Kept s.closeTake := by
  have htoken := h.token
  rw [hc] at htoken
  refine h.moved rfl ?_ (fun p hp => absurd hp List.not_mem_nil) (fun k hk => ?_) (fun k j hk => ?_)
    (.inr (.inr rfl)) htoken fun hf => by cases hf
  · unfold SignalSet.held
    rw [hc]
    refine List.perm_iff_count.mpr fun x => ?_
    simp only [SignalSet.closeTake, Caller.handles, List.count_append, List.map_nil, List.count_nil]
    omega
  · change s.pc = .locked k at hk
    rw [hk] at hm
    cases hm
  · change s.pc = .started k j at hk
    rw [hk] at hm
    cases hm

theorem kept_closePost (h : Kept s) {entries : List EntryId} (hc : s.caller = .taken entries)
    (hg : Good s .closePost) : Kept (s.closePost entries) := by
  have htoken := h.token
  rw [hc] at htoken
  have htaken : s.entries = [] ∧ ∀ n i, s.pc ≠ .started n i := by
    rcases h.taken with hb | hb | hb
    · rw [hc] at hb
      cases hb
    · rw [hc] at hb
      cases hb
    · exact hb
  unfold SignalSet.closePost
  split
  case isTrue hdown =>
    have hnil : entries = [] := by
      rcases hg with hg | hg
      · rw [hg] at hdown
        cases hdown
      · rw [hc] at hg
        exact hg
    subst hnil
    have hheld : ({ s with caller := .dropped } : SignalSet).held = s.held := by
      unfold SignalSet.held
      rw [hc]
      rfl
    exact ⟨hheld.symm ▸ h.owned, h.keys, h.locked, h.started, .inr (.inr htaken), htoken,
      fun hf => by cases hf⟩
  case isFalse =>
    have hheld : ({ s with queue := s.queue ++ [.closeEntries entries], caller := .posted } :
        SignalSet).held.Perm s.held := by
      unfold SignalSet.held
      rw [hc]
      refine List.perm_iff_count.mpr fun x => ?_
      simp only [Caller.handles, Closure.handles, List.flatMap_append, List.flatMap_cons,
        List.flatMap_nil, List.count_append, List.count_nil]
      omega
    refine ⟨h.owned.perm hheld, h.keys, h.locked, h.started, .inr (.inr htaken), ?_,
      fun hf => by cases hf⟩
    change (s.queue ++ [Closure.closeEntries entries]).countP Closure.closes + _ = 1
    rw [List.countP_append, List.countP_singleton]
    change _ + 1 + _ = 1
    rw [Nat.add_right_comm, htoken]
    rfl

theorem kept_shutdown (h : Kept s) : Kept s.shutdown := by
  refine h.queue ?_ ?_
  · rw [List.flatMap_append]
    exact List.append_nil _
  · rw [List.countP_append]
    rfl

/-- One step under `Good`. -/
theorem step_kept (h : Kept s) {l : Label} (hg : Good s l) (hs : step s l = some t) : Kept t := by
  cases l with
  | add here stopped n =>
    cases hs
    unfold SignalSet.add
    split
    · exact h.fail _
    · split
      · exact h.fail _
      · exact h.call here rfl rfl
  | remove here stopped n =>
    cases hs
    unfold SignalSet.remove
    split
    · exact h.fail _
    · split
      · exact h
      · exact h.call here rfl rfl
  | clear here stopped =>
    cases hs
    unfold SignalSet.clear
    split
    · exact h.fail _
    · split
      · exact h
      · exact h.call here rfl rfl
  | run =>
    dsimp only [step] at hs
    split at hs
    case h_1 k rest hpc hq =>
      cases hs
      exact kept_run h hpc hq hg
    · cases hs
  | lock =>
    dsimp only [step] at hs
    split at hs
    case h_1 n hpc =>
      cases hs
      exact kept_addLock h hpc
    · cases hs
  | start initRc startRc =>
    dsimp only [step] at hs
    split at hs
    case h_1 n hpc =>
      cases hs
      exact kept_addStart h hpc hg
    · cases hs
  | insert =>
    dsimp only [step] at hs
    split at hs
    case h_1 n i hpc =>
      cases hs
      exact kept_addInsert h hpc
    · cases hs
  | closeEntry =>
    dsimp only [step] at hs
    split at hs
    case h_1 i rest last hpc =>
      cases hs
      exact kept_closeEntry h hpc
    · cases hs
  | endClosing =>
    dsimp only [step] at hs
    split at hs
    case h_1 last hpc =>
      cases hs
      exact kept_endClosing h hpc
    · cases hs
  | closeStore =>
    dsimp only [step] at hs
    split at hs
    case h_1 hc =>
      cases hs
      exact kept_closeStore h hc
    · cases hs
  | closeTake =>
    dsimp only [step] at hs
    split at hs
    case h_1 hc =>
      obtain ⟨hm, hs⟩ := Option.ite_none_left_eq_some.mp hs
      cases hs
      exact kept_closeTake h hc (by simpa using hm)
    · cases hs
  | closePost =>
    dsimp only [step] at hs
    split at hs
    case h_1 entries hc =>
      cases hs
      exact kept_closePost h hc hg
    · cases hs
  | shutdown =>
    obtain ⟨_, hs⟩ := Option.ite_none_left_eq_some.mp hs
    cases hs
    exact kept_shutdown h

theorem kept (h : ReachableBy system Good s) : Kept s := by
  refine h.invariant ?_ fun s l t _ hI hg hs => step_kept hI hg hs
  intro s h0
  cases h0
  refine ⟨⟨fun i hi => ?_, fun i e he => ?_, fun i e he => ?_, List.nodup_nil⟩, fun p hp => ?_,
    fun n hn => ?_, fun n i hn => ?_, .inl rfl, rfl, fun _ => rfl⟩
  · cases hi
  · cases he
  · cases he
  · cases hp
  · cases hn
  · cases hn

/-- Whatever runs between the parts of `close`, as long as no `add` starts a handle behind
it and its closure is not refused. -/
theorem no_handle_after_close (h : ReachableBy system Good s) : Sound s := (kept h).sound

/-- A signal that is added, and then closed with the set. -/
theorem no_handle_after_close_add : ∃ s : SignalSet, Sound s ∧ s.caller = .finished ∧
    s.heap = [{ signum := 2, handle := false, stops := 1, closes := 1 }] := by
  have h₀ : ReachableBy system Good {} := .init rfl
  have h₁ := h₀.step (l := .add false false 2) (by exact trivial) rfl
  have h₂ := h₁.step (l := .run) (by intro rest hq; cases hq) rfl
  have h₃ := h₂.step (l := .lock) (by exact trivial) rfl
  have h₄ := h₃.step (l := .start 0 0) (by exact fun _ _ => .inl rfl) rfl
  have h₅ := h₄.step (l := .insert) (by exact trivial) rfl
  have h₆ := h₅.step (l := .closeStore) (by exact trivial) rfl
  have h₇ := h₆.step (l := .closeTake) (by exact trivial) rfl
  have h₈ := h₇.step (l := .closePost) (by exact .inl rfl) rfl
  have h₉ := h₈.step (l := .run) (by intro rest hq; cases hq) rfl
  have h₁₀ := h₉.step (l := .closeEntry) (by exact trivial) rfl
  have h₁₁ := h₁₀.step (l := .endClosing) (by exact trivial) rfl
  exact ⟨_, no_handle_after_close h₁₁, rfl, rfl⟩

/-- `close` between the check of an `add` and its lock. -/
def overtaken : List Label :=
  [.run, .closeStore, .closeTake, .lock, .start 0 0]

/-- The handle that `add` has started is live after `close` and its closure; and where the
signal was there before, it has two live handles for a while. -/
theorem close_leaves_handle :
    (∃ s, Reachable system s ∧ s.caller = .finished ∧ s.entries = [(2, 0)] ∧
      s.heap = [{ signum := 2 }] ∧ ¬ Sound s) ∧
    ∃ s, Reachable system s ∧ s.heap = [{ signum := 2 }, { signum := 2 }] ∧ ¬ Sound s := by
  have h0 : Reachable system {} := .init rfl
  refine ⟨⟨_, h0.run (show run system {} (.add false false 2 :: overtaken ++
      [.insert, .closePost, .run, .endClosing]) = some _ from rfl), rfl, rfl, rfl, fun hs => ?_⟩,
    _, h0.run (show run system {} ([.add false false 2, .run, .lock, .start 0 0, .insert,
      .add false false 2] ++ overtaken) = some _ from rfl), rfl, fun hs => ?_⟩
  · cases (hs.closed rfl).1
  · exact absurd (hs.single 0 1 _ _ rfl rfl ⟨rfl, rfl⟩ ⟨rfl, rfl⟩ rfl) (by simp)

end LuvCoro.Handles.Signals
