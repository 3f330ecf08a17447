import LuvCoro.Io.Source

/-! # `copy` and `copy_n`

Translated from `include/luvcoro/io.hpp`. Two nested loops: each round reads into
one buffer as much as the source gives, and writes it out as the sink takes it. -/
namespace LuvCoro.Io

/-- A stream to write to. `written` is what it has been given so far. -/
structure Sink (α τ : Type) where
  writeSome : τ → List α → Except Failure Nat × τ
  written : τ → List α
  accepts {t t' : τ} {data : List α} {n : Nat} :
    writeSome t data = (.ok n, t') → n ≤ data.length ∧ written t' = written t ++ data.take n

variable {α σ τ : Type}

namespace Sink

/-- The sink does not throw. It may take nothing. -/
def Answers (sink : Sink α τ) : Prop :=
  ∀ t data, data ≠ [] → ∃ n t', sink.writeSome t data = (.ok n, t')

/-- The sink takes at least one byte of what it is offered. -/
def Progresses (sink : Sink α τ) : Prop :=
  ∀ t data, data ≠ [] → ∃ n t', sink.writeSome t data = (.ok n, t') ∧ 0 < n

end Sink

/-! ## The loops -/

def writeAllBuffer (sink : Sink α τ) (buffer : List α) (total : Nat) (t : τ) :
    Except Failure Nat × τ :=
  if total < buffer.length then
    match sink.writeSome t (buffer.drop total) with
    | (.error e, t') => (.error e, t')
    | (.ok written, t') =>
      if written = 0 then (.error (.runtimeError "write_all_buffer made no progress"), t')
      else writeAllBuffer sink buffer (total + written) t'
  else (.ok total, t)
termination_by buffer.length - total

/-- The buffer after a read into its front. -/
def fill (buffer chunk : List α) : List α := chunk ++ buffer.drop chunk.length

/-- What a round asks for when `total` bytes are through: all of the buffer, or
what is left of the bytes to copy when that is less. -/
def wanted (bytesToCopy : Option Nat) (total size : Nat) : Nat :=
  match bytesToCopy with
  | none => size
  | some n => if n - total < size then n - total else size

/-- The loop of `copy`, and with a number of bytes that of `copy_n`. -/
def copyLoop (source : Source α σ) (sink : Sink α τ) (bytesToCopy : Option Nat)
    (buffer : List α) (total : Nat) (s : σ) (t : τ) : Except Failure Nat × σ × τ :=
  if bytesToCopy.any (· ≤ total) then (.ok total, s, t)
  else
    match _h : source.read s (wanted bytesToCopy total buffer.length) with
    | (.error e, s') => (.error e, s', t)
    | (.ok chunk, s') =>
      if _hne : chunk = [] then (.ok total, s', t)
      else
        let filled := fill buffer chunk
        match writeAllBuffer sink (filled.take chunk.length) 0 t with
        | (.error e, t') => (.error e, s', t')
        | (.ok n, t') => copyLoop source sink bytesToCopy filled (total + n) s' t'
termination_by (source.unread s).length
decreasing_by exact source.shrinks _h _hne

section
variable [Inhabited α] (source : Source α σ) (sink : Sink α τ)

def copy (bufferSize : Nat) (s : σ) (t : τ) : Except Failure Nat × σ × τ :=
  if bufferSize = 0 then
    (.error (.of (.invalidArgument "copy buffer_size must be > 0")), s, t)
  else copyLoop source sink none (List.replicate bufferSize default) 0 s t

def copyN (bytesToCopy bufferSize : Nat) (s : σ) (t : τ) : Except Failure Nat × σ × τ :=
  if bufferSize = 0 then
    (.error (.of (.invalidArgument "copy_n buffer_size must be > 0")), s, t)
  else copyLoop source sink (some bytesToCopy) (List.replicate bufferSize default) 0 s t

end

/-! ## What the sink answers -/

/-- The sink is called for one piece after another, none of them empty, and
answers `ns`. -/
inductive Sink.Calls (sink : Sink α τ) : τ → List Nat → τ → Prop
  | nil {t : τ} : Calls sink t [] t
  | cons {t u v : τ} {data : List α} {n : Nat} {ns : List Nat} :
      data ≠ [] → sink.writeSome t data = (.ok n, u) → Calls sink u ns v →
      Calls sink t (n :: ns) v

theorem Sink.Calls.append {sink : Sink α τ} {t u v : τ} {ns ms : List Nat}
    (h : sink.Calls t ns u) (h' : sink.Calls u ms v) : sink.Calls t (ns ++ ms) v := by
  induction h with
  | nil => exact h'
  | cons hd hw _ ih => exact .cons hd hw (ih h')

theorem Sink.Progresses.calls {sink : Sink α τ} (hp : sink.Progresses) {t t' : τ} {ns : List Nat}
    (h : sink.Calls t ns t') : 0 ∉ ns := by
  induction h with
  | nil => exact List.not_mem_nil
  | @cons t u v data n ns hd hw _ ih =>
    obtain ⟨m, u', hm, hpos⟩ := hp t data hd
    rw [hw] at hm
    cases hm
    intro hmem
    rcases List.mem_cons.mp hmem with h0 | h0
    · omega
    · exact ih h0

theorem Sink.Progresses.answers {sink : Sink α τ} (hp : sink.Progresses) : sink.Answers := by
  intro t data hd
  obtain ⟨n, t', hw, _⟩ := hp t data hd
  exact ⟨n, t', hw⟩

/-- What has been written out of `data` when the loop returns `r`: all of it, or
less of it after a write that took nothing. -/
structure Written (sink : Sink α τ) (data : List α) (count : Nat) (t t' : τ)
    (r : Except Failure Nat) (ns : List Nat) : Prop where
  calls : sink.Calls t ns t'
  all : 0 ∉ ns → r = .ok count ∧ sink.written t' = sink.written t ++ data
  stalled : 0 ∈ ns → r = .error (.runtimeError "write_all_buffer made no progress") ∧
    ∃ p, p <+: data ∧ p ≠ data ∧ sink.written t' = sink.written t ++ p

theorem writeAllBuffer_written {sink : Sink α τ} (hk : sink.Answers) {buffer : List α}
    {total : Nat} (ht : total ≤ buffer.length) (t : τ) :
    ∃ ns, Written sink (buffer.drop total) buffer.length t
      (writeAllBuffer sink buffer total t).2 (writeAllBuffer sink buffer total t).1 ns := by
  induction hm : buffer.length - total using Nat.strongRecOn generalizing total t with
  | ind m ih =>
    unfold writeAllBuffer
    by_cases hlt : total < buffer.length
    · have hd : buffer.drop total ≠ [] := by
        intro he
        have := congrArg List.length he
        rw [List.length_drop, List.length_nil] at this
        omega
      obtain ⟨n, u, hw⟩ := hk t (buffer.drop total) hd
      obtain ⟨hle, hwritten⟩ := sink.accepts hw
      rw [if_pos hlt, hw]
      dsimp only
      by_cases hn : n = 0
      · subst hn
        rw [if_pos rfl]
        refine ⟨[0], .cons hd hw .nil, ?_, ?_⟩
        · intro h
          simp at h
        · intro _
          refine ⟨rfl, [], List.nil_prefix, hd.symm, ?_⟩
          rw [hwritten, List.take_zero]
      · rw [if_neg hn]
        rw [List.length_drop] at hle
        obtain ⟨ns, hcalls, hall, hstalled⟩ :=
          ih (buffer.length - (total + n)) (by omega) (by omega) u rfl
        -- what is taken now and what the rounds to come take
        have hsplit :
            buffer.drop total = (buffer.drop total).take n ++ buffer.drop (total + n) := by
          rw [← List.drop_drop, List.take_append_drop]
        refine ⟨n :: ns, .cons hd hw hcalls, ?_, ?_⟩
        · intro h
          obtain ⟨hr, hout⟩ := hall fun h0 => h (List.mem_cons_of_mem _ h0)
          refine ⟨hr, ?_⟩
          rw [hout, hwritten, List.append_assoc, ← hsplit]
        · intro h
          obtain ⟨hr, p, hp, hne, hout⟩ :=
            hstalled ((List.mem_cons.mp h).resolve_left fun h0 => hn h0.symm)
          refine ⟨hr, (buffer.drop total).take n ++ p, ?_, ?_, ?_⟩
          · rw [hsplit, List.take_left' (by rw [List.length_take, List.length_drop]; omega)]
            exact (List.prefix_append_right_inj _).mpr hp
          · intro he
            rw [hsplit, List.take_left' (by rw [List.length_take, List.length_drop]; omega)] at he
            exact hne (List.append_cancel_left he)
          · rw [hout, hwritten, List.append_assoc]
    · have he : buffer.drop total = [] := List.drop_eq_nil_of_le (by omega)
      rw [if_neg hlt, he]
      refine ⟨[], .nil, ?_, ?_⟩
      · intro _
        exact ⟨by rw [Nat.le_antisymm ht (by omega)], (List.append_nil _).symm⟩
      · intro h
        cases h

/-! ## Rounds -/

/-- What is still to be copied of `unread` when `total` bytes are through. -/
def due (bytesToCopy : Option Nat) (total : Nat) (unread : List α) : List α :=
  match bytesToCopy with
  | none => unread
  | some n => unread.take (n - total)

theorem due_append {bytesToCopy : Option Nat} {total size : Nat} {chunk rest : List α}
    (hc : chunk.length ≤ wanted bytesToCopy total size) :
    due bytesToCopy total (chunk ++ rest) =
      chunk ++ due bytesToCopy (total + chunk.length) rest := by
  cases bytesToCopy with
  | none => rfl
  | some n =>
    unfold wanted at hc
    dsimp only at hc
    have hle : chunk.length ≤ n - total := by
      split at hc <;> omega
    unfold due
    dsimp only
    rw [List.take_append, List.take_of_length_le hle, Nat.sub_sub]

theorem due_reached {bytesToCopy : Option Nat} {total : Nat} {unread : List α}
    (h : bytesToCopy.any (· ≤ total) = true) : due bytesToCopy total unread = [] := by
  cases bytesToCopy with
  | none => cases h
  | some n =>
    have hle : n ≤ total := by simpa using h
    unfold due
    dsimp only
    rw [Nat.sub_eq_zero_of_le hle, List.take_zero]

theorem wanted_pos {bytesToCopy : Option Nat} {total size : Nat} (hs : 0 < size)
    (h : ¬ bytesToCopy.any (· ≤ total) = true) : 0 < wanted bytesToCopy total size := by
  cases bytesToCopy with
  | none => exact hs
  | some n =>
    have hlt : total < n := by simpa using h
    unfold wanted
    dsimp only
    split <;> omega

theorem wanted_le (bytesToCopy : Option Nat) (total size : Nat) :
    wanted bytesToCopy total size ≤ size := by
  cases bytesToCopy with
  | none => exact Nat.le_refl size
  | some n =>
    unfold wanted
    dsimp only
    split <;> omega

theorem due_nil (bytesToCopy : Option Nat) (total : Nat) :
    due bytesToCopy total ([] : List α) = [] := by
  cases bytesToCopy with
  | none => rfl
  | some n => exact List.take_nil

theorem take_fill (buffer chunk : List α) : (fill buffer chunk).take chunk.length = chunk :=
  List.take_left

theorem length_fill {buffer chunk : List α} (h : chunk.length ≤ buffer.length) :
    (fill buffer chunk).length = buffer.length := by
  unfold fill
  rw [List.length_append, List.length_drop]
  omega

/-- Rounds go on until what is due has been written, or a write takes nothing. -/
theorem copyLoop_written {source : Source α σ} {sink : Sink α τ} (hs : source.Steady)
    (hk : sink.Answers) (bytesToCopy : Option Nat) {buffer : List α} (hb : 0 < buffer.length)
    (total : Nat) (s : σ) (t : τ) :
    ∃ ns, Written sink (due bytesToCopy total (source.unread s))
        (total + (due bytesToCopy total (source.unread s)).length) t
        (copyLoop source sink bytesToCopy buffer total s t).2.2
        (copyLoop source sink bytesToCopy buffer total s t).1 ns ∧
      (0 ∉ ns → source.unread (copyLoop source sink bytesToCopy buffer total s t).2.1 =
        (source.unread s).drop (due bytesToCopy total (source.unread s)).length) := by
  induction hm : (source.unread s).length using Nat.strongRecOn
    generalizing total s t buffer with
  | ind m ih =>
    have hnothing : ∀ s', due bytesToCopy total (source.unread s) = [] →
        source.unread s' = source.unread s →
        ∃ ns, Written sink (due bytesToCopy total (source.unread s))
            (total + (due bytesToCopy total (source.unread s)).length) t t (.ok total) ns ∧
          (0 ∉ ns → source.unread s' =
            (source.unread s).drop (due bytesToCopy total (source.unread s)).length) := by
      intro s' hd hu
      rw [hd]
      refine ⟨[], ⟨.nil, ?_, ?_⟩, fun _ => hu⟩
      · intro _
        exact ⟨rfl, (List.append_nil _).symm⟩
      · intro h
        cases h
    unfold copyLoop
    by_cases hq : bytesToCopy.any (· ≤ total) = true
    · rw [if_pos hq]
      exact hnothing s (due_reached hq) rfl
    · rw [if_neg hq]
      by_cases hempty : source.unread s = []
      · obtain ⟨s', hread⟩ := hs.ends s (wanted bytesToCopy total buffer.length) hempty
        have hu := source.delivers hread
        rw [hread]
        dsimp only
        rw [dif_pos rfl]
        refine hnothing s' ?_ hu.symm
        rw [hempty]
        exact due_nil bytesToCopy total
      · obtain ⟨chunk, s', hread, hne⟩ := hs.gives s (wanted_pos hb hq) hempty
        have hu := source.delivers hread
        have hc := source.bounded hread
        have hshrinks := source.shrinks hread hne
        rw [hread]
        dsimp only
        rw [dif_neg hne, take_fill]
        obtain ⟨ns, hcalls, hall, hstalled⟩ :=
          writeAllBuffer_written hk (Nat.zero_le chunk.length) t
        rw [List.drop_zero] at hall hstalled
        have hdue : due bytesToCopy total (source.unread s) =
            chunk ++ due bytesToCopy (total + chunk.length) (source.unread s') := by
          rw [hu]
          exact due_append hc
        generalize writeAllBuffer sink chunk 0 t = x at hcalls hall hstalled ⊢
        obtain ⟨r, t'⟩ := x
        dsimp only at hcalls hall hstalled ⊢
        by_cases h0 : 0 ∈ ns
        · obtain ⟨rfl, p, hp, hpne, hout⟩ := hstalled h0
          refine ⟨ns, ⟨hcalls, fun h => absurd h0 h, fun _ => ⟨rfl, p, ?_, ?_, hout⟩⟩,
            fun h => absurd h0 h⟩
          · rw [hdue]
            exact hp.trans (List.prefix_append _ _)
          · -- less than the chunk is less than all that is due
            intro he
            have hlen := hp.length_le
            rw [he, hdue, List.length_append] at hlen
            refine hpne (hp.eq_of_length ?_)
            rw [he, hdue, List.length_append]
            omega
        · obtain ⟨rfl, hout⟩ := hall h0
          have hfill : (fill buffer chunk).length = buffer.length :=
            length_fill (Nat.le_trans hc (wanted_le _ _ _))
          obtain ⟨ms, ⟨hcalls', hall', hstalled'⟩, hread'⟩ :=
            ih (source.unread s').length (hm ▸ hshrinks) (hb.trans_eq hfill.symm)
              (total + chunk.length) s' t' rfl
          have hcount : total + chunk.length +
              (due bytesToCopy (total + chunk.length) (source.unread s')).length =
              total + (due bytesToCopy total (source.unread s)).length := by
            rw [hdue, List.length_append]
            omega
          rw [hcount] at hall'
          have hnot : 0 ∉ ns ++ ms → 0 ∉ ms := fun h hmem => h (List.mem_append_right _ hmem)
          refine ⟨ns ++ ms, ⟨hcalls.append hcalls', ?_, ?_⟩, ?_⟩
          · intro h
            obtain ⟨hr, hall⟩ := hall' (hnot h)
            refine ⟨hr, ?_⟩
            rw [hall, hout, List.append_assoc, ← hdue]
          · intro h
            obtain ⟨hr, p, hp, hpne, hall⟩ := hstalled' ((List.mem_append.mp h).resolve_left h0)
            refine ⟨hr, chunk ++ p, ?_, ?_, ?_⟩
            · rw [hdue]
              exact (List.prefix_append_right_inj _).mpr hp
            · intro he
              rw [hdue] at he
              exact hpne (List.append_cancel_left he)
            · rw [hall, hout, List.append_assoc]
          · intro h
            rw [hread' (hnot h), hdue, List.length_append, hu, ← List.drop_drop, List.drop_left]

theorem copy_written [Inhabited α] {source : Source α σ} {sink : Sink α τ} (hs : source.Steady)
    (hk : sink.Answers) {bufferSize : Nat} (hb : 0 < bufferSize) (s : σ) (t : τ) :
    ∃ ns r s' t', copy source sink bufferSize s t = (r, s', t') ∧
      Written sink (source.unread s) (source.unread s).length t t' r ns ∧
      (0 ∉ ns → source.unread s' = []) := by
  have hsize : 0 < (List.replicate bufferSize (default : α)).length := by
    rw [List.length_replicate]
    exact hb
  obtain ⟨ns, hw, hrest⟩ := copyLoop_written hs hk none hsize 0 s t
  unfold copy
  rw [if_neg (Nat.ne_of_gt hb)]
  refine ⟨ns, _, _, _, rfl, ?_, ?_⟩
  · rw [Nat.zero_add] at hw
    exact hw
  · intro h
    rw [hrest h]
    exact List.drop_length

theorem copyN_written [Inhabited α] {source : Source α σ} {sink : Sink α τ} (hs : source.Steady)
    (hk : sink.Answers) (n : Nat) {bufferSize : Nat} (hb : 0 < bufferSize) (s : σ) (t : τ) :
    ∃ ns r s' t', copyN source sink n bufferSize s t = (r, s', t') ∧
      Written sink ((source.unread s).take n) (min n (source.unread s).length) t t' r ns ∧
      (0 ∉ ns → source.unread s' =
        (source.unread s).drop (min n (source.unread s).length)) := by
  have hsize : 0 < (List.replicate bufferSize (default : α)).length := by
    rw [List.length_replicate]
    exact hb
  obtain ⟨ns, hw, hrest⟩ := copyLoop_written hs hk (some n) hsize 0 s t
  have hdue : due (some n) 0 (source.unread s) = (source.unread s).take n := rfl
  unfold copyN
  rw [if_neg (Nat.ne_of_gt hb)]
  rw [Nat.zero_add, hdue, List.length_take] at hw
  rw [hdue, List.length_take] at hrest
  exact ⟨ns, _, _, _, rfl, hw, hrest⟩

/-- Both copy all that is due, however short the reads and writes are, and
consume no more. Where a write takes nothing they throw, and less is through. -/
theorem copy_transfers [Inhabited α] {source : Source α σ} {sink : Sink α τ}
    (hs : source.Steady) {bufferSize : Nat} (hb : 0 < bufferSize) (n : Nat) (s : σ) (t : τ) :
    (sink.Progresses →
      (∃ s' t', copy source sink bufferSize s t = (.ok (source.unread s).length, s', t') ∧
        source.unread s' = [] ∧ sink.written t' = sink.written t ++ source.unread s) ∧
      ∃ s' t', copyN source sink n bufferSize s t =
          (.ok (min n (source.unread s).length), s', t') ∧
        source.unread s' = (source.unread s).drop (min n (source.unread s).length) ∧
        sink.written t' = sink.written t ++ (source.unread s).take n) ∧
    (sink.Answers →
      (∃ ns r s' t', copy source sink bufferSize s t = (r, s', t') ∧
        Written sink (source.unread s) (source.unread s).length t t' r ns) ∧
      ∃ ns r s' t', copyN source sink n bufferSize s t = (r, s', t') ∧
        Written sink ((source.unread s).take n) (min n (source.unread s).length) t t' r ns) := by
  refine ⟨fun hp => ⟨?_, ?_⟩, fun hk => ⟨?_, ?_⟩⟩
  · obtain ⟨ns, r, s', t', he, hw, hrest⟩ := copy_written hs hp.answers hb s t
    have h0 := hp.calls hw.calls
    obtain ⟨rfl, hout⟩ := hw.all h0
    exact ⟨s', t', he, hrest h0, hout⟩
  · obtain ⟨ns, r, s', t', he, hw, hrest⟩ := copyN_written hs hp.answers n hb s t
    have h0 := hp.calls hw.calls
    obtain ⟨rfl, hout⟩ := hw.all h0
    exact ⟨s', t', he, hrest h0, hout⟩
  · obtain ⟨ns, r, s', t', he, hw, _⟩ := copy_written hs hk hb s t
    exact ⟨ns, r, s', t', he, hw⟩
  · obtain ⟨ns, r, s', t', he, hw, _⟩ := copyN_written hs hk n hb s t
    exact ⟨ns, r, s', t', he, hw⟩

/-- A source that returns at most `k + 1` bytes for a read. -/
def listSource (k : Nat) : Source α (List α) where
  read s wanted := (.ok (s.take (min wanted (k + 1))), s.drop (min wanted (k + 1)))
  unread s := s
  delivers h := by
    cases h
    exact (List.take_append_drop _ _).symm
  bounded h := by
    cases h
    rw [List.length_take]
    omega

/-- A sink that takes at most `k` bytes of a write. -/
def listSink (k : Nat) : Sink α (List α) where
  writeSome t data := (.ok (min data.length k), t ++ data.take (min data.length k))
  written t := t
  accepts h := by
    cases h
    exact ⟨Nat.min_le_left _ _, rfl⟩

theorem listSource_steady (k : Nat) : (listSource k : Source α (List α)).Steady where
  gives s wanted hw hs := by
    refine ⟨_, _, rfl, ?_⟩
    intro h
    have hlen := congrArg List.length h
    have hpos := List.length_pos_iff.mpr hs
    rw [List.length_take, List.length_nil] at hlen
    change 0 < s.length at hpos
    omega
  ends s wanted hs := by
    change s = [] at hs
    subst hs
    exact ⟨[], by simp [listSource]⟩

theorem listSink_progresses (k : Nat) : (listSink (k + 1) : Sink α (List α)).Progresses := by
  intro t data hd
  refine ⟨_, _, rfl, ?_⟩
  have := List.length_pos_iff.mpr hd
  omega

theorem copy_transfers_pieces :
    (∃ s' t', copy (listSource 2) (listSink 2) 4 [1, 2, 3, 4, 5] [0] = (.ok 5, s', t') ∧
      s' = [] ∧ t' = [0, 1, 2, 3, 4, 5]) ∧
    ∃ ns r s' t', copyN (listSource 2) (listSink 0) 4 4 [1, 2, 3, 4, 5] [0] = (r, s', t') ∧
      Written (listSink 0) [1, 2, 3, 4] 4 [0] t' r ns :=
  ⟨((copy_transfers (listSource_steady 2) (by decide) 4 [1, 2, 3, 4, 5] [0]).1
      (listSink_progresses 1)).1,
    ((copy_transfers (listSource_steady 2) (by decide) 4 [1, 2, 3, 4, 5] [0]).2
      (by intro t data _; exact ⟨_, _, rfl⟩)).2⟩

end LuvCoro.Io
