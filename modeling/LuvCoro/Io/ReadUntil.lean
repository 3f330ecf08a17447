import LuvCoro.Io.StreamBuffer

/-! # Reading up to a delimiter, chunk by chunk

The loop searches the buffer before each read, so what it finds depends on where
the chunks end. `read_until` looks for one delimiter, whose first occurrence no
chunk boundary moves. `read_until_any_result` prefers one occurrence to another,
and may settle for one before a better one has arrived. -/
namespace LuvCoro.Io

open Occurrence

universe u
variable {α : Type u}

/-- A way to split a stream: what the reads return, up to its end. -/
structure Chunks (α : Type u) (chunkSize : Nat) where
  reads : List (List α)
  nonempty : ∀ c ∈ reads, c ≠ []
  bounded : ∀ c ∈ reads, c.length ≤ chunkSize

namespace Chunks
variable {chunkSize : Nat}

def bytes (cs : Chunks α chunkSize) : List α := cs.reads.flatten

/-- The stream that is read in these chunks. -/
def stream (cs : Chunks α chunkSize) : List (Except Error (List α)) := cs.reads.map .ok

end Chunks

def bytesOf : Except Error (List α) → List α
  | .ok chunk => chunk
  | .error _ => []

/-- What is still to be read, from the buffer and from the stream. -/
def StreamBuffer.remaining (b : StreamBuffer α) : List α := b.pending ++ b.stream.flatMap bytesOf

theorem flatMap_bytesOf (reads : List (List α)) :
    (reads.map Except.ok).flatMap bytesOf = reads.flatten := by
  induction reads with
  | nil => rfl
  | cons c cs ih => simp [bytesOf, ih]

/-- The stop token is never asked to stop. -/
def never : Nat → Bool := fun _ => false

section
variable [DecidableEq α] {ds : List (List α)} {k : Nat}

theorem found_iff {xs : List α} :
    (findAnyDelimiter xs ds).found = true ↔ ∃ d ∈ ds, ∃ p, At d xs p := by
  have hf := findAnyDelimiter_finds xs ds
  constructor
  · intro h
    have hb := hf.preferred h
    exact ⟨_, List.mem_of_getElem? hb.listed, _, hb.occurs⟩
  · rintro ⟨d, hd, p, hp⟩
    by_contra hno
    exact hf.nothing (by simpa using hno) d hd p hp

/-- What is found in a text is found when it grows. -/
theorem found_append {xs : List α} (ys : List α) (h : (findAnyDelimiter xs ds).found = true) :
    (findAnyDelimiter (xs ++ ys) ds).found = true := by
  obtain ⟨d, hd, p, hp⟩ := found_iff.mp h
  exact found_iff.mpr ⟨d, hd, p, hp.append ys⟩

/-- What the loop returns for `best`, found in `pending`. -/
def matched (pending : List α) (best : DelimiterMatch α) : UntilAnyResult α :=
  { data := pending.take best.endOffset
    delimiter := best.delimiter
    delimiterIndex := best.delimiterIndex
    matched := true }

theorem loop_found {stream : List (Except Error (List α))} {pending : List α}
    (h : (findAnyDelimiter pending ds).found = true) :
    readUntilLoop ds never k stream pending =
      (.ok (matched pending (findAnyDelimiter pending ds)),
        { stream := stream, pending := pending.drop (findAnyDelimiter pending ds).endOffset }) := by
  unfold readUntilLoop
  rw [if_pos h]
  rfl

theorem loop_end {pending : List α} (h : (findAnyDelimiter pending ds).found = false) :
    readUntilLoop ds never k [] pending = (.ok { data := pending }, { stream := [] }) := by
  unfold readUntilLoop
  rw [if_neg (by simp [h])]
  rfl

theorem loop_chunk {stream : List (Except Error (List α))} {pending chunk : List α}
    (h : (findAnyDelimiter pending ds).found = false) (hc : chunk ≠ []) :
    readUntilLoop ds never k (.ok chunk :: stream) pending =
      readUntilLoop ds never (k + 1) stream (pending ++ chunk) := by
  conv_lhs => unfold readUntilLoop
  rw [if_neg (by simp [h]), if_neg (by simp [never])]
  exact if_neg (by simpa using hc)

/-- The loop reads on as long as nothing is found. -/
theorem loop_skip {pending : List α} (done rest : List (List α)) (hne : ∀ c ∈ done, c ≠ [])
    (h : (findAnyDelimiter (pending ++ done.flatten) ds).found = false) :
    ∃ k', readUntilLoop ds never k ((done ++ rest).map .ok) pending =
      readUntilLoop ds never k' (rest.map .ok) (pending ++ done.flatten) := by
  induction done generalizing k pending with
  | nil => exact ⟨k, by simp⟩
  | cons c cs ih =>
    have hnot : (findAnyDelimiter pending ds).found = false := by
      by_contra hf
      have hyes := found_append (c :: cs).flatten (by simpa using hf : _ = true)
      rw [h] at hyes
      cases hyes
    rw [List.flatten_cons, ← List.append_assoc] at h
    obtain ⟨k', hk⟩ := @ih (k + 1) (pending ++ c) (fun x hx => hne x (by simp [hx])) h
    refine ⟨k', ?_⟩
    rw [List.cons_append, List.map_cons, loop_chunk hnot (hne c (by simp)), hk,
      List.flatten_cons, List.append_assoc]

/-! ## Where the loop stops -/

/-- How the loop ends on the text `w`, of which `pending` has already arrived. It
finds something in the first `n` elements, after nothing was found in the first
`m`, one chunk before, or in all of the text. -/
inductive Ends (ds : List (List α)) (chunkSize : Nat) (pending w : List α) :
    Except Error (UntilAnyResult α) × StreamBuffer α → Prop
  | found {n : Nat} {b : StreamBuffer α} (hn : pending.length ≤ n)
      (hf : (findAnyDelimiter (w.take n) ds).found = true)
      (hbefore : n = pending.length ∨ ∃ m, pending.length ≤ m ∧ n ≤ m + chunkSize ∧
        (findAnyDelimiter (w.take m) ds).found = false)
      (hb : b.remaining = w.drop (findAnyDelimiter (w.take n) ds).endOffset) :
      Ends ds chunkSize pending w (.ok (matched (w.take n) (findAnyDelimiter (w.take n) ds)), b)
  | exhausted (hf : (findAnyDelimiter w ds).found = false) :
      Ends ds chunkSize pending w (.ok { data := w }, { stream := [] })

theorem endOffset_le {xs : List α} (h : (findAnyDelimiter xs ds).found = true) :
    (findAnyDelimiter xs ds).endOffset ≤ xs.length := by
  have hf := findAnyDelimiter_finds xs ds
  rw [hf.ends]
  exact (hf.preferred h).occurs.length_le

/-- Something has been found before the loop reads. -/
theorem loop_ends_here {chunkSize : Nat} (reads : List (List α)) {pending : List α}
    (hf : (findAnyDelimiter pending ds).found = true) :
    Ends ds chunkSize pending (pending ++ reads.flatten)
      (readUntilLoop ds never k (reads.map .ok) pending) := by
  have htake : (pending ++ reads.flatten).take pending.length = pending := List.take_left
  have hrem : StreamBuffer.remaining
      { stream := reads.map .ok
        pending := pending.drop (findAnyDelimiter pending ds).endOffset } =
      (pending ++ reads.flatten).drop (findAnyDelimiter pending ds).endOffset := by
    rw [List.drop_append_of_le_length (endOffset_le hf)]
    simp only [StreamBuffer.remaining, flatMap_bytesOf]
  have hend : Ends ds chunkSize pending (pending ++ reads.flatten) _ :=
    .found (Nat.le_refl _) (by rw [htake]; exact hf) (.inl rfl) (by rw [htake]; exact hrem)
  rw [htake] at hend
  rw [loop_found hf]
  exact hend

/-- The loop ends at the first place where it looks and finds something. -/
theorem loop_ends {chunkSize : Nat} (reads : List (List α)) (hne : ∀ c ∈ reads, c ≠ [])
    (hle : ∀ c ∈ reads, c.length ≤ chunkSize) (pending : List α) :
    Ends ds chunkSize pending (pending ++ reads.flatten)
      (readUntilLoop ds never k (reads.map .ok) pending) := by
  induction reads generalizing k pending with
  | nil =>
    by_cases hf : (findAnyDelimiter pending ds).found = true
    · exact loop_ends_here [] hf
    · rw [List.flatten_nil, List.append_nil, List.map_nil, loop_end (by simpa using hf)]
      exact .exhausted (by simpa using hf)
  | cons c cs ih =>
    by_cases hf : (findAnyDelimiter pending ds).found = true
    · exact loop_ends_here (c :: cs) hf
    · have hnot : (findAnyDelimiter pending ds).found = false := by simpa using hf
      rw [List.map_cons, loop_chunk hnot (hne c (by simp))]
      have hrest := @ih (k + 1) (fun x hx => hne x (by simp [hx]))
        (fun x hx => hle x (by simp [hx])) (pending ++ c)
      have hw : pending ++ c ++ cs.flatten = pending ++ (c :: cs).flatten := by simp
      rw [hw] at hrest
      have hlen : (pending ++ c).length = pending.length + c.length := List.length_append
      generalize readUntilLoop ds never (k + 1) (cs.map .ok) (pending ++ c) = r at hrest ⊢
      cases hrest with
      | exhausted hno => exact .exhausted hno
      | found hn hyes hbefore hb =>
        refine .found (by omega) hyes (.inr ?_) hb
        rcases hbefore with rfl | ⟨m, hm, hmn, hmf⟩
        · refine ⟨pending.length, Nat.le_refl _, ?_, ?_⟩
          · have := hle c (by simp)
            omega
          · rw [List.take_left]
            exact hnot
        · exact ⟨m, by omega, hmn, hmf⟩

end

/-! ## One delimiter -/

section
variable [DecidableEq α] {chunkSize : Nat} {d : List α}

/-- For one delimiter the search in a prefix finds what it finds in the text. -/
theorem shortest_of_found {w : List α} {n : Nat}
    (hf : (findAnyDelimiter (w.take n) [d]).found = true) :
    Shortest d w ((w.take n).take (findAnyDelimiter (w.take n) [d]).endOffset) := by
  have hfinds := findAnyDelimiter_finds (w.take n) [d]
  obtain ⟨hl, ho, hfirst⟩ := hfinds.preferred hf
  rw [hfinds.ends]
  generalize findAnyDelimiter (w.take n) [d] = best at hl ho hfirst
  have hd : best.delimiter = d := by
    have hm := List.mem_of_getElem? hl
    exact List.mem_singleton.mp hm
  obtain ⟨hat, hle⟩ := at_take.mp ho
  rw [hd] at hat hle ⊢
  have hmin : ∀ q, At d w q → best.startOffset ≤ q := by
    intro q hq
    by_cases hqn : q + d.length ≤ n
    · have hprec := hfirst 0 d q rfl (at_take.mpr ⟨hq, hqn⟩)
      unfold Precedes at hprec
      omega
    · omega
  rw [List.take_take, Nat.min_eq_left hle]
  exact shortest_of_first hat hmin

/-- However the stream is split, `read_until` returns the shortest prefix that ends
with the delimiter, or everything, and keeps the rest. -/
theorem readUntil_shortest {stop : Nat → Bool} (hs : ∀ k, stop k = false)
    (cs : Chunks α chunkSize) (pending : List α) (hd : d ≠ []) :
    ∃ out b, StreamBuffer.readUntil ⟨cs.stream, pending⟩ d stop = (.ok out, b) ∧
      out ++ b.remaining = pending ++ cs.bytes ∧
      (d <:+: pending ++ cs.bytes → Shortest d (pending ++ cs.bytes) out) ∧
      (¬ d <:+: pending ++ cs.bytes → out = pending ++ cs.bytes) := by
  have hstop : stop = never := funext hs
  subst hstop
  have hends := @loop_ends _ _ [d] 0 chunkSize cs.reads cs.nonempty cs.bounded pending
  have hres : StreamBuffer.readUntil ⟨cs.stream, pending⟩ d never =
      ((readUntilLoop [d] never 0 (cs.reads.map .ok) pending).1.map UntilAnyResult.data,
        (readUntilLoop [d] never 0 (cs.reads.map .ok) pending).2) :=
    if_neg (by simpa using hd)
  rw [hres]
  have hw : pending ++ cs.reads.flatten = pending ++ cs.bytes := rfl
  rw [hw] at hends
  generalize pending ++ cs.bytes = w at hends
  generalize readUntilLoop [d] never 0 (cs.reads.map .ok) pending = r at hends
  have hfound : ∀ {xs : List α}, (findAnyDelimiter xs [d]).found = true ↔ d <:+: xs := by
    intro xs
    rw [found_iff, infix_iff]
    simp
  cases hends with
  | @found n b _ hf _ hb =>
    refine ⟨_, b, rfl, ?_, fun _ => shortest_of_found hf, fun hno => ?_⟩
    · have hle := endOffset_le hf
      rw [List.length_take] at hle
      simp only [matched]
      rw [hb, List.take_take, Nat.min_eq_left (by omega), List.take_append_drop]
    · exact absurd ((hfound.mp hf).trans (List.take_prefix n w).isInfix) hno
  | exhausted hf =>
    refine ⟨w, _, rfl, by simp [StreamBuffer.remaining], fun hyes => ?_, fun _ => rfl⟩
    rw [hfound.mpr hyes] at hf
    cases hf

/-- A delimiter that straddles three chunks, with some of the rest in the last one. -/
theorem readUntil_shortest_straddles : ∃ out b,
    StreamBuffer.readUntil ⟨[.ok [1], .ok [2], .ok [3, 4]], [0]⟩ [1, 2, 3] never = (.ok out, b) ∧
      out = [0, 1, 2, 3] ∧ out ++ b.remaining = [0, 1, 2, 3, 4] := by
  obtain ⟨out, b, hr, hrem, _, _⟩ := @readUntil_shortest Nat _ 2 [1, 2, 3] never (fun _ => rfl)
    ⟨[[1], [2], [3, 4]], by simp, by simp⟩ [0] (by simp)
  have he : StreamBuffer.readUntil ⟨[.ok [1], .ok [2], .ok [3, 4]], [0]⟩ [1, 2, 3] never =
      (.ok [0, 1, 2, 3], ⟨[], [4]⟩) := rfl
  have hout : out = [0, 1, 2, 3] := by
    have h := congrArg Prod.fst (hr.symm.trans he)
    exact Except.ok.inj h
  exact ⟨out, b, hr, hout, hrem⟩

end

/-! ## Several delimiters -/

/-- Any two ways to split the stream give the same result and the same rest. -/
def Independent [DecidableEq α] (ds : List (List α)) (chunkSize : Nat) (pending bytes : List α)
    (stop : Nat → Bool) : Prop :=
  ∀ c₁ c₂ : Chunks α chunkSize, c₁.bytes = bytes → c₂.bytes = bytes →
    ∃ out b₁ b₂, StreamBuffer.readUntilAnyResult ⟨c₁.stream, pending⟩ ds stop = (.ok out, b₁) ∧
      StreamBuffer.readUntilAnyResult ⟨c₂.stream, pending⟩ ds stop = (.ok out, b₂) ∧
      b₁.remaining = b₂.remaining

/-- Unless a delimiter ends in `pending`, what is preferred when the first of them
has ended, at `e`, is still preferred in whatever one chunk may have brought with it. -/
def Settled (ds : List (List α)) (chunkSize : Nat) (pending w : List α) : Prop :=
  ∀ e, FirstEnd ds w e → pending.length < e →
    ∀ i d p, Best ds (w.take e) i d p → Best ds (w.take (e + chunkSize - 1)) i d p

/-- Read `a` elements one by one, `j` at once, and the others one by one. -/
def cut (bytes : List α) (a j : Nat) : List (List α) :=
  (bytes.take a).map ([·]) ++ (bytes.drop a).take j :: (bytes.drop (a + j)).map ([·])

theorem flatten_singles (bytes : List α) : (bytes.map ([·])).flatten = bytes := by
  induction bytes with
  | nil => rfl
  | cons x xs ih => simp [ih]

theorem flatten_cut (bytes : List α) (a j : Nat) : (cut bytes a j).flatten = bytes := by
  have hdrop : bytes.drop (a + j) = (bytes.drop a).drop j := by rw [List.drop_drop]
  unfold cut
  rw [List.flatten_append, List.flatten_cons, flatten_singles, flatten_singles, hdrop,
    List.take_append_drop, List.take_append_drop]

theorem mem_cut {bytes c : List α} {a j : Nat} (hj : 0 < j) (ha : a < bytes.length)
    (hc : c ∈ cut bytes a j) : c ≠ [] ∧ c.length ≤ j := by
  unfold cut at hc
  rw [List.mem_append, List.mem_cons, List.mem_map, List.mem_map] at hc
  rcases hc with ⟨x, _, rfl⟩ | rfl | ⟨x, _, rfl⟩
  · exact ⟨by simp, hj⟩
  · refine ⟨fun h => ?_, List.length_take_le _ _⟩
    have hlen := congrArg List.length h
    rw [List.length_take, List.length_drop, List.length_nil] at hlen
    omega
  · exact ⟨by simp, hj⟩

section
variable {ds : List (List α)} {chunkSize : Nat}

def cutChunks (bytes : List α) {a j : Nat} (hj : 0 < j) (hle : j ≤ chunkSize)
    (ha : a < bytes.length) : Chunks α chunkSize where
  reads := cut bytes a j
  nonempty _ hc := (mem_cut hj ha hc).1
  bounded _ hc := Nat.le_trans (mem_cut hj ha hc).2 hle

variable [DecidableEq α]

theorem readUntilAny_eq {stream : List (Except Error (List α))} {pending : List α}
    {stop : Nat → Bool} (hds : ds ≠ []) (hne : ∀ d ∈ ds, d ≠ []) :
    StreamBuffer.readUntilAnyResult ⟨stream, pending⟩ ds stop =
      readUntilLoop ds stop 0 stream pending := by
  have hany : ds.any List.isEmpty = false := by
    rw [List.any_eq_false]
    intro d hd
    simpa using hne d hd
  have hv : StreamBuffer.validateDelimiters ds = .ok () := by
    unfold StreamBuffer.validateDelimiters
    rw [if_neg (by simpa using hds), if_neg (by simp [hany])]
  unfold StreamBuffer.readUntilAnyResult
  rw [hv]

/-- What a match determines is determined by the preferred occurrence. -/
theorem matched_of_best {w d : List α} {n i p : Nat}
    (hb : Best ds (w.take n) i d p) :
    (findAnyDelimiter (w.take n) ds).endOffset = p + d.length ∧
      matched (w.take n) (findAnyDelimiter (w.take n) ds) =
        { data := w.take (p + d.length), delimiter := d, delimiterIndex := i, matched := true } := by
  have hfinds := findAnyDelimiter_finds (w.take n) ds
  have hf : (findAnyDelimiter (w.take n) ds).found = true :=
    found_iff.mpr ⟨d, List.mem_of_getElem? hb.listed, p, hb.occurs⟩
  obtain ⟨hi, hd, hp⟩ := (hfinds.preferred hf).unique hb
  have hend : (findAnyDelimiter (w.take n) ds).endOffset = p + d.length := by
    rw [hfinds.ends, hd, hp]
  refine ⟨hend, ?_⟩
  have hle := (at_take.mp hb.occurs).2
  unfold matched
  rw [hend, hd, hi, List.take_take, Nat.min_eq_left hle]

/-- The loop stops at the end of the long chunk of a cut, if nothing is found before. -/
theorem readUntilAny_cut (hds : ds ≠ []) (hne : ∀ d ∈ ds, d ≠ []) {pending bytes : List α}
    {a j : Nat} (hj : 0 < j) (hle : j ≤ chunkSize) (ha : a < bytes.length)
    (hno : (findAnyDelimiter ((pending ++ bytes).take (pending.length + a)) ds).found = false)
    {i p : Nat} {d : List α}
    (hb : Best ds ((pending ++ bytes).take (pending.length + (a + j))) i d p) :
    ∃ b, StreamBuffer.readUntilAnyResult ⟨(cutChunks bytes hj hle ha).stream, pending⟩ ds never =
      (.ok { data := (pending ++ bytes).take (p + d.length), delimiter := d, delimiterIndex := i,
             matched := true }, b) := by
  rw [readUntilAny_eq hds hne]
  have htake : ∀ m, (pending ++ bytes).take (pending.length + m) = pending ++ bytes.take m := by
    intro m
    rw [List.take_append, List.take_of_length_le (by omega)]
    congr 2
    omega
  rw [htake] at hno
  have hchunk : (bytes.drop a).take j ≠ [] := (mem_cut hj ha (by simp [cut])).1
  have hsingles : ∀ c ∈ (bytes.take a).map ([·]), c ≠ [] := by
    intro c hc
    obtain ⟨x, _, rfl⟩ := List.mem_map.mp hc
    simp
  obtain ⟨k, hk⟩ := @loop_skip _ _ ds 0 pending ((bytes.take a).map ([·]))
    ((bytes.drop a).take j :: (bytes.drop (a + j)).map ([·])) hsingles
    (by rw [flatten_singles]; exact hno)
  have hreads : (cutChunks bytes hj hle ha).stream =
      (((bytes.take a).map ([·]) ++ (bytes.drop a).take j ::
        (bytes.drop (a + j)).map ([·])).map .ok) := rfl
  rw [flatten_singles] at hk
  rw [hreads, hk, List.map_cons, loop_chunk hno hchunk]
  have hgrown : pending ++ bytes.take a ++ (bytes.drop a).take j =
      (pending ++ bytes).take (pending.length + (a + j)) := by
    rw [htake, List.append_assoc, List.take_add]
  have hf : (findAnyDelimiter ((pending ++ bytes).take (pending.length + (a + j))) ds).found =
      true := found_iff.mpr ⟨d, List.mem_of_getElem? hb.listed, p, hb.occurs⟩
  rw [hgrown, loop_found hf, (matched_of_best hb).2]
  exact ⟨_, rfl⟩

/-- What is found in a prefix is found in the text. -/
theorem not_found_take {w : List α} {n : Nat} (h : (findAnyDelimiter w ds).found = false) :
    (findAnyDelimiter (w.take n) ds).found = false := by
  by_contra hf
  have htake : (findAnyDelimiter (w.take n) ds).found = true := by simpa using hf
  have hyes := found_append (w.drop n) htake
  rw [List.take_append_drop, h] at hyes
  cases hyes

theorem found_take_iff {w : List α} {e n : Nat} (he : FirstEnd ds w e) :
    (findAnyDelimiter (w.take n) ds).found = true ↔ e ≤ n :=
  found_iff.trans he.occurs_iff

/-- On a settled text the chunks make no difference. -/
theorem independent_of_settled (hds : ds ≠ []) (hne : ∀ d ∈ ds, d ≠ []) {pending bytes : List α}
    (hset : Settled ds chunkSize pending (pending ++ bytes)) :
    ∃ out rest, ∀ c : Chunks α chunkSize, c.bytes = bytes →
      ∃ b, StreamBuffer.readUntilAnyResult ⟨c.stream, pending⟩ ds never = (.ok out, b) ∧
        b.remaining = rest := by
  have hends : ∀ c : Chunks α chunkSize, c.bytes = bytes → Ends ds chunkSize pending
      (pending ++ bytes) (StreamBuffer.readUntilAnyResult ⟨c.stream, pending⟩ ds never) := by
    rintro c rfl
    rw [readUntilAny_eq hds hne]
    exact loop_ends c.reads c.nonempty c.bounded pending
  generalize pending ++ bytes = w at hset hends
  by_cases hno : (findAnyDelimiter w ds).found = false
  · refine ⟨{ data := w }, [], fun c hc => ?_⟩
    have hend := hends c hc
    generalize StreamBuffer.readUntilAnyResult ⟨c.stream, pending⟩ ds never = r at hend
    cases hend with
    | exhausted _ => exact ⟨_, rfl, rfl⟩
    | found _ hf _ _ =>
      rw [not_found_take hno] at hf
      cases hf
  obtain ⟨e, he⟩ := exists_firstEnd (found_iff.mp (by simpa using hno : _ = true))
  have hfirst : ∀ n, (findAnyDelimiter (w.take n) ds).found = true ↔ e ≤ n :=
    fun n => found_take_iff he
  by_cases hlt : pending.length < e
  · -- the choice made at `e` is the choice made wherever the loop stops
    have hfinds := findAnyDelimiter_finds (w.take e) ds
    have hbest := hfinds.preferred ((hfirst e).mpr (Nat.le_refl e))
    generalize findAnyDelimiter (w.take e) ds = best at hbest
    have hlate := hset e he hlt _ _ _ hbest
    have hend := (at_take.mp hbest.occurs).2
    refine ⟨{ data := w.take (best.startOffset + best.delimiter.length), delimiter := best.delimiter,
              delimiterIndex := best.delimiterIndex, matched := true },
      w.drop (best.startOffset + best.delimiter.length), fun c hc => ?_⟩
    have hstop := hends c hc
    generalize StreamBuffer.readUntilAnyResult ⟨c.stream, pending⟩ ds never = r at hstop
    cases hstop with
    | exhausted hf => exact absurd hf hno
    | @found n b hn hf hbefore hb =>
      have hen := (hfirst n).mp hf
      have hnle : n ≤ e + chunkSize - 1 := by
        rcases hbefore with rfl | ⟨m, _, hmn, hmf⟩
        · omega
        · have hme : ¬ e ≤ m := by
            intro hle
            rw [(hfirst m).mpr hle] at hmf
            cases hmf
          omega
      have hn' : Best ds (w.take n) _ _ _ := hlate.shrink hnle (by omega)
      obtain ⟨hoff, hres⟩ := matched_of_best hn'
      refine ⟨b, by rw [hres], ?_⟩
      rw [hb, hoff]
  · refine ⟨matched (w.take pending.length) (findAnyDelimiter (w.take pending.length) ds),
      w.drop (findAnyDelimiter (w.take pending.length) ds).endOffset, fun c hc => ?_⟩
    have hstop := hends c hc
    generalize StreamBuffer.readUntilAnyResult ⟨c.stream, pending⟩ ds never = r at hstop
    cases hstop with
    | exhausted hf => exact absurd hf hno
    | found hn hf hbefore hb =>
      rcases hbefore with rfl | ⟨m, hm, _, hmf⟩
      · exact ⟨_, rfl, hb⟩
      · rw [(hfirst m).mpr (by omega)] at hmf
        cases hmf

/-- Where some text is not settled, two ways to split it give different results. -/
theorem settled_of_independent (hds : ds ≠ []) (hne : ∀ d ∈ ds, d ≠ []) (hchunk : 0 < chunkSize)
    {pending bytes : List α} (h : Independent ds chunkSize pending bytes never) :
    Settled ds chunkSize pending (pending ++ bytes) := by
  intro e he hlt i d p hb
  obtain ⟨d₀, _, p₀, hat₀, hend₀⟩ := he.ends
  have hlen : e ≤ pending.length + bytes.length := by
    have hle := hat₀.length_le
    rw [List.length_append] at hle
    omega
  obtain ⟨a, ha⟩ := Nat.exists_eq_add_of_lt hlt
  have hab : a < bytes.length := by omega
  have hno : (findAnyDelimiter ((pending ++ bytes).take (pending.length + a)) ds).found = false := by
    by_contra hf
    have hle := (found_take_iff he).mp (by simpa using hf : _ = true)
    omega
  have hfinds := findAnyDelimiter_finds ((pending ++ bytes).take (e + chunkSize - 1)) ds
  have hlate := hfinds.preferred ((found_take_iff he).mpr (by omega))
  generalize findAnyDelimiter ((pending ++ bytes).take (e + chunkSize - 1)) ds = best at hlate
  have hone : pending.length + (a + 1) = e := by omega
  have hmany : pending.length + (a + chunkSize) = e + chunkSize - 1 := by omega
  have hb₁ : Best ds ((pending ++ bytes).take (pending.length + (a + 1))) i d p := by
    rw [hone]
    exact hb
  obtain ⟨b₁, h₁⟩ := readUntilAny_cut hds hne Nat.one_pos hchunk hab hno hb₁
  obtain ⟨b₂, h₂⟩ := readUntilAny_cut hds hne hchunk (Nat.le_refl _) hab hno
    (by rw [hmany]; exact hlate)
  obtain ⟨out, b₁', b₂', h₁', h₂', _⟩ := h (cutChunks bytes Nat.one_pos hchunk hab)
    (cutChunks bytes hchunk (Nat.le_refl _) hab) (flatten_cut _ _ _) (flatten_cut _ _ _)
  have hout := Except.ok.inj ((congrArg Prod.fst (h₁.symm.trans h₁')).trans
    (congrArg Prod.fst (h₂'.symm.trans h₂)))
  obtain ⟨hdata, hdel, hidx, _⟩ := UntilAnyResult.mk.inj hout
  have hp : p = best.startOffset := by
    have hl := congrArg List.length hdata
    have hlate' := (at_take.mp hlate.occurs).1.length_le
    have hb' := (at_take.mp hb.occurs).1.length_le
    rw [List.length_take, List.length_take, Nat.min_eq_left hb', Nat.min_eq_left hlate', hdel] at hl
    omega
  rw [hidx, hdel, hp]
  exact hlate

/-- The result is a function of the text alone exactly when the text is settled. -/
theorem readUntilAny_independent_iff {stop : Nat → Bool} (hs : ∀ k, stop k = false) (hds : ds ≠ [])
    (hne : ∀ d ∈ ds, d ≠ []) (hchunk : 0 < chunkSize) (pending bytes : List α) :
    Independent ds chunkSize pending bytes stop ↔
      Settled ds chunkSize pending (pending ++ bytes) := by
  have hstop : stop = never := funext hs
  subst hstop
  refine ⟨settled_of_independent hds hne hchunk, fun hset => ?_⟩
  obtain ⟨out, rest, hall⟩ := independent_of_settled hds hne hset
  intro c₁ c₂ h₁ h₂
  obtain ⟨b₁, hr₁, hrest₁⟩ := hall c₁ h₁
  obtain ⟨b₂, hr₂, hrest₂⟩ := hall c₂ h₂
  exact ⟨out, b₁, b₂, hr₁, hr₂, hrest₁.trans hrest₂.symm⟩

end

/-- `"a\r\n"` in one chunk or split before `"\n"`, with `"\r"` and `"\r\n"` to look for. -/
theorem crlf_dependent : ¬ Independent [[13], [13, 10]] 4096 [] [97, 13, 10] never := by
  intro h
  obtain ⟨out, b₁, b₂, h₁, h₂, _⟩ := h ⟨[[97, 13], [10]], by simp, by simp⟩
    ⟨[[97, 13, 10]], by simp, by simp⟩ rfl rfl
  have he₁ : StreamBuffer.readUntilAnyResult ⟨[.ok [97, 13], .ok [10]], []⟩ [[13], [13, 10]] never =
      (.ok { data := [97, 13], delimiter := [13], delimiterIndex := 0, matched := true },
        ⟨[.ok [10]], []⟩) := rfl
  have he₂ : StreamBuffer.readUntilAnyResult ⟨[.ok [97, 13, 10]], []⟩ [[13], [13, 10]] never =
      (.ok { data := [97, 13, 10], delimiter := [13, 10], delimiterIndex := 1, matched := true },
        ⟨[], []⟩) := rfl
  have hout := Except.ok.inj ((congrArg Prod.fst (he₁.symm.trans h₁)).trans
    (congrArg Prod.fst (h₂.symm.trans he₂)))
  exact absurd (congrArg UntilAnyResult.delimiterIndex hout) (by decide)

theorem crlf_unsettled : ¬ Settled [[13], [13, 10]] 4096 [] [97, 13, 10] := by
  intro h
  have hi : Independent [[13], [13, 10]] 4096 [] [97, 13, 10] never :=
    (readUntilAny_independent_iff (fun _ => rfl) (by simp) (by simp) (by omega) _ _).mpr h
  exact crlf_dependent hi

/-- The result depends on how the stream is split. -/
theorem readUntilAny_split : ¬ ∀ (ds : List (List Nat)) (chunkSize : Nat) (pending bytes : List Nat),
    ds ≠ [] → (∀ d ∈ ds, d ≠ []) → 0 < chunkSize →
      Independent ds chunkSize pending bytes never := by
  intro hall
  exact crlf_dependent (hall _ _ _ _ (by simp) (by simp) (by omega))

end LuvCoro.Io
