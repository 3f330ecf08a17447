import LuvCoro.Io.Delimiters

/-! # Lines

`read_line` looks for the two bytes of an end of line one after the other, so it
also takes a carriage return off a last line that no line feed ends. -/
namespace LuvCoro.Io

variable {σ : Type}

/-- The line without the line feed that ends it and a carriage return before that. -/
def withoutTerminator (line : List UInt8) : List UInt8 :=
  if line.getLast? = some lineFeed then popBack carriageReturn line.dropLast else line

/-- `n` calls of `read_line`, one after the other. -/
def Source.readLines (source : Source UInt8 σ) (keepEndOfLine : Bool) (stop : Nat → Bool) :
    Nat → Buffered UInt8 σ → List (Except Failure (List UInt8)) × Buffered UInt8 σ
  | 0, b => ([], b)
  | n + 1, b =>
    let r := source.readLine keepEndOfLine stop b
    let rest := source.readLines keepEndOfLine stop n r.2
    (r.1 :: rest.1, rest.2)

/-- The lines up to the end of the stream, each with its end, add up to it, and
each without its end is what it is without its terminator. -/
def StripsTerminators (source : Source UInt8 σ) (stop : Nat → Bool) (b : Buffered UInt8 σ) :
    Prop :=
  ∃ (lines : List (List UInt8)) (b' : Buffered UInt8 σ),
    source.readLines true stop lines.length b = (lines.map .ok, b') ∧
    [] ∉ lines ∧ (source.readLine true stop b').1 = .ok [] ∧
    lines.flatten = b.remaining source ∧
    (source.readLines false stop lines.length b).1 = lines.map fun line =>
      .ok (withoutTerminator line)

/-! ## One line -/

/-- The two looks at the last byte make a difference to the terminator when there
is no line feed. -/
theorem popBack_eq_iff (line : List UInt8) :
    popBack carriageReturn (popBack lineFeed line) = withoutTerminator line ↔
      line.getLast? ≠ some carriageReturn := by
  unfold withoutTerminator
  by_cases hlf : line.getLast? = some lineFeed
  · have hpop : popBack lineFeed line = line.dropLast := if_pos hlf
    rw [if_pos hlf, hpop, hlf]
    simp [lineFeed, carriageReturn]
  · have hpop : popBack lineFeed line = line := if_neg hlf
    rw [if_neg hlf, hpop]
    constructor
    · intro hsame hcr
      have hcut : popBack carriageReturn line = line.dropLast := if_pos hcr
      have hlen := congrArg List.length (hcut.symm.trans hsame)
      have hpos := List.length_pos_iff.mpr (fun h : line = [] => by simp [h] at hcr)
      rw [List.length_dropLast] at hlen
      omega
    · exact fun hcr => if_neg hcr

section
variable {α : Type} [DecidableEq α] {source : Source α σ}

/-- The loop comes to an end before the stream does, or with it. -/
theorem untilLoop_steady (hs : source.Steady) (ds : List (List α)) {chunkSize : Nat}
    (hc : 0 < chunkSize) (k : Nat) (b : Buffered α σ) :
    ∃ r b', source.untilLoop ds chunkSize never k b = (.ok r, b') ∧
      b.remaining source = r.data ++ b'.remaining source ∧
      (r.matched = false → b'.remaining source = []) := by
  induction hm : (source.unread b.stream).length using Nat.strongRecOn generalizing b k with
  | ind m ih =>
    unfold Source.untilLoop
    dsimp only
    by_cases hf : (findAnyDelimiter b.pending ds).found = true
    · rw [if_pos hf]
      refine ⟨_, _, rfl, ?_, by simp⟩
      unfold Buffered.remaining
      rw [← List.append_assoc, List.take_append_drop]
    · rw [if_neg hf, if_neg (by simp [never])]
      generalize hr : source.read b.stream chunkSize = x
      by_cases hu : source.unread b.stream = []
      · obtain ⟨s, hread⟩ := hs.ends b.stream chunkSize hu
        rw [hread] at hr
        subst hr
        dsimp only
        rw [dif_pos rfl]
        have hs' : source.unread s = [] := (source.delivers hread).symm.trans hu
        refine ⟨_, _, rfl, ?_, fun _ => ?_⟩
        · unfold Buffered.remaining
          rw [hu, hs', List.nil_append]
        · unfold Buffered.remaining
          rw [hs']
          rfl
      · obtain ⟨chunk, s, hread, hne⟩ := hs.gives b.stream hc hu
        rw [hread] at hr
        subst hr
        dsimp only
        rw [dif_neg hne]
        have hshrinks := source.shrinks hread hne
        obtain ⟨r, b', hloop, hrem, hend⟩ := ih _ (hm ▸ hshrinks) (k + 1)
          { stream := s, pending := b.pending ++ chunk } rfl
        exact ⟨r, b', hloop, (Source.remaining_read hread).trans hrem, hend⟩

end

section
variable {source : Source UInt8 σ} {b : Buffered UInt8 σ} {stop : Nat → Bool}

/-- Both ways to call it read the same line. -/
theorem readLine_spec (hs : source.Steady) (hstop : ∀ k, stop k = false) (b : Buffered UInt8 σ) :
    ∃ line b', source.readLine true stop b = (.ok line, b') ∧
      source.readLine false stop b =
        (.ok (popBack carriageReturn (popBack lineFeed line)), b') ∧
      b.remaining source = line ++ b'.remaining source ∧
      (line.getLast? = some lineFeed ∨ b'.remaining source = []) := by
  have hnever : stop = never := funext hstop
  subst hnever
  obtain ⟨r, b', hloop, hrem, hend⟩ :=
    untilLoop_steady hs [[lineFeed]] (by decide : 0 < 4096) 0 b
  have hread : source.readUntil [lineFeed] 4096 never b = (.ok r.data, b') := by
    unfold Source.readUntil
    rw [if_neg (by simp)]
    dsimp only
    rw [hloop]
    rfl
  refine ⟨r.data, b', ?_, ?_, hrem, ?_⟩
  · unfold Source.readLine
    rw [hread]
    rfl
  · unfold Source.readLine
    rw [hread]
    rfl
  · cases hmatch : r.matched with
    | false => exact .inr (hend hmatch)
    | true =>
      have hdel := untilLoop_delimited [[lineFeed]] 4096 0 never b r (by rw [hloop])
      have hlisted := List.mem_of_getElem? (hdel.listed hmatch)
      obtain ⟨l, hl⟩ := hdel.suffix hmatch
      rw [List.mem_singleton.mp hlisted] at hl
      rw [← hl]
      exact .inl (by simp)

/-! ## All of them -/

/-- By induction on the calls. -/
theorem readLines_false (hs : source.Steady) (hstop : ∀ k, stop k = false) (n : Nat)
    {lines : List (List UInt8)} {b' : Buffered UInt8 σ}
    (h : source.readLines true stop n b = (lines.map .ok, b')) :
    (source.readLines false stop n b).1 = lines.map fun line =>
      .ok (popBack carriageReturn (popBack lineFeed line)) := by
  induction n generalizing b lines with
  | zero =>
    have hnil := congrArg Prod.fst h
    rw [List.map_eq_nil_iff.mp hnil.symm]
    rfl
  | succ n ih =>
    obtain ⟨line, b₁, htrue, hfalse, _, _⟩ := readLine_spec hs hstop b
    unfold Source.readLines at h ⊢
    dsimp only at h ⊢
    rw [htrue] at h
    rw [hfalse]
    obtain ⟨hlines, hb'⟩ := Prod.mk.inj h
    cases lines with
    | nil => cases hlines
    | cons l ls =>
      rw [List.map_cons] at hlines ⊢
      obtain ⟨hl, hls⟩ := List.cons.inj hlines
      cases hl
      dsimp only
      rw [ih (Prod.ext hls hb')]

/-- The last of the bytes is the last one of some line. -/
theorem getLast?_flatten {lines : List (List UInt8)} {c : UInt8} (hne : [] ∉ lines)
    (h : lines.flatten.getLast? = some c) : ∃ line ∈ lines, line.getLast? = some c := by
  rcases List.eq_nil_or_concat lines with rfl | ⟨ls, l, rfl⟩
  · cases h
  · refine ⟨l, by simp, ?_⟩
    have hl : l ≠ [] := by
      intro he
      exact hne (by simp [he])
    rw [List.concat_eq_append, List.flatten_append, List.flatten_singleton,
      List.getLast?_append_of_ne_nil _ hl] at h
    exact h

/-- The lines of a stream; only the last one does without a line feed. -/
theorem readLines_all (hs : source.Steady) (hstop : ∀ k, stop k = false)
    (b : Buffered UInt8 σ) :
    ∃ (lines : List (List UInt8)) (b' : Buffered UInt8 σ),
      source.readLines true stop lines.length b = (lines.map .ok, b') ∧
      [] ∉ lines ∧ b'.remaining source = [] ∧ lines.flatten = b.remaining source ∧
      ∀ line ∈ lines, line.getLast? = some lineFeed ∨
        line.getLast? = (b.remaining source).getLast? := by
  induction hm : (b.remaining source).length using Nat.strongRecOn generalizing b with
  | ind m ih =>
    by_cases hnil : b.remaining source = []
    · exact ⟨[], b, rfl, by simp, hnil, hnil.symm, by simp⟩
    · obtain ⟨line, b₁, htrue, _, hrem, hlast⟩ := readLine_spec hs hstop b
      have hline : line ≠ [] := by
        intro he
        rw [he, List.nil_append] at hrem
        rw [he] at hlast
        rcases hlast with hlf | hend
        · cases hlf
        · exact hnil (hrem.trans hend)
      have hpos := List.length_pos_iff.mpr hline
      have hlen := congrArg List.length hrem
      rw [List.length_append] at hlen
      obtain ⟨lines, b', hread, hne, hend, hflat, hlines⟩ := ih _ (by omega) b₁ rfl
      refine ⟨line :: lines, b', ?_, ?_, hend, ?_, ?_⟩
      · rw [List.length_cons]
        unfold Source.readLines
        dsimp only
        rw [htrue, hread]
        rfl
      · intro hmem
        exact (List.mem_cons.mp hmem).elim (fun he => hline he.symm) hne
      · rw [List.flatten_cons, hflat, hrem]
      · intro l hl
        rw [hrem]
        rcases List.mem_cons.mp hl with rfl | hl
        · refine hlast.imp_right fun hend₁ => ?_
          rw [hend₁, List.append_nil]
        · refine (hlines l hl).imp_right fun he => ?_
          have hne₁ : b₁.remaining source ≠ [] := by
            intro hnil₁
            rw [hnil₁] at hflat
            exact hne (List.flatten_eq_nil_iff.mp hflat l hl ▸ hl)
          rw [List.getLast?_append_of_ne_nil _ hne₁]
          exact he

/-- The last line loses a byte of its own. -/
theorem not_strips (hs : source.Steady) (hstop : ∀ k, stop k = false)
    (hcr : (b.remaining source).getLast? = some carriageReturn) :
    ¬ StripsTerminators source stop b := by
  rintro ⟨lines, b', hread, hne, _, hflat, hstrip⟩
  rw [← hflat] at hcr
  obtain ⟨line, hline, hlast⟩ := getLast?_flatten hne hcr
  rw [readLines_false hs hstop _ hread] at hstrip
  have hsame := List.map_inj_left.mp hstrip line hline
  exact (popBack_eq_iff line).mp (Except.ok.inj hsame) hlast

/-- It is so exactly when the stream does not end in a carriage return. -/
theorem read_line_strips_iff (hs : source.Steady) (hstop : ∀ k, stop k = false)
    (b : Buffered UInt8 σ) :
    StripsTerminators source stop b ↔
      (b.remaining source).getLast? ≠ some carriageReturn := by
  constructor
  · intro hstrips hcr
    exact not_strips hs hstop hcr hstrips
  · intro hcr
    obtain ⟨lines, b', hread, hne, hend, hflat, hlines⟩ := readLines_all hs hstop b
    obtain ⟨line, b₁, htrue, _, hrem, _⟩ := readLine_spec hs hstop b'
    refine ⟨lines, b', hread, hne, ?_, hflat, ?_⟩
    · rw [hend] at hrem
      rw [htrue, (List.append_eq_nil_iff.mp hrem.symm).1]
    · rw [readLines_false hs hstop _ hread]
      refine List.map_congr_left fun l hl => congrArg Except.ok ((popBack_eq_iff l).mpr ?_)
      rcases hlines l hl with hlf | hlast
      · rw [hlf]
        simp [lineFeed, carriageReturn]
      · rw [hlast]
        exact hcr

end

/-- `"a\r\nb"` in three chunks. -/
theorem read_line_strips_crlf : StripsTerminators chunked never
    { stream := ⟨[[97], [13], [10, 98]], by decide⟩ } :=
  (read_line_strips_iff chunked_steady (fun _ => rfl) _).mpr (by decide)

/-- `"a\r"` is one line, which ends with the stream. -/
theorem read_line_drops_byte : ¬ StripsTerminators chunked never
    { stream := ⟨[[97, 13]], by decide⟩ } :=
  not_strips chunked_steady (fun _ => rfl) (by decide)

end LuvCoro.Io
