import LuvCoro.Io.ReadUntil
import LuvCoro.Io.Source

/-! # A `stream_buffer` in use

Translated from `include/luvcoro/io.hpp`: what all the operations of one
`stream_buffer` do with the bytes of its stream. `read_until` gathers them in
`pending_`, where they stay when it throws. `read_exact` moves them out of there
before it has all it needs. -/
namespace LuvCoro.Io

/-- A `stream_buffer` on a stream that is in state `stream`. -/
structure Buffered (α σ : Type) where
  stream : σ
  pending : List α := []

variable {α σ : Type}

/-- The bytes from the logical read position on. -/
def Buffered.remaining (source : Source α σ) (b : Buffered α σ) : List α :=
  b.pending ++ source.unread b.stream

namespace Source
variable (source : Source α σ)

def readSome (maxBytes : Nat) (b : Buffered α σ) : Except Failure (List α) × Buffered α σ :=
  if maxBytes = 0 then (.ok [], b)
  else if b.pending ≠ [] then
    let count := if b.pending.length < maxBytes then b.pending.length else maxBytes
    (.ok (b.pending.take count), { b with pending := b.pending.drop count })
  else
    let r := source.read b.stream maxBytes
    (r.1, { b with stream := r.2 })

/-- The loop of `read_exact`; `stop k` is what the stop token says in round `k`. -/
def readExactLoop (totalBytes : Nat) (stop : Nat → Bool) (k : Nat) (out : List α)
    (b : Buffered α σ) : Except Failure (List α) × Buffered α σ :=
  if out.length < totalBytes then
    if stop k then (.error (.of .operationCancelled), b)
    else if _hp : b.pending ≠ [] then
      let count :=
        if b.pending.length < totalBytes - out.length then b.pending.length
        else totalBytes - out.length
      readExactLoop totalBytes stop (k + 1) (out ++ b.pending.take count)
        { b with pending := b.pending.drop count }
    else
      match source.read b.stream (totalBytes - out.length) with
      | (.error e, s) => (.error e, { b with stream := s })
      | (.ok chunk, s) =>
        if _hc : chunk = [] then (.ok out, { b with stream := s })
        else readExactLoop totalBytes stop (k + 1) (out ++ chunk) { b with stream := s }
  else (.ok out, b)
termination_by totalBytes - out.length
decreasing_by
  · have := List.length_pos_iff.mpr _hp
    rw [List.length_append, List.length_take]
    split <;> omega
  · have := List.length_pos_iff.mpr _hc
    rw [List.length_append]
    omega

def readExact (totalBytes : Nat) (stop : Nat → Bool) (b : Buffered α σ) :
    Except Failure (List α) × Buffered α σ :=
  source.readExactLoop totalBytes stop 0 [] b

def readExactly (totalBytes : Nat) (stop : Nat → Bool) (b : Buffered α σ) :
    Except Failure (List α) × Buffered α σ :=
  match source.readExact totalBytes stop b with
  | (.error e, b') => (.error e, b')
  | (.ok out, b') =>
    if out.length ≠ totalBytes then
      (.error (.runtimeError "read_exactly reached eof before enough bytes were read"), b')
    else (.ok out, b')

section
variable [DecidableEq α]

/-- The loop that `read_until` and `read_until_any_result` have in common. -/
def untilLoop (delimiters : List (List α)) (chunkSize : Nat) (stop : Nat → Bool) (k : Nat)
    (b : Buffered α σ) : Except Failure (UntilAnyResult α) × Buffered α σ :=
  let best := findAnyDelimiter b.pending delimiters
  if best.found then
    (.ok { data := b.pending.take best.endOffset
           delimiter := best.delimiter
           delimiterIndex := best.delimiterIndex
           matched := true },
      { b with pending := b.pending.drop best.endOffset })
  else if stop k then (.error (.of .operationCancelled), b)
  else
    match _h : source.read b.stream chunkSize with
    | (.error e, s) => (.error e, { b with stream := s })
    | (.ok chunk, s) =>
      if _hne : chunk = [] then (.ok { data := b.pending }, { stream := s })
      else
        untilLoop delimiters chunkSize stop (k + 1) { stream := s, pending := b.pending ++ chunk }
termination_by (source.unread b.stream).length
decreasing_by exact source.shrinks _h _hne

def readUntil (delimiter : List α) (chunkSize : Nat) (stop : Nat → Bool) (b : Buffered α σ) :
    Except Failure (List α) × Buffered α σ :=
  if delimiter.isEmpty then
    (.error (.of (.invalidArgument "read_until delimiter must not be empty")), b)
  else
    let r := source.untilLoop [delimiter] chunkSize stop 0 b
    (r.1.map UntilAnyResult.data, r.2)

def readUntilAnyResult (delimiters : List (List α)) (chunkSize : Nat) (stop : Nat → Bool)
    (b : Buffered α σ) : Except Failure (UntilAnyResult α) × Buffered α σ :=
  match StreamBuffer.validateDelimiters delimiters with
  | .error e => (.error (.of e), b)
  | .ok () => source.untilLoop delimiters chunkSize stop 0 b

end

end Source

/-! ## Lines -/

/-- `'\n'` -/
def lineFeed : UInt8 := 10

/-- `'\r'` -/
def carriageReturn : UInt8 := 13

/-- `if (!line.empty() && line.back() == c) line.pop_back();` -/
def popBack (c : UInt8) (line : List UInt8) : List UInt8 :=
  if line.getLast? = some c then line.dropLast else line

def Source.readLine (source : Source UInt8 σ) (keepEndOfLine : Bool) (stop : Nat → Bool)
    (b : Buffered UInt8 σ) : Except Failure (List UInt8) × Buffered UInt8 σ :=
  match source.readUntil [lineFeed] 4096 stop b with
  | (.error e, b') => (.error e, b')
  | (.ok line, b') =>
    if keepEndOfLine then (.ok line, b')
    else (.ok (popBack carriageReturn (popBack lineFeed line)), b')

/-! ## Sequences of calls -/

inductive Call where
  | readSome (maxBytes : Nat)
  | readExact (totalBytes : Nat)
  | readExactly (totalBytes : Nat)
  | readUntil (delimiter : List UInt8) (chunkSize : Nat)
  | readUntilAnyResult (delimiters : List (List UInt8)) (chunkSize : Nat)
  | readLine (keepEndOfLine : Bool)
  deriving DecidableEq, Repr

/-- What the call returns, as a string. -/
def Source.call (source : Source UInt8 σ) (stop : Nat → Bool) (b : Buffered UInt8 σ) :
    Call → Except Failure (List UInt8) × Buffered UInt8 σ
  | .readSome maxBytes => source.readSome maxBytes b
  | .readExact totalBytes => source.readExact totalBytes stop b
  | .readExactly totalBytes => source.readExactly totalBytes stop b
  | .readUntil delimiter chunkSize => source.readUntil delimiter chunkSize stop b
  | .readUntilAnyResult delimiters chunkSize =>
    let r := source.readUntilAnyResult delimiters chunkSize stop b
    (r.1.map UntilAnyResult.data, r.2)
  | .readLine keepEndOfLine => source.readLine keepEndOfLine stop b

/-- One call of a sequence. -/
structure Called (σ : Type) where
  call : Call
  stop : Nat → Bool
  before : Buffered UInt8 σ
  result : Except Failure (List UInt8)
  after : Buffered UInt8 σ

def Source.called (source : Source UInt8 σ) (stop : Nat → Bool) (b : Buffered UInt8 σ)
    (c : Call) : Called σ :=
  let r := source.call stop b c
  { call := c, stop := stop, before := b, result := r.1, after := r.2 }

/-- The calls one after the other, each with its stop token. -/
def Source.session (source : Source UInt8 σ) (b : Buffered UInt8 σ) :
    List (Call × (Nat → Bool)) → List (Called σ) × Buffered UInt8 σ
  | [] => ([], b)
  | (c, stop) :: calls =>
    let made := source.called stop b c
    let rest := source.session made.after calls
    (made :: rest.1, rest.2)

/-! ## What becomes of the bytes -/

/-- A throwing read of the stream consumes nothing. -/
def Source.Keeps (source : Source α σ) : Prop :=
  ∀ {s s' : σ} {wanted : Nat} {e : Failure}, source.read s wanted = (.error e, s') →
    source.unread s' = source.unread s

/-- What is returned is what the read position moves past. It stays where it is
when nothing is returned. -/
structure Lossless (source : Source α σ) (b b' : Buffered α σ) (r : Except Failure (List α)) :
    Prop where
  returned {out : List α} : r = .ok out → b.remaining source = out ++ b'.remaining source
  kept {e : Failure} : r = .error e → b'.remaining source = b.remaining source

theorem Lossless.ok {source : Source α σ} {b b' : Buffered α σ} {out : List α}
    (h : b.remaining source = out ++ b'.remaining source) : Lossless source b b' (.ok out) := by
  refine ⟨?_, ?_⟩
  · intro _ he
    cases he
    exact h
  · intro _ he
    cases he

theorem Lossless.error {source : Source α σ} {b b' : Buffered α σ} {e : Failure}
    (h : b'.remaining source = b.remaining source) : Lossless source b b' (.error e) := by
  refine ⟨?_, ?_⟩
  · intro _ he
    cases he
  · intro _ _
    exact h

theorem Lossless.trans {source : Source α σ} {b b' b'' : Buffered α σ}
    {r : Except Failure (List α)} (h : Lossless source b' b'' r)
    (he : b'.remaining source = b.remaining source) : Lossless source b b'' r := by
  refine ⟨?_, ?_⟩
  · intro out hr
    rw [← he]
    exact h.returned hr
  · intro e hr
    rw [← he]
    exact h.kept hr

namespace Source
variable {source : Source α σ} {b : Buffered α σ} {stop : Nat → Bool}

theorem remaining_read {s : σ} {chunk : List α} {wanted : Nat}
    (h : source.read b.stream wanted = (.ok chunk, s)) :
    b.remaining source =
      ({ stream := s, pending := b.pending ++ chunk } : Buffered α σ).remaining source := by
  unfold Buffered.remaining
  rw [source.delivers h, List.append_assoc]

theorem remaining_throws (hk : source.Keeps) {s : σ} {wanted : Nat} {e : Failure}
    (h : source.read b.stream wanted = (.error e, s)) :
    ({ b with stream := s } : Buffered α σ).remaining source = b.remaining source := by
  unfold Buffered.remaining
  rw [hk h]

theorem readSome_lossless (hk : source.Keeps) (maxBytes : Nat) :
    Lossless source b (source.readSome maxBytes b).2 (source.readSome maxBytes b).1 := by
  unfold readSome
  by_cases h0 : maxBytes = 0
  · rw [if_pos h0]
    exact .ok rfl
  · rw [if_neg h0]
    by_cases hp : b.pending ≠ []
    · rw [if_pos hp]
      refine .ok ?_
      unfold Buffered.remaining
      rw [← List.append_assoc, List.take_append_drop]
    · rw [if_neg hp]
      have hnil : b.pending = [] := not_not.mp hp
      dsimp only
      generalize hr : source.read b.stream maxBytes = r
      obtain ⟨r, s⟩ := r
      cases r with
      | error e => exact .error (remaining_throws hk hr)
      | ok chunk =>
        refine .ok ?_
        rw [remaining_read hr]
        unfold Buffered.remaining
        rw [hnil]
        exact List.append_assoc _ _ _

theorem untilLoop_lossless [DecidableEq α] (hk : source.Keeps) (delimiters : List (List α))
    (chunkSize k : Nat) :
    Lossless source b (source.untilLoop delimiters chunkSize stop k b).2
      ((source.untilLoop delimiters chunkSize stop k b).1.map UntilAnyResult.data) := by
  induction hm : (source.unread b.stream).length using Nat.strongRecOn generalizing b k with
  | ind m ih =>
    unfold untilLoop
    dsimp only
    by_cases hf : (findAnyDelimiter b.pending delimiters).found = true
    · rw [if_pos hf]
      refine .ok ?_
      unfold Buffered.remaining
      rw [← List.append_assoc, List.take_append_drop]
    · rw [if_neg hf]
      by_cases hs : stop k = true
      · rw [if_pos hs]
        exact .error rfl
      · rw [if_neg hs]
        generalize hr : source.read b.stream chunkSize = r
        obtain ⟨r, s⟩ := r
        cases r with
        | error e => exact .error (remaining_throws hk hr)
        | ok chunk =>
          dsimp only
          by_cases hc : chunk = []
          · rw [dif_pos hc]
            refine .ok ?_
            rw [remaining_read hr, hc]
            exact List.append_assoc _ _ _
          · rw [dif_neg hc]
            have hshrinks := source.shrinks hr hc
            exact (ih _ (hm ▸ hshrinks) (k + 1) rfl).trans (remaining_read hr).symm

theorem readUntil_lossless [DecidableEq α] (hk : source.Keeps) (b : Buffered α σ)
    (stop : Nat → Bool) (delimiter : List α) (chunkSize : Nat) :
    Lossless source b (source.readUntil delimiter chunkSize stop b).2
      (source.readUntil delimiter chunkSize stop b).1 := by
  unfold readUntil
  by_cases h : delimiter.isEmpty = true
  · rw [if_pos h]
    exact .error rfl
  · rw [if_neg h]
    exact untilLoop_lossless hk [delimiter] chunkSize 0

theorem readUntilAnyResult_lossless [DecidableEq α] (hk : source.Keeps)
    (delimiters : List (List α)) (chunkSize : Nat) :
    Lossless source b (source.readUntilAnyResult delimiters chunkSize stop b).2
      ((source.readUntilAnyResult delimiters chunkSize stop b).1.map UntilAnyResult.data) := by
  unfold readUntilAnyResult
  cases StreamBuffer.validateDelimiters delimiters with
  | error e => exact .error rfl
  | ok _ => exact untilLoop_lossless hk delimiters chunkSize 0

/-- What the loop of `read_exact` holds when it ends: it returns that, or throws
it away. -/
theorem readExactLoop_holds (hk : source.Keeps) (stop : Nat → Bool) (totalBytes k : Nat)
    (out : List α) (b : Buffered α σ) :
    ∃ held, out <+: held ∧
      held ++ (source.readExactLoop totalBytes stop k out b).2.remaining source =
        out ++ b.remaining source ∧
      ∀ o, (source.readExactLoop totalBytes stop k out b).1 = .ok o → o = held := by
  induction hm : totalBytes - out.length using Nat.strongRecOn generalizing b k out with
  | ind m ih =>
    unfold readExactLoop
    by_cases hlt : out.length < totalBytes
    · rw [if_pos hlt]
      by_cases hs : stop k = true
      · rw [if_pos hs]
        exact ⟨out, List.prefix_rfl, rfl, by simp⟩
      · rw [if_neg hs]
        by_cases hp : b.pending ≠ []
        · rw [dif_pos hp]
          have hpos := List.length_pos_iff.mpr hp
          dsimp only
          generalize hcount : (if b.pending.length < totalBytes - out.length then b.pending.length
            else totalBytes - out.length) = count
          have hcpos : 0 < count := by
            rw [← hcount]
            split <;> omega
          obtain ⟨held, hpre, hrem, hok⟩ := ih (totalBytes - (out ++ b.pending.take count).length)
            (by rw [List.length_append, List.length_take]; omega) (k + 1)
            (out ++ b.pending.take count) { b with pending := b.pending.drop count } rfl
          refine ⟨held, (List.prefix_append _ _).trans hpre, ?_, hok⟩
          rw [hrem]
          unfold Buffered.remaining
          rw [List.append_assoc, ← List.append_assoc (b.pending.take count),
            List.take_append_drop]
        · rw [dif_neg hp]
          have hnil : b.pending = [] := not_not.mp hp
          generalize hr : source.read b.stream (totalBytes - out.length) = r
          obtain ⟨r, s⟩ := r
          cases r with
          | error e =>
            refine ⟨out, List.prefix_rfl, ?_, by simp⟩
            rw [remaining_throws hk hr]
          | ok chunk =>
            dsimp only
            have hread := remaining_read hr
            by_cases hc : chunk = []
            · rw [dif_pos hc]
              refine ⟨out, List.prefix_rfl, ?_, ?_⟩
              · rw [hread, hc, List.append_nil]
              · intro o ho
                cases ho
                rfl
            · rw [dif_neg hc]
              have hpos := List.length_pos_iff.mpr hc
              obtain ⟨held, hpre, hrem, hok⟩ := ih (totalBytes - (out ++ chunk).length)
                (by rw [List.length_append]; omega) (k + 1) (out ++ chunk)
                { b with stream := s } rfl
              refine ⟨held, (List.prefix_append _ _).trans hpre, ?_, hok⟩
              rw [hrem, hread]
              unfold Buffered.remaining
              rw [hnil, List.append_assoc]
              rfl
    · rw [if_neg hlt]
      refine ⟨out, List.prefix_rfl, rfl, ?_⟩
      intro o ho
      cases ho
      rfl

/-- The call throws, if it does, before it has taken a byte: the stop token is
set when it looks first, or nothing is pending and the first read of the stream
throws or is at its end. -/
def FailsAtOnce (source : Source α σ) (totalBytes : Nat) (stop : Nat → Bool)
    (b : Buffered α σ) : Prop :=
  stop 0 = true ∨
    b.pending = [] ∧ ∀ chunk s, source.read b.stream totalBytes = (.ok chunk, s) → chunk = []

theorem readExact_holds (hk : source.Keeps) (b : Buffered α σ) (stop : Nat → Bool)
    {totalBytes : Nat} (hpos : 0 < totalBytes) :
    ∃ held, held ++ (source.readExact totalBytes stop b).2.remaining source = b.remaining source ∧
      (∀ o, (source.readExact totalBytes stop b).1 = .ok o → o = held) ∧
      (held = [] ↔ source.FailsAtOnce totalBytes stop b) := by
  unfold readExact readExactLoop FailsAtOnce
  rw [List.length_nil, if_pos hpos, Nat.sub_zero]
  by_cases hs : stop 0 = true
  · rw [if_pos hs]
    exact ⟨[], rfl, by simp, by simp [hs]⟩
  · rw [if_neg hs]
    by_cases hp : b.pending ≠ []
    · rw [dif_pos hp]
      dsimp only
      have hlen := List.length_pos_iff.mpr hp
      generalize hcount : (if b.pending.length < totalBytes then b.pending.length
        else totalBytes) = count
      have hcpos : 0 < count := by
        rw [← hcount]
        split <;> omega
      obtain ⟨held, hpre, hrem, hok⟩ := readExactLoop_holds hk stop totalBytes 1
        ([] ++ b.pending.take count) { b with pending := b.pending.drop count }
      have htaken : 0 < held.length := by
        have := hpre.length_le
        rw [List.nil_append, List.length_take] at this
        omega
      refine ⟨held, ?_, hok, ?_⟩
      · rw [hrem, List.nil_append]
        unfold Buffered.remaining
        rw [← List.append_assoc, List.take_append_drop]
      · constructor
        · intro h
          rw [h] at htaken
          cases htaken
        · rintro (h | ⟨h, _⟩)
          · exact absurd h hs
          · exact absurd h hp
    · rw [dif_neg hp]
      have hnil : b.pending = [] := not_not.mp hp
      generalize hr : source.read b.stream totalBytes = r
      obtain ⟨r, s⟩ := r
      cases r with
      | error e =>
        refine ⟨[], ?_, by simp, by simp [hnil]⟩
        exact remaining_throws hk hr
      | ok chunk =>
        dsimp only
        have hread := remaining_read hr
        by_cases hc : chunk = []
        · rw [dif_pos hc]
          refine ⟨[], ?_, ?_, ?_⟩
          · rw [hread, hc, List.append_nil]
            rfl
          · intro o ho
            cases ho
            rfl
          · simp [hnil, hc]
        · rw [dif_neg hc]
          have hlen := List.length_pos_iff.mpr hc
          obtain ⟨held, hpre, hrem, hok⟩ := readExactLoop_holds hk stop totalBytes 1
            ([] ++ chunk) { b with stream := s }
          have htaken : 0 < held.length := by
            have := hpre.length_le
            rw [List.nil_append] at this
            omega
          refine ⟨held, ?_, hok, ?_⟩
          · rw [hrem, hread]
            unfold Buffered.remaining
            rw [hnil]
            rfl
          · constructor
            · intro h
              rw [h] at htaken
              cases htaken
            · rintro (h | ⟨_, h⟩)
              · exact absurd h hs
              · exact absurd (h chunk s rfl) hc

theorem readExact_zero : source.readExact 0 stop b = (.ok [], b) := by
  unfold readExact readExactLoop
  rfl

/-- However the call ends: what it holds has left the stream. -/
theorem kept_iff (hk : source.Keeps) {totalBytes : Nat} (hpos : 0 < totalBytes) :
    (source.readExact totalBytes stop b).2.remaining source = b.remaining source ↔
      source.FailsAtOnce totalBytes stop b := by
  obtain ⟨held, hrem, _, hiff⟩ := readExact_holds hk b stop hpos
  rw [← hiff, ← hrem]
  constructor
  · intro he
    exact List.self_eq_append_left.mp he
  · intro hnil
    rw [hnil, List.nil_append]

/-- The read position is kept by a throwing `read_exact` when it throws at once,
and only then. -/
theorem readExact_kept (hk : source.Keeps) {totalBytes : Nat} {e : Failure}
    (h : (source.readExact totalBytes stop b).1 = .error e) :
    (source.readExact totalBytes stop b).2.remaining source = b.remaining source ↔
      source.FailsAtOnce totalBytes stop b := by
  refine kept_iff hk (Nat.pos_of_ne_zero fun h0 => ?_)
  rw [h0, readExact_zero] at h
  cases h

theorem readExact_returned (hk : source.Keeps) {totalBytes : Nat} {out : List α}
    (h : (source.readExact totalBytes stop b).1 = .ok out) :
    b.remaining source = out ++ (source.readExact totalBytes stop b).2.remaining source := by
  obtain ⟨held, _, hrem, hok⟩ := readExactLoop_holds hk stop totalBytes 0 [] b
  rw [hok out h]
  exact hrem.symm

theorem readExactly_after (totalBytes : Nat) :
    (source.readExactly totalBytes stop b).2 = (source.readExact totalBytes stop b).2 := by
  unfold readExactly
  obtain ⟨r, b'⟩ := source.readExact totalBytes stop b
  cases r with
  | error e => rfl
  | ok out =>
    dsimp only
    split <;> rfl

theorem readExactly_returned (hk : source.Keeps) {totalBytes : Nat} {out : List α}
    (h : (source.readExactly totalBytes stop b).1 = .ok out) :
    b.remaining source = out ++ (source.readExactly totalBytes stop b).2.remaining source := by
  rw [readExactly_after]
  refine readExact_returned hk ?_
  unfold readExactly at h
  generalize source.readExact totalBytes stop b = x at h ⊢
  obtain ⟨r, b'⟩ := x
  cases r with
  | error e => cases h
  | ok out' =>
    dsimp only at h
    split at h
    · cases h
    · exact h

/-- So it is for `read_exactly`, which also throws at the end of the stream. -/
theorem readExactly_kept (hk : source.Keeps) {totalBytes : Nat} {e : Failure}
    (h : (source.readExactly totalBytes stop b).1 = .error e) :
    (source.readExactly totalBytes stop b).2.remaining source = b.remaining source ↔
      source.FailsAtOnce totalBytes stop b := by
  rw [readExactly_after]
  refine kept_iff hk (Nat.pos_of_ne_zero fun h0 => ?_)
  unfold readExactly at h
  rw [h0, readExact_zero] at h
  cases h

end Source

/-! ## A stream given by what its reads return -/

/-- A chunk that is longer than what is asked for is returned in pieces. -/
def replies : Source α (List (Except Error (List α))) where
  read stream wanted :=
    match stream with
    | [] => (.ok [], [])
    | .error e :: rest => (.error (.of e), rest)
    | .ok chunk :: rest =>
      if chunk.length ≤ wanted then (.ok chunk, rest)
      else (.ok (chunk.take wanted), .ok (chunk.drop wanted) :: rest)
  unread stream := stream.flatMap bytesOf
  delivers {s s' wanted chunk} h := by
    cases s with
    | nil =>
      cases h
      rfl
    | cons x rest =>
      cases x with
      | error e => cases h
      | ok c =>
        dsimp only at h
        split at h <;> cases h
        · exact List.flatMap_cons
        · simp [bytesOf, ← List.append_assoc]
  bounded {s s' wanted chunk} h := by
    cases s with
    | nil =>
      cases h
      exact Nat.zero_le _
    | cons x rest =>
      cases x with
      | error e => cases h
      | ok c =>
        dsimp only at h
        split at h <;> cases h
        · assumption
        · exact List.length_take_le _ _

theorem replies_keeps : (replies : Source α (List (Except Error (List α)))).Keeps := by
  intro s s' wanted e h
  cases s with
  | nil => cases h
  | cons x rest =>
    cases x with
    | error e => cases h; rfl
    | ok c =>
      unfold replies at h
      dsimp only at h
      split at h <;> cases h

/-- `readUntilLoop` is the loop on the stream that replies in chunks which fit. -/
theorem untilLoop_replies [DecidableEq α] {ds : List (List α)} {chunkSize : Nat}
    {stop : Nat → Bool} {stream : List (Except Error (List α))}
    (h : ∀ chunk, .ok chunk ∈ stream → chunk.length ≤ chunkSize) (k : Nat) (pending : List α) :
    let r := readUntilLoop ds stop k stream pending
    replies.untilLoop ds chunkSize stop k { stream := stream, pending := pending } =
      (r.1.mapError .of, { stream := r.2.stream, pending := r.2.pending }) := by
  induction stream generalizing k pending with
  | nil =>
    unfold readUntilLoop Source.untilLoop
    dsimp only
    split
    · rfl
    · split <;> rfl
  | cons x rest ih =>
    unfold readUntilLoop Source.untilLoop
    dsimp only
    split
    · rfl
    · split
      · rfl
      · cases x with
        | error e => rfl
        | ok chunk =>
          have hread : replies.read (.ok chunk :: rest) chunkSize = (.ok chunk, rest) :=
            if_pos (h chunk List.mem_cons_self)
          rw [hread]
          dsimp only
          by_cases hc : chunk = []
          · rw [dif_pos hc, if_pos (List.isEmpty_iff.mpr hc)]
            rfl
          · rw [dif_neg hc, if_neg (by simpa using hc)]
            exact ih (fun c hc => h c (List.mem_cons_of_mem _ hc)) (k + 1) (pending ++ chunk)

/-! ## Lines and sequences -/

theorem popBack_append (c : UInt8) (line : List UInt8) :
    ∃ cut, line = popBack c line ++ cut ∧ (cut = [] ∨ cut = [c]) := by
  unfold popBack
  by_cases h : line.getLast? = some c
  · rw [if_pos h]
    obtain ⟨ys, rfl⟩ := List.getLast?_eq_some_iff.mp h
    exact ⟨[c], by rw [List.dropLast_concat], .inr rfl⟩
  · rw [if_neg h]
    exact ⟨[], (List.append_nil line).symm, .inl rfl⟩

/-- What ends a line, or nothing where the stream has ended. -/
def endsOfLine : List (List UInt8) :=
  [[], [lineFeed], [carriageReturn, lineFeed]]

/-- A line that does not end in a carriage return loses its end of line only. -/
theorem popBack_line {line : List UInt8} (h : line.getLast? ≠ some carriageReturn) :
    ∃ eol ∈ endsOfLine, line = popBack carriageReturn (popBack lineFeed line) ++ eol := by
  obtain ⟨lf, hlf, hcut⟩ := popBack_append lineFeed line
  obtain ⟨cr, hcr, hcut'⟩ := popBack_append carriageReturn (popBack lineFeed line)
  have hline : line = popBack carriageReturn (popBack lineFeed line) ++ (cr ++ lf) := by
    rw [← List.append_assoc, ← hcr]
    exact hlf
  refine ⟨cr ++ lf, ?_, hline⟩
  rcases hcut with rfl | rfl
  · rcases hcut' with rfl | rfl
    · simp [endsOfLine]
    · rw [hline] at h
      simp at h
  · rcases hcut' with rfl | rfl <;> simp [endsOfLine]

namespace Called
variable {source : Source UInt8 σ}

def returned (c : Called σ) : List UInt8 :=
  match c.result with
  | .ok out => out
  | .error _ => []

/-- `eol` is what was cut off what the call returns. -/
def Cut (c : Called σ) (eol : List UInt8) : Prop :=
  eol = [] ∨ c.call = .readLine false ∧ (∃ line, c.result = .ok line) ∧ eol ∈ endsOfLine

/-- If the call is one for a number of bytes and throws, it throws at once. -/
def Early (source : Source UInt8 σ) (c : Called σ) : Prop :=
  ∀ n e, c.call = .readExact n ∨ c.call = .readExactly n → c.result = .error e →
    source.FailsAtOnce n c.stop c.before

/-- The line that `read_line` is to return without its end does not end in a carriage return,
as only a last line without a line feed can. -/
def Terminated (source : Source UInt8 σ) (c : Called σ) : Prop :=
  c.call = .readLine false → ∀ line,
    (source.readUntil [lineFeed] 4096 c.stop c.before).1 = .ok line →
      line.getLast? ≠ some carriageReturn

/-- The bytes are accounted for. -/
structure Accounted (source : Source UInt8 σ) (c : Called σ) (eol : List UInt8) : Prop where
  cut : c.Cut eol
  moved : c.before.remaining source = c.returned ++ eol ++ c.after.remaining source
  kept {e : Failure} : c.result = .error e →
    c.after.remaining source = c.before.remaining source

theorem Accounted.of_lossless {c : Called σ}
    (h : Lossless source c.before c.after c.result) : c.Accounted source [] := by
  refine ⟨.inl rfl, ?_, h.kept⟩
  unfold returned
  cases hr : c.result with
  | ok out =>
    rw [List.append_nil]
    exact h.returned hr
  | error e => exact (h.kept hr).symm

end Called

namespace Source
variable {source : Source UInt8 σ} {b : Buffered UInt8 σ} {stop : Nat → Bool}

theorem readLine_accounted (hk : source.Keeps) (keep : Bool)
    (ht : (source.called stop b (.readLine keep)).Terminated source) :
    ∃ eol, (source.called stop b (.readLine keep)).Accounted source eol := by
  have hu := readUntil_lossless hk b stop [lineFeed] 4096
  have hline : keep = false → ∀ line, (source.readUntil [lineFeed] 4096 stop b).1 = .ok line →
      line.getLast? ≠ some carriageReturn := by
    rintro rfl
    exact ht rfl
  unfold called Source.call readLine
  generalize source.readUntil [lineFeed] 4096 stop b = x at hu hline
  obtain ⟨r, b'⟩ := x
  cases r with
  | error e => exact ⟨[], .of_lossless hu⟩
  | ok line =>
    cases keep with
    | true => exact ⟨[], .of_lossless hu⟩
    | false =>
      obtain ⟨eol, hmem, hline⟩ := popBack_line (hline rfl line rfl)
      refine ⟨eol, .inr ⟨rfl, ⟨_, rfl⟩, hmem⟩, ?_, by simp⟩
      have hret := hu.returned rfl
      rw [hline] at hret
      exact hret

theorem call_accounted (hk : source.Keeps) (c : Call)
    (he : (source.called stop b c).Early source)
    (ht : (source.called stop b c).Terminated source) :
    ∃ eol, (source.called stop b c).Accounted source eol := by
  cases c with
  | readSome maxBytes => exact ⟨[], .of_lossless (readSome_lossless hk maxBytes)⟩
  | readExact n =>
    refine ⟨[], .of_lossless ⟨fun h => readExact_returned hk h, ?_⟩⟩
    intro e h
    exact (readExact_kept hk h).mpr (he n e (.inl rfl) h)
  | readExactly n =>
    refine ⟨[], .of_lossless ⟨fun h => readExactly_returned hk h, ?_⟩⟩
    intro e h
    exact (readExactly_kept hk h).mpr (he n e (.inr rfl) h)
  | readUntil delimiter chunkSize =>
    exact ⟨[], .of_lossless (readUntil_lossless hk b stop delimiter chunkSize)⟩
  | readUntilAnyResult delimiters chunkSize =>
    exact ⟨[], .of_lossless (readUntilAnyResult_lossless hk delimiters chunkSize)⟩
  | readLine keep => exact readLine_accounted hk keep ht

end Source

/-- Calls that return whole lines or no lines have nothing cut off. -/
theorem zipWith_uncut {cs : List (Called σ)} {eols : List (List UInt8)}
    (h : List.Forall₂ Called.Cut cs eols) (hline : ∀ c ∈ cs, c.call ≠ .readLine false) :
    List.zipWith (fun c eol => c.returned ++ eol) cs eols = cs.map Called.returned := by
  induction h with
  | nil => rfl
  | @cons c eol cs eols hcut _ ih =>
    have hnil : eol = [] := hcut.resolve_right fun h => hline c List.mem_cons_self h.1
    rw [List.zipWith_cons_cons, List.map_cons, ih fun c hc => hline c (List.mem_cons_of_mem _ hc),
      hnil, List.append_nil]

/-- What the calls return, with the ends of line that `read_line` cut off put
back, is what has been read. A call that throws does not move the read position.
Every `read_exact` and `read_exactly` is one that returns or throws at once, and no
`read_line` meets a last line that ends in a carriage return. -/
theorem session_lossless {source : Source UInt8 σ} (hk : source.Keeps)
    (calls : List (Call × (Nat → Bool))) (b : Buffered UInt8 σ)
    (hearly : ∀ c ∈ (source.session b calls).1, c.Early source)
    (hlines : ∀ c ∈ (source.session b calls).1, c.Terminated source) :
    (∃ eols, List.Forall₂ Called.Cut (source.session b calls).1 eols ∧
      (List.zipWith (fun c eol => c.returned ++ eol) (source.session b calls).1 eols).flatten ++
        (source.session b calls).2.remaining source = b.remaining source) ∧
    ((∀ c ∈ (source.session b calls).1, c.call ≠ .readLine false) →
      ((source.session b calls).1.map Called.returned).flatten ++
        (source.session b calls).2.remaining source = b.remaining source) ∧
    ∀ c ∈ (source.session b calls).1, ∀ e, c.result = .error e →
      c.after.remaining source = c.before.remaining source := by
  have hall : (∃ eols, List.Forall₂ Called.Cut (source.session b calls).1 eols ∧
      (List.zipWith (fun c eol => c.returned ++ eol) (source.session b calls).1 eols).flatten ++
        (source.session b calls).2.remaining source = b.remaining source) ∧
      ∀ c ∈ (source.session b calls).1, ∀ e, c.result = .error e →
        c.after.remaining source = c.before.remaining source := by
    induction calls generalizing b with
    | nil => exact ⟨⟨[], .nil, rfl⟩, by simp [Source.session]⟩
    | cons x calls ih =>
      obtain ⟨call, stop⟩ := x
      unfold Source.session at hearly hlines ⊢
      dsimp only at hearly hlines ⊢
      obtain ⟨eol, hacc⟩ := Source.call_accounted hk call (hearly _ List.mem_cons_self)
        (hlines _ List.mem_cons_self)
      obtain ⟨⟨eols, hcut, hflat⟩, hkept⟩ :=
        ih _ (fun c hc => hearly c (List.mem_cons_of_mem _ hc))
          (fun c hc => hlines c (List.mem_cons_of_mem _ hc))
      refine ⟨⟨eol :: eols, .cons hacc.cut hcut, ?_⟩, ?_⟩
      · rw [List.zipWith_cons_cons, List.flatten_cons, List.append_assoc, hflat]
        exact hacc.moved.symm
      · intro c hc e hr
        rcases List.mem_cons.mp hc with rfl | hc
        · exact hacc.kept hr
        · exact hkept c hc e hr
  refine ⟨hall.1, fun hline => ?_, hall.2⟩
  obtain ⟨eols, hcut, hflat⟩ := hall.1
  rw [← zipWith_uncut hcut hline]
  exact hflat

/-- A `read_exact` for three bytes is cancelled when it has two of them. -/
def cancelledHalfway : List (Call × (Nat → Bool)) := [(.readExact 3, fun k => decide (0 < k))]

/-- It throws them away: no call returns them, and they are not to be read any more. -/
theorem session_drops_bytes :
    ((replies.session { stream := [.ok [97, 98]] } cancelledHalfway).1.map
        Called.returned).flatten ++
      (replies.session { stream := [.ok [97, 98]] } cancelledHalfway).2.remaining replies ≠
        ({ stream := [.ok [97, 98]] } : Buffered UInt8 _).remaining replies ∧
    ∃ c ∈ (replies.session { stream := [.ok [97, 98]] } cancelledHalfway).1,
      c.result = .error (.of .operationCancelled) ∧
        c.after.remaining replies ≠ c.before.remaining replies := by
  have hexact : replies.readExact 3 (fun k => decide (0 < k))
      ({ stream := [.ok [97, 98]] } : Buffered UInt8 _) =
      (.error (.of .operationCancelled), { stream := [] }) := by
    simp [Source.readExact, Source.readExactLoop, replies]
  have hcall : replies.called (fun k => decide (0 < k))
      ({ stream := [.ok [97, 98]] } : Buffered UInt8 _) (.readExact 3) =
      { call := .readExact 3, stop := fun k => decide (0 < k)
        before := { stream := [.ok [97, 98]] }
        result := .error (.of .operationCancelled), after := { stream := [] } } := by
    simp only [Source.called, Source.call, hexact]
  constructor
  · simp only [cancelledHalfway, Source.session, hcall]
    decide
  · refine ⟨_, List.mem_cons_self, ?_⟩
    rw [hcall]
    exact ⟨rfl, by decide⟩

/-- A stop token that is set moves nothing; the line before it is returned. -/
theorem session_lossless_line :
    ∃ eols, List.Forall₂ Called.Cut (replies.session { stream := [.ok [97, 13, 10, 98]] }
        [(.readLine false, never), (.readExact 2, fun _ => true)]).1 eols ∧
      (List.zipWith (fun c eol => c.returned ++ eol) (replies.session
        { stream := [.ok [97, 13, 10, 98]] }
        [(.readLine false, never), (.readExact 2, fun _ => true)]).1 eols).flatten ++
        (replies.session { stream := [.ok [97, 13, 10, 98]] }
          [(.readLine false, never), (.readExact 2, fun _ => true)]).2.remaining replies =
      [97, 13, 10, 98] := by
  have hfits : ∀ chunk : List UInt8,
      .ok chunk ∈ [(Except.ok [97, 13, 10, 98] : Except Error _)] → chunk.length ≤ 4096 := by
    intro chunk hc
    cases List.mem_singleton.mp hc
    decide
  have hline : (replies.readUntil [lineFeed] 4096 never
      ({ stream := [.ok [97, 13, 10, 98]] } : Buffered UInt8 _)).1 = .ok [97, 13, 10] := by
    unfold Source.readUntil
    rw [if_neg (by decide)]
    dsimp only
    rw [untilLoop_replies hfits 0 []]
    rfl
  refine (session_lossless replies_keeps [(.readLine false, never), (.readExact 2, fun _ => true)]
    { stream := [.ok [97, 13, 10, 98]] } ?_ ?_).1
  · intro c hc n e hcall _
    simp only [Source.session, Source.called, List.mem_cons, List.not_mem_nil, or_false] at hc
    rcases hc with rfl | rfl
    · rcases hcall with h | h <;> cases h
    · exact .inl rfl
  · intro c hc hcall line hl
    simp only [Source.session, Source.called, List.mem_cons, List.not_mem_nil, or_false] at hc
    rcases hc with rfl | rfl
    · dsimp only at hl
      rw [hline] at hl
      cases hl
      decide
    · cases hcall

end LuvCoro.Io
