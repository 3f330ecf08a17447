import LuvCoro.Lib.Occurrence

/-! # `stream_buffer`

Translated from `include/luvcoro/io.hpp`: the search for delimiters in what has
arrived, and the loops that read on until there is one. -/
namespace LuvCoro.Io

open Occurrence

universe u

inductive Error where
  | invalidArgument (what : String)
  | operationCancelled
  /-- What `read_some` of the stream throws. -/
  | stream (what : String)
  deriving DecidableEq, Repr

structure DelimiterMatch (α : Type u) where
  found : Bool := false
  startOffset : Nat := 0
  endOffset : Nat := 0
  delimiterIndex : Nat := 0
  delimiter : List α := []

structure UntilAnyResult (α : Type u) where
  data : List α := []
  delimiter : List α := []
  /-- `static_cast<std::size_t>(-1)` -/
  delimiterIndex : Nat := 18446744073709551615
  matched : Bool := false
  deriving DecidableEq, Repr

/-- The stream stands for what its reads will return, one entry for each;
after the last one it is at its end and they return nothing. -/
structure StreamBuffer (α : Type u) where
  stream : List (Except Error (List α))
  pending : List α := []

variable {α : Type u} [DecidableEq α]

/-- One round of the loop of `find_any_delimiter`, where `best_start` and
`best_length` are those of `best`. -/
def considerDelimiter (pending : List α) (best : DelimiterMatch α) (index : Nat)
    (delimiter : List α) : DelimiterMatch α :=
  match find delimiter pending with
  | none => best
  | some pos =>
    if !best.found || decide (pos < best.startOffset) ||
        (decide (pos = best.startOffset) && decide (best.delimiter.length < delimiter.length)) then
      { found := true
        startOffset := pos
        endOffset := pos + delimiter.length
        delimiterIndex := index
        delimiter := delimiter }
    else best

def findAnyFrom (pending : List α) (index : Nat) (best : DelimiterMatch α) :
    List (List α) → DelimiterMatch α
  | [] => best
  | d :: ds => findAnyFrom pending (index + 1) (considerDelimiter pending best index d) ds

def findAnyDelimiter (pending : List α) (delimiters : List (List α)) : DelimiterMatch α :=
  findAnyFrom pending 0 {} delimiters

/-- The loop that `read_until` and `read_until_any_result` have in common;
`stopRequested k` is what the stop token says in round `k`. -/
def readUntilLoop (delimiters : List (List α)) (stopRequested : Nat → Bool) (k : Nat)
    (stream : List (Except Error (List α))) (pending : List α) :
    Except Error (UntilAnyResult α) × StreamBuffer α :=
  let best := findAnyDelimiter pending delimiters
  if best.found then
    (.ok { data := pending.take best.endOffset
           delimiter := best.delimiter
           delimiterIndex := best.delimiterIndex
           matched := true },
      { stream := stream, pending := pending.drop best.endOffset })
  else if stopRequested k then
    (.error .operationCancelled, { stream := stream, pending := pending })
  else
    match stream with
    | [] => (.ok { data := pending }, { stream := [] })
    | .error e :: rest => (.error e, { stream := rest, pending := pending })
    | .ok chunk :: rest =>
      if chunk.isEmpty then (.ok { data := pending }, { stream := rest })
      else readUntilLoop delimiters stopRequested (k + 1) rest (pending ++ chunk)

namespace StreamBuffer

def readUntil (b : StreamBuffer α) (delimiter : List α) (stopRequested : Nat → Bool) :
    Except Error (List α) × StreamBuffer α :=
  if delimiter.isEmpty then
    (.error (.invalidArgument "read_until delimiter must not be empty"), b)
  else
    let r := readUntilLoop [delimiter] stopRequested 0 b.stream b.pending
    (r.1.map UntilAnyResult.data, r.2)

def validateDelimiters (delimiters : List (List α)) : Except Error Unit :=
  if delimiters.isEmpty then
    .error (.invalidArgument "read_until_any requires at least one delimiter")
  else if delimiters.any List.isEmpty then
    .error (.invalidArgument "read_until_any delimiter must not be empty")
  else .ok ()

def readUntilAnyResult (b : StreamBuffer α) (delimiters : List (List α))
    (stopRequested : Nat → Bool) : Except Error (UntilAnyResult α) × StreamBuffer α :=
  match validateDelimiters delimiters with
  | .error e => (.error e, b)
  | .ok () => readUntilLoop delimiters stopRequested 0 b.stream b.pending

end StreamBuffer

/-! ## What the search finds -/

/-- `best` is the preferred one of the occurrences of `ds`. -/
structure Finds (ds : List (List α)) (pending : List α) (best : DelimiterMatch α) : Prop where
  preferred : best.found = true →
    Best ds pending best.delimiterIndex best.delimiter best.startOffset
  ends : best.endOffset = best.startOffset + best.delimiter.length
  nothing : best.found = false → ∀ d ∈ ds, ∀ p, ¬ At d pending p

theorem finds_consider {ds : List (List α)} {pending d : List α} {best : DelimiterMatch α}
    (h : Finds ds pending best) :
    Finds (ds ++ [d]) pending (considerDelimiter pending best ds.length d) := by
  have hold : ∀ {j : Nat} {d' : List α}, (ds ++ [d])[j]? = some d' →
      ds[j]? = some d' ∨ j = ds.length ∧ d' = d := by
    intro j d' hj
    rcases Nat.lt_or_ge j ds.length with hlt | hge
    · exact .inl ((List.getElem?_append_left hlt).symm.trans hj)
    · rw [List.getElem?_append_right hge] at hj
      obtain ⟨hlt, he⟩ := List.getElem?_eq_some_iff.mp hj
      have hj0 : j - ds.length = 0 := by
        simp only [List.length_singleton] at hlt
        omega
      refine .inr ⟨by omega, ?_⟩
      simp only [hj0, List.getElem_cons_zero] at he
      exact he.symm
  unfold considerDelimiter
  cases hf : find d pending with
  | none =>
    have hno := find_none.mp hf
    refine ⟨fun hb => ?_, h.ends, fun hb d' hd' p hp => ?_⟩
    · obtain ⟨hl, ho, hfirst⟩ := h.preferred hb
      refine ⟨?_, ho, fun j d' q hj hq => ?_⟩
      · exact (List.getElem?_append_left (List.getElem?_eq_some_iff.mp hl).1).trans hl
      · rcases hold hj with hj | ⟨rfl, rfl⟩
        · exact hfirst j d' q hj hq
        · exact absurd hq (hno q)
    · rcases List.mem_append.mp hd' with hd' | hd'
      · exact h.nothing hb d' hd' p hp
      · rw [List.mem_singleton.mp hd'] at hp
        exact hno p hp
  | some pos =>
    obtain ⟨hat, hmin⟩ := find_some hf
    -- the new one against itself at later places
    have hself : ∀ q, At d pending q → Precedes pos d ds.length q d ds.length := by
      intro q hq
      have hle := hmin q hq
      unfold Precedes
      omega
    dsimp only
    split
    · rename_i hbetter
      refine ⟨fun _ => ⟨by simp, hat, fun j d' q hj hq => ?_⟩, rfl, (by simp)⟩
      rcases hold hj with hj | ⟨rfl, rfl⟩
      · cases hb : best.found with
        | false => exact absurd hq (h.nothing hb d' (List.mem_of_getElem? hj) q)
        | true =>
          have hprec := (h.preferred hb).first j d' q hj hq
          rw [hb] at hbetter
          simp only [Bool.not_true, Bool.false_or, Bool.or_eq_true, Bool.and_eq_true,
            decide_eq_true_eq] at hbetter
          have hnew : Precedes pos d ds.length best.startOffset best.delimiter
              best.delimiterIndex := by
            unfold Precedes
            omega
          exact hnew.trans hprec
      · exact hself q hq
    · rename_i hworse
      simp only [Bool.or_eq_true, Bool.and_eq_true, Bool.not_eq_true', decide_eq_true_eq, not_or,
        not_and, Bool.not_eq_false] at hworse
      obtain ⟨⟨hb, hpos⟩, hlen⟩ := hworse
      obtain ⟨hl, ho, hfirst⟩ := h.preferred hb
      have hlt := (List.getElem?_eq_some_iff.mp hl).1
      refine ⟨fun _ => ⟨?_, ho, fun j d' q hj hq => ?_⟩, h.ends, fun hf => ?_⟩
      · exact (List.getElem?_append_left hlt).trans hl
      · rcases hold hj with hj | ⟨rfl, rfl⟩
        · exact hfirst j d' q hj hq
        · refine Precedes.trans ?_ (hself q hq)
          unfold Precedes
          omega
      · rw [hb] at hf
        cases hf

theorem finds_from {pending : List α} (rest : List (List α)) {ds : List (List α)}
    {best : DelimiterMatch α} (h : Finds ds pending best) :
    Finds (ds ++ rest) pending (findAnyFrom pending ds.length best rest) := by
  induction rest generalizing ds best with
  | nil =>
    rw [List.append_nil]
    exact h
  | cons d rest ih =>
    have hnext := ih (finds_consider (d := d) h)
    rw [List.length_append, List.length_singleton, List.append_assoc] at hnext
    exact hnext

theorem findAnyDelimiter_finds (pending : List α) (ds : List (List α)) :
    Finds ds pending (findAnyDelimiter pending ds) := by
  have h : Finds [] pending ({} : DelimiterMatch α) := ⟨by simp, rfl, by simp⟩
  exact finds_from ds h

end LuvCoro.Io
