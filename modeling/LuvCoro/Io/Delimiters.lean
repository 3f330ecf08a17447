import LuvCoro.Io.Session

/-! # The delimiter that ends the data

`find_any_delimiter` goes once over the delimiters and keeps the best one so far.
What it ends with is the leftmost occurrence of any of them, the longest one there,
and the earliest in the list. -/
namespace LuvCoro.Io

open Occurrence

universe u

/-- What `find_any_delimiter` reports about `pending`. -/
structure LeftmostLongest {α : Type u} (ds : List (List α)) (pending : List α)
    (best : DelimiterMatch α) : Prop where
  found : best.found = true ↔ ∃ d ∈ ds, d <:+: pending
  listed : best.found = true → ds[best.delimiterIndex]? = some best.delimiter
  occurs : best.found = true → At best.delimiter pending best.startOffset
  leftmost : best.found = true → ∀ d ∈ ds, ∀ p, At d pending p → best.startOffset ≤ p
  longest : best.found = true → ∀ d ∈ ds, At d pending best.startOffset →
    d.length ≤ best.delimiter.length
  first : best.found = true → ∀ j d, j < best.delimiterIndex → ds[j]? = some d →
    At d pending best.startOffset → d.length < best.delimiter.length
  ends : best.endOffset = best.startOffset + best.delimiter.length
  inside : best.found = true → best.endOffset ≤ pending.length

/-- What `read_until_any_result` returns. -/
structure Delimited {α : Type u} (ds : List (List α)) (r : UntilAnyResult α) : Prop where
  listed : r.matched = true → ds[r.delimiterIndex]? = some r.delimiter
  suffix : r.matched = true → r.delimiter <:+ r.data
  earliest : r.matched = true → ∀ d ∈ ds, ∀ p, At d r.data p →
    r.data.length ≤ p + r.delimiter.length
  unmatched : r.matched = false → ∀ d ∈ ds, ¬ d <:+: r.data

section
variable {α : Type u} [DecidableEq α] {ds : List (List α)} {pending : List α}

theorem findAnyDelimiter_leftmostLongest (pending : List α) (ds : List (List α)) :
    LeftmostLongest ds pending (findAnyDelimiter pending ds) := by
  have hfinds := findAnyDelimiter_finds pending ds
  have hmem : ∀ {d}, d ∈ ds → ∃ j, ds[j]? = some d := fun hd => List.getElem?_of_mem hd
  refine ⟨?_, fun h => (hfinds.preferred h).listed, fun h => (hfinds.preferred h).occurs,
    fun h d hd p hp => ?_, fun h d hd hp => ?_, fun h j d hj hd hp => ?_, hfinds.ends, endOffset_le⟩
  · rw [found_iff]
    simp only [infix_iff]
  · obtain ⟨j, hj⟩ := hmem hd
    have hprec := (hfinds.preferred h).first j d p hj hp
    unfold Precedes at hprec
    omega
  · obtain ⟨j, hj⟩ := hmem hd
    have hprec := (hfinds.preferred h).first j d _ hj hp
    unfold Precedes at hprec
    omega
  · have hprec := (hfinds.preferred h).first j d _ hd hp
    unfold Precedes at hprec
    omega

/-- What the search finds ends the data, and nothing else starts before it. -/
theorem matched_delimited (h : (findAnyDelimiter pending ds).found = true) :
    Delimited ds (matched pending (findAnyDelimiter pending ds)) := by
  have hbest := findAnyDelimiter_leftmostLongest pending ds
  have hends := hbest.ends
  have hle := hbest.inside h
  have hsuffix := (hbest.occurs h).suffix_take
  refine ⟨fun _ => hbest.listed h, fun _ => ?_, fun _ d hd p hp => ?_, fun hf => ?_⟩
  · rw [← hends] at hsuffix
    exact hsuffix
  · have hleft := hbest.leftmost h d hd p (at_take.mp hp).1
    have hlen : (pending.take (findAnyDelimiter pending ds).endOffset).length =
        (findAnyDelimiter pending ds).endOffset := by
      rw [List.length_take]
      omega
    unfold matched
    dsimp only
    omega
  · cases hf

theorem unmatched_delimited (h : (findAnyDelimiter pending ds).found = false) :
    Delimited ds { data := pending } := by
  refine ⟨by simp, by simp, by simp, fun _ d hd hin => ?_⟩
  rw [(findAnyDelimiter_leftmostLongest pending ds).found.mpr ⟨d, hd, hin⟩] at h
  cases h

end

section
variable {α σ : Type} [DecidableEq α] {source : Source α σ}

/-- By induction on what the stream still has. -/
theorem untilLoop_delimited (ds : List (List α)) (chunkSize k : Nat) (stop : Nat → Bool)
    (b : Buffered α σ) (r : UntilAnyResult α)
    (h : (source.untilLoop ds chunkSize stop k b).1 = .ok r) : Delimited ds r := by
  induction hm : (source.unread b.stream).length using Nat.strongRecOn generalizing b k with
  | ind m ih =>
    unfold Source.untilLoop at h
    dsimp only at h
    by_cases hf : (findAnyDelimiter b.pending ds).found = true
    · rw [if_pos hf] at h
      cases h
      exact matched_delimited hf
    · rw [if_neg hf] at h
      by_cases hs : stop k = true
      · rw [if_pos hs] at h
        cases h
      · rw [if_neg hs] at h
        generalize hr : source.read b.stream chunkSize = x at h
        obtain ⟨x, s⟩ := x
        cases x with
        | error e => cases h
        | ok chunk =>
          dsimp only at h
          by_cases hc : chunk = []
          · rw [dif_pos hc] at h
            cases h
            exact unmatched_delimited (by simpa using hf)
          · rw [dif_neg hc] at h
            have hshrinks := source.shrinks hr hc
            exact ih _ (hm ▸ hshrinks) (k + 1) _ h rfl

/-- For every buffer and every list of delimiters, and whatever the stream does. -/
theorem delimiter_leftmost_longest (ds : List (List α)) (source : Source α σ) (chunkSize : Nat)
    (stop : Nat → Bool) (b : Buffered α σ) :
    (∀ pending, LeftmostLongest ds pending (findAnyDelimiter pending ds)) ∧
      ∀ r, (source.readUntilAnyResult ds chunkSize stop b).1 = .ok r → Delimited ds r := by
  refine ⟨fun pending => findAnyDelimiter_leftmostLongest pending ds, fun r hr => ?_⟩
  unfold Source.readUntilAnyResult at hr
  cases hv : StreamBuffer.validateDelimiters ds with
  | error e =>
    rw [hv] at hr
    cases hr
  | ok _ =>
    rw [hv] at hr
    exact untilLoop_delimited ds chunkSize 0 stop b r hr

end

end LuvCoro.Io
