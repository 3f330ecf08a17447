import LuvCoro.Io.Copy
import LuvCoro.Io.Lines

/-! # Frames from one side to the other

One side writes frame after frame with `write_all`; the other reads each with the
function of `include/luvcoro/io.hpp` for its format. The format of the next frame
may depend on what has been read, as a body follows a header that gives its size. -/
namespace LuvCoro.Io

open Occurrence

variable {α σ τ : Type}

/-! ## `write_all` -/

/-- `write` is the `writeSome` of the sink; `stop k` is what the stop token says in
round `k`. -/
def writeAll (sink : Sink α τ) (data : List α) (stop : Nat → Bool) (k total : Nat) (t : τ) :
    Except Failure Nat × τ :=
  if total < data.length then
    if stop k then (.error (.of .operationCancelled), t)
    else
      match sink.writeSome t (data.drop total) with
      | (.error e, t') => (.error e, t')
      | (.ok written, t') =>
        if written = 0 then (.error (.runtimeError "write_all made no progress"), t')
        else writeAll sink data stop (k + 1) (total + written) t'
  else (.ok total, t)
termination_by data.length - total

/-- All of the data has been written, or what comes before the write that failed, the
one that took nothing, or the stop. -/
inductive Sink.Outcome (sink : Sink α τ) (data : List α) (stop : Nat → Bool) (t : τ) :
    Except Failure Nat × τ → Prop
  | all {u : τ} : sink.written u = sink.written t ++ data → Outcome sink data stop t
      (.ok data.length, u)
  | cancelled {p : List α} {u : τ} {k : Nat} : p <+: data → p ≠ data →
      sink.written u = sink.written t ++ p → stop k = true →
      Outcome sink data stop t (.error (.of .operationCancelled), u)
  | failed {p : List α} {u v : τ} {e : Failure} : p <+: data → p ≠ data →
      sink.written u = sink.written t ++ p →
      sink.writeSome u (data.drop p.length) = (.error e, v) →
      Outcome sink data stop t (.error e, v)
  | stalled {p : List α} {u v : τ} : p <+: data → p ≠ data →
      sink.written u = sink.written t ++ p →
      sink.writeSome u (data.drop p.length) = (.ok 0, v) →
      Outcome sink data stop t (.error (.runtimeError "write_all made no progress"), v)

theorem take_ne {data : List α} {n : Nat} (h : n < data.length) : data.take n ≠ data := by
  intro he
  have hlen := congrArg List.length he
  rw [List.length_take] at hlen
  omega

/-- By induction on what is left to be written. -/
theorem writeAll_outcome (sink : Sink α τ) (data : List α) (stop : Nat → Bool) (k : Nat)
    {total : Nat} {t u : τ} (hle : total ≤ data.length)
    (hu : sink.written u = sink.written t ++ data.take total) :
    sink.Outcome data stop t (writeAll sink data stop k total u) := by
  induction hm : data.length - total using Nat.strongRecOn generalizing k total u with
  | ind m ih =>
    unfold writeAll
    by_cases hlt : total < data.length
    · have hp := List.take_prefix total data
      have hne := take_ne hlt
      have hlen : (data.take total).length = total := List.length_take_of_le hle
      rw [if_pos hlt]
      by_cases hs : stop k = true
      · rw [if_pos hs]
        exact .cancelled hp hne hu hs
      · rw [if_neg hs]
        generalize hw : sink.writeSome u (data.drop total) = r
        obtain ⟨r, v⟩ := r
        cases r with
        | error e => exact .failed hp hne hu (by rw [hlen]; exact hw)
        | ok written =>
          dsimp only
          by_cases h0 : written = 0
          · rw [if_pos h0]
            subst h0
            exact .stalled hp hne hu (by rw [hlen]; exact hw)
          · rw [if_neg h0]
            obtain ⟨hn, hv⟩ := sink.accepts hw
            rw [List.length_drop] at hn
            refine ih _ (by omega) (k + 1) (by omega) ?_ rfl
            rw [hv, hu, List.append_assoc, List.take_add]
    · rw [if_neg hlt]
      have htotal : total = data.length := by omega
      subst htotal
      rw [List.take_length] at hu
      exact .all hu

/-! ## Formats and frames -/

/-- How the next frame is read. -/
inductive Format where
  | line
  | until (delimiter : List UInt8) (chunkSize : Nat) (pos : 0 < chunkSize)
  | exactly (totalBytes : Nat)

inductive Eol where
  | lf
  | crlf
  deriving DecidableEq

def Eol.bytes : Eol → List UInt8
  | lf => [lineFeed]
  | crlf => [carriageReturn, lineFeed]

inductive Frame where
  | line (text : List UInt8) (eol : Eol)
  | delimited (body delimiter : List UInt8) (chunkSize : Nat) (pos : 0 < chunkSize)
  | data (bytes : List UInt8)

namespace Frame

def format : Frame → Format
  | line _ _ => .line
  | delimited _ delimiter chunkSize pos => .until delimiter chunkSize pos
  | data bytes => .exactly bytes.length

/-- What is written. -/
def bytes : Frame → List UInt8
  | line text eol => text ++ eol.bytes
  | delimited body delimiter _ _ => body ++ delimiter
  | data bytes => bytes

/-- What is to be read; `read_until` returns the delimiter too. -/
def payload : Frame → List UInt8
  | line text _ => text
  | delimited body delimiter _ _ => body ++ delimiter
  | data bytes => bytes

/-- The end of the frame is where the reader looks for it. -/
def Readable : Frame → Prop
  | line text eol => lineFeed ∉ text ∧ (eol = .lf → text.getLast? ≠ some carriageReturn)
  | delimited body delimiter _ _ =>
    delimiter ≠ [] ∧ ∀ p, At delimiter (body ++ delimiter) p → body.length ≤ p
  | data _ => True

/-- What the reader gets when the stream ends in the middle of the frame, after `part`. -/
def truncated (f : Frame) (part : List UInt8) : Except Failure (List UInt8) :=
  match f with
  | line _ _ => .ok (popBack carriageReturn part)
  | delimited _ _ _ _ => .ok part
  | data _ => .error (.runtimeError "read_exactly reached eof before enough bytes were read")

def arrived (f : Frame) (part : List UInt8) : Except Failure (List UInt8) :=
  if part = f.bytes then .ok f.payload else f.truncated part

end Frame

namespace Source
variable (source : Source UInt8 σ)

def readFormat (f : Format) (stop : Nat → Bool) (b : Buffered UInt8 σ) :
    Except Failure (List UInt8) × Buffered UInt8 σ :=
  match f with
  | .line => source.readLine false stop b
  | .until delimiter chunkSize _ => source.readUntil delimiter chunkSize stop b
  | .exactly totalBytes => source.readExactly totalBytes stop b

/-- At most `n` frames, `got` being read already; it ends when a function throws. -/
def readFrames (next : List (List UInt8) → Format) (stop : Nat → Bool) :
    Nat → List (List UInt8) → Buffered UInt8 σ →
      List (Except Failure (List UInt8)) × Buffered UInt8 σ
  | 0, _, b => ([], b)
  | n + 1, got, b =>
    match source.readFormat (next got) stop b with
    | (.error e, b') => ([.error e], b')
    | (.ok payload, b') =>
      let rest := readFrames next stop n (got ++ [payload]) b'
      (.ok payload :: rest.1, rest.2)

end Source

/-- The frames have the formats that the reader expects. -/
def Follows (next : List (List UInt8) → Format) : List (List UInt8) → List Frame → Prop
  | _, [] => True
  | got, f :: fs => next got = f.format ∧ Follows next (got ++ [f.payload]) fs

/-- Each frame with `write_all`, up to the first that throws; `stop i` is for frame `i`. -/
def writeFrames (sink : Sink UInt8 τ) (stop : Nat → Nat → Bool) :
    Nat → List Frame → τ → Except Failure Unit × τ
  | _, [], t => (.ok (), t)
  | i, f :: fs, t =>
    match writeAll sink f.bytes (stop i) 0 0 t with
    | (.error e, t') => (.error e, t')
    | (.ok _, t') => writeFrames sink stop (i + 1) fs t'

/-! ## One frame -/

section
variable {α : Type} [DecidableEq α] {source : Source α σ}

/-- Up to the first occurrence of the delimiter, or up to the end of the stream. -/
theorem readUntil_first (hs : source.Steady) {d : List α} (hd : d ≠ []) {chunkSize : Nat}
    (hc : 0 < chunkSize) (b : Buffered α σ) :
    ∃ out b', source.readUntil d chunkSize never b = (.ok out, b') ∧
      b.remaining source = out ++ b'.remaining source ∧
      (d <:+ out ∧ (∀ p, At d out p → out.length ≤ p + d.length) ∨
        ¬ d <:+: out ∧ b'.remaining source = []) := by
  obtain ⟨r, b', hloop, hrem, hend⟩ := untilLoop_steady hs [d] hc 0 b
  have hdel := untilLoop_delimited [d] chunkSize 0 never b r (by rw [hloop])
  refine ⟨r.data, b', ?_, hrem, ?_⟩
  · unfold Source.readUntil
    rw [if_neg (by simpa using hd)]
    dsimp only
    rw [hloop]
    rfl
  · cases hm : r.matched with
    | true =>
      have hlisted := List.mem_singleton.mp (List.mem_of_getElem? (hdel.listed hm))
      have hsuffix := hdel.suffix hm
      have hfirst := hdel.earliest hm d List.mem_cons_self
      rw [hlisted] at hsuffix hfirst
      exact .inl ⟨hsuffix, hfirst⟩
    | false => exact .inr ⟨hdel.unmatched hm d List.mem_cons_self, hend hm⟩

end

section
variable {source : Source α σ}

/-- All that is asked for, or all there is. -/
theorem readExactLoop_steady (hs : source.Steady) (n k : Nat) (out : List α) (b : Buffered α σ) :
    ∃ b', source.readExactLoop n never k out b =
        (.ok (out ++ (b.remaining source).take (n - out.length)), b') ∧
      b'.remaining source = (b.remaining source).drop (n - out.length) := by
  induction hm : n - out.length using Nat.strongRecOn generalizing k out b with
  | ind m ih =>
    subst hm
    unfold Source.readExactLoop
    by_cases hlt : out.length < n
    · rw [if_pos hlt, if_neg (by simp [never])]
      by_cases hp : b.pending ≠ []
      · rw [dif_pos hp]
        dsimp only
        generalize hcount : (if b.pending.length < n - out.length then b.pending.length
          else n - out.length) = count
        have hle : count ≤ b.pending.length ∧ count ≤ n - out.length ∧ 0 < count := by
          have := List.length_pos_iff.mpr hp
          split at hcount <;> omega
        have hlen : (b.pending.take count).length = count := List.length_take_of_le hle.1
        obtain ⟨b', hloop, hrem⟩ := ih (n - (out ++ b.pending.take count).length)
          (by rw [List.length_append, hlen]; omega) (k + 1) (out ++ b.pending.take count)
          { b with pending := b.pending.drop count } rfl
        have hrest : ({ b with pending := b.pending.drop count } : Buffered α σ).remaining source =
            (b.remaining source).drop count := by
          unfold Buffered.remaining
          rw [List.drop_append_of_le_length hle.1]
        have htake : b.pending.take count = (b.remaining source).take count := by
          unfold Buffered.remaining
          rw [List.take_append_of_le_length hle.1]
        have hsub : n - (out ++ b.pending.take count).length = n - out.length - count := by
          rw [List.length_append, hlen]
          omega
        rw [hrest, hsub] at hloop hrem
        refine ⟨b', ?_, ?_⟩
        · rw [hloop, htake, List.append_assoc, ← List.take_add, Nat.add_sub_cancel' hle.2.1]
        · rw [hrem, List.drop_drop, Nat.add_sub_cancel' hle.2.1]
      · rw [dif_neg hp]
        have hnil : b.pending = [] := by simpa using hp
        have hall : b.remaining source = source.unread b.stream := by
          unfold Buffered.remaining
          rw [hnil, List.nil_append]
        by_cases hu : source.unread b.stream = []
        · obtain ⟨s, hread⟩ := hs.ends b.stream (n - out.length) hu
          have hs' : source.unread s = [] := (source.delivers hread).symm.trans hu
          rw [hread, hall, hu]
          dsimp only
          rw [dif_pos rfl]
          refine ⟨_, by rw [List.take_nil, List.append_nil], ?_⟩
          unfold Buffered.remaining
          rw [hnil, hs', List.drop_nil, List.nil_append]
        · have hpos : 0 < n - out.length := by omega
          obtain ⟨chunk, s, hread, hne⟩ := hs.gives b.stream hpos hu
          have hsplit := source.delivers hread
          have hbound := source.bounded hread
          have hne₀ := List.length_pos_iff.mpr hne
          rw [hread]
          dsimp only
          rw [dif_neg hne]
          obtain ⟨b', hloop, hrem⟩ := ih (n - (out ++ chunk).length)
            (by rw [List.length_append]; omega) (k + 1) (out ++ chunk) { b with stream := s } rfl
          have hrest : ({ b with stream := s } : Buffered α σ).remaining source =
              source.unread s := by
            unfold Buffered.remaining
            rw [hnil, List.nil_append]
          have hsub : n - (out ++ chunk).length = n - out.length - chunk.length := by
            rw [List.length_append]
            omega
          rw [hrest, hsub] at hloop hrem
          rw [hall, hsplit]
          refine ⟨b', ?_, ?_⟩
          · rw [hloop, List.take_append, List.take_of_length_le hbound, List.append_assoc]
          · rw [hrem, List.drop_append, List.drop_of_length_le hbound, List.nil_append]
    · rw [if_neg hlt]
      have h0 : n - out.length = 0 := by omega
      exact ⟨b, by rw [h0, List.take_zero, List.append_nil], by rw [h0, List.drop_zero]⟩

theorem readExactly_steady (hs : source.Steady) (n : Nat) (b : Buffered α σ) :
    ∃ b', b'.remaining source = (b.remaining source).drop n ∧
      source.readExactly n never b =
        (if (b.remaining source).length < n then
          .error (.runtimeError "read_exactly reached eof before enough bytes were read")
        else .ok ((b.remaining source).take n), b') := by
  obtain ⟨b', hloop, hrem⟩ := readExactLoop_steady hs n 0 [] b
  rw [List.length_nil, Nat.sub_zero] at hloop hrem
  refine ⟨b', hrem, ?_⟩
  unfold Source.readExactly Source.readExact
  rw [hloop]
  dsimp only
  rw [List.nil_append, List.length_take]
  by_cases hlt : (b.remaining source).length < n
  · rw [if_pos hlt, if_pos (by omega)]
  · rw [if_neg hlt, if_neg (by omega)]

end

/-! ## What is read of a frame -/

/-- Up to the first occurrence is up to the one that ends the frame. -/
theorem first_eq_iff [DecidableEq α] {body d rest out tail : List α}
    (hw : body ++ d ++ rest = out ++ tail) (hsuffix : d <:+ out)
    (hfirst : ∀ p, At d out p → out.length ≤ p + d.length) :
    out = body ++ d ↔ ∀ p, At d (body ++ d) p → body.length ≤ p := by
  constructor
  · rintro rfl p hp
    have hle := hfirst p hp
    rw [List.length_append] at hle
    omega
  · intro hreadable
    have hout : out <+: body ++ d ++ rest := ⟨tail, hw.symm⟩
    have hbody : body ++ d <+: body ++ d ++ rest := List.prefix_append _ _
    have hshort : out.length ≤ (body ++ d).length := by
      by_contra hlong
      have hin : body ++ d <+: out :=
        List.prefix_of_prefix_length_le hbody hout (Nat.le_of_lt (by omega))
      obtain ⟨more, hmore⟩ := hin
      have hat : At d (body ++ d) body.length := by
        have h := at_of_suffix (List.prefix_refl (body ++ d)) (List.suffix_append body d)
        rwa [List.length_append, Nat.add_sub_cancel] at h
      have hle := hfirst _ (hmore ▸ hat.append more)
      rw [List.length_append] at hlong
      omega
    have hin := List.prefix_of_prefix_length_le hout hbody hshort
    have hle := hreadable _ (at_of_suffix hin hsuffix)
    have hlen := hsuffix.length_le
    refine hin.eq_of_length_le ?_
    rw [List.length_append]
    omega

theorem at_singleton {c : UInt8} {l : List UInt8} {p : Nat} : At [c] l p ↔ l[p]? = some c := by
  induction l generalizing p with
  | nil => simp [At]
  | cons x l ih =>
    cases p with
    | zero => simp [at_zero, eq_comm]
    | succ p => rw [at_succ, ih, List.getElem?_cons_succ]

theorem first_of_singleton {c : UInt8} {body : List UInt8} :
    (∀ p, At [c] (body ++ [c]) p → body.length ≤ p) ↔ c ∉ body := by
  simp only [at_singleton]
  constructor
  · intro h hc
    obtain ⟨p, hlt, hp⟩ := List.getElem_of_mem hc
    have hle := h p (by rw [List.getElem?_append_left hlt, List.getElem?_eq_getElem hlt, hp])
    omega
  · intro hc p hp
    by_contra hlt
    rw [Nat.not_le] at hlt
    rw [List.getElem?_append_left hlt] at hp
    exact hc (List.mem_of_getElem? hp)

theorem popBack_concat (c : UInt8) (l : List UInt8) : popBack c (l ++ [c]) = l := by
  simp [popBack]

theorem popBack_other {c : UInt8} {l : List UInt8} (h : l.getLast? ≠ some c) :
    popBack c l = l := if_neg h

section
variable {source : Source UInt8 σ} {b : Buffered UInt8 σ} {rest : List UInt8}

theorem readLine_first (hs : source.Steady) (b : Buffered UInt8 σ) :
    ∃ out b', source.readLine false never b =
        (.ok (popBack carriageReturn (popBack lineFeed out)), b') ∧
      b.remaining source = out ++ b'.remaining source ∧
      ((∃ l, out = l ++ [lineFeed] ∧ lineFeed ∉ l) ∨
        lineFeed ∉ out ∧ b'.remaining source = []) := by
  obtain ⟨out, b', hread, hrem, hend⟩ :=
    readUntil_first hs (d := [lineFeed]) (by simp) (by decide : 0 < 4096) b
  refine ⟨out, b', ?_, hrem, ?_⟩
  · unfold Source.readLine
    rw [hread]
    rfl
  · rcases hend with ⟨⟨l, rfl⟩, hfirst⟩ | ⟨hno, hnil⟩
    · refine .inl ⟨l, rfl, first_of_singleton.mp fun p hp => ?_⟩
      have hle := hfirst p hp
      rw [List.length_append] at hle
      omega
    · refine .inr ⟨fun hm => hno ?_, hnil⟩
      obtain ⟨p, hp⟩ := List.getElem?_of_mem hm
      exact infix_iff.mpr ⟨p, at_singleton.mpr hp⟩

/-- The frame `line`. -/
theorem readLine_frame (hs : source.Steady) {text : List UInt8} {eol : Eol}
    (hb : b.remaining source = text ++ eol.bytes ++ rest) :
    ∃ out b', source.readLine false never b = (.ok out, b') ∧
      ((Frame.line text eol).Readable → out = text ∧ b'.remaining source = rest) ∧
      (out = text → (Frame.line text eol).Readable) := by
  obtain ⟨out, b', hread, hrem, hend⟩ := readLine_first hs b
  refine ⟨_, b', hread, ?_⟩
  rw [hb] at hrem
  have hlf : lineFeed ∈ out := by
    rcases hend with ⟨l, rfl, -⟩ | ⟨hno, hnil⟩
    · simp
    · rw [hnil, List.append_nil] at hrem
      rw [← hrem]
      cases eol <;> simp [Eol.bytes]
  obtain ⟨l, rfl, hl⟩ := hend.resolve_right fun h => h.1 hlf
  rw [popBack_concat]
  -- the line feed of the frame is the first one, unless there is one in the text
  have hfirst : lineFeed ∉ text → l ++ [lineFeed] = text ++ eol.bytes ∧
      b'.remaining source = rest := by
    intro hno
    have hbody : ∃ body, text ++ eol.bytes = body ++ [lineFeed] ∧ lineFeed ∉ body := by
      cases eol with
      | lf => exact ⟨text, rfl, hno⟩
      | crlf => exact ⟨text ++ [carriageReturn], by simp [Eol.bytes],
          by simpa [lineFeed, carriageReturn] using hno⟩
    obtain ⟨body, he, hnot⟩ := hbody
    rw [he] at hrem ⊢
    have hsame := (first_eq_iff hrem (List.suffix_append l [lineFeed]) fun p hp => by
      have hle := first_of_singleton.mpr hl p hp
      simpa using hle).mpr (first_of_singleton.mpr hnot)
    rw [hsame] at hrem
    exact ⟨hsame, (List.append_cancel_left hrem).symm⟩
  constructor
  · rintro ⟨hno, hcr⟩
    obtain ⟨hsame, hrest⟩ := hfirst hno
    refine ⟨?_, hrest⟩
    cases eol with
    | lf =>
      have hl : l = text := List.append_cancel_right hsame
      rw [hl]
      exact popBack_other (hcr rfl)
    | crlf =>
      have hassoc : text ++ Eol.crlf.bytes = text ++ [carriageReturn] ++ [lineFeed] := by
        rw [List.append_assoc]
        rfl
      rw [List.append_cancel_right (hsame.trans hassoc), popBack_concat]
  · intro htext
    have hno : lineFeed ∉ text := by
      intro hm
      obtain ⟨cut, hcut, -⟩ := popBack_append carriageReturn l
      rw [htext] at hcut
      exact hl (hcut ▸ List.mem_append_left _ hm)
    refine ⟨hno, fun heol hlast => ?_⟩
    subst heol
    have hsame : l = text := List.append_cancel_right (hfirst hno).1
    rw [hsame] at htext
    have hcut : popBack carriageReturn text = text.dropLast := if_pos hlast
    have hlen := congrArg List.length (hcut.symm.trans htext)
    have hpos := List.length_pos_iff.mpr fun h : text = [] => by simp [h] at hlast
    rw [List.length_dropLast] at hlen
    omega

/-- The frame `delimited`. -/
theorem readUntil_frame (hs : source.Steady) {body d : List UInt8} {chunkSize : Nat}
    (hc : 0 < chunkSize) (hb : b.remaining source = body ++ d ++ rest) :
    ((Frame.delimited body d chunkSize hc).Readable → ∃ b',
        source.readUntil d chunkSize never b = (.ok (body ++ d), b') ∧
        b'.remaining source = rest) ∧
      ((source.readUntil d chunkSize never b).1 = .ok (body ++ d) →
        (Frame.delimited body d chunkSize hc).Readable) := by
  by_cases hd : d = []
  · refine ⟨fun h => absurd hd h.1, fun h => ?_⟩
    unfold Source.readUntil at h
    rw [if_pos (by simp [hd])] at h
    cases h
  · obtain ⟨out, b', hread, hrem, hend⟩ := readUntil_first hs hd hc b
    rw [hb] at hrem
    have hin : d <:+: out ∨ b'.remaining source ≠ [] := by
      by_cases hnil : b'.remaining source = []
      · rw [hnil, List.append_nil] at hrem
        exact .inl ⟨body, rest, hrem⟩
      · exact .inr hnil
    obtain ⟨hsuffix, hfirst⟩ := hend.resolve_right fun h => hin.elim h.1 fun hn => hn h.2
    have hiff := first_eq_iff hrem hsuffix hfirst
    rw [hread]
    refine ⟨fun h => ?_, fun h => ⟨hd, hiff.mp (Except.ok.inj h)⟩⟩
    have hout := hiff.mpr h.2
    rw [hout] at hrem
    exact ⟨b', by rw [hout], (List.append_cancel_left hrem).symm⟩

/-- A frame is read as it was written exactly when its end can be found. -/
theorem readFormat_iff (hs : source.Steady) (f : Frame)
    (hb : b.remaining source = f.bytes ++ rest) :
    (f.Readable → ∃ b', source.readFormat f.format never b = (.ok f.payload, b') ∧
        b'.remaining source = rest) ∧
      ((source.readFormat f.format never b).1 = .ok f.payload → f.Readable) := by
  cases f with
  | line text eol =>
    obtain ⟨out, b', hread, hok, honly⟩ := readLine_frame hs hb
    refine ⟨fun h => ?_, fun h => honly ?_⟩
    · obtain ⟨rfl, hrest⟩ := hok h
      exact ⟨b', hread, hrest⟩
    · change (source.readLine false never b).1 = .ok text at h
      rw [hread] at h
      exact Except.ok.inj h
  | delimited body d chunkSize hc => exact readUntil_frame hs hc hb
  | data bytes =>
    have hb : b.remaining source = bytes ++ rest := hb
    obtain ⟨b', hrem, hread⟩ := readExactly_steady hs bytes.length b
    rw [if_neg (by rw [hb, List.length_append]; omega), hb, List.take_left] at hread
    rw [hb, List.drop_left] at hrem
    exact ⟨fun _ => ⟨b', hread, hrem⟩, fun _ => trivial⟩

end

/-! ## Frame after frame -/

section
variable {source : Source UInt8 σ} {next : List (List UInt8) → Format} {b : Buffered UInt8 σ}
  {rest part : List UInt8} {f : Frame} {frames : List Frame} {got : List (List UInt8)}

/-- What the reader gets when it gets everything. -/
def payloads (frames : List Frame) : List (Except Failure (List UInt8)) :=
  frames.map fun f => .ok f.payload

theorem readFrames_ok {n : Nat} {payload : List UInt8} {b' : Buffered UInt8 σ}
    (h : source.readFormat (next got) never b = (.ok payload, b')) :
    source.readFrames next never (n + 1) got b =
      (.ok payload :: (source.readFrames next never n (got ++ [payload]) b').1,
        (source.readFrames next never n (got ++ [payload]) b').2) := by
  conv_lhs => unfold Source.readFrames
  rw [h]

/-- By induction on the frames: what is left after one is what the next ones are read
from. -/
theorem readFrames_append (hs : source.Steady) (hf : Follows next got frames)
    (hr : ∀ f ∈ frames, f.Readable) (n : Nat)
    (hb : b.remaining source = frames.flatMap Frame.bytes ++ rest) :
    ∃ b', b'.remaining source = rest ∧
      source.readFrames next never (frames.length + n) got b =
        (payloads frames ++ (source.readFrames next never n (got ++ frames.map Frame.payload) b').1,
          (source.readFrames next never n (got ++ frames.map Frame.payload) b').2) := by
  induction frames generalizing got b with
  | nil => exact ⟨b, hb, by simp [payloads]⟩
  | cons f fs ih =>
    obtain ⟨hnext, hf⟩ := hf
    rw [List.flatMap_cons, List.append_assoc] at hb
    obtain ⟨b₁, hread, hrest⟩ := (readFormat_iff hs f hb).1 (hr f List.mem_cons_self)
    obtain ⟨b', hrest', hreads⟩ :=
      ih hf (fun g hg => hr g (List.mem_cons_of_mem _ hg)) hrest
    refine ⟨b', hrest', ?_⟩
    rw [← hnext] at hread
    rw [List.length_cons, Nat.add_right_comm, readFrames_ok hread, hreads, List.map_cons,
      List.append_cons got f.payload (fs.map Frame.payload)]
    rfl

/-- However the stream is split and whatever it goes on with, the reader gets what was
written exactly when every frame ends where the reader looks for its end. -/
theorem frames_round_trip (hs : source.Steady) {stop : Nat → Bool} (hstop : ∀ k, stop k = false)
    (hf : Follows next got frames)
    (hb : b.remaining source = frames.flatMap Frame.bytes ++ rest) :
    (∃ b', source.readFrames next stop frames.length got b = (payloads frames, b') ∧
      b'.remaining source = rest) ↔ ∀ f ∈ frames, f.Readable := by
  have hnever : stop = never := funext hstop
  subst hnever
  constructor
  · rintro ⟨b', hreads, -⟩
    have hread : (source.readFrames next never frames.length got b).1 = payloads frames := by
      rw [hreads]
    clear hreads
    induction frames generalizing got b with
    | nil => simp
    | cons f fs ih =>
      obtain ⟨hnext, hf⟩ := hf
      rw [List.flatMap_cons, List.append_assoc] at hb
      obtain ⟨hok, honly⟩ := readFormat_iff hs f hb
      rw [← hnext] at hok honly
      cases hfirst : source.readFormat (next got) never b with
      | mk r b₁ =>
        cases r with
        | error e =>
          rw [List.length_cons] at hread
          unfold Source.readFrames at hread
          rw [hfirst] at hread
          cases (List.cons.inj hread).1
        | ok payload =>
          rw [List.length_cons, readFrames_ok hfirst] at hread
          obtain ⟨hhead, htail⟩ := List.cons.inj hread
          cases hhead
          have hreadable := honly (by rw [hfirst])
          obtain ⟨b₂, hread₂, hrest⟩ := hok hreadable
          cases hfirst.symm.trans hread₂
          exact List.forall_mem_cons.mpr ⟨hreadable, ih hf hrest htail⟩
  · intro hr
    obtain ⟨b', hrest, hreads⟩ := readFrames_append hs hf hr 0 hb
    refine ⟨b', ?_, hrest⟩
    rw [Nat.add_zero] at hreads
    rw [hreads]
    simp [Source.readFrames]

end

/-- A line, and then as many bytes as it has. -/
def sizedByLine : List (List UInt8) → Format
  | [] => .line
  | header :: _ => .exactly header.length

/-- In pieces that end anywhere. -/
theorem frames_round_trip_sized :
    ∃ b', (chunked : Source UInt8 _).readFrames sizedByLine never 2 []
        { stream := ⟨[[120, 120, 120], [13], [10, 97, 10], [98, 99]], by decide⟩ } =
      (payloads [.line [120, 120, 120] .crlf, .data [97, 10, 98]], b') ∧
      b'.remaining chunked = [99] := by
  have hf : Follows sizedByLine [] [.line [120, 120, 120] .crlf, .data [97, 10, 98]] :=
    ⟨rfl, rfl, trivial⟩
  exact (frames_round_trip chunked_steady (fun _ => rfl) hf rfl).mpr (by
    simp [Frame.Readable, lineFeed])

/-! ## A writer that does not come to its end -/

/-- A write that throws has written some of what it was given. -/
def Sink.Partial (sink : Sink α τ) : Prop :=
  ∀ {t t' : τ} {data : List α} {e : Failure}, sink.writeSome t data = (.error e, t') →
    ∃ p, p <+: data ∧ sink.written t' = sink.written t ++ p

/-- The frames `done` are written, and the `write_all` of `f` throws `e` when a part of it
is written. -/
structure Breaks (sink : Sink UInt8 τ) (stop : Nat → Nat → Bool) (i : Nat) (frames : List Frame)
    (t : τ) (e : Failure) (sent : List UInt8) (done : List Frame) (f : Frame)
    (part : List UInt8) : Prop where
  within : done ++ [f] <+: frames
  cut : part <+: f.bytes
  bytes : sent = done.flatMap Frame.bytes ++ part
  throws : ∃ u, writeFrames sink stop i done t = (.ok (), u) ∧
    writeAll sink f.bytes (stop (i + done.length)) 0 0 u =
      (.error e, (writeFrames sink stop i frames t).2)

/-- A frame more is written before. -/
theorem Breaks.cons {sink : Sink UInt8 τ} {stop : Nat → Nat → Bool} {i : Nat}
    {frames done : List Frame} {t u : τ} {e : Failure} {sent part : List UInt8} {f g : Frame}
    (h : Breaks sink stop (i + 1) frames u e sent done g part) {n : Nat}
    (hf : writeAll sink f.bytes (stop i) 0 0 t = (.ok n, u)) :
    Breaks sink stop i (f :: frames) t e (f.bytes ++ sent) (f :: done) g part := by
  have hrun : ∀ fs, writeFrames sink stop i (f :: fs) t = writeFrames sink stop (i + 1) fs u := by
    intro fs
    rw [writeFrames, hf]
  obtain ⟨v, hdone, hthrows⟩ := h.throws
  refine ⟨by simpa using h.within, h.cut, ?_, v, ?_, ?_⟩
  · rw [h.bytes, List.flatMap_cons, List.append_assoc]
  · rw [hrun, hdone]
  · rw [hrun, List.length_cons, Nat.add_comm done.length 1, ← Nat.add_assoc]
    exact hthrows

/-- All frames are written, or some, and of the next one a part. -/
theorem writeFrames_sent {sink : Sink UInt8 τ} (hp : sink.Partial) (stop : Nat → Nat → Bool)
    (i : Nat) (frames : List Frame) (t : τ) :
    ∃ sent, sink.written (writeFrames sink stop i frames t).2 = sink.written t ++ sent ∧
      ((writeFrames sink stop i frames t).1 = .ok () → sent = frames.flatMap Frame.bytes) ∧
      ∀ e, (writeFrames sink stop i frames t).1 = .error e →
        ∃ done f part, Breaks sink stop i frames t e sent done f part := by
  induction frames generalizing i t with
  | nil => exact ⟨[], by simp [writeFrames], by simp, fun e he => by cases he⟩
  | cons f fs ih =>
    have ht : sink.written t = sink.written t ++ f.bytes.take 0 := by simp
    have hout := writeAll_outcome sink f.bytes (stop i) 0 (Nat.zero_le _) ht
    have hcut : ∀ {part : List UInt8} {e : Failure} {v : τ},
        writeAll sink f.bytes (stop i) 0 0 t = (.error e, v) → part <+: f.bytes →
        sink.written v = sink.written t ++ part →
        ∃ sent, sink.written (writeFrames sink stop i (f :: fs) t).2 = sink.written t ++ sent ∧
          ((writeFrames sink stop i (f :: fs) t).1 = .ok () →
            sent = (f :: fs).flatMap Frame.bytes) ∧
          ∀ e', (writeFrames sink stop i (f :: fs) t).1 = .error e' →
            ∃ done g part, Breaks sink stop i (f :: fs) t e' sent done g part := by
      intro part e v hw hpart hv
      have hrun : writeFrames sink stop i (f :: fs) t = (.error e, v) := by
        rw [writeFrames, hw]
      rw [hrun]
      refine ⟨part, hv, fun h => ?_, fun e' he => ⟨[], f, part, ⟨fs, rfl⟩, hpart, rfl, t, rfl, ?_⟩⟩
      · cases h
      · cases he
        rw [hrun]
        exact hw
    generalize hw : writeAll sink f.bytes (stop i) 0 0 t = r at hout
    cases hout with
    | all hu =>
      rename_i u
      obtain ⟨sent, hsent, hok, herr⟩ := ih (i + 1) u
      have hrun : writeFrames sink stop i (f :: fs) t = writeFrames sink stop (i + 1) fs u := by
        rw [writeFrames, hw]
      rw [hrun]
      refine ⟨f.bytes ++ sent, ?_, fun h => ?_, fun e he => ?_⟩
      · rw [hsent, hu, List.append_assoc]
      · rw [hok h, List.flatMap_cons]
      · obtain ⟨done, g, part, hbreaks⟩ := herr e he
        exact ⟨f :: done, g, part, hbreaks.cons hw⟩
    | cancelled hpre _ hu _ => exact hcut hw hpre hu
    | failed hpre _ hu hfail =>
      obtain ⟨q, hq, hv⟩ := hp hfail
      rw [hu, List.append_assoc] at hv
      refine hcut hw ?_ hv
      obtain ⟨more, hmore⟩ := hpre
      rw [← hmore] at hq ⊢
      rw [List.drop_left] at hq
      exact List.prefix_append_right_inj _ |>.mpr hq
    | stalled hpre _ hu hstall =>
      refine hcut hw hpre ?_
      rw [(sink.accepts hstall).2, List.take_zero, List.append_nil, hu]

section
variable {source : Source UInt8 σ} {next : List (List UInt8) → Format} {b : Buffered UInt8 σ}
  {part : List UInt8} {f : Frame}

/-- No delimiter ends before the frame does. -/
theorem not_infix_of_part {body d : List UInt8} (hpart : part <+: body ++ d)
    (hne : part ≠ body ++ d) (hfirst : ∀ p, At d (body ++ d) p → body.length ≤ p) :
    ¬ d <:+: part := by
  intro hin
  obtain ⟨p, hp⟩ := infix_iff.mp hin
  obtain ⟨more, hmore⟩ := hpart
  have hle := hfirst p (hmore ▸ hp.append more)
  have hlen := hp.length_le
  refine hne (List.IsPrefix.eq_of_length_le ⟨more, hmore⟩ ?_)
  rw [List.length_append]
  omega

/-- The stream ends in the middle of the frame. -/
theorem readFormat_truncated (hs : source.Steady) (hr : f.Readable) (hpart : part <+: f.bytes)
    (hne : part ≠ f.bytes) (hb : b.remaining source = part) :
    (source.readFormat f.format never b).1 = f.truncated part := by
  cases f with
  | line text eol =>
    obtain ⟨out, b', hread, hrem, hend⟩ := readLine_first hs b
    have hno : lineFeed ∉ part := by
      have hbody : ∃ body, text ++ eol.bytes = body ++ [lineFeed] ∧ lineFeed ∉ body := by
        cases eol with
        | lf => exact ⟨text, rfl, hr.1⟩
        | crlf => exact ⟨text ++ [carriageReturn], by simp [Eol.bytes],
            by simpa [lineFeed, carriageReturn] using hr.1⟩
      obtain ⟨body, he, hnot⟩ := hbody
      change part <+: text ++ eol.bytes at hpart
      change part ≠ text ++ eol.bytes at hne
      rw [he] at hpart hne
      have hnin := not_infix_of_part hpart hne (first_of_singleton.mpr hnot)
      intro hm
      obtain ⟨p, hp⟩ := List.getElem?_of_mem hm
      exact hnin (infix_iff.mpr ⟨p, at_singleton.mpr hp⟩)
    rw [hb] at hrem
    have hlf : lineFeed ∉ out := fun hm => hno (hrem ▸ List.mem_append_left _ hm)
    have hunended : ¬ ∃ l, out = l ++ [lineFeed] ∧ lineFeed ∉ l := by
      rintro ⟨l, hl, -⟩
      exact hlf (by simp [hl])
    have hnil := (hend.resolve_left hunended).2
    rw [hnil, List.append_nil] at hrem
    subst hrem
    change (source.readLine false never b).1 = _
    rw [hread, popBack_other fun h => hlf (List.mem_of_getLast? h)]
    rfl
  | delimited body d chunkSize hc =>
    obtain ⟨out, b', hread, hrem, hend⟩ := readUntil_first hs hr.1 hc b
    have hnin := not_infix_of_part hpart hne hr.2
    rw [hb] at hrem
    have hnil := (hend.resolve_left fun h => hnin
      (hrem ▸ h.1.isInfix.trans (List.prefix_append _ _).isInfix)).2
    rw [hnil, List.append_nil] at hrem
    subst hrem
    change (source.readUntil d chunkSize never b).1 = _
    rw [hread]
    rfl
  | data bytes =>
    obtain ⟨b', -, hread⟩ := readExactly_steady hs bytes.length b
    have hlt : part.length < bytes.length :=
      Nat.lt_of_le_of_ne hpart.length_le fun h => hne (hpart.eq_of_length h)
    change (source.readExactly bytes.length never b).1 = _
    rw [hread, hb, if_pos hlt]
    rfl

theorem Follows.split {got : List (List UInt8)} {done more : List Frame}
    (h : Follows next got (done ++ more)) :
    Follows next got done ∧ Follows next (got ++ done.map Frame.payload) more := by
  induction done generalizing got with
  | nil => exact ⟨trivial, by simpa using h⟩
  | cons f fs ih =>
    obtain ⟨hnext, h⟩ := h
    obtain ⟨hfs, hmore⟩ := ih h
    exact ⟨⟨hnext, hfs⟩, by rwa [List.map_cons, List.append_cons]⟩

theorem readFrames_one (got : List (List UInt8)) (b : Buffered UInt8 σ) :
    (source.readFrames next never 1 got b).1 = [(source.readFormat (next got) never b).1] := by
  unfold Source.readFrames
  obtain ⟨r, b'⟩ := source.readFormat (next got) never b
  cases r <;> rfl

/-- What comes of the last frame. -/
theorem readFormat_arrived (hs : source.Steady) (hr : f.Readable) (hpart : part <+: f.bytes)
    (hb : b.remaining source = part) :
    (source.readFormat f.format never b).1 = f.arrived part := by
  unfold Frame.arrived
  by_cases hall : part = f.bytes
  · rw [if_pos hall]
    have hb : b.remaining source = f.bytes ++ [] := by rw [hb, hall, List.append_nil]
    obtain ⟨b', hread, -⟩ := (readFormat_iff hs f hb).1 hr
    rw [hread]
  · rw [if_neg hall]
    exact readFormat_truncated hs hr hpart hall hb

/-- Whatever becomes of the writer and however what it has written is split: it has
written all frames, or those before the one whose `write_all` threw and a part of that
one; and the reader gets these frames, and of the last one what its function makes of the
part that has come before the end of the stream. -/
theorem frames_delivered {sink : Sink UInt8 τ} (hp : sink.Partial) (hs : source.Steady)
    {frames : List Frame} (hf : Follows next [] frames) (hr : ∀ f ∈ frames, f.Readable)
    (stop : Nat → Nat → Bool) (t : τ) :
    ∃ sent, sink.written (writeFrames sink stop 0 frames t).2 = sink.written t ++ sent ∧
      ((writeFrames sink stop 0 frames t).1 = .ok () → sent = frames.flatMap Frame.bytes ∧
        ∀ b : Buffered UInt8 σ, b.remaining source = sent →
          (source.readFrames next never frames.length [] b).1 = payloads frames) ∧
      ∀ e, (writeFrames sink stop 0 frames t).1 = .error e → ∃ done f part,
        Breaks sink stop 0 frames t e sent done f part ∧
          ∀ b : Buffered UInt8 σ, b.remaining source = sent →
            (source.readFrames next never (done.length + 1) [] b).1 =
              payloads done ++ [f.arrived part] := by
  obtain ⟨sent, hsent, hok, herr⟩ := writeFrames_sent hp stop 0 frames t
  refine ⟨sent, hsent, fun h => ⟨hok h, fun b hb => ?_⟩, fun e he => ?_⟩
  · rw [hok h, ← List.append_nil (frames.flatMap Frame.bytes)] at hb
    obtain ⟨b', -, hread⟩ := readFrames_append hs hf hr 0 hb
    rw [Nat.add_zero] at hread
    rw [hread]
    simp [Source.readFrames]
  · obtain ⟨done, f, part, hbreaks⟩ := herr e he
    refine ⟨done, f, part, hbreaks, fun b hb => ?_⟩
    rw [hbreaks.bytes] at hb
    obtain ⟨more, hmore⟩ := hbreaks.within
    rw [← hmore, List.append_assoc] at hf hr
    obtain ⟨hdone, hrest⟩ := hf.split
    obtain ⟨b', hb', hread⟩ :=
      readFrames_append hs hdone (fun g hg => hr g (List.mem_append_left _ hg)) 1 hb
    have hrf : f.Readable := hr f (by simp)
    rw [hread]
    dsimp only
    rw [readFrames_one, hrest.1, readFormat_arrived hs hrf hbreaks.cut hb']

end

/-- `"a\n"` and `"b\r\n"` in writes of two bytes, with a stop before the last one. -/
def stoppedLines : List Frame := [.line [97] .lf, .line [98] .crlf]

theorem stoppedLines_sent :
    writeFrames (listSink 2) (fun i k => decide (i = 1 ∧ k = 1)) 0 stoppedLines [] =
      (.error (.of .operationCancelled), [97, 10, 98, 13]) := by
  simp [stoppedLines, writeFrames, writeAll, Frame.bytes, Eol.bytes, listSink, lineFeed,
    carriageReturn]

theorem frames_delivered_stopped : ∃ done f part,
    Breaks (listSink 2) (fun i k => decide (i = 1 ∧ k = 1)) 0 stoppedLines []
      (.of .operationCancelled) [97, 10, 98, 13] done f part ∧
    ((listSource 0).readFrames (fun _ => .line) never (done.length + 1) []
      { stream := [97, 10, 98, 13] }).1 = payloads done ++ [f.arrived part] := by
  have hp : (listSink 2 : Sink UInt8 (List UInt8)).Partial := by
    intro t t' data e h
    cases h
  have hf : Follows (fun _ => .line) [] stoppedLines := ⟨rfl, rfl, trivial⟩
  obtain ⟨sent, hsent, -, h⟩ := frames_delivered hp (listSource_steady 0) hf
    (by simp [stoppedLines, Frame.Readable, lineFeed, carriageReturn])
    (fun i k => decide (i = 1 ∧ k = 1)) []
  rw [stoppedLines_sent] at hsent h
  obtain rfl : sent = [97, 10, 98, 13] := hsent.symm
  obtain ⟨done, f, part, hbreaks, hread⟩ := h _ rfl
  exact ⟨done, f, part, hbreaks, hread { stream := [97, 10, 98, 13] } rfl⟩

end LuvCoro.Io
