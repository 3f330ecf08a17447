import LuvCoro.Io.Exact

/-! # `read_exact` and `read_exact_into` agree

Whatever the short reads, both loops end when they have all the bytes, or at the
end of what there is. -/
namespace LuvCoro.Io

open Content (uvBufInit)

variable {σ : Type}

/-- What a class has to do for its two loops: `Moves x chunk y` says that reading
`chunk` leads from `x` to `y`, and `unread` is what is left to read. A length below
`2 ^ 32` reaches libuv as it is. -/
structure Reader.Delivers (r : Reader σ) (unread : σ → List UInt8)
    (Moves : σ → List UInt8 → σ → Prop) : Prop where
  refl (x : σ) : Moves x [] x
  trans {x y z : σ} {c d : List UInt8} : Moves x c y → Moves y d z → Moves x (c ++ d) z
  left {x y : σ} {c : List UInt8} : Moves x c y → unread x = c ++ unread y
  some (x : σ) {n : Nat} : 0 < n → n < 4294967296 →
    ∃ chunk y, r.readSome n x = (.ok chunk, y) ∧ Moves x chunk y ∧ chunk.length ≤ n ∧
      (chunk = [] → unread x = [])
  into (x : σ) {buffer : List UInt8} : 0 < buffer.length → buffer.length < 4294967296 →
    ∃ chunk y, r.readSomeInto buffer x =
        (.ok chunk.length, chunk ++ buffer.drop chunk.length, y) ∧
      Moves x chunk y ∧ chunk.length ≤ buffer.length ∧ (chunk = [] → unread x = [])

/-- Both ways to read `n` bytes read the same ones, and leave the rest of the
buffer alone. -/
structure Reader.Agrees (r : Reader σ) (unread : σ → List UInt8)
    (Moves : σ → List UInt8 → σ → Prop) (n : Nat) (stop : Nat → Bool) (x : σ) : Prop where
  exact : ∃ y, r.readExact n stop x = (.ok ((unread x).take n), y) ∧
    Moves x ((unread x).take n) y ∧ unread y = (unread x).drop n
  exactInto : ∀ buffer : List UInt8, buffer.length = n →
    ∃ y, r.readExactInto buffer stop x = (.ok (min n (unread x).length),
        (unread x).take n ++ buffer.drop (min n (unread x).length), y) ∧
      Moves x ((unread x).take n) y ∧ unread y = (unread x).drop n

namespace Reader
variable {r : Reader σ} {unread : σ → List UInt8} {Moves : σ → List UInt8 → σ → Prop}
  {stop : Nat → Bool}

/-- By induction on the bytes that are missing. -/
theorem exactLoop_delivers (h : r.Delivers unread Moves) (hs : ∀ k, stop k = false) {total : Nat}
    (ht : total < 4294967296) (k : Nat) {out : List UInt8} (x : σ) (hle : out.length ≤ total) :
    ∃ y, r.exactLoop total stop k out x =
        (.ok (out ++ (unread x).take (total - out.length)), y) ∧
      Moves x ((unread x).take (total - out.length)) y := by
  induction hm : total - out.length using Nat.strongRecOn generalizing k out x with
  | ind m ih =>
    unfold exactLoop
    by_cases hlt : out.length < total
    · rw [if_pos hlt, hs k]
      obtain ⟨chunk, y, hr, hmove, hlen, hend⟩ :=
        h.some x (Nat.sub_pos_of_lt hlt) (by omega : total - out.length < 4294967296)
      rw [hr]
      dsimp only
      by_cases hc : chunk = []
      · rw [if_neg (by simp), dif_pos hc, hend hc, List.take_nil, List.append_nil]
        exact ⟨y, rfl, hc ▸ hmove⟩
      · rw [if_neg (by simp), dif_neg hc]
        have hpos := List.length_pos_iff.mpr hc
        have hlen' : (out ++ chunk).length = out.length + chunk.length := List.length_append
        have hle' : (out ++ chunk).length ≤ total := by omega
        obtain ⟨z, hz, hmz⟩ := ih (total - (out ++ chunk).length) (by omega) (k + 1) y hle' rfl
        have hgot : (unread x).take m = chunk ++ (unread y).take (total - (out ++ chunk).length) := by
          rw [h.left hmove, List.take_append, List.take_of_length_le (by omega), hlen']
          congr 2
          omega
        rw [hgot, ← List.append_assoc]
        exact ⟨z, hz, h.trans hmove hmz⟩
    · rw [if_neg hlt]
      have h0 : m = 0 := by omega
      rw [h0, List.take_zero, List.append_nil]
      exact ⟨x, rfl, h.refl x⟩

theorem exactIntoLoop_delivers (h : r.Delivers unread Moves) (hs : ∀ k, stop k = false)
    {size : Nat} (hsize : size < 4294967296) (k : Nat) {total : Nat} {buffer : List UInt8} (x : σ)
    (hbuf : buffer.length = size) (hle : total ≤ size) :
    ∃ got y, r.exactIntoLoop size stop k total buffer x = (.ok (total + got.length),
        buffer.take total ++ got ++ buffer.drop (total + got.length), y) ∧
      Moves x got y ∧ got = (unread x).take (size - total) := by
  induction hm : size - total using Nat.strongRecOn generalizing k total buffer x with
  | ind m ih =>
    unfold exactIntoLoop
    by_cases hlt : total < size
    · rw [if_pos hlt, hs k]
      have hrest : (buffer.drop total).length = size - total := by rw [List.length_drop, hbuf]
      have hpos : 0 < (buffer.drop total).length := by omega
      obtain ⟨chunk, y, hr, hmove, hlen, hend⟩ := h.into x hpos (by omega)
      rw [hr, List.drop_drop]
      dsimp only
      by_cases hc : chunk = []
      · rw [if_neg (by simp), if_pos (by simp [hc]), hend hc, List.take_nil]
        exact ⟨[], y, by simp [hc], hc ▸ hmove, rfl⟩
      · have hpos := List.length_pos_iff.mpr hc
        rw [if_neg (by simp), if_neg (by omega)]
        -- the buffer once the chunk is in it
        generalize hbuf' : buffer.take total ++ (chunk ++ buffer.drop (total + chunk.length)) = b'
        have htake : b'.take (total + chunk.length) = buffer.take total ++ chunk := by
          have hpre : (buffer.take total ++ chunk).length = total + chunk.length := by
            rw [List.length_append, List.length_take]
            omega
          rw [← hbuf', ← List.append_assoc, ← hpre, List.take_left]
        have hdrop : ∀ g, b'.drop (total + chunk.length + g) =
            buffer.drop (total + chunk.length + g) := by
          intro g
          have hpre : (buffer.take total ++ chunk).length = total + chunk.length := by
            rw [List.length_append, List.length_take]
            omega
          rw [← hbuf', ← List.append_assoc, ← List.drop_drop, ← hpre, List.drop_left, hpre,
            List.drop_drop]
        have hlen' : b'.length = size := by
          rw [← hbuf', List.length_append, List.length_append, List.length_take, List.length_drop]
          omega
        have hle' : total + chunk.length ≤ size := by omega
        obtain ⟨got, z, hz, hmz, hgot⟩ := ih (size - (total + chunk.length)) (by omega) (k + 1)
          y hlen' hle' rfl
        refine ⟨chunk ++ got, z, ?_, h.trans hmove hmz, ?_⟩
        · rw [hz, htake, hdrop, List.length_append, Nat.add_assoc, List.append_assoc,
            List.append_assoc, List.append_assoc, List.append_assoc]
        · rw [h.left hmove, List.take_append, List.take_of_length_le (by omega), hgot]
          congr 2
          omega
    · rw [if_neg hlt]
      have h0 : m = 0 := by omega
      exact ⟨[], x, by simp, h.refl x, by rw [h0, List.take_zero]⟩

theorem Delivers.agrees (h : r.Delivers unread Moves) (hs : ∀ k, stop k = false) {n : Nat}
    (hn : n < 4294967296) (x : σ) : r.Agrees unread Moves n stop x := by
  have hrest : ∀ {y}, Moves x ((unread x).take n) y → unread y = (unread x).drop n := by
    intro y hy
    have hleft := h.left hy
    have hsplit := (List.take_append_drop n (unread x)).trans hleft
    exact (List.append_cancel_left hsplit).symm
  refine ⟨?_, fun buffer hbuf => ?_⟩
  · have hle : ([] : List UInt8).length ≤ n := Nat.zero_le n
    obtain ⟨y, hy, hmove⟩ := exactLoop_delivers h hs hn 0 x hle
    exact ⟨y, hy, hmove, hrest hmove⟩
  · obtain ⟨got, y, hy, hmove, hgot⟩ :=
      exactIntoLoop_delivers h hs hn 0 x hbuf (Nat.zero_le _)
    rw [Nat.sub_zero] at hgot
    have hlen : got.length = min n (unread x).length := by rw [hgot, List.length_take]
    rw [List.take_zero, List.nil_append, Nat.zero_add, hlen, hgot] at hy
    rw [hgot] at hmove
    refine ⟨y, ?_, hmove, hrest hmove⟩
    unfold readExactInto
    rw [hbuf]
    exact hy

end Reader

/-! ## The classes -/

/-- Reading `chunk` from a stream. -/
def Source.Moves (source : Source UInt8 σ) (s : σ) (chunk : List UInt8) (t : σ) : Prop :=
  source.unread s = chunk ++ source.unread t

theorem uvBufInit_of_lt {n : Nat} (h : n < 4294967296) : uvBufInit n = n := Nat.mod_eq_of_lt h

theorem streamReadSomeInto_delivers {source : Source UInt8 σ} (hs : source.Steady) (s : σ)
    {buffer : List UInt8} (hpos : 0 < buffer.length) (hlt : buffer.length < 4294967296) :
    ∃ chunk t, streamReadSomeInto source buffer s =
        (.ok chunk.length, chunk ++ buffer.drop chunk.length, t) ∧
      source.Moves s chunk t ∧ chunk.length ≤ buffer.length ∧
      (chunk = [] → source.unread s = []) := by
  have hne : buffer ≠ [] := List.ne_nil_of_length_pos hpos
  unfold streamReadSomeInto
  rw [if_neg hne, uvBufInit_of_lt hlt]
  by_cases hu : source.unread s = []
  · obtain ⟨t, ht⟩ := hs.ends s buffer.length hu
    rw [ht]
    exact ⟨[], t, rfl, source.delivers ht, Nat.zero_le _, fun _ => hu⟩
  · obtain ⟨chunk, t, ht, hc⟩ := hs.gives s hpos hu
    rw [ht]
    exact ⟨chunk, t, rfl, source.delivers ht, source.bounded ht, fun he => absurd he hc⟩

/-- A class that does not refuse to read. -/
theorem streamReader_delivers {source : Source UInt8 σ} (hs : source.Steady) :
    (streamReader source none).Delivers source.unread source.Moves where
  refl _ := rfl
  trans {x y z c d} h h' := by
    unfold Source.Moves at h h' ⊢
    rw [h, h', List.append_assoc]
  left h := h
  some s n hpos hlt := by
    have hlen : (List.replicate n (0 : UInt8)).length = n := List.length_replicate
    obtain ⟨chunk, t, hr, hmove, hle, hend⟩ :=
      streamReadSomeInto_delivers hs s (hlen.symm ▸ hpos) (hlen.symm ▸ hlt)
    refine ⟨chunk, t, ?_, hmove, by omega, hend⟩
    unfold streamReader streamReadSome
    dsimp only
    rw [if_neg (by omega), hr]
    dsimp only
    rw [List.take_left]
  into s buffer hpos hlt := streamReadSomeInto_delivers hs s hpos hlt

/-- Reading `chunk` from a file moves `tell()` by its length. -/
def Disk.Moves (disk : Disk σ) (x : Positioned σ) (chunk : List UInt8) (y : Positioned σ) : Prop :=
  disk.unread x = chunk ++ disk.unread y ∧ y.offset = x.offset + chunk.length

section
variable {disk : Disk σ} {fd : Int}

theorem readFileAsyncInto_delivers (hd : disk.Steady) (offset : Nat) (s : σ)
    {buffer : List UInt8} (hpos : 0 < buffer.length) (hlt : buffer.length < 4294967296) :
    ∃ chunk t, readFileAsyncInto disk buffer offset s =
        (.ok chunk.length, chunk ++ buffer.drop chunk.length, t) ∧
      chunk <+: disk.content.drop offset ∧ chunk.length ≤ buffer.length ∧
      (chunk = [] → disk.content.drop offset = []) := by
  have hne : buffer ≠ [] := List.ne_nil_of_length_pos hpos
  unfold readFileAsyncInto
  rw [if_neg hne, uvBufInit_of_lt hlt]
  by_cases hu : disk.content.drop offset = []
  · obtain ⟨t, ht⟩ := hd.ends s buffer.length hu
    rw [ht]
    exact ⟨[], t, rfl, disk.delivers ht, Nat.zero_le _, fun _ => hu⟩
  · obtain ⟨chunk, t, ht, hc⟩ := hd.gives s hpos hu
    rw [ht]
    exact ⟨chunk, t, rfl, disk.delivers ht, disk.bounded ht, fun he => absurd he hc⟩

/-- What has been read is what the position moves past. -/
theorem moves_of_prefix {x : Positioned σ} {chunk : List UInt8} {t : σ}
    (h : chunk <+: disk.content.drop x.offset) :
    disk.Moves x chunk { offset := x.offset + chunk.length, disk := t } := by
  refine ⟨?_, rfl⟩
  unfold Disk.unread
  obtain ⟨rest, hrest⟩ := h
  rw [← List.drop_drop, ← hrest, List.drop_left]

theorem fileReader_delivers (hd : disk.Steady) (ho : File.isOpen fd = true) :
    (File.reader disk fd).Delivers disk.unread disk.Moves where
  refl _ := ⟨rfl, rfl⟩
  trans {x y z c d} h h' := by
    obtain ⟨hu, ho⟩ := h
    obtain ⟨hu', ho'⟩ := h'
    refine ⟨by rw [hu, hu', List.append_assoc], ?_⟩
    rw [ho', ho, List.length_append, Nat.add_assoc]
  left h := h.1
  some x n hpos hlt := by
    have hlen : (List.replicate n (0 : UInt8)).length = n := List.length_replicate
    obtain ⟨chunk, t, hr, hpre, hle, hend⟩ :=
      readFileAsyncInto_delivers hd x.offset x.disk (hlen.symm ▸ hpos) (hlen.symm ▸ hlt)
    refine ⟨chunk, _, ?_, moves_of_prefix hpre (t := t), by omega, hend⟩
    unfold File.reader File.readSome File.readAt readFileAsync
    dsimp only
    rw [if_pos ho, if_neg (by omega), hr]
    dsimp only
    rw [List.take_left]
  into x buffer hpos hlt := by
    obtain ⟨chunk, t, hr, hpre, hle, hend⟩ :=
      readFileAsyncInto_delivers hd x.offset x.disk hpos hlt
    refine ⟨chunk, _, ?_, moves_of_prefix hpre (t := t), hle, hend⟩
    unfold File.reader File.readSomeInto File.readAtInto
    dsimp only
    rw [if_pos ho, hr]

/-- By induction on what the file still has. -/
theorem readAllLoop_delivers (hd : disk.Steady) (ho : File.isOpen fd = true) {stop : Nat → Bool}
    (hs : ∀ k, stop k = false) (k : Nat) (out : List UInt8) (x : Positioned σ) :
    ∃ y, File.readAllLoop disk fd stop k out x = (.ok (out ++ disk.unread x), y) ∧
      disk.Moves x (disk.unread x) y := by
  induction hm : (disk.unread x).length using Nat.strongRecOn generalizing k out x with
  | ind m ih =>
    have hdel := fileReader_delivers hd ho
    obtain ⟨chunk, y, hr, hmove, _, hend⟩ :=
      hdel.some x (by decide : 0 < 64 * 1024) (by decide : 64 * 1024 < 4294967296)
    have hread : File.read disk fd (64 * 1024) x = (.ok chunk, y) := hr
    unfold File.readAllLoop
    rw [hs k, if_neg (by simp)]
    generalize File.read disk fd (64 * 1024) x = z at hread
    subst hread
    dsimp only
    by_cases hc : chunk = []
    · rw [dif_pos hc, hend hc, List.append_nil]
      exact ⟨y, rfl, hc ▸ hmove⟩
    · rw [dif_neg hc]
      have hleft := hdel.left hmove
      have hpos := List.length_pos_iff.mpr hc
      have hlen := congrArg List.length hleft
      rw [List.length_append] at hlen
      obtain ⟨z, hz, hmz⟩ := ih _ (by omega) (k + 1) (out ++ chunk) y rfl
      rw [hleft, ← List.append_assoc]
      exact ⟨z, hz, hdel.trans hmove hmz⟩

end

/-- For every size below `2 ^ 32` and every way in which the reads are cut short. -/
theorem read_exact_agrees {σ τ : Type} {source : Source UInt8 σ} (hs : source.Steady)
    {disk : Disk τ} (hd : disk.Steady) {n : Nat} (hn : n < 4294967296) {stop : Nat → Bool}
    (hstop : ∀ k, stop k = false) (s : σ) (x : Positioned τ) :
    (∀ c : TcpClient, c.connected = true → c.hasHandle = true →
      (c.reader source).Agrees source.unread source.Moves n stop s) ∧
    (∀ c : PipeClient, c.connected = true → c.hasHandle = true →
      (c.reader source).Agrees source.unread source.Moves n stop s) ∧
    (∀ c : TtyStream, c.isOpen = true → c.readable = true →
      (c.reader source).Agrees source.unread source.Moves n stop s) ∧
    ∀ fd, File.isOpen fd = true →
      (File.reader disk fd).Agrees disk.unread disk.Moves n stop x ∧
      ∃ y, File.readAll disk fd stop x = (.ok (disk.unread x), y) ∧
        disk.Moves x (disk.unread x) y := by
  have hstream := (streamReader_delivers hs).agrees hstop hn s
  refine ⟨fun c hc hh => ?_, fun c hc hh => ?_, fun c ho hr => ?_, fun fd ho => ⟨?_, ?_⟩⟩
  · unfold TcpClient.reader
    rw [hc, hh]
    exact hstream
  · unfold PipeClient.reader
    rw [hc, hh]
    exact hstream
  · unfold TtyStream.reader
    rw [ho, hr]
    exact hstream
  · exact (fileReader_delivers hd ho).agrees hstop hn x
  · exact readAllLoop_delivers hd ho hstop 0 [] x

/-- A file whose reads return at most `k + 1` bytes. -/
def shortDisk (content : List UInt8) (k : Nat) : Disk Unit where
  content := content
  pread s wanted offset := (.ok ((content.drop offset).take (min wanted (k + 1))), s)
  delivers h := by
    cases h
    exact List.take_prefix _ _
  bounded h := by
    cases h
    rw [List.length_take]
    omega

theorem shortDisk_steady (content : List UInt8) (k : Nat) : (shortDisk content k).Steady where
  gives s wanted offset hw hne := by
    refine ⟨_, _, rfl, ?_⟩
    intro he
    have hlen := congrArg List.length he
    have hpos := List.length_pos_iff.mpr hne
    rw [List.length_take, List.length_nil] at hlen
    change 0 < (content.drop offset).length at hpos
    omega
  ends s wanted offset he := by
    change content.drop offset = [] at he
    exact ⟨s, by simp [shortDisk, he]⟩

/-- Three bytes in two chunks of a stream, and from the third byte of a file. -/
theorem read_exact_agrees_short :
    (({ connected := true, hasHandle := true } : TcpClient).reader chunked).Agrees
        chunked.unread chunked.Moves 3 (fun _ => false) ⟨[[1, 2], [3, 4]], by decide⟩ ∧
      (File.reader (shortDisk [1, 2, 3, 4] 0) 5).Agrees (shortDisk [1, 2, 3, 4] 0).unread
        (shortDisk [1, 2, 3, 4] 0).Moves 3 (fun _ => false) { offset := 2, disk := () } := by
  obtain ⟨htcp, _, _, hfile⟩ := read_exact_agrees chunked_steady
    (shortDisk_steady [1, 2, 3, 4] 0) (by decide : 3 < 4294967296) (fun _ => rfl)
    ⟨[[1, 2], [3, 4]], by decide⟩ { offset := 2, disk := () }
  exact ⟨htcp _ rfl rfl, (hfile 5 rfl).1⟩

end LuvCoro.Io
