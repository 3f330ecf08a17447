import LuvCoro.Io.Agreement
import LuvCoro.Request.System

/-! # Lengths of 64 bits

`uv_buf_init` takes an `unsigned int`, to which the size of the buffer is cast. What
is returned comes from the size itself, and a read of no bytes looks like the end. -/
namespace LuvCoro.Io

open Content (uvBufInit)
open Request (UV_ECANCELED)

/-! ## `stream_write` -/

/-- What libuv and the stop token do to a `stream_write`. -/
structure Writing where
  /-- `stop_requested()`, or the closure of the stop callback comes first. -/
  stopped : Bool := false
  /-- What `uv_write` returns. -/
  rc : Int := 0
  /-- `cancel_requested`, when the write has been started. -/
  cancelRequested : Bool := false
  /-- What the callback is called with, or `UV_ECANCELED` from the stop callback. -/
  writeStatus : Int := 0

/-- `detail::stream_write`: what it returns, and the bytes that `uv_write` has been given. -/
def streamWrite (w : Writing) (data : List UInt8) : Except Failure Nat × List UInt8 :=
  if data = [] then (.ok 0, [])
  else if w.stopped then (.error (.of .operationCancelled), [])
  else
    let buf := data.take (uvBufInit data.length)
    let status := if w.rc < 0 then w.rc else w.writeStatus
    if status = UV_ECANCELED ∨ w.cancelRequested = true ∧ status = 0 then
      (.error (.of .operationCancelled), buf)
    else if status < 0 then (.error (.of (.stream "uv_write")), buf)
    else (.ok data.length, buf)

/-! ## What is asked for -/

/-- A stream that notes the lengths of the reads. -/
def notingSource : Source UInt8 (List Nat) where
  read s wanted := (.ok [], s ++ [wanted])
  unread _ := []
  delivers h := by
    cases h
    rfl
  bounded h := by
    cases h
    exact Nat.zero_le _

/-- An empty file that notes the lengths of the reads. -/
def notingDisk : Disk (List Nat) where
  content := []
  pread s wanted _ := (.ok [], s ++ [wanted])
  delivers h := by
    cases h
    exact List.nil_prefix
  bounded h := by
    cases h
    exact Nat.zero_le _

/-- A buffer of `n` bytes that is written is handed over whole. -/
def WritesAll (n : Nat) : Prop :=
  ∀ (w : Writing) (data : List UInt8), data.length = n →
    (streamWrite w data).1 = .ok n → (streamWrite w data).2.length = n

/-- No read into a buffer of `n` bytes is for no bytes. -/
def AsksForBytes (n : Nat) : Prop :=
  ∀ buffer : List UInt8, buffer.length = n →
    0 ∉ (streamReadSomeInto notingSource buffer []).2.2 ∧
      ∀ fd, 0 ∉ (File.readSomeInto notingDisk fd buffer { disk := [] }).2.2.disk

/-- `read_some_into` of a file returns zero at its end only. -/
def ZeroMeansEnd (n : Nat) : Prop :=
  ∀ (σ : Type) (disk : Disk σ), disk.Steady → ∀ (fd : Int) (x : Positioned σ)
    (buffer : List UInt8), buffer.length = n → buffer ≠ [] →
    (File.readSomeInto disk fd buffer x).1 = .ok 0 → disk.unread x = []

/-- `read_exact` and `read_exact_into` of a file return less at its end only. -/
def StopsAtEnd (n : Nat) : Prop :=
  ∀ (σ : Type) (disk : Disk σ), disk.Steady → ∀ (fd : Int) (x : Positioned σ)
    (stop : Nat → Bool), (∀ k, stop k = false) →
    (∀ out y, (File.reader disk fd).readExact n stop x = (.ok out, y) → out.length < n →
      disk.unread y = []) ∧
    ∀ buffer : List UInt8, buffer.length = n → ∀ total out y,
      (File.reader disk fd).readExactInto buffer stop x = (.ok total, out, y) → total < n →
      disk.unread y = []

/-! ## Where the cast loses nothing -/

theorem uvBufInit_le (n : Nat) : uvBufInit n ≤ n := Nat.mod_le _ _

theorem uvBufInit_lt (n : Nat) : uvBufInit n < 4294967296 := Nat.mod_lt _ (by decide)

theorem streamWrite_buf {w : Writing} (h : w.stopped = false) (data : List UInt8) :
    (streamWrite w data).2 = data.take (uvBufInit data.length) := by
  unfold streamWrite
  by_cases hd : data = []
  · rw [if_pos hd, hd]
    rfl
  rw [if_neg hd, h, if_neg (by simp)]
  dsimp only
  generalize (if w.rc < 0 then w.rc else w.writeStatus) = status
  split
  · rfl
  · split <;> rfl

theorem writesAll_iff (n : Nat) : WritesAll n ↔ n < 4294967296 := by
  constructor
  · intro h
    have hlen : (List.replicate n (0 : UInt8)).length = n := List.length_replicate
    have hok : (streamWrite {} (List.replicate n 0)).1 = .ok n := by
      unfold streamWrite
      by_cases hd : List.replicate n (0 : UInt8) = []
      · rw [if_pos hd, ← hlen, hd]
        rfl
      · rw [if_neg hd]
        exact congrArg Except.ok hlen
    have hall := h {} (List.replicate n 0) hlen hok
    rw [streamWrite_buf rfl, List.length_take, hlen] at hall
    have hlt := uvBufInit_lt n
    omega
  · intro hn w data hlen hok
    cases hs : w.stopped with
    | true =>
      unfold streamWrite at hok ⊢
      by_cases hd : data = []
      · rw [if_pos hd, ← hlen, hd]
      · rw [if_neg hd, hs] at hok
        cases hok
    | false =>
      rw [streamWrite_buf hs, hlen, uvBufInit_of_lt hn, ← hlen, List.take_length]

theorem asksForBytes_iff (n : Nat) : AsksForBytes n ↔ n = 0 ∨ uvBufInit n ≠ 0 := by
  constructor
  · intro h
    rcases Nat.eq_zero_or_pos n with h0 | hpos
    · exact .inl h0
    · refine .inr fun hz => ?_
      have hlen : (List.replicate n (0 : UInt8)).length = n := List.length_replicate
      have hne : List.replicate n (0 : UInt8) ≠ [] := List.ne_nil_of_length_pos (by omega)
      refine (h (List.replicate n 0) hlen).1 ?_
      unfold streamReadSomeInto
      rw [if_neg hne, hlen, hz]
      exact List.mem_singleton_self 0
  · intro h buffer hlen
    by_cases hb : buffer = []
    · subst hb
      refine ⟨by simp [streamReadSomeInto], fun fd => ?_⟩
      unfold File.readSomeInto File.readAtInto
      cases File.isOpen fd <;> exact List.not_mem_nil
    · have hne : uvBufInit buffer.length ≠ 0 := by
        rw [hlen]
        refine h.resolve_left fun h0 => hb ?_
        exact List.length_eq_zero_iff.mp (hlen.trans h0)
      refine ⟨?_, fun fd => ?_⟩
      · unfold streamReadSomeInto
        rw [if_neg hb]
        intro hm
        exact hne (List.mem_singleton.mp hm).symm
      · unfold File.readSomeInto File.readAtInto readFileAsyncInto
        cases File.isOpen fd with
        | false => exact List.not_mem_nil
        | true =>
          rw [if_pos rfl, if_neg hb]
          intro hm
          exact hne (List.mem_singleton.mp hm).symm

/-- A read of a file that is not cut short by the device. -/
theorem readSome_shortDisk (content : List UInt8) {k n : Nat} (x : Positioned Unit) (hpos : 0 < n)
    (hk : n ≤ k) :
    File.readSome (shortDisk content k) 0 n x =
      (.ok ((content.drop x.offset).take (uvBufInit n)),
        { offset := x.offset + ((content.drop x.offset).take (uvBufInit n)).length,
          disk := () }) := by
  have hlen : (List.replicate n (0 : UInt8)).length = n := List.length_replicate
  have hne : List.replicate n (0 : UInt8) ≠ [] := List.ne_nil_of_length_pos (by omega)
  have hmin : min (uvBufInit n) (k + 1) = uvBufInit n := by
    have := uvBufInit_le n
    omega
  unfold File.readSome File.readAt readFileAsync readFileAsyncInto shortDisk
  dsimp only
  rw [if_pos (by decide), if_neg (by omega), if_neg hne, hlen, hmin]
  dsimp only
  rw [List.take_left]

theorem zeroMeansEnd_iff (n : Nat) : ZeroMeansEnd n ↔ n = 0 ∨ uvBufInit n ≠ 0 := by
  constructor
  · intro h
    rcases Nat.eq_zero_or_pos n with h0 | hpos
    · exact .inl h0
    · refine .inr fun hz => ?_
      have hlen : (List.replicate n (0 : UInt8)).length = n := List.length_replicate
      have hne : List.replicate n (0 : UInt8) ≠ [] := List.ne_nil_of_length_pos (by omega)
      have hzero : (File.readSomeInto (shortDisk [0] 0) 0 (List.replicate n 0)
          { disk := () }).1 = .ok 0 := by
        unfold File.readSomeInto File.readAtInto readFileAsyncInto shortDisk
        dsimp only
        rw [if_pos (by decide), if_neg hne, hlen, hz]
        rfl
      have hend := h Unit (shortDisk [0] 0) (shortDisk_steady _ _) 0 { disk := () } _ hlen hne hzero
      cases hend
  · intro h σ disk hd fd x buffer hlen hb hzero
    have hpos : 0 < uvBufInit buffer.length := by
      rw [hlen]
      refine Nat.pos_of_ne_zero (h.resolve_left fun h0 => hb ?_)
      exact List.length_eq_zero_iff.mp (hlen.trans h0)
    by_contra hne
    obtain ⟨chunk, s, hread, hc⟩ := hd.gives x.disk hpos hne
    unfold File.readSomeInto File.readAtInto readFileAsyncInto at hzero
    cases ho : File.isOpen fd with
    | false =>
      rw [ho] at hzero
      cases hzero
    | true =>
      rw [ho, if_pos rfl, if_neg hb, hread] at hzero
      have hz := Except.ok.inj hzero
      exact hc (List.length_eq_zero_iff.mp hz)

/-- A file that is not open is not read from. -/
theorem not_open {σ : Type} {disk : Disk σ} {fd : Int} {n : Nat} {x : Positioned σ}
    {stop : Nat → Bool} (hs : ∀ k, stop k = false) (ho : File.isOpen fd = false) (hpos : 0 < n) :
    (File.reader disk fd).readExact n stop x = (.error (.runtimeError "file is not open"), x) ∧
      ∀ buffer : List UInt8, buffer.length = n →
        ((File.reader disk fd).readExactInto buffer stop x).1 =
          .error (.runtimeError "file is not open") := by
  refine ⟨?_, fun buffer hlen => ?_⟩
  · have hr : (File.reader disk fd).readSome n x = (.error (.runtimeError "file is not open"), x) := by
      unfold File.reader File.readSome File.readAt
      dsimp only
      rw [ho]
      rfl
    unfold Reader.readExact Reader.exactLoop
    rw [List.length_nil, if_pos hpos, Nat.sub_zero, hs 0, if_neg (by simp), hr]
  · have hr : ((File.reader disk fd).readSomeInto buffer x) =
        (.error (.runtimeError "file is not open"), buffer, x) := by
      unfold File.reader File.readSomeInto File.readAtInto
      dsimp only
      rw [ho]
      rfl
    unfold Reader.readExactInto Reader.exactIntoLoop
    rw [if_pos (by omega), hs 0, if_neg (by simp), List.drop_zero, hr]

/-- Where the cast gives zero, a read stops. -/
theorem exactLoop_stops (content : List UInt8) {k total : Nat} {out : List UInt8}
    {x : Positioned Unit} (hlt : out.length < total) (hk : total - out.length ≤ k)
    (hz : uvBufInit (total - out.length) = 0) (round : Nat) :
    (File.reader (shortDisk content k) 0).exactLoop total (fun _ => false) round out x =
      (.ok out, x) := by
  have hr := readSome_shortDisk content x (Nat.sub_pos_of_lt hlt) hk
  rw [hz, List.take_zero] at hr
  have hr' : (File.reader (shortDisk content k) 0).readSome (total - out.length) x = (.ok [], x) := hr
  unfold Reader.exactLoop
  rw [if_pos hlt, if_neg (by simp), hr']
  dsimp only
  rw [dif_pos rfl]

/-- A long read of a long file stops where the cast makes a multiple of `2 ^ 32` zero. -/
theorem stops_short {n : Nat} (hn : 4294967296 ≤ n) :
    ∃ out y, (File.reader (shortDisk (List.replicate n 0) n) 0).readExact n (fun _ => false)
        { disk := () } = (.ok out, y) ∧
      out.length < n ∧ (shortDisk (List.replicate n 0) n).unread y ≠ [] := by
  have hlt := uvBufInit_lt n
  have hle := uvBufInit_le n
  have hunread : ∀ {o : Nat}, o < n → (List.replicate n (0 : UInt8)).drop o ≠ [] := by
    intro o ho he
    have hlen := congrArg List.length he
    rw [List.length_drop, List.length_replicate, List.length_nil] at hlen
    omega
  by_cases hz : uvBufInit n = 0
  · have hpos : 0 < n := by omega
    have hz' : uvBufInit (n - ([] : List UInt8).length) = 0 := hz
    have hstop : (File.reader (shortDisk (List.replicate n 0) n) 0).exactLoop n (fun _ => false)
        0 [] { disk := () } = (.ok [], { disk := () }) :=
      exactLoop_stops _ hpos (Nat.sub_le n _) hz' 0
    exact ⟨[], _, hstop, hpos, hunread hpos⟩
  · -- the first round reads what is above the multiple
    have hfirst := readSome_shortDisk (List.replicate n 0) { disk := () } (by omega : 0 < n)
      (Nat.le_refl n)
    generalize hchunk : ((List.replicate n (0 : UInt8)).drop 0).take (uvBufInit n) = chunk at hfirst
    have hclen : chunk.length = uvBufInit n := by
      rw [← hchunk, List.length_take, List.length_drop, List.length_replicate]
      omega
    have hr : (File.reader (shortDisk (List.replicate n 0) n) 0).readSome n { disk := () } =
        (.ok chunk, { offset := 0 + chunk.length, disk := () }) := hfirst
    have hne : chunk ≠ [] := List.ne_nil_of_length_pos (by omega)
    have hrest : uvBufInit (n - chunk.length) = 0 := by
      rw [hclen]
      unfold uvBufInit
      omega
    have hshort : chunk.length < n := by omega
    have hstop : (File.reader (shortDisk (List.replicate n 0) n) 0).exactLoop n (fun _ => false)
        1 chunk { offset := 0 + chunk.length, disk := () } =
          (.ok chunk, { offset := 0 + chunk.length, disk := () }) :=
      exactLoop_stops _ hshort (Nat.sub_le n _) hrest 1
    have hleft : (List.replicate n (0 : UInt8)).drop (0 + chunk.length) ≠ [] :=
      hunread (by omega)
    refine ⟨chunk, { offset := 0 + chunk.length, disk := () }, ?_, hshort, hleft⟩
    unfold Reader.readExact Reader.exactLoop
    rw [List.length_nil, if_pos (by omega), Nat.sub_zero, if_neg (by simp), hr]
    dsimp only
    rw [dif_neg hne, List.nil_append]
    exact hstop

/-- Less than `n` bytes have been taken only where there are no more. -/
theorem drop_eq_nil_of_take_lt {l : List UInt8} {n : Nat} (h : (l.take n).length < n) :
    l.drop n = [] := by
  rw [List.length_take] at h
  exact List.drop_eq_nil_of_le (by omega)

theorem stopsAtEnd_iff (n : Nat) : StopsAtEnd n ↔ n < 4294967296 := by
  constructor
  · intro h
    by_contra hn
    obtain ⟨out, y, hread, hshort, hleft⟩ := stops_short (Nat.le_of_not_lt hn)
    exact hleft ((h Unit _ (shortDisk_steady _ _) 0 { disk := () } _ fun _ => rfl).1 out y hread hshort)
  · intro hn σ disk hd fd x stop hs
    cases ho : File.isOpen fd with
    | false =>
      refine ⟨fun out y hread hshort => ?_, fun buffer hlen total out y hread hshort => ?_⟩
      · rw [(not_open hs ho (Nat.zero_lt_of_lt hshort)).1] at hread
        cases hread
      · have herr : ((File.reader disk fd).readExactInto buffer stop x).1 =
            .error (.runtimeError "file is not open") :=
          (not_open hs ho (Nat.zero_lt_of_lt hshort)).2 buffer hlen
        rw [hread] at herr
        cases herr
    | true =>
      have hagrees := (fileReader_delivers hd ho).agrees hs hn x
      refine ⟨fun out y hread hshort => ?_, fun buffer hlen total out y hread hshort => ?_⟩
      · obtain ⟨z, hz, _, hrest⟩ := hagrees.exact
        rw [hread] at hz
        cases hz
        rw [hrest]
        exact drop_eq_nil_of_take_lt hshort
      · obtain ⟨z, hz, _, hrest⟩ := hagrees.exactInto buffer hlen
        rw [hread] at hz
        cases hz
        rw [hrest]
        exact List.drop_eq_nil_of_le (by omega)

/-- For every length: what is written is what has been handed over, and no read
is for nothing, up to `2 ^ 32 - 1`; for the reads alone the multiples of `2 ^ 32` are
what fails. -/
theorem lengths_kept_iff (n : Nat) :
    (WritesAll n ∧ AsksForBytes n ∧ ZeroMeansEnd n ∧ StopsAtEnd n ↔ n < 4294967296) ∧
      (WritesAll n ↔ n < 4294967296) ∧ (AsksForBytes n ↔ n = 0 ∨ uvBufInit n ≠ 0) ∧
      (ZeroMeansEnd n ↔ n = 0 ∨ uvBufInit n ≠ 0) ∧ (StopsAtEnd n ↔ n < 4294967296) := by
  refine ⟨?_, writesAll_iff n, asksForBytes_iff n, zeroMeansEnd_iff n, stopsAtEnd_iff n⟩
  rw [writesAll_iff, asksForBytes_iff, zeroMeansEnd_iff, stopsAtEnd_iff]
  constructor
  · intro h
    exact h.1
  · intro hn
    have hread : n = 0 ∨ uvBufInit n ≠ 0 := by
      rw [uvBufInit_of_lt hn]
      exact Nat.eq_zero_or_pos n |>.imp_right Nat.ne_of_gt
    exact ⟨hn, hread, hread, hn⟩

/-- `2 ^ 32` bytes that are written as none, and a read of as many for which libuv is
asked for none, at the start of a file of one byte. -/
theorem lengths_cast_to_zero :
    (∃ data : List UInt8, data.length = 4294967296 ∧ streamWrite {} data = (.ok 4294967296, [])) ∧
      ∃ buffer : List UInt8, buffer.length = 4294967296 ∧
        (File.readSomeInto (shortDisk [0] 0) 0 buffer { disk := () }).1 = .ok 0 ∧
        (shortDisk [0] 0).unread { disk := () } = [0] := by
  have hlen : (List.replicate 4294967296 (0 : UInt8)).length = 4294967296 := List.length_replicate
  have hne : List.replicate 4294967296 (0 : UInt8) ≠ [] :=
    List.ne_nil_of_length_pos (by rw [hlen]; decide)
  have hz : uvBufInit 4294967296 = 0 := by decide
  generalize List.replicate 4294967296 (0 : UInt8) = data at hlen hne
  refine ⟨⟨data, hlen, ?_⟩, data, hlen, ?_, rfl⟩
  · unfold streamWrite
    rw [if_neg hne, if_neg (by simp), hlen, hz]
    rfl
  · unfold File.readSomeInto File.readAtInto readFileAsyncInto shortDisk
    dsimp only
    rw [if_pos (by decide), if_neg hne, hlen, hz]
    rfl

end LuvCoro.Io
