import LuvCoro.Fs.Content
import LuvCoro.Io.Source

/-! # `read_exact`

Translated from `src/fs.cpp`, `src/tcp.cpp`, `src/pipe.cpp`, `src/tty.cpp` and
`src/stream_ops.hpp`. The four classes have the same two loops, one for a string
and one for a buffer, on a `read_some` and a `read_some_into` of their own. A buffer
is handed to libuv with a length of type `unsigned int`. -/
namespace LuvCoro.Io

open Content (uvBufInit)

variable {σ : Type}

/-- `read_some` and `read_some_into` of a class. The latter leaves the buffer. -/
structure Reader (σ : Type) where
  readSome : Nat → σ → Except Failure (List UInt8) × σ
  readSomeInto : List UInt8 → σ → Except Failure Nat × List UInt8 × σ

namespace Reader
variable (r : Reader σ)

/-- The loop of `read_exact`; `stop k` is what the stop token says in round `k`. -/
def exactLoop (totalBytes : Nat) (stop : Nat → Bool) (k : Nat) (out : List UInt8) (x : σ) :
    Except Failure (List UInt8) × σ :=
  if out.length < totalBytes then
    if stop k then (.error (.of .operationCancelled), x)
    else
      match r.readSome (totalBytes - out.length) x with
      | (.error e, y) => (.error e, y)
      | (.ok chunk, y) =>
        if _hc : chunk = [] then (.ok out, y)
        else exactLoop totalBytes stop (k + 1) (out ++ chunk) y
  else (.ok out, x)
termination_by totalBytes - out.length
decreasing_by
  have := List.length_pos_iff.mpr _hc
  rw [List.length_append]
  omega

def readExact (totalBytes : Nat) (stop : Nat → Bool) (x : σ) : Except Failure (List UInt8) × σ :=
  r.exactLoop totalBytes stop 0 [] x

/-- The loop of `read_exact_into`, for a buffer of `size` bytes. -/
def exactIntoLoop (size : Nat) (stop : Nat → Bool) (k total : Nat) (buffer : List UInt8) (x : σ) :
    Except Failure Nat × List UInt8 × σ :=
  if total < size then
    if stop k then (.error (.of .operationCancelled), buffer, x)
    else
      match r.readSomeInto (buffer.drop total) x with
      | (.error e, rest, y) => (.error e, buffer.take total ++ rest, y)
      | (.ok chunk, rest, y) =>
        if chunk = 0 then (.ok total, buffer.take total ++ rest, y)
        else exactIntoLoop size stop (k + 1) (total + chunk) (buffer.take total ++ rest) y
  else (.ok total, buffer, x)
termination_by size - total

def readExactInto (buffer : List UInt8) (stop : Nat → Bool) (x : σ) :
    Except Failure Nat × List UInt8 × σ :=
  r.exactIntoLoop buffer.length stop 0 0 buffer x

end Reader

/-! ## Streams -/

/-- `detail::stream_read_some_into` -/
def streamReadSomeInto (source : Source UInt8 σ) (buffer : List UInt8) (s : σ) :
    Except Failure Nat × List UInt8 × σ :=
  if buffer = [] then (.ok 0, buffer, s)
  else
    match source.read s (uvBufInit buffer.length) with
    | (.error e, s') => (.error e, buffer, s')
    | (.ok chunk, s') => (.ok chunk.length, chunk ++ buffer.drop chunk.length, s')

/-- `detail::stream_read_some` -/
def streamReadSome (source : Source UInt8 σ) (maxBytes : Nat) (s : σ) :
    Except Failure (List UInt8) × σ :=
  if maxBytes = 0 then (.ok [], s)
  else
    match streamReadSomeInto source (List.replicate maxBytes 0) s with
    | (.error e, _, s') => (.error e, s')
    | (.ok nread, out, s') => (.ok (out.take nread), s')

/-- The functions of a class that throws `refuses`, if anything, before it reads. -/
def streamReader (source : Source UInt8 σ) (refuses : Option String) : Reader σ where
  readSome maxBytes s :=
    match refuses with
    | some what => (.error (.runtimeError what), s)
    | none => streamReadSome source maxBytes s
  readSomeInto buffer s :=
    match refuses with
    | some what => (.error (.runtimeError what), buffer, s)
    | none => streamReadSomeInto source buffer s

structure TcpClient where
  connected : Bool := false
  hasHandle : Bool := false

def TcpClient.reader (c : TcpClient) (source : Source UInt8 σ) : Reader σ :=
  streamReader source
    (if !c.connected || !c.hasHandle then some "tcp client is not connected" else none)

structure PipeClient where
  connected : Bool := false
  hasHandle : Bool := false

def PipeClient.reader (c : PipeClient) (source : Source UInt8 σ) : Reader σ :=
  streamReader source
    (if !c.connected || !c.hasHandle then some "pipe client is not connected" else none)

structure TtyStream where
  hasHandle : Bool := false
  readable : Bool := false

def TtyStream.isOpen (c : TtyStream) : Bool := c.hasHandle

def TtyStream.reader (c : TtyStream) (source : Source UInt8 σ) : Reader σ :=
  streamReader source
    (if !c.isOpen then some "tty stream is not open"
      else if !c.readable then some "tty stream was not opened as readable"
      else none)

/-! ## Files -/

/-- `pread` is `uv_fs_read` at an offset. -/
structure Disk (σ : Type) where
  content : List UInt8
  pread : σ → Nat → Nat → Except Failure (List UInt8) × σ
  delivers {s s' : σ} {wanted offset : Nat} {chunk : List UInt8} :
    pread s wanted offset = (.ok chunk, s') → chunk <+: content.drop offset
  bounded {s s' : σ} {wanted offset : Nat} {chunk : List UInt8} :
    pread s wanted offset = (.ok chunk, s') → chunk.length ≤ wanted

/-- Before the end of the file a read of at least one byte returns something. -/
structure Disk.Steady (disk : Disk σ) : Prop where
  gives (s : σ) {wanted offset : Nat} : 0 < wanted → disk.content.drop offset ≠ [] →
    ∃ chunk s', disk.pread s wanted offset = (.ok chunk, s') ∧ chunk ≠ []
  ends (s : σ) (wanted : Nat) {offset : Nat} : disk.content.drop offset = [] →
    ∃ s', disk.pread s wanted offset = (.ok [], s')

/-- A `file` that reads; `offset` is `tell()`. -/
structure Positioned (σ : Type) where
  offset : Nat := 0
  disk : σ

/-- The bytes from the current position on. -/
def Disk.unread (disk : Disk σ) (x : Positioned σ) : List UInt8 := disk.content.drop x.offset

/-- `read_file_async_into` -/
def readFileAsyncInto (disk : Disk σ) (buffer : List UInt8) (offset : Nat) (s : σ) :
    Except Failure Nat × List UInt8 × σ :=
  if buffer = [] then (.ok 0, buffer, s)
  else
    match disk.pread s (uvBufInit buffer.length) offset with
    | (.error e, s') => (.error e, buffer, s')
    | (.ok chunk, s') => (.ok chunk.length, chunk ++ buffer.drop chunk.length, s')

/-- `read_file_async` -/
def readFileAsync (disk : Disk σ) (maxBytes offset : Nat) (s : σ) :
    Except Failure (List UInt8) × σ :=
  if maxBytes = 0 then (.ok [], s)
  else
    match readFileAsyncInto disk (List.replicate maxBytes 0) offset s with
    | (.error e, _, s') => (.error e, s')
    | (.ok size, out, s') => (.ok (out.take size), s')

namespace File

def isOpen (fd : Int) : Bool := decide (0 ≤ fd)

/-- `file::read_at_into` -/
def readAtInto (disk : Disk σ) (fd : Int) (buffer : List UInt8) (offset : Nat) (s : σ) :
    Except Failure Nat × List UInt8 × σ :=
  if isOpen fd then readFileAsyncInto disk buffer offset s
  else (.error (.runtimeError "file is not open"), buffer, s)

/-- `file::read_at` -/
def readAt (disk : Disk σ) (fd : Int) (maxBytes offset : Nat) (s : σ) :
    Except Failure (List UInt8) × σ :=
  if isOpen fd then readFileAsync disk maxBytes offset s
  else (.error (.runtimeError "file is not open"), s)

/-- `file::read_some` -/
def readSome (disk : Disk σ) (fd : Int) (maxBytes : Nat) (x : Positioned σ) :
    Except Failure (List UInt8) × Positioned σ :=
  match readAt disk fd maxBytes x.offset x.disk with
  | (.error e, s) => (.error e, { x with disk := s })
  | (.ok data, s) => (.ok data, { offset := x.offset + data.length, disk := s })

/-- `file::read_some_into` -/
def readSomeInto (disk : Disk σ) (fd : Int) (buffer : List UInt8) (x : Positioned σ) :
    Except Failure Nat × List UInt8 × Positioned σ :=
  match readAtInto disk fd buffer x.offset x.disk with
  | (.error e, out, s) => (.error e, out, { x with disk := s })
  | (.ok size, out, s) => (.ok size, out, { offset := x.offset + size, disk := s })

def reader (disk : Disk σ) (fd : Int) : Reader (Positioned σ) where
  readSome := readSome disk fd
  readSomeInto := readSomeInto disk fd

/-- `file::read` -/
def read (disk : Disk σ) (fd : Int) (maxBytes : Nat) (x : Positioned σ) :
    Except Failure (List UInt8) × Positioned σ :=
  readSome disk fd maxBytes x

theorem readFileAsync_delivers {disk : Disk σ} {maxBytes offset : Nat} {s s' : σ}
    {chunk : List UInt8} (h : readFileAsync disk maxBytes offset s = (.ok chunk, s')) :
    chunk <+: disk.content.drop offset := by
  unfold readFileAsync readFileAsyncInto at h
  split at h
  · cases h
    exact List.nil_prefix
  · rw [if_neg (by simpa using (by assumption : ¬ maxBytes = 0))] at h
    generalize hr : disk.pread s _ offset = r at h
    obtain ⟨r, t⟩ := r
    cases r with
    | error e => cases h
    | ok got =>
      cases h
      rw [List.take_left]
      exact disk.delivers hr

theorem shrinks {disk : Disk σ} {fd : Int} {maxBytes : Nat} {x y : Positioned σ}
    {chunk : List UInt8} (h : read disk fd maxBytes x = (.ok chunk, y)) (hne : chunk ≠ []) :
    disk.content.length - y.offset < disk.content.length - x.offset := by
  unfold read readSome at h
  generalize hr : readAt disk fd maxBytes x.offset x.disk = r at h
  obtain ⟨r, s⟩ := r
  cases r with
  | error e => cases h
  | ok data =>
    cases h
    unfold readAt at hr
    split at hr
    · have hlen := (readFileAsync_delivers hr).length_le
      have hpos := List.length_pos_iff.mpr hne
      rw [List.length_drop] at hlen
      dsimp only
      omega
    · cases hr

/-- The loop of `file::read_all`. -/
def readAllLoop (disk : Disk σ) (fd : Int) (stop : Nat → Bool) (k : Nat) (out : List UInt8)
    (x : Positioned σ) : Except Failure (List UInt8) × Positioned σ :=
  if stop k then (.error (.of .operationCancelled), x)
  else
    match _h : read disk fd (64 * 1024) x with
    | (.error e, y) => (.error e, y)
    | (.ok chunk, y) =>
      if _hc : chunk = [] then (.ok out, y)
      else readAllLoop disk fd stop (k + 1) (out ++ chunk) y
termination_by disk.content.length - x.offset
decreasing_by exact shrinks _h _hc

def readAll (disk : Disk σ) (fd : Int) (stop : Nat → Bool) (x : Positioned σ) :
    Except Failure (List UInt8) × Positioned σ :=
  readAllLoop disk fd stop 0 [] x

end File

end LuvCoro.Io
