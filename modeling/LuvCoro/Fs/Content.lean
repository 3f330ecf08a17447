import Mathlib.Data.Fintype.EquivFin
import LuvCoro.Lib.Coroutine

/-! # Reading, writing and appending a whole file

Translated from `src/fs.cpp`, with the bytes of the files and with a file system
that may split each transfer. Every call leaves its stop token at the default, so
that nothing is cancelled. -/
namespace LuvCoro.Content

open Coroutine

abbrev Bytes := List UInt8

def UV_ENOENT : Int := -2

inductive Error
  | uvError (code : Int) (op : String)
  | runtimeError (what : String)
  /-- The rounds that the model gives to a loop of the source are used up. -/
  | outOfRounds
  deriving DecidableEq

/-- The flags of `uv_fs_open` that are used here; without `wronly` it is
`UV_FS_O_RDONLY`. -/
structure Flags where
  creat : Bool := false
  trunc : Bool := false
  wronly : Bool := false

inductive Query
  | stat (path : String)
  | openPath (path : String) (flags : Flags) (mode : Nat)
  | read (fd : Int) (len : Nat) (offset : Nat)
  | write (fd : Int) (buf : Bytes) (offset : Nat)
  | close (fd : Int)

/-- `result` is `req.result`; `size` is `st_size`, and `bytes` what a read has put
into its buffer. -/
structure Answer where
  result : Int := 0
  bytes : Bytes := []
  size : Nat := 0
  deriving DecidableEq

/-! ## The file system -/

/-- `opened` has the path that each descriptor was opened with. -/
structure FileSystem where
  content : String → Option Bytes
  opened : List (Int × String) := []

/-- What a file has after `bytes` are written at `offset`; a gap reads as zero. -/
def overlay (data : Bytes) (offset : Nat) (bytes : Bytes) : Bytes :=
  data.take offset ++ List.replicate (offset - data.length) 0 ++ bytes ++
    data.drop (offset + bytes.length)

namespace FileSystem

def path? (s : FileSystem) (fd : Int) : Option String := s.opened.lookup fd

def store (s : FileSystem) (path : String) (data : Bytes) : FileSystem :=
  { s with content := Function.update s.content path (some data) }

/-- What a request that succeeds may answer, and what it leaves: a transfer is
between one byte and all of them, and a read is empty at the end of the file. -/
def grants (s : FileSystem) (a : Answer) : Query → Option FileSystem
  | .stat path => if (s.content path).map List.length = some a.size then some s else none
  | .openPath path flags _ =>
    if s.path? a.result = none ∧ (flags.creat ∨ s.content path ≠ none) then
      let data := if flags.trunc then [] else (s.content path).getD []
      some { s.store path data with opened := (a.result, path) :: s.opened }
    else none
  | .read fd len offset => do
    let path ← s.path? fd
    let rest := ((s.content path).getD []).drop offset
    if a.result = a.bytes.length ∧ a.bytes = rest.take a.bytes.length ∧
        a.bytes.length ≤ len ∧ (a.bytes = [] → rest = [] ∨ len = 0) then some s
    else none
  | .write fd buf offset => do
    let path ← s.path? fd
    if a.result ≤ buf.length ∧ (a.result = 0 → buf = []) then
      some (s.store path (overlay ((s.content path).getD []) offset (buf.take a.result.toNat)))
    else none
  | .close fd => some { s with opened := s.opened.filter fun x => x.1 ≠ fd }

/-- A request that fails changes nothing, and what is there is not reported missing. -/
def serve (s : FileSystem) (q : Query) (a : Answer) : Option FileSystem :=
  if a.result < 0 then
    match q with
    | .stat path => if a.result = UV_ENOENT ∧ s.content path ≠ none then none else some s
    | _ => some s
  else s.grants a q

end FileSystem

/-! ## The requests -/

abbrev Task (α : Type) := Coro Query Answer Error α

/-- `run_fs_request`. -/
def runFsRequest (op : String) (q : Query) : Task Answer := do
  let a ← ask q
  if a.result < 0 then throw (.uvError a.result op) else pure a

/-- The length of a buffer of libuv is an `unsigned int`. -/
def uvBufInit (size : Nat) : Nat := size % 4294967296

/-- `stat_path`. -/
def statPath (path : String) : Task Nat := do
  let a ← runFsRequest "uv_fs_stat" (.stat path)
  pure a.size

def openFileAsync (path : String) (flags : Flags) (mode : Nat) : Task Int := do
  let a ← runFsRequest "uv_fs_open" (.openPath path flags mode)
  pure a.result

def closeFileAsync (fd : Int) : Task Unit := do
  let _ ← runFsRequest "uv_fs_close" (.close fd)
  pure ()

/-- `read_file_async`. -/
def readFileAsync (fd : Int) (maxBytes offset : Nat) : Task Bytes :=
  if maxBytes = 0 then pure []
  else do
    let a ← runFsRequest "uv_fs_read" (.read fd (uvBufInit maxBytes) offset)
    pure a.bytes

/-- `write_file_async_owned`. -/
def writeFileAsync (fd : Int) (data : Bytes) (offset : Nat) : Task Nat :=
  if data = [] then pure 0
  else do
    let a ← runFsRequest "uv_fs_write" (.write fd (data.take (uvBufInit data.length)) offset)
    pure a.result.toNat

/-! ## `file` -/

structure File where
  fd : Int := -1
  offset : Nat := 0

namespace File

def isOpen (f : File) : Bool := decide (0 ≤ f.fd)

def close (f : File) : Task File :=
  if f.isOpen then do
    closeFileAsync f.fd
    pure {}
  else pure f

/-- `close_sync_noexcept`. -/
def closeSync (f : File) : Task Unit :=
  if f.fd < 0 then pure ()
  else do
    let _ ← ask (.close f.fd)
    pure ()

/-- `file::open` of a path. -/
def openPath (f : File) (path : String) (flags : Flags) (mode : Nat) : Task File := do
  let _ ← if f.isOpen then f.close else pure f
  let fd ← openFileAsync path flags mode
  pure { fd := fd }

def readAt (f : File) (maxBytes offset : Nat) : Task Bytes :=
  if f.isOpen then readFileAsync f.fd maxBytes offset
  else throw (.runtimeError "file is not open")

/-- `file::read`. -/
def read (f : File) (maxBytes : Nat) : Task (Bytes × File) := do
  let data ← f.readAt maxBytes f.offset
  pure (data, { f with offset := f.offset + data.length })

/-- The loop of `file::read_all`, for at most so many rounds. -/
def readLoop : Nat → File → Bytes → Task (Bytes × File)
  | 0, _, _ => throw .outOfRounds
  | n + 1, f, out => do
    let (chunk, f) ← f.read (64 * 1024)
    if chunk = [] then pure (out, f) else readLoop n f (out ++ chunk)

def readAll (n : Nat) (f : File) : Task (Bytes × File) := readLoop n f []

def writeAt (f : File) (data : Bytes) (offset : Nat) : Task Nat :=
  if f.isOpen then writeFileAsync f.fd data offset
  else throw (.runtimeError "file is not open")

/-- `file::write`. -/
def write (f : File) (data : Bytes) : Task (Nat × File) := do
  let written ← f.writeAt data f.offset
  pure (written, { f with offset := f.offset + written })

end File

/-! ## `fs` -/

/-- `fs::exists`. -/
def pathExists (path : String) : Task Bool :=
  tryCatch (do let _ ← statPath path; pure true) fun e =>
    match e with
    | .uvError code _ => if code = UV_ENOENT then pure false else throw e
    | _ => throw e

/-- `fs::file_size`. -/
def fileSize (path : String) : Task Nat := statPath path

/-- `fs::read_file`, for at most `n` rounds of its loop. -/
def readFile (n : Nat) (path : String) : Task Bytes := do
  let f ← File.openPath {} path {} 0
  -- a `file` that goes out of scope open is closed by its destructor
  let (content, f) ← unwinding f.closeSync (f.readAll n)
  let _ ← f.close
  pure content

/-- `fs::write_file`. -/
def writeFile (path : String) (data : Bytes) (mode : Nat) : Task Unit := do
  let f ← File.openPath {} path { creat := true, trunc := true, wronly := true } mode
  let (_, f) ← unwinding f.closeSync (f.write data)
  let _ ← f.close
  pure ()

/-- Where `fs::append_file` is going to write. -/
def appendOffset (path : String) : Task Nat := do
  if ← pathExists path then fileSize path else pure 0

/-- `fs::append_file`. -/
def appendFile (path : String) (data : Bytes) (mode : Nat) : Task Unit := do
  let offset ← appendOffset path
  let f ← File.openPath {} path { creat := true, wronly := true } mode
  let _ ← unwinding f.closeSync (f.writeAt data offset)
  let _ ← f.close
  pure ()

end LuvCoro.Content
