import LuvCoro.Lib.FileTree
import LuvCoro.Lib.Stateful

/-! # `fs::remove_all`

Translated from `src/fs.cpp`. The requests are answered as POSIX has them, with
no one else at work on the tree and every permission given; at most `limit`
links are followed in one path. It is called without a stop token. Paths are absolute and
consist of names and `..`: a `.` in them, which only the last component would notice, and a
separator at the end, which asks for a directory there, are left out. -/
namespace LuvCoro.RemoveAll

open Stateful FileTree

/-- A `uv_error`, a `std::filesystem::filesystem_error` or a
`std::runtime_error`. -/
inductive Error
  | uvError (code : Errno)
  | filesystemError (code : Errno)
  | runtimeError (message : String)
  deriving DecidableEq

variable {N C : Type} [DecidableEq N]

abbrev CoroTask (N C α : Type) [DecidableEq N] := Program (Tree N C) Error α

/-- Something is asked of the tree. -/
def ask {α : Type} (f : Tree N C → Except Error α) : CoroTask N C α := ofFn fun t => some (f t, t)

/-- The tree is changed, unless that fails. -/
def change (f : Tree N C → Except Error (Tree N C)) : CoroTask N C Unit := ofFn fun t =>
  match f t with
  | .ok u => some (.ok (), u)
  | .error e => some (.error e, t)

variable (limit : Nat)

/-- `fs::stat`. -/
def stat (path : Path N) : CoroTask N C (Node N C) := ask fun t =>
  ((t.look limit true path).map Prod.snd).mapError .uvError

/-- `fs::exists`. -/
def pathExists (path : Path N) : CoroTask N C Bool :=
  tryCatch (do let _ ← stat limit path; pure true) fun e =>
    if e = .uvError .ENOENT then pure false else throw e

def isDirectory (path : Path N) : CoroTask N C Bool := do
  let status ← stat limit path
  pure status.isDir

def scandirSync (path : Path N) : CoroTask N C (List N) := ask fun t =>
  (t.scandir limit path).mapError .uvError

def removeFile (path : Path N) : CoroTask N C Unit := change fun t =>
  (t.unlink limit path).mapError .uvError

def removeDirectory (path : Path N) : CoroTask N C Unit := change fun t =>
  (t.rmdir limit path).mapError .uvError

def joinPath (base : Path N) (name : N) : Path N := base ++ [.name name]

/-- `std::filesystem::directory_iterator`, to its end. -/
def directoryIterator (path : Path N) : CoroTask N C (List N) := ask fun t =>
  (t.scandir limit path).mapError .filesystemError

/-- `directory_entry::symlink_status`. -/
def symlinkStatus (path : Path N) : CoroTask N C (Node N C) := ask fun t =>
  ((t.look limit false path).map Prod.snd).mapError fun _ =>
    .runtimeError "failed to inspect leftover directory entry"

/-- `std::filesystem::remove`, for which what is not there is no error. -/
def filesystemRemove (path : Path N) : CoroTask N C Unit := change fun t =>
  match t.look limit false path with
  | .error .ENOENT => .ok t
  | .error _ => .error (.runtimeError "failed to remove leftover directory entry")
  | .ok (q, v) =>
    if v.isDir then
      (t.rmdir limit path).mapError fun _ =>
        .runtimeError "failed to remove leftover directory entry"
    else .ok (t.without q)

/-- An entry that is left in a directory that could not be removed. -/
def removeLeftover (removeAll : Path N → CoroTask N C Unit) (path : Path N) (name : N) :
    CoroTask N C Unit := do
  let status ← symlinkStatus limit (joinPath path name)
  if status.isLink || !status.isDir then filesystemRemove limit (joinPath path name)
  else removeAll (joinPath path name)

/-- Whether `remove_directory` has to be tried again. -/
def tryRemoveDirectory (path : Path N) : CoroTask N C Bool :=
  tryCatch (do removeDirectory limit path; pure false) fun e =>
    if e = .uvError .ENOTEMPTY then pure true else throw e

/-- The second try. -/
def removeLeftovers (removeAll : Path N → CoroTask N C Unit) (path : Path N) : CoroTask N C Unit := do
  let leftovers ← directoryIterator limit path
  each (removeLeftover limit removeAll path) leftovers
  removeDirectory limit path

/-- `fs::remove_all`, to a depth of at most `n` calls. -/
def removeAll : Nat → Path N → CoroTask N C Unit
  | 0, _ => stuck
  | n + 1, path => do
    let found ← pathExists limit path
    if !found then pure ()
    else
      let directory ← isDirectory limit path
      if directory then
        let entries ← scandirSync limit path
        each (fun name => removeAll n (joinPath path name)) entries
        let retryRemoveDirectory ← tryRemoveDirectory limit path
        if retryRemoveDirectory then removeLeftovers limit (removeAll n) path else pure ()
      else removeFile limit path

/-! ## What the requests do when they return -/

section
variable {limit : Nat} {t u : Tree N C} {path : Path N} {q : Place N} {v : Node N C}

theorem leads_ask {α : Type} {f : Tree N C → Except Error α} {r : Except Error α} :
    Leads (ask f) t r u ↔ f t = r ∧ u = t := by
  unfold ask
  rw [leads_ofFn]
  constructor
  · intro h
    cases h
    exact ⟨rfl, rfl⟩
  · rintro ⟨rfl, rfl⟩
    rfl

theorem leads_change {f : Tree N C → Except Error (Tree N C)} :
    Leads (change f) t (.ok ()) u ↔ f t = .ok u := by
  unfold change
  rw [leads_ofFn]
  cases f t with
  | ok w =>
    constructor <;> intro h <;> cases h <;> rfl
  | error e =>
    constructor <;> intro h <;> cases h

theorem leads_change_error {f : Tree N C → Except Error (Tree N C)} {e : Error} :
    Leads (change f) t (.error e) u ↔ f t = .error e ∧ u = t := by
  unfold change
  rw [leads_ofFn]
  cases f t with
  | ok w =>
    constructor
    · intro h
      cases h
    · rintro ⟨h, -⟩
      cases h
  | error e' =>
    constructor
    · intro h
      cases h
      exact ⟨rfl, rfl⟩
    · rintro ⟨h, rfl⟩
      cases h
      rfl

theorem mapError_ok {α : Type} {r : Except Errno α} {f : Errno → Error} {a : α} :
    r.mapError f = .ok a ↔ r = .ok a := by
  cases r with
  | ok b => exact ⟨fun h => congrArg Except.ok (Except.ok.inj h), fun h => by cases h; rfl⟩
  | error e => exact ⟨nofun, nofun⟩

theorem mapError_error {α : Type} {r : Except Errno α} {f : Errno → Error} {e : Error} :
    r.mapError f = .error e ↔ ∃ code, r = .error code ∧ e = f code := by
  cases r with
  | ok b => exact ⟨nofun, nofun⟩
  | error code =>
    constructor
    · intro h
      cases h
      exact ⟨code, rfl, rfl⟩
    · rintro ⟨code', hc, rfl⟩
      cases hc
      rfl

omit [DecidableEq N] in
theorem map_snd_ok {r : Except Errno (Place N × Node N C)} :
    r.map Prod.snd = .ok v ↔ ∃ q, r = .ok (q, v) := by
  cases r with
  | error e => exact ⟨nofun, nofun⟩
  | ok x =>
    constructor
    · intro h
      cases h
      exact ⟨x.1, rfl⟩
    · rintro ⟨q, h⟩
      cases h
      rfl

omit [DecidableEq N] in
theorem map_snd_error {r : Except Errno (Place N × Node N C)} {e : Errno} :
    r.map Prod.snd = .error e ↔ r = .error e := by
  cases r with
  | error e' => exact ⟨fun h => congrArg Except.error (Except.error.inj h), fun h => by cases h; rfl⟩
  | ok x => exact ⟨nofun, nofun⟩

theorem leads_stat : Leads (stat limit path) t (.ok v) u ↔
    (∃ q, t.look limit true path = .ok (q, v)) ∧ u = t := by
  unfold stat
  rw [leads_ask, mapError_ok, map_snd_ok]

theorem leads_stat_error {e : Error} : Leads (stat limit path) t (.error e) u ↔
    (∃ code, t.look limit true path = .error code ∧ e = .uvError code) ∧ u = t := by
  unfold stat
  simp only [leads_ask, mapError_error, map_snd_error]

theorem leads_pathExists {found : Bool} : Leads (pathExists limit path) t (.ok found) u ↔
    u = t ∧ (found = true ∧ (∃ q v, t.look limit true path = .ok (q, v)) ∨
      found = false ∧ t.look limit true path = .error .ENOENT) := by
  unfold pathExists
  rw [leads_tryCatch]
  simp only [leads_bind, leads_pure, leads_stat, leads_stat_error]
  constructor
  · rintro (⟨a, he, ⟨v, w, ⟨⟨q, hq⟩, rfl⟩, ha, rfl⟩ | ⟨e, ha, -⟩⟩ | ⟨e, w, hs, hh⟩)
    · cases he
      cases ha
      exact ⟨rfl, .inl ⟨rfl, q, v, hq⟩⟩
    · cases ha
    · rcases hs with ⟨v, x, -, ha, -⟩ | ⟨e', he', ⟨code, hcode, rfl⟩, rfl⟩
      · cases ha
      · cases he'
        split at hh
        · rename_i hc
          cases hc
          obtain ⟨hf, rfl⟩ := leads_pure.mp hh
          cases hf
          exact ⟨rfl, .inr ⟨rfl, hcode⟩⟩
        · obtain ⟨hf, -⟩ := leads_throw.mp hh
          cases hf
  · rintro ⟨rfl, ⟨rfl, q, v, hq⟩ | ⟨rfl, hnone⟩⟩
    · exact .inl ⟨true, rfl, .inl ⟨v, u, ⟨⟨q, hq⟩, rfl⟩, rfl, rfl⟩⟩
    · refine .inr ⟨.uvError .ENOENT, u, .inr ⟨_, rfl, ⟨_, hnone, rfl⟩, rfl⟩, ?_⟩
      rw [if_pos rfl]
      exact leads_pure.mpr ⟨rfl, rfl⟩

theorem leads_isDirectory {directory : Bool} :
    Leads (isDirectory limit path) t (.ok directory) u ↔
      u = t ∧ ∃ q v, t.look limit true path = .ok (q, v) ∧ directory = v.isDir := by
  unfold isDirectory
  rw [leads_bind_ok]
  simp only [leads_pure, leads_stat, Except.ok.injEq]
  constructor
  · rintro ⟨v, w, ⟨⟨q, hq⟩, rfl⟩, hd, rfl⟩
    exact ⟨rfl, q, v, hq, hd⟩
  · rintro ⟨rfl, q, v, hq, hd⟩
    exact ⟨v, u, ⟨⟨q, hq⟩, rfl⟩, hd, rfl⟩

theorem scandir_ok {ns : List N} : t.scandir limit path = .ok ns ↔
    ∃ q, t.look limit true path = .ok (q, .dir) ∧ ns = t.names q := by
  unfold Tree.scandir
  split
  · rename_i e he
    simp [he]
  · rename_i q hq
    simp [hq, eq_comm]
  · rename_i x hne hx
    constructor
    · nofun
    · rintro ⟨r, hr, -⟩
      rw [hr] at hx
      cases hx
      exact absurd rfl (hne _)

theorem leads_scandirSync {ns : List N} : Leads (scandirSync limit path) t (.ok ns) u ↔
    (∃ q, t.look limit true path = .ok (q, .dir) ∧ ns = t.names q) ∧ u = t := by
  unfold scandirSync
  rw [leads_ask, mapError_ok, scandir_ok]

theorem leads_directoryIterator {ns : List N} :
    Leads (directoryIterator limit path) t (.ok ns) u ↔
      (∃ q, t.look limit true path = .ok (q, .dir) ∧ ns = t.names q) ∧ u = t := by
  unfold directoryIterator
  rw [leads_ask, mapError_ok, scandir_ok]

theorem leads_symlinkStatus : Leads (symlinkStatus limit path) t (.ok v) u ↔
    (∃ q, t.look limit false path = .ok (q, v)) ∧ u = t := by
  unfold symlinkStatus
  rw [leads_ask, mapError_ok, map_snd_ok]

theorem leads_removeFile : Leads (removeFile limit path) t (.ok ()) u ↔
    ∃ q v, t.look limit false path = .ok (q, v) ∧ v.isDir = false ∧ u = t.without q := by
  unfold removeFile
  rw [leads_change, mapError_ok]
  unfold Tree.unlink
  split
  · rename_i e he
    simp [he]
  · rename_i q hq
    constructor
    · nofun
    · rintro ⟨r, v, hr, hv, -⟩
      rw [hq] at hr
      cases hr
      cases hv
  · rename_i q v hne hq
    constructor
    · intro h
      cases h
      refine ⟨q, v, hq, ?_, rfl⟩
      cases v with
      | dir => exact absurd rfl hne
      | _ => rfl
    · rintro ⟨r, w, hr, -, rfl⟩
      rw [hq] at hr
      cases hr
      rfl

/-- The path ends with a name. -/
def Named (path : Path N) : Prop := ∃ n, path.getLast? = some (.name n)

theorem rmdir_ok : t.rmdir limit path = .ok u ↔
    ∃ q, t.look limit false path = .ok (q, .dir) ∧ Named path ∧ t.names q = [] ∧
      u = t.without q := by
  unfold Tree.rmdir Named
  split
  · rename_i e he
    simp [he]
  · rename_i q hq
    constructor
    · intro h
      split at h
      · cases h
      · cases h
      · rename_i n hn
        split at h
        · rename_i hnil
          cases h
          exact ⟨q, hq, ⟨n, hn⟩, List.isEmpty_iff.mp hnil, rfl⟩
        · cases h
    · rintro ⟨r, hr, ⟨n, hn⟩, hnil, rfl⟩
      rw [hq] at hr
      cases hr
      rw [hn]
      dsimp only
      rw [hnil]
      rfl
  · rename_i x hne hx
    constructor
    · nofun
    · rintro ⟨r, hr, -⟩
      rw [hr] at hx
      cases hx
      exact absurd rfl (hne _)

theorem leads_removeDirectory : Leads (removeDirectory limit path) t (.ok ()) u ↔
    ∃ q, t.look limit false path = .ok (q, .dir) ∧ Named path ∧ t.names q = [] ∧
      u = t.without q := by
  unfold removeDirectory
  rw [leads_change, mapError_ok, rmdir_ok]

theorem leads_tryRemoveDirectory {retry : Bool} :
    Leads (tryRemoveDirectory limit path) t (.ok retry) u ↔
      retry = false ∧ Leads (removeDirectory limit path) t (.ok ()) u ∨
        retry = true ∧ t.rmdir limit path = .error .ENOTEMPTY ∧ u = t := by
  unfold tryRemoveDirectory
  rw [leads_tryCatch]
  constructor
  · rintro (⟨a, he, ha⟩ | ⟨e, w, hs, hh⟩)
    · obtain ⟨⟨⟩, w, hw, ha⟩ := leads_bind_ok.mp ha
      obtain ⟨ha, rfl⟩ := leads_pure.mp ha
      cases he
      cases ha
      exact .inl ⟨rfl, hw⟩
    · rcases leads_bind.mp hs with ⟨_, x, -, hx⟩ | ⟨e', he, hx⟩
      · cases (leads_pure.mp hx).1
      · cases he
        obtain ⟨hfail, rfl⟩ := leads_change_error.mp hx
        obtain ⟨code, hcode, rfl⟩ := mapError_error.mp hfail
        split at hh
        · rename_i hc
          cases hc
          obtain ⟨hr, rfl⟩ := leads_pure.mp hh
          cases hr
          exact .inr ⟨rfl, hcode, rfl⟩
        · cases (leads_throw.mp hh).1
  · rintro (⟨rfl, h⟩ | ⟨rfl, h, rfl⟩)
    · exact .inl ⟨false, rfl, leads_bind_ok.mpr ⟨(), u, h, leads_pure.mpr ⟨rfl, rfl⟩⟩⟩
    · refine .inr ⟨.uvError .ENOTEMPTY, u, ?_, ?_⟩
      · refine leads_bind.mpr (.inr ⟨_, rfl, leads_change_error.mpr ⟨?_, rfl⟩⟩)
        exact mapError_error.mpr ⟨_, h, rfl⟩
      · rw [if_pos rfl]
        exact leads_pure.mpr ⟨rfl, rfl⟩

/-- What `std::filesystem::remove` takes away is what it looks at. -/
theorem leads_filesystemRemove (h : Leads (filesystemRemove limit path) t (.ok ()) u) :
    u = t ∨ ∃ q v, t.look limit false path = .ok (q, v) ∧ u = t.without q := by
  unfold filesystemRemove at h
  rw [leads_change] at h
  split at h
  · cases h
    exact .inl rfl
  · cases h
  · rename_i q v hq
    split at h
    · obtain ⟨r, hr, -, -, rfl⟩ := rmdir_ok.mp (mapError_ok.mp h)
      exact .inr ⟨r, _, hr, rfl⟩
    · cases h
      exact .inr ⟨q, v, hq, rfl⟩

theorem filesystemRemove_leads (h : t.look limit false path = .ok (q, v)) (hv : v.isDir = false) :
    Leads (filesystemRemove limit path) t (.ok ()) (t.without q) := by
  unfold filesystemRemove
  rw [leads_change, h]
  dsimp only
  rw [hv]
  rfl

end

end LuvCoro.RemoveAll
