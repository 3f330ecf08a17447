import LuvCoro.Lib.MakeDirectory
import LuvCoro.Lib.Stateful

/-! # `fs::create_directories`

Translated from `src/fs.cpp`. The requests are answered as POSIX has them, with
no one else at work on the tree and every permission given. It is called without
a stop token, in the directory `cwd`. -/
namespace LuvCoro.CreateDirectories

open Stateful FileTree

inductive Error (N : Type)
  | uvError (code : MkdirErrno)
  /-- The message ends with the path. -/
  | runtimeError (message : String) (path : FilePath N)
  deriving DecidableEq

variable {N C : Type} [DecidableEq N]

abbrev CoroTask (N C α : Type) [DecidableEq N] := Program (Tree N C) (Error N) α

variable (limit : Nat) (cwd : Place N)

/-- `fs::stat` -/
def stat (path : FilePath N) : CoroTask N C (Node N C) := ofFn fun t =>
  match t.locate limit cwd path with
  | .error e => some (.error (.uvError (.of e)), t)
  | .ok (_, v) => some (.ok v, t)

/-- `fs::exists` -/
def pathExists (path : FilePath N) : CoroTask N C Bool :=
  tryCatch (do let _ ← stat limit cwd path; pure true) fun e =>
    if e = .uvError (.of .ENOENT) then pure false else throw e

def isDirectory (path : FilePath N) : CoroTask N C Bool := do
  let status ← stat limit cwd path
  pure status.isDir

def mkdirPath (path : FilePath N) : CoroTask N C Unit := ofFn fun t =>
  match t.mkdir limit cwd path with
  | .error e => some (.error (.uvError e), t)
  | .ok u => some (.ok (), u)

def createDirectory (path : FilePath N) : CoroTask N C Unit := do
  let alreadyExists ← tryCatch (do mkdirPath limit cwd path; pure false) fun e =>
    if e = .uvError .EEXIST then pure true else throw e
  if alreadyExists then
    let directory ← isDirectory limit cwd path
    if !directory then throw (.runtimeError "path exists but is not a directory: " path)
  else pure ()

/-- `fs::create_directories` -/
def createDirectories (path : FilePath N) : CoroTask N C Unit :=
  let target := path.lexicallyNormal
  if target.isEmpty then pure ()
  else do
    let found ← pathExists limit cwd target
    if found then pure ()
    else
      let parent := target.parentPath
      (if _h : parent.isEmpty = false ∧ parent ≠ target then do
        let parentFound ← pathExists limit cwd parent
        if !parentFound then createDirectories parent else pure ()
      else pure ())
      let nowFound ← pathExists limit cwd target
      if !nowFound then createDirectory limit cwd target else pure ()
termination_by path.lexicallyNormal.size
decreasing_by
  exact Nat.lt_of_le_of_lt (FilePath.size_lexicallyNormal _) (FilePath.size_parentPath _h.2)

/-! ## What the requests do -/

section
variable {limit : Nat} {cwd : Place N} {t u v : Tree N C} {path : FilePath N}

theorem leads_stat {r : Except (Error N) (Node N C)} :
    Leads (stat limit cwd path) t r u ↔ u = t ∧
      ((∃ q x, t.locate limit cwd path = .ok (q, x) ∧ r = .ok x) ∨
        ∃ e, t.locate limit cwd path = .error e ∧ r = .error (.uvError (.of e))) := by
  unfold stat
  rw [leads_ofFn]
  cases t.locate limit cwd path with
  | error e =>
    constructor
    · intro h
      cases h
      exact ⟨rfl, .inr ⟨e, rfl, rfl⟩⟩
    · rintro ⟨rfl, ⟨q, x, hx, _⟩ | ⟨e', he, rfl⟩⟩
      · cases hx
      · cases he
        rfl
  | ok x =>
    obtain ⟨q, x⟩ := x
    constructor
    · intro h
      cases h
      exact ⟨rfl, .inl ⟨q, x, rfl, rfl⟩⟩
    · rintro ⟨rfl, ⟨q', x', hx, rfl⟩ | ⟨e, he, _⟩⟩
      · cases hx
        rfl
      · cases he

theorem leads_pathExists {found : Bool} :
    Leads (pathExists limit cwd path) t (.ok found) u ↔ u = t ∧
      (found = true ∧ (∃ x, t.locate limit cwd path = .ok x) ∨
        found = false ∧ t.locate limit cwd path = .error .ENOENT) := by
  unfold pathExists
  rw [leads_tryCatch]
  simp only [leads_bind, leads_pure, leads_stat]
  constructor
  · rintro (⟨a, ha, ⟨x, w, ⟨rfl, hx⟩, hb, rfl⟩ | ⟨e, he, _⟩⟩ | ⟨e, w, hs, hh⟩)
    · cases ha
      cases hb
      rcases hx with ⟨q, y, hy, _⟩ | ⟨e, _, he⟩
      · exact ⟨rfl, .inl ⟨rfl, _, hy⟩⟩
      · cases he
    · cases he
    · rcases hs with ⟨x, w', _, hb, _⟩ | ⟨e', he', rfl, hx⟩
      · cases hb
      · cases he'
        rcases hx with ⟨q, y, _, hy⟩ | ⟨code, hcode, he⟩
        · cases hy
        · cases he
          split at hh
          · rename_i hc
            cases hc
            obtain ⟨hf, rfl⟩ := leads_pure.mp hh
            cases hf
            exact ⟨rfl, .inr ⟨rfl, hcode⟩⟩
          · obtain ⟨hf, _⟩ := leads_throw.mp hh
            cases hf
  · rintro ⟨rfl, ⟨rfl, ⟨q, x⟩, hx⟩ | ⟨rfl, hnone⟩⟩
    · exact .inl ⟨true, rfl, .inl ⟨x, u, ⟨rfl, .inl ⟨q, x, hx, rfl⟩⟩, rfl, rfl⟩⟩
    · refine .inr ⟨.uvError (.of .ENOENT), u, .inr ⟨_, rfl, rfl, .inr ⟨_, hnone, rfl⟩⟩, ?_⟩
      rw [if_pos rfl]
      exact leads_pure.mpr ⟨rfl, rfl⟩

theorem leads_mkdirPath {r : Except (Error N) Unit} :
    Leads (mkdirPath limit cwd path) t r u ↔
      t.mkdir limit cwd path = .ok u ∧ r = .ok () ∨
        ∃ e, t.mkdir limit cwd path = .error e ∧ r = .error (.uvError e) ∧ u = t := by
  unfold mkdirPath
  rw [leads_ofFn]
  cases t.mkdir limit cwd path with
  | error e =>
    constructor
    · intro h
      cases h
      exact .inr ⟨e, rfl, rfl, rfl⟩
    · rintro (⟨h, _⟩ | ⟨e', he, rfl, rfl⟩)
      · cases h
      · cases he
        rfl
  | ok w =>
    constructor
    · intro h
      cases h
      exact .inl ⟨rfl, rfl⟩
    · rintro (⟨h, rfl⟩ | ⟨e, he, _⟩)
      · cases h
        rfl
      · cases he

/-- Where there is nothing, a directory is made, or the call throws. -/
theorem mkdir_of_createDirectory (hnone : t.locate limit cwd path = .error .ENOENT)
    (h : Leads (createDirectory limit cwd path) t (.ok ()) u) :
    t.mkdir limit cwd path = .ok u := by
  unfold createDirectory at h
  obtain ⟨already, w, htry, hrest⟩ := leads_bind_ok.mp h
  rw [leads_tryCatch] at htry
  rcases htry with ⟨a, ha, hmk⟩ | ⟨e, w', hmk, hh⟩
  · cases ha
    obtain ⟨_, w', hmade, hp⟩ := leads_bind_ok.mp hmk
    obtain ⟨he, rfl⟩ := leads_pure.mp hp
    cases he
    obtain ⟨_, rfl⟩ := leads_pure.mp hrest
    rcases leads_mkdirPath.mp hmade with ⟨hok, _⟩ | ⟨e, _, he, _⟩
    · exact hok
    · cases he
  · have hw : w' = t := by
      rcases leads_bind.mp hmk with ⟨_, w'', _, hp⟩ | ⟨e', _, hmk⟩
      · cases (leads_pure.mp hp).1
      · rcases leads_mkdirPath.mp hmk with ⟨_, he⟩ | ⟨_, _, _, hw⟩
        · cases he
        · exact hw
    subst hw
    split at hh
    · obtain ⟨ha, rfl⟩ := leads_pure.mp hh
      cases ha
      -- `is_directory` finds nothing either
      obtain ⟨directory, w', hdir, _⟩ := leads_bind_ok.mp hrest
      unfold isDirectory at hdir
      obtain ⟨x, w'', hstat, _⟩ := leads_bind_ok.mp hdir
      obtain ⟨_, ⟨q, y, hy, _⟩ | ⟨e, _, he⟩⟩ := leads_stat.mp hstat
      · rw [hnone] at hy
        cases hy
      · cases he
    · cases (leads_throw.mp hh).1

/-- The parent is there, or has been made, or there is none. -/
inductive ParentMade (limit : Nat) (cwd : Place N) (target : FilePath N) (t : Tree N C) :
    Tree N C → Prop
  | absent : ¬ (target.parentPath.isEmpty = false ∧ target.parentPath ≠ target) →
      ParentMade limit cwd target t t
  | found {x : Place N × Node N C} : t.locate limit cwd target.parentPath = .ok x →
      ParentMade limit cwd target t t
  | made {u : Tree N C} : target.parentPath.isEmpty = false → target.parentPath ≠ target →
      t.locate limit cwd target.parentPath = .error .ENOENT →
      Leads (createDirectories limit cwd target.parentPath) t (.ok ()) u →
      ParentMade limit cwd target t u

/-- How a call comes to return. -/
inductive Created (limit : Nat) (cwd : Place N) (target : FilePath N) (t : Tree N C) :
    Tree N C → Prop
  | found {x : Place N × Node N C} : t.locate limit cwd target = .ok x →
      Created limit cwd target t t
  | withParent {u : Tree N C} {x : Place N × Node N C} :
      t.locate limit cwd target = .error .ENOENT → ParentMade limit cwd target t u →
      u.locate limit cwd target = .ok x → Created limit cwd target t u
  | made {v u : Tree N C} : t.locate limit cwd target = .error .ENOENT →
      ParentMade limit cwd target t v → v.locate limit cwd target = .error .ENOENT →
      v.mkdir limit cwd target = .ok u → Created limit cwd target t u

theorem created_of_leads (hne : path.lexicallyNormal.isEmpty = false)
    (h : Leads (createDirectories limit cwd path) t (.ok ()) u) :
    Created limit cwd path.lexicallyNormal t u := by
  rw [createDirectories] at h
  dsimp only at h
  rw [if_neg (by simp [hne])] at h
  obtain ⟨found, w, hfound, h⟩ := leads_bind_ok.mp h
  obtain ⟨rfl, ⟨rfl, x, hx⟩ | ⟨rfl, hnone⟩⟩ := leads_pathExists.mp hfound
  · obtain ⟨_, rfl⟩ := leads_pure.mp h
    exact .found hx
  · rw [if_neg (by simp)] at h
    obtain ⟨_, v, hparent, h⟩ := leads_bind_ok.mp h
    have hmade : ParentMade limit cwd path.lexicallyNormal w v := by
      split at hparent
      · rename_i hp
        obtain ⟨found, w', hfound, hparent⟩ := leads_bind_ok.mp hparent
        obtain ⟨rfl, ⟨rfl, x, hx⟩ | ⟨rfl, hgone⟩⟩ := leads_pathExists.mp hfound
        · obtain ⟨_, rfl⟩ := leads_pure.mp hparent
          exact .found hx
        · exact .made hp.1 hp.2 hgone hparent
      · rename_i hp
        obtain ⟨_, rfl⟩ := leads_pure.mp hparent
        exact .absent hp
    obtain ⟨found, w', hfound, h⟩ := leads_bind_ok.mp h
    obtain ⟨rfl, ⟨rfl, x, hx⟩ | ⟨rfl, hgone⟩⟩ := leads_pathExists.mp hfound
    · obtain ⟨_, rfl⟩ := leads_pure.mp h
      exact .withParent hnone hmade hx
    · exact .made hnone hmade hgone (mkdir_of_createDirectory hgone h)

/-! ## What is made -/

/-- A directory has been made where the path leads to, and no more than what it
takes. -/
structure Made (limit : Nat) (cwd : Place N) (p : FilePath N) (t u : Tree N C) : Prop where
  last : ∃ n, p.elements.getLast? = some (.name n)
  fresh : ∃ q, u.locate limit cwd p = .ok (q, .dir) ∧ t.node q = none
  grown : Tree.Grown t u
  least {w : Tree N C} : Tree.Grown t w → NamesDirectory limit cwd w p → Tree.Grown u w

theorem Made.of_mkdir (hg : Tree.Grown t v)
    (hleast : ∀ {w}, Tree.Grown t w → NamesDirectory limit cwd w path → Tree.Grown v w)
    (h : v.mkdir limit cwd path = .ok u) : Made limit cwd path t u := by
  obtain ⟨n, q, hq, hn, hlast, _, he⟩ := mkdir_ok h
  obtain ⟨r, hr, hnew⟩ := locate_mkdir h
  refine ⟨⟨n, hlast⟩, ⟨r, hr, ?_⟩, ?_, fun hw hp => mkdir_least h (hleast hw hp) hp⟩
  · cases ht : t.node r with
    | none => rfl
    | some x =>
      rw [hg.le _ _ ht] at hnew
      cases hnew
  · rw [he]
    exact hg.trans (Tree.grown_withDir hq hn)

/-- In a directory that has just been made there is nothing but what has been
made. -/
theorem fresh_child {p : FilePath N} {q : Place N} {n : N} {x : Place N × Node N C}
    (hg : Tree.Grown t u) (hpar : u.walk true limit (p.start cwd)
      (p.elements.dropLast.filterMap Element.component) = .ok q)
    (hdir : u.node q = some .dir) (hfresh : t.node q = none)
    (hlast : p.elements.getLast? = some (.name n)) (hx : u.locate limit cwd p = .ok x) :
    ∃ r, u.locate limit cwd p = .ok (r, .dir) ∧ t.node r = none := by
  have hnew : t.node (n :: q) = none := by
    cases hn : t.node (n :: q) with
    | none => rfl
    | some y =>
      have := Tree.node_parent (t := t) (n := n) (q := q) (by simp [hn])
      rw [hfresh] at this
      cases this
  obtain ⟨limit', hgo⟩ := Tree.walk_append true hdir hpar
  have hwalk : u.walk true limit (p.start cwd) p.components =
      u.walk true limit' q [.name n] := by
    rw [components_concat hlast]
    exact hgo [.name n] (by simp)
  cases hn : u.node (n :: q) with
  | none =>
    unfold Tree.locate at hx
    rw [hwalk, Tree.walk_name_none hdir hn] at hx
    cases hx
  | some y =>
    rcases hg.dirs hn with ht | rfl
    · rw [hnew] at ht
      cases ht
    · refine ⟨n :: q, locate_dir.mpr ⟨?_, hn⟩, hnew⟩
      rw [hwalk]
      exact Tree.walk_name hdir hn (.inr rfl)

theorem made_of_created {p : FilePath N} (hp : FilePath.IsNormal p)
    (hnone : t.locate limit cwd p = .error .ENOENT) (h : Created limit cwd p t u) :
    Made limit cwd p t u := by
  induction hm : p.size using Nat.strongRecOn generalizing p u with
  | ind m ih =>
    have hparent : ∀ {v}, ParentMade limit cwd p t v → v = t ∨
        p.parentPath ≠ p ∧ p.parentPath.isEmpty = false ∧ Made limit cwd p.parentPath t v := by
      intro v hv
      cases hv with
      | absent => exact .inl rfl
      | found => exact .inl rfl
      | made hne hself hgone hleads =>
        have hnormal := FilePath.isNormal_parentPath hp hne
        have hsame := FilePath.lexicallyNormal_of_isNormal hnormal
        have hcreated := created_of_leads (by rw [hsame]; exact hne) hleads
        rw [hsame] at hcreated
        exact .inr ⟨hself, hne,
          ih _ (hm ▸ FilePath.size_parentPath hself) hnormal hgone hcreated rfl⟩
    cases h with
    | found hx =>
      rw [hnone] at hx
      cases hx
    | @made v _ _ hpar hgone hmk =>
      rcases hparent hpar with rfl | ⟨_, _, hmade⟩
      · exact .of_mkdir (Tree.Grown.refl _) (fun hw _ => hw) hmk
      · exact .of_mkdir hmade.grown (fun hw hd => hmade.least hw hd.parentPath) hmk
    | withParent _ hpar hx =>
      rcases hparent hpar with rfl | ⟨hself, _, hmade⟩
      · rw [hnone] at hx
        cases hx
      · obtain ⟨q, hq, hfresh⟩ := hmade.fresh
        obtain ⟨hwalk, hdir⟩ := locate_dir.mp hq
        have hels : p.elements ≠ [] := by
          intro he
          exact hself (by unfold FilePath.parentPath; simp [he])
        have hlast : ∃ n, p.elements.getLast? = some (.name n) := by
          obtain ⟨n, hn⟩ := hmade.last
          exact hp.last (FilePath.parentPath_subset (List.mem_of_getLast? hn))
        refine ⟨hlast, ?_, hmade.grown, fun hw hd => hmade.least hw hd.parentPath⟩
        cases htr : p.trailing with
        | true =>
          -- the parent is the path without the separator
          have he : p.parentPath.elements = p.elements := by
            unfold FilePath.parentPath
            simp [htr, hels]
          refine ⟨q, locate_dir.mpr ⟨?_, hdir⟩, hfresh⟩
          have hs : p.parentPath.start cwd = p.start cwd := FilePath.start_parentPath
          unfold FilePath.components at hwalk ⊢
          rw [he, hs] at hwalk
          exact hwalk
        | false =>
          obtain ⟨n, hn⟩ := hlast
          have hs : p.parentPath.start cwd = p.start cwd := FilePath.start_parentPath
          unfold FilePath.components at hwalk
          rw [FilePath.elements_parentPath hels htr, hs] at hwalk
          exact fresh_child hmade.grown hwalk hdir hfresh hn hx

/-! ## Every call -/

theorem runs_stat : Runs (Tree.Grown t) (stat limit cwd path) := by
  constructor
  · intro s
    cases hx : s.locate limit cwd path with
    | error e => exact ⟨_, s, leads_stat.mpr ⟨rfl, .inr ⟨e, hx, rfl⟩⟩⟩
    | ok x => exact ⟨_, s, leads_stat.mpr ⟨rfl, .inl ⟨x.1, x.2, hx, rfl⟩⟩⟩
  · intro s r u hs h
    obtain ⟨rfl, _⟩ := leads_stat.mp h
    exact hs

theorem runs_pathExists : Runs (Tree.Grown t) (pathExists limit cwd path) := by
  refine runs_tryCatch (runs_bind runs_stat fun _ => runs_pure true) ?_
  intro e
  split
  · exact runs_pure false
  · exact runs_throw e

theorem runs_mkdirPath : Runs (Tree.Grown t) (mkdirPath limit cwd path) := by
  constructor
  · intro s
    cases hm : s.mkdir limit cwd path with
    | error e => exact ⟨_, s, leads_mkdirPath.mpr (.inr ⟨e, hm, rfl, rfl⟩)⟩
    | ok u => exact ⟨_, u, leads_mkdirPath.mpr (.inl ⟨hm, rfl⟩)⟩
  · intro s r u hs h
    rcases leads_mkdirPath.mp h with ⟨hm, _⟩ | ⟨_, _, _, rfl⟩
    · obtain ⟨n, q, hq, hn, _, _, rfl⟩ := mkdir_ok hm
      exact hs.trans (Tree.grown_withDir hq hn)
    · exact hs

theorem runs_createDirectory : Runs (Tree.Grown t) (createDirectory limit cwd path) := by
  refine runs_bind (runs_tryCatch (runs_bind runs_mkdirPath fun _ => runs_pure false) ?_) ?_
  · intro e
    split
    · exact runs_pure true
    · exact runs_throw e
  · intro already
    split
    · refine runs_bind (runs_bind runs_stat fun _ => runs_pure _) ?_
      intro directory
      split
      · exact runs_throw _
      · exact runs_pure ()
    · exact runs_pure ()

/-- By induction on the parents. -/
theorem runs_createDirectories : Runs (Tree.Grown t) (createDirectories limit cwd path) := by
  induction hm : path.lexicallyNormal.size using Nat.strongRecOn generalizing path with
  | ind m ih =>
    rw [createDirectories]
    dsimp only
    split
    · exact runs_pure ()
    · refine runs_bind runs_pathExists ?_
      intro found
      split
      · exact runs_pure ()
      · refine runs_bind ?_ ?_
        · split
          · rename_i hp
            refine runs_bind runs_pathExists ?_
            intro parentFound
            split
            · refine ih _ ?_ rfl
              rw [← hm]
              exact Nat.lt_of_le_of_lt (FilePath.size_lexicallyNormal _)
                (FilePath.size_parentPath hp.2)
            · exact runs_pure ()
          · exact runs_pure ()
        · intro _
          refine runs_bind runs_pathExists ?_
          intro nowFound
          split
          · exact runs_createDirectory
          · exact runs_pure ()

end

/-- The path names a directory, and so does every ancestor. -/
def Established (t : Tree N C) (path : FilePath N) : Prop :=
  NamesDirectory limit cwd t path ∧ ∀ k, NamesDirectory limit cwd t (path.upTo k)

/-- The path names a directory already; or its normal form does not name anything
else, and the path names a directory wherever its normal form does. -/
def Clear (t : Tree N C) (path : FilePath N) : Prop :=
  NamesDirectory limit cwd t path ∨
    ¬ NamesOther limit cwd t path.lexicallyNormal ∧
      ∀ w, Tree.Grown t w → NamesDirectory limit cwd w path.lexicallyNormal →
        NamesDirectory limit cwd w path

section
variable {limit : Nat} {cwd : Place N} {t u : Tree N C} {path : FilePath N}

theorem established_iff : Established limit cwd t path ↔ NamesDirectory limit cwd t path :=
  ⟨fun h => h.1, fun h => ⟨h, h.upTo⟩⟩

theorem clear_straight (h : path.Straight) :
    Clear limit cwd t path ↔ ¬ NamesOther limit cwd t path.lexicallyNormal := by
  unfold Clear
  rw [← h.namesDirectory]
  constructor
  · rintro (⟨q, hq⟩ | ⟨hother, _⟩)
    · rintro ⟨r, v, hr, hv⟩
      rw [hq] at hr
      cases hr
      cases hv
    · exact hother
  · intro hother
    exact .inr ⟨hother, fun w _ hw => h.namesDirectory.mp hw⟩

/-- A call that returns has found something, or made what it takes and no more. -/
theorem returned (hne : path.lexicallyNormal.isEmpty = false)
    (h : Leads (createDirectories limit cwd path) t (.ok ()) u) :
    (u = t ∧ ∃ x, t.locate limit cwd path.lexicallyNormal = .ok x) ∨
      t.locate limit cwd path.lexicallyNormal = .error .ENOENT ∧
        Made limit cwd path.lexicallyNormal t u := by
  have hcreated := created_of_leads hne h
  have hnormal : FilePath.IsNormal path.lexicallyNormal := by
    refine FilePath.isNormal_lexicallyNormal ?_
    by_cases hp : path.isEmpty = true
    · unfold FilePath.lexicallyNormal at hne
      rwa [if_pos hp] at hne
    · exact Bool.eq_false_iff.mpr hp
  have hmade (hnone : t.locate limit cwd path.lexicallyNormal = .error .ENOENT) :
      Made limit cwd path.lexicallyNormal t u := made_of_created hnormal hnone hcreated
  cases hcreated with
  | found hx => exact .inl ⟨rfl, _, hx⟩
  | withParent hnone => exact .inr ⟨hnone, hmade hnone⟩
  | made hnone => exact .inr ⟨hnone, hmade hnone⟩

end

theorem create_directories_establishes (path : FilePath N)
    (hne : path.lexicallyNormal.isEmpty = false) (t : Tree N C) :
    (∃ r u, Leads (createDirectories limit cwd path) t r u) ∧
      ∀ r u, Leads (createDirectories limit cwd path) t r u →
        t ≤ u ∧
          (r = .ok () → (Established limit cwd u path ↔ Clear limit cwd t path)) ∧
          (path.Straight → r = .ok () → (Established limit cwd u path ↔
            ¬ NamesOther limit cwd t path.lexicallyNormal)) := by
  have hruns : Runs (Tree.Grown t) (createDirectories limit cwd path) := runs_createDirectories
  refine ⟨hruns.total t, ?_⟩
  intro r u h
  have hgrown : Tree.Grown t u := hruns.keeps t r u (.refl t) h
  have hiff : r = .ok () → (Established limit cwd u path ↔ Clear limit cwd t path) := by
    rintro rfl
    rw [established_iff]
    rcases returned hne h with ⟨rfl, ⟨q, v⟩, hx⟩ | ⟨hnone, hmade⟩
    · constructor
      · exact .inl
      · rintro (hdir | ⟨hother, hall⟩)
        · exact hdir
        · refine hall u hgrown ⟨q, ?_⟩
          cases v with
          | dir => exact hx
          | file c => exact absurd ⟨q, _, hx, rfl⟩ hother
          | link target => exact absurd ⟨q, _, hx, rfl⟩ hother
    · constructor
      · intro hdir
        refine .inr ⟨?_, fun w hw htarget => hdir.mono (hmade.least hw htarget).le⟩
        rintro ⟨q, v, hq, _⟩
        rw [hnone] at hq
        cases hq
      · rintro (hdir | ⟨_, hall⟩)
        · exact hdir.mono hgrown.le
        · obtain ⟨q, hq, _⟩ := hmade.fresh
          exact hall u hgrown ⟨q, hq⟩
  exact ⟨hgrown.le, hiff, fun hs hr => (hiff hr).trans (clear_straight hs)⟩

/-- With nothing but its root. -/
def bare : Tree Nat Unit where
  entries := [([], .dir)]
  nodup := by decide
  root := rfl
  closed := by decide

def withFile : Tree Nat Unit where
  entries := [([0], .file ()), ([], .dir)]
  nodup := by decide
  root := rfl
  closed := by decide

/-- The path `0`. -/
def single : FilePath Nat := { elements := [.name 0] }

/-- The path `1/../0`. -/
def detour : FilePath Nat := { elements := [.name 1, .dotDot, .name 0] }

def bareWithDir : Tree Nat Unit := bare.withDir [] 0 rfl rfl

/-- The path `0/1`. -/
def nested : FilePath Nat := { elements := [.name 0, .name 1] }

def bareWithBoth : Tree Nat Unit := bareWithDir.withDir [0] 1 rfl rfl

/-- Neither of two directories is there yet. -/
theorem create_directories_establishes_nested :
    ∃ u, Leads (createDirectories 40 [] nested) bare (.ok ()) u ∧ Established 40 [] u nested := by
  have hrun : Leads (createDirectories 40 [] nested) bare (.ok ()) bareWithBoth := by
    rw [createDirectories]
    dsimp only
    rw [createDirectories]
    rfl
  refine ⟨bareWithBoth, hrun, ?_⟩
  obtain ⟨_, hall⟩ := create_directories_establishes 40 [] nested (by decide) bare
  have hs : nested.Straight := by simp [FilePath.Straight, nested]
  refine ((hall _ _ hrun).2.2 hs rfl).mpr ?_
  rintro ⟨q, v, hq, _⟩
  cases hq

/-- A file is taken for the directory, and of `1/../0` only `0` is made. -/
theorem create_directories_leaves :
    (∃ u, Leads (createDirectories 40 [] single) withFile (.ok ()) u ∧
      ¬ Established 40 [] u single) ∧
      ∃ u, Leads (createDirectories 40 [] detour) bare (.ok ()) u ∧
        ¬ Established 40 [] u detour := by
  refine ⟨⟨withFile, ?_, ?_⟩, bareWithDir, ?_, ?_⟩
  · rw [createDirectories]
    rfl
  · rintro ⟨⟨q, hq⟩, _⟩
    cases hq
  · rw [createDirectories]
    rfl
  · rintro ⟨⟨q, hq⟩, _⟩
    cases hq

end LuvCoro.CreateDirectories
