import LuvCoro.Lib.FilePath

/-! # Making directories

What paths lead to when they are written with dots and separators, and `mkdir`, as
POSIX has it. A tree grows when directories are made in it. -/
namespace FileTree

variable {N C : Type} [DecidableEq N]

namespace Tree

variable {t u w : Tree N C} {q r : Place N} {n : N} {limit : Nat} {follow : Bool}

/-- With one more directory. -/
def withDir (t : Tree N C) (q : Place N) (n : N) (hq : t.node q = some .dir)
    (hn : t.node (n :: q) = none) : Tree N C where
  entries := (n :: q, .dir) :: t.entries
  nodup := by
    refine List.nodup_cons.mpr ⟨?_, t.nodup⟩
    intro hmem
    obtain ⟨e, he, heq⟩ := List.mem_map.mp hmem
    have hsome := lookup_isSome_of_mem he
    have hnone : t.entries.lookup (n :: q) = none := hn
    rw [heq, hnone] at hsome
    cases hsome
  root := t.root
  closed e he hne := by
    have hlook : ∀ d, t.entries.lookup d = some .dir →
        ((n :: q, Node.dir) :: t.entries).lookup d = some .dir := by
      intro d hd
      rw [List.lookup_cons]
      split
      · rfl
      · exact hd
    rcases List.mem_cons.mp he with rfl | he
    · exact hlook q hq
    · exact hlook _ (t.closed e he hne)

theorem node_withDir {hq : t.node q = some .dir} {hn : t.node (n :: q) = none} (r : Place N) :
    (t.withDir q n hq hn).node r = if r = n :: q then some .dir else t.node r := by
  show ((n :: q, Node.dir) :: t.entries).lookup r = _
  rw [List.lookup_cons]
  by_cases h : r = n :: q
  · rw [if_pos h, h]
    simp
  · rw [if_neg h]
    have hne : (r == n :: q) = false := by simpa using h
    rw [hne]
    rfl

/-- The one tree has all that is in the other, and directories. -/
structure Grown (t u : Tree N C) : Prop where
  le : t ≤ u
  dirs {q : Place N} {v : Node N C} : u.node q = some v → t.node q = some v ∨ v = .dir

theorem Grown.refl (t : Tree N C) : Grown t t := ⟨le_refl t, fun h => .inl h⟩

theorem Grown.trans (h : Grown t u) (h' : Grown u w) : Grown t w := by
  refine ⟨h.le.trans h'.le, ?_⟩
  intro q v hv
  rcases h'.dirs hv with hu | hd
  · exact h.dirs hu
  · exact .inr hd

theorem grown_withDir (hq : t.node q = some .dir) (hn : t.node (n :: q) = none) :
    Grown t (t.withDir q n hq hn) := by
  refine ⟨?_, ?_⟩
  · intro r v hr
    rw [node_withDir, if_neg]
    · exact hr
    · rintro rfl
      rw [hn] at hr
      cases hr
  · intro r v hr
    rw [node_withDir] at hr
    split at hr
    · cases hr
      exact .inr rfl
    · exact .inl hr

/-! ## The way to a place -/

theorem steps_prefix {onLink onLink' : Place N → Path N → Except Errno (Place N)} {d : Component N}
    {ds : Path N} (cs : Path N)
    (hlink : ∀ q cs, onLink q (cs ++ d :: ds) = .ok r →
      ∃ q', onLink' q cs = .ok q' ∧ t.node q' = some .dir)
    (h : t.steps true onLink q (cs ++ d :: ds) = .ok r) :
    ∃ q', t.steps true onLink' q cs = .ok q' ∧ t.node q' = some .dir := by
  induction cs generalizing q with
  | nil => exact ⟨q, rfl, dir_of_steps h⟩
  | cons c cs ih =>
    rw [List.cons_append] at h
    obtain ⟨hq, hstep⟩ := step_cases h
    cases hstep with
    | up hrest =>
      obtain ⟨q', hw, hd⟩ := ih hrest
      exact ⟨q', (Step.up hw).steps hq, hd⟩
    | enter n v hn hv hrest =>
      obtain ⟨q', hw, hd⟩ := ih hrest
      exact ⟨q', (Step.enter n v hn hv hw).steps hq, hd⟩
    | stay n target hn _ hstays => cases hstays
    | link n target hn _ hrest =>
      rw [← List.append_assoc] at hrest
      obtain ⟨q', hw, hd⟩ := hlink _ _ hrest
      exact ⟨q', (Step.link n target hn (by simp) hw).steps hq, hd⟩

/-- A path that can be gone on from leads to a directory. -/
theorem walk_prefix {d : Component N} {ds : Path N} (cs : Path N)
    (h : t.walk true limit q (cs ++ d :: ds) = .ok r) :
    ∃ q', t.walk true limit q cs = .ok q' ∧ t.node q' = some .dir := by
  induction limit generalizing q cs with
  | zero => exact steps_prefix cs (by simp) h
  | succ limit ih => exact steps_prefix cs (fun _ cs he => ih cs he) h

theorem walk_up_root (cs : Path N) :
    t.walk follow limit [] (.up :: cs) = t.walk follow limit [] cs := by
  cases limit <;> exact steps_up t.root

end Tree

/-! ## Paths as they are written -/

def Element.component : Element N → Option (Component N)
  | .name n => some (.name n)
  | .dot => none
  | .dotDot => some .up

namespace FilePath

def components (p : FilePath N) : Path N := p.elements.filterMap Element.component

/-- A separator at the end, or a dot, is for a directory. -/
def endsInDirectory (p : FilePath N) : Bool :=
  p.trailing || match p.elements.getLast? with
    | some .dot => true
    | _ => false

/-- Where the path leads from: the root, or the directory one is in. -/
def start (p : FilePath N) (cwd : Place N) : Place N := if p.absolute then [] else cwd

omit [DecidableEq N] in
theorem start_parentPath {p : FilePath N} {cwd : Place N} :
    p.parentPath.start cwd = p.start cwd := by
  unfold parentPath
  split
  · rfl
  · split <;> rfl

end FilePath

variable (limit : Nat) (cwd : Place N)

/-- The place that a path leads to, and what is there. -/
def Tree.locate (t : Tree N C) (p : FilePath N) : Except Errno (Place N × Node N C) :=
  match t.walk true limit (p.start cwd) p.components with
  | .error e => .error e
  | .ok q =>
    match t.node q with
    | none => .error .ENOENT
    | some v => if p.endsInDirectory && !v.isDir then .error .ENOTDIR else .ok (q, v)

inductive MkdirErrno
  | EEXIST
  | of (e : Errno)
  deriving DecidableEq

/-- A link at the end is not followed. -/
def Tree.mkdir (t : Tree N C) (p : FilePath N) : Except MkdirErrno (Tree N C) :=
  match p.elements.getLast? with
  | some (.name n) =>
    match t.walk true limit (p.start cwd) (p.elements.dropLast.filterMap Element.component) with
    | .error e => .error (.of e)
    | .ok q =>
      match hq : t.node q, hn : t.node (n :: q) with
      | none, _ => .error (.of .ENOENT)
      | some .dir, none => .ok (t.withDir q n hq hn)
      | some .dir, some _ => .error .EEXIST
      | some _, _ => .error (.of .ENOTDIR)
  | _ =>
    match t.locate limit cwd p with
    | .error e => .error (.of e)
    | .ok _ => .error .EEXIST

def NamesDirectory (t : Tree N C) (p : FilePath N) : Prop :=
  ∃ q, t.locate limit cwd p = .ok (q, .dir)

def NamesOther (t : Tree N C) (p : FilePath N) : Prop :=
  ∃ q v, t.locate limit cwd p = .ok (q, v) ∧ v.isDir = false

section
variable {limit : Nat} {cwd : Place N} {t u w : Tree N C} {p : FilePath N} {q : Place N}

theorem locate_dir : t.locate limit cwd p = .ok (q, .dir) ↔
    t.walk true limit (p.start cwd) p.components = .ok q ∧ t.node q = some .dir := by
  unfold Tree.locate
  constructor
  · intro h
    split at h
    · cases h
    · rename_i r hr
      split at h
      · cases h
      · rename_i v hv
        split at h
        · cases h
        · cases h
          exact ⟨hr, hv⟩
  · rintro ⟨hr, hv⟩
    rw [hr]
    dsimp only
    rw [hv]
    simp [Node.isDir]

theorem NamesDirectory.mono (h : NamesDirectory limit cwd t p) (hle : t ≤ u) :
    NamesDirectory limit cwd u p := by
  obtain ⟨q, hq⟩ := h
  obtain ⟨hw, hd⟩ := locate_dir.mp hq
  exact ⟨q, locate_dir.mpr ⟨Tree.walk_mono hle hw, hle _ _ hd⟩⟩

omit [DecidableEq N] in
theorem components_concat {n : N} (h : p.elements.getLast? = some (.name n)) :
    p.components = p.elements.dropLast.filterMap Element.component ++ [.name n] := by
  obtain ⟨init, he⟩ := List.getLast?_eq_some_iff.mp h
  unfold FilePath.components
  rw [he, List.dropLast_concat, List.filterMap_append]
  rfl

/-- What `mkdir` makes. -/
theorem mkdir_ok (h : t.mkdir limit cwd p = .ok u) :
    ∃ n q, ∃ hq : t.node q = some .dir, ∃ hn : t.node (n :: q) = none,
      p.elements.getLast? = some (.name n) ∧
      t.walk true limit (p.start cwd) (p.elements.dropLast.filterMap Element.component) = .ok q ∧
      u = t.withDir q n hq hn := by
  unfold Tree.mkdir at h
  split at h
  · rename_i n hlast
    split at h
    · cases h
    · rename_i q hw
      split at h
      · cases h
      · rename_i hq hn
        cases h
        exact ⟨n, q, hq, hn, hlast, hw, rfl⟩
      · cases h
      · cases h
  · split at h <;> cases h

/-- A directory that has been made is where its path leads to. -/
theorem locate_mkdir (h : t.mkdir limit cwd p = .ok u) :
    ∃ q, u.locate limit cwd p = .ok (q, .dir) ∧ t.node q = none := by
  obtain ⟨n, q, hq, hn, hlast, hw, rfl⟩ := mkdir_ok h
  refine ⟨n :: q, locate_dir.mpr ⟨?_, ?_⟩, hn⟩
  · have hle := (Tree.grown_withDir hq hn).le
    obtain ⟨limit', hgo⟩ := Tree.walk_append true (hle _ _ hq) (Tree.walk_mono hle hw)
    rw [components_concat hlast, hgo [.name n] (by simp)]
    have hnew : (t.withDir q n hq hn).node (n :: q) = some .dir := by
      rw [Tree.node_withDir, if_pos rfl]
    exact Tree.walk_name (hle _ _ hq) hnew (.inr rfl)
  · rw [Tree.node_withDir, if_pos rfl]

/-- No other tree that has grown to have the directory has less. -/
theorem mkdir_least (h : t.mkdir limit cwd p = .ok u) (hw : Tree.Grown t w)
    (hp : NamesDirectory limit cwd w p) : Tree.Grown u w := by
  obtain ⟨n, q, hq, hn, hlast, hwalk, rfl⟩ := mkdir_ok h
  have hdir : w.node (n :: q) = some .dir := by
    obtain ⟨r, hr⟩ := hp
    have hgo := (locate_dir.mp hr).1
    obtain ⟨limit', happ⟩ :=
      Tree.walk_append true (hw.le _ _ hq) (Tree.walk_mono hw.le hwalk)
    rw [components_concat hlast, happ [.name n] (by simp)] at hgo
    cases hv : w.node (n :: q) with
    | none =>
      rw [Tree.walk_name_none (hw.le _ _ hq) hv] at hgo
      cases hgo
    | some v =>
      rcases hw.dirs hv with ht | rfl
      · rw [hn] at ht
        cases ht
      · rfl
  refine ⟨?_, ?_⟩
  · intro r v hr
    rw [Tree.node_withDir] at hr
    split at hr
    · rename_i he
      cases hr
      rw [he]
      exact hdir
    · exact hw.le r v hr
  · intro r v hr
    rw [Tree.node_withDir]
    by_cases he : r = n :: q
    · rw [if_pos he]
      rw [he, hdir] at hr
      exact .inl hr
    · rw [if_neg he]
      exact hw.dirs hr

theorem NamesDirectory.initial {d : Component N} {ds : Path N} {r : FilePath N}
    (h : NamesDirectory limit cwd t p) (hs : r.start cwd = p.start cwd)
    (hc : p.components = r.components ++ d :: ds) : NamesDirectory limit cwd t r := by
  obtain ⟨q, hq⟩ := h
  obtain ⟨hw, _⟩ := locate_dir.mp hq
  rw [hc] at hw
  obtain ⟨q', hw', hd⟩ := Tree.walk_prefix _ hw
  exact ⟨q', locate_dir.mpr ⟨hs ▸ hw', hd⟩⟩

theorem NamesDirectory.same {r : FilePath N} (h : NamesDirectory limit cwd t p)
    (hs : r.start cwd = p.start cwd) (hc : r.components = p.components) :
    NamesDirectory limit cwd t r := by
  obtain ⟨q, hq⟩ := h
  obtain ⟨hw, hd⟩ := locate_dir.mp hq
  refine ⟨q, locate_dir.mpr ⟨?_, hd⟩⟩
  rw [hs, hc]
  exact hw

/-- A path that names a directory goes through directories. -/
theorem NamesDirectory.upTo (h : NamesDirectory limit cwd t p) (k : Nat) :
    NamesDirectory limit cwd t (p.upTo k) := by
  have hsplit : p.components =
      (p.upTo k).components ++ (p.elements.drop k).filterMap Element.component := by
    unfold FilePath.components FilePath.upTo
    rw [← List.filterMap_append, List.take_append_drop]
  cases hrest : (p.elements.drop k).filterMap Element.component with
  | nil =>
    rw [hrest, List.append_nil] at hsplit
    exact h.same rfl hsplit.symm
  | cons d ds =>
    rw [hrest] at hsplit
    exact h.initial rfl hsplit

/-- A directory is named with or without a separator at the end, and so is its
parent. -/
theorem NamesDirectory.parentPath (h : NamesDirectory limit cwd t p) :
    NamesDirectory limit cwd t p.parentPath := by
  unfold FilePath.parentPath
  split
  · exact h
  · split
    · exact h.same rfl rfl
    · have := h.upTo (p.elements.length - 1)
      unfold FilePath.upTo at this
      refine this.same rfl ?_
      unfold FilePath.components
      dsimp only
      rw [List.dropLast_eq_take]

/-! ## Paths and their normal forms -/

/-- After a name there is no `..`. -/
def FilePath.Straight (p : FilePath N) : Prop :=
  p.elements.Pairwise fun a b => (∃ n, a = .name n) → b ≠ .dotDot

omit [DecidableEq N] in
theorem FilePath.components_assemble {absolute trailing : Bool} (stack : List (Element N)) :
    (assemble absolute stack trailing).components =
      stack.reverse.filterMap Element.component := by
  unfold components
  cases stack with
  | nil => cases absolute <;> rfl
  | cons e stack => cases e <;> rfl

omit [DecidableEq N] in
theorem FilePath.absolute_assemble {absolute trailing : Bool} (stack : List (Element N)) :
    (assemble absolute stack trailing).absolute = absolute := by
  cases stack with
  | nil => cases absolute <;> rfl
  | cons e stack => cases e <;> rfl

/-- What is kept of a path without a name before a `..` leads to where the path
does. -/
theorem walk_foldl {absolute : Bool} (hstart : absolute = true → q = [])
    (elements : List (Element N)) {stack : List (Element N)} {removed : Bool}
    (hkept : FilePath.Kept absolute stack)
    (hstraight : elements.Pairwise fun a b => (∃ n, a = .name n) → b ≠ .dotDot)
    (hnone : (∃ n, .name n ∈ stack) → .dotDot ∉ elements) :
    t.walk true limit q ((elements.foldl (FilePath.reduce absolute)
        (stack, removed)).1.reverse.filterMap Element.component) =
      t.walk true limit q
        (stack.reverse.filterMap Element.component ++ elements.filterMap Element.component) := by
  induction elements generalizing stack removed with
  | nil =>
    rw [List.filterMap_nil, List.append_nil]
    rfl
  | cons e elements ih =>
    obtain ⟨hfirst, hrest⟩ := List.pairwise_cons.mp hstraight
    have hnext : FilePath.Kept absolute (FilePath.reduce absolute (stack, removed) e).1 :=
      FilePath.kept_reduce hkept e
    have hlater : (∃ n, .name n ∈ stack) → .dotDot ∉ elements := by
      intro h hmem
      exact hnone h (List.mem_cons_of_mem _ hmem)
    rw [List.foldl_cons]
    cases e with
    | name n =>
      refine (ih hnext hrest ?_).trans ?_
      · intro _ hmem
        exact hfirst _ hmem ⟨n, rfl⟩ rfl
      · show t.walk true limit q
          ((Element.name n :: stack).reverse.filterMap Element.component ++ _) = _
        rw [List.reverse_cons, List.filterMap_append, List.append_assoc]
        rfl
    | dot => exact ih hnext hrest hlater
    | dotDot =>
      rcases FilePath.kept_cases hkept with ⟨n, rest, rfl, _⟩ | ⟨rfl, rfl⟩ | ⟨rfl, ups, rfl⟩
      · exact absurd (List.mem_cons_self ..) (hnone ⟨n, List.mem_cons_self ..⟩)
      · -- the root is its own parent
        refine (ih hnext hrest hlater).trans ?_
        rw [hstart rfl]
        exact (Tree.walk_up_root _).symm
      · have hups : (FilePath.plain ups ([] : List N)).reverse = List.replicate ups .dotDot := by
          simp [FilePath.plain]
        have hstep : FilePath.reduce false
            ((FilePath.plain ups ([] : List N)).reverse, removed) .dotDot =
            (.dotDot :: (FilePath.plain ups ([] : List N)).reverse, false) := by
          rw [hups]
          cases ups <;> rfl
        rw [hstep] at hnext ⊢
        refine (ih hnext hrest ?_).trans ?_
        · rintro ⟨n, hn⟩
          rw [hups] at hn
          rcases List.mem_cons.mp hn with hn | hn
          · cases hn
          · cases List.eq_of_mem_replicate hn
        · rw [List.reverse_cons, List.filterMap_append, List.append_assoc]
          rfl

/-- Such a path and its normal form lead to the same directory. -/
theorem FilePath.Straight.namesDirectory (h : p.Straight) :
    NamesDirectory limit cwd t p.lexicallyNormal ↔ NamesDirectory limit cwd t p := by
  unfold FilePath.lexicallyNormal
  split
  · exact Iff.rfl
  · have hwalk : t.walk true limit (p.start cwd)
        ((p.elements.foldl (FilePath.reduce p.absolute)
          ([], false)).1.reverse.filterMap Element.component) =
        t.walk true limit (p.start cwd) p.components := by
      refine walk_foldl ?_ p.elements ⟨0, [], rfl, fun _ => rfl⟩ h (by simp)
      intro ha
      unfold FilePath.start
      rw [if_pos ha]
    have hlocate : ∀ r, t.locate limit cwd (FilePath.assemble p.absolute
        (p.elements.foldl (FilePath.reduce p.absolute) ([], false)).1
        ((p.elements.foldl (FilePath.reduce p.absolute) ([], false)).2 || p.trailing)) =
          .ok (r, .dir) ↔ t.locate limit cwd p = .ok (r, .dir) := by
      intro r
      rw [locate_dir, locate_dir]
      unfold FilePath.start at hwalk ⊢
      rw [FilePath.components_assemble, FilePath.absolute_assemble, hwalk]
    exact exists_congr hlocate

end

end FileTree
