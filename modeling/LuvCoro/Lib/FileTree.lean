import Mathlib.Data.List.Basic
import Mathlib.Data.List.Infix
import Mathlib.Data.List.MinMax
import Mathlib.Data.List.Nodup
import Mathlib.Order.Defs.PartialOrder

/-! # File trees with symbolic links

A finite tree of directories, files and symbolic links, the resolution of paths
in it, and the calls that look at it or take entries away, as POSIX has them. A
place is where an entry really is, a path is what a program names it by. -/
namespace FileTree

/-- The names on the way from the root, innermost first. -/
abbrev Place (N : Type) := List N

inductive Component (N : Type)
  | name (n : N)
  | up
  deriving DecidableEq

abbrev Path (N : Type) := List (Component N)

/-- What a symbolic link says. -/
structure Target (N : Type) where
  absolute : Bool
  path : Path N
  deriving DecidableEq

inductive Node (N C : Type)
  | dir
  | file (content : C)
  | link (target : Target N)
  deriving DecidableEq

namespace Node

variable {N C : Type}

def isDir : Node N C → Bool
  | .dir => true
  | _ => false

def isLink : Node N C → Bool
  | .link _ => true
  | _ => false

end Node

/-- Every entry is in a directory. -/
structure Tree (N C : Type) [DecidableEq N] where
  entries : List (Place N × Node N C)
  nodup : (entries.map Prod.fst).Nodup
  root : entries.lookup [] = some .dir
  closed : ∀ e ∈ entries, e.1 ≠ [] → entries.lookup e.1.tail = some .dir

inductive Errno
  | ENOENT | ENOTDIR | ELOOP | EISDIR | ENOTEMPTY | EBUSY
  deriving DecidableEq

variable {N C : Type} [DecidableEq N]

namespace Tree

/-- What is at a place. -/
def node (t : Tree N C) (q : Place N) : Option (Node N C) := t.entries.lookup q

/-- The name of an entry that is in the directory `q`. -/
def nameIn (q : Place N) : Place N → Option N
  | [] => none
  | n :: d => if d = q then some n else none

/-- The entries of a directory, in the order in which they are listed. -/
def names (t : Tree N C) (q : Place N) : List N := (t.entries.map Prod.fst).filterMap (nameIn q)

/-! ## Resolution -/

/-- Go along a path from a directory; a link on the way is left to `onLink`,
which gets the directory its target starts from and all that is still to go. A
link at the end is followed or not. -/
def steps (t : Tree N C) (follow : Bool) (onLink : Place N → Path N → Except Errno (Place N)) :
    Place N → Path N → Except Errno (Place N)
  | q, [] => .ok q
  | q, c :: cs =>
    match t.node q with
    | none => .error .ENOENT
    | some .dir =>
      match c with
      | .up => steps t follow onLink q.tail cs
      | .name n =>
        match t.node (n :: q) with
        | none => .error .ENOENT
        | some (.link target) =>
          if cs.isEmpty && !follow then .ok (n :: q)
          else onLink (if target.absolute then [] else q) (target.path ++ cs)
        | some _ => steps t follow onLink (n :: q) cs
    | some _ => .error .ENOTDIR

/-- At most `limit` links are followed. -/
def walk (t : Tree N C) (follow : Bool) : Nat → Place N → Path N → Except Errno (Place N)
  | 0 => t.steps follow fun _ _ => .error .ELOOP
  | limit + 1 => t.steps follow (walk t follow limit)

def resolve (t : Tree N C) (limit : Nat) (follow : Bool) (path : Path N) :
    Except Errno (Place N) := t.walk follow limit [] path

/-- The place that a path leads to, and what is there. -/
def look (t : Tree N C) (limit : Nat) (follow : Bool) (path : Path N) :
    Except Errno (Place N × Node N C) :=
  match t.resolve limit follow path with
  | .error e => .error e
  | .ok q =>
    match t.node q with
    | none => .error .ENOENT
    | some v => .ok (q, v)

/-! ## Taking entries away -/

theorem lookup_filter (p : Place N → Bool) (l : List (Place N × Node N C)) (q : Place N) :
    (l.filter fun e => p e.1).lookup q = if p q then l.lookup q else none := by
  induction l with
  | nil => simp
  | cons e l ih =>
    obtain ⟨r, v⟩ := e
    by_cases hr : q = r
    · subst hr
      cases hp : p q with
      | true => simp [hp]
      | false =>
        rw [List.filter_cons_of_neg (by simp [hp]), ih, hp]
        rfl
    · have hne : (q == r) = false := by simpa using hr
      cases hp : p r with
      | true =>
        rw [List.filter_cons_of_pos (by simp [hp])]
        simp only [List.lookup_cons, hne]
        exact ih
      | false =>
        rw [List.filter_cons_of_neg (by simp [hp]), ih]
        simp only [List.lookup_cons, hne]

/-- The entries that `p` keeps: with an entry it keeps the directory. -/
def keep (t : Tree N C) (p : Place N → Bool) (h0 : p [] = true)
    (hp : ∀ q, q ≠ [] → p q = true → p q.tail = true) : Tree N C where
  entries := t.entries.filter fun e => p e.1
  nodup := t.nodup.sublist (List.filter_sublist.map _)
  root := by
    rw [lookup_filter, if_pos h0]
    exact t.root
  closed e he hne := by
    obtain ⟨hm, hpe⟩ := List.mem_filter.mp he
    rw [lookup_filter, if_pos (hp e.1 hne hpe)]
    exact t.closed e hm hne

theorem node_keep {t : Tree N C} {p : Place N → Bool} {h0 hp} (q : Place N) :
    (t.keep p h0 hp).node q = if p q then t.node q else none := lookup_filter p t.entries q

theorem keep_keep {t : Tree N C} {p p' : Place N → Bool} {h0 hp h0' hp'}
    (h : ∀ q, p' q = true → p q = true) :
    (t.keep p h0 hp).keep p' h0' hp' = t.keep p' h0' hp' := by
  unfold keep
  congr 1
  rw [List.filter_filter]
  refine List.filter_congr fun e _ => ?_
  cases hp' : p' e.1 with
  | true => simp [h _ hp']
  | false => simp

theorem keep_self {t : Tree N C} {p : Place N → Bool} {h0 hp}
    (h : ∀ e ∈ t.entries, p e.1 = true) : t.keep p h0 hp = t := by
  unfold keep
  congr 1
  exact List.filter_eq_self.mpr h

omit [DecidableEq N] in
theorem not_suffix_tail {q r : Place N} (h : ¬ q <:+ r) : ¬ q <:+ r.tail := fun hs =>
  h (hs.trans (List.tail_suffix r))

/-- Without the entry at a place and all that is below it; the root stays. -/
def without (t : Tree N C) (q : Place N) : Tree N C :=
  t.keep (fun r => r.isEmpty || !decide (q <:+ r)) rfl fun r hr h => by
    have hnr : ¬ q <:+ r := by
      cases r with
      | nil => exact absurd rfl hr
      | cons n d => simpa using h
    simp [not_suffix_tail hnr]

/-- Without all that is strictly below a place. -/
def emptied (t : Tree N C) (q : Place N) : Tree N C :=
  t.keep (fun r => decide (r = q) || !decide (q <:+ r)) (by cases q <;> simp) fun r hr h => by
    have hn : ¬ q <:+ r.tail := by
      rw [Bool.or_eq_true, decide_eq_true_eq, Bool.not_eq_true', decide_eq_false_iff_not] at h
      rcases h with rfl | h
      · intro hs
        have hlen := hs.length_le
        rw [List.length_tail] at hlen
        have hpos := List.length_pos_iff.mpr hr
        omega
      · exact not_suffix_tail h
    simp [hn]

/-! ## The calls -/

def scandir (t : Tree N C) (limit : Nat) (path : Path N) : Except Errno (List N) :=
  match t.look limit true path with
  | .error e => .error e
  | .ok (q, .dir) => .ok (t.names q)
  | .ok _ => .error .ENOTDIR

def unlink (t : Tree N C) (limit : Nat) (path : Path N) : Except Errno (Tree N C) :=
  match t.look limit false path with
  | .error e => .error e
  | .ok (_, .dir) => .error .EISDIR
  | .ok (q, _) => .ok (t.without q)

/-- The last component has to be the name of the directory. -/
def rmdir (t : Tree N C) (limit : Nat) (path : Path N) : Except Errno (Tree N C) :=
  match t.look limit false path with
  | .error e => .error e
  | .ok (q, .dir) =>
    match path.getLast? with
    | none => .error .EBUSY
    | some .up => .error .ENOTEMPTY
    | some (.name _) => if (t.names q).isEmpty then .ok (t.without q) else .error .ENOTEMPTY
  | .ok _ => .error .ENOTDIR

/-! ## Smaller trees -/

/-- What is in the one tree is in the other, at the same place. -/
instance : Preorder (Tree N C) where
  le t u := ∀ q v, t.node q = some v → u.node q = some v
  le_refl _ _ _ h := h
  le_trans _ _ _ h h' q v hv := h' q v (h q v hv)

variable {t u : Tree N C} {q r : Place N} {n : N} {limit : Nat} {follow : Bool} {path : Path N}

theorem keep_le {p : Place N → Bool} {h0 hp} : t.keep p h0 hp ≤ t := by
  intro q v h
  rw [node_keep] at h
  split at h
  · exact h
  · cases h

theorem without_le : t.without q ≤ t := keep_le

theorem node_without (hr : r ≠ []) :
    (t.without q).node r = if q <:+ r then none else t.node r := by
  unfold without
  rw [node_keep]
  cases r with
  | nil => exact absurd rfl hr
  | cons n d => by_cases h : q <:+ n :: d <;> simp [h]

theorem node_without_self (t : Tree N C) (n : N) (q : Place N) :
    (t.without (n :: q)).node (n :: q) = none := by
  rw [node_without (List.cons_ne_nil n q), if_pos (List.suffix_refl _)]

theorem node_without_of_not (h : ¬ q <:+ r) : (t.without q).node r = t.node r := by
  unfold without
  rw [node_keep]
  simp [h]

theorem node_emptied (h : r = q ∨ ¬ q <:+ r) : (t.emptied q).node r = t.node r := by
  unfold emptied
  rw [node_keep, if_pos]
  simpa using h

/-- Without an entry of a directory, then without the directory. -/
theorem without_without (t : Tree N C) (n : N) (q : Place N) :
    (t.without (n :: q)).without q = t.without q := by
  refine keep_keep fun r h => ?_
  rw [Bool.or_eq_true, Bool.not_eq_true', decide_eq_false_iff_not] at h ⊢
  exact h.imp id fun hn hs => hn ((List.suffix_cons n q).trans hs)

theorem emptied_without (t : Tree N C) (n : N) (q : Place N) :
    (t.without (n :: q)).emptied q = t.emptied q := by
  refine keep_keep fun r h => ?_
  rw [Bool.or_eq_true, Bool.not_eq_true', decide_eq_false_iff_not, decide_eq_true_eq] at h
  rw [Bool.or_eq_true, Bool.not_eq_true', decide_eq_false_iff_not]
  refine .inr fun hs => ?_
  rcases h with rfl | hn
  · have hlen := hs.length_le
    rw [List.length_cons] at hlen
    omega
  · exact hn ((List.suffix_cons n q).trans hs)

theorem emptied_le : t.emptied q ≤ t := keep_le

theorem emptied_mono : t.emptied q ≤ t.emptied (n :: q) := by
  intro r v h
  have hr : r = q ∨ ¬ q <:+ r := by
    unfold emptied at h
    rw [node_keep] at h
    split at h
    · rename_i hp
      simpa using hp
    · cases h
  rw [node_emptied hr] at h
  rw [node_emptied ?_]
  · exact h
  · refine .inr fun hs => ?_
    rcases hr with rfl | hn
    · have hlen := hs.length_le
      rw [List.length_cons] at hlen
      omega
    · exact hn ((List.suffix_cons n q).trans hs)

theorem lookup_isSome_of_mem {l : List (Place N × Node N C)} {e : Place N × Node N C}
    (h : e ∈ l) : (l.lookup e.1).isSome = true := by
  induction l with
  | nil => cases h
  | cons a l ih =>
    obtain ⟨k, v⟩ := a
    rw [List.lookup_cons]
    split
    · rfl
    · rename_i hne
      rcases List.mem_cons.mp h with rfl | hm
      · simp at hne
      · exact ih hm

theorem mem_of_lookup {l : List (Place N × Node N C)} {v : Node N C}
    (h : l.lookup q = some v) : (q, v) ∈ l := by
  induction l with
  | nil => cases h
  | cons a l ih =>
    obtain ⟨k, w⟩ := a
    rw [List.lookup_cons] at h
    split at h
    · rename_i he
      cases h
      rw [beq_iff_eq] at he
      subst he
      exact List.mem_cons_self
    · exact List.mem_cons_of_mem _ (ih h)

theorem nameIn_eq {k : Place N} : nameIn q k = some n ↔ k = n :: q := by
  cases k with
  | nil => simp [nameIn]
  | cons m d => simp [nameIn, and_comm]

theorem mem_names : n ∈ t.names q ↔ t.node (n :: q) ≠ none := by
  unfold names node
  rw [List.mem_filterMap]
  constructor
  · rintro ⟨k, hk, hn⟩
    obtain rfl := nameIn_eq.mp hn
    obtain ⟨e, he, hke⟩ := List.mem_map.mp hk
    have hsome := lookup_isSome_of_mem he
    rw [hke] at hsome
    exact Option.isSome_iff_ne_none.mp hsome
  · intro hn
    obtain ⟨v, hv⟩ := Option.ne_none_iff_exists'.mp hn
    exact ⟨n :: q, List.mem_map.mpr ⟨_, mem_of_lookup hv, rfl⟩, nameIn_eq.mpr rfl⟩

theorem names_nodup (t : Tree N C) (q : Place N) : (t.names q).Nodup := by
  refine List.Nodup.filterMap (fun k k' n hk hk' => ?_) t.nodup
  exact (nameIn_eq.mp hk).trans (nameIn_eq.mp hk').symm

/-- An entry is in a directory. -/
theorem node_parent (h : t.node (n :: q) ≠ none) : t.node q = some .dir := by
  obtain ⟨v, hv⟩ := Option.ne_none_iff_exists'.mp h
  exact t.closed _ (mem_of_lookup hv) nofun

/-- What is below a place goes through an entry of it. -/
theorem names_of_below {d : Place N} (h : t.node (d ++ q) ≠ none) (hd : d ≠ []) :
    t.names q ≠ [] := by
  induction d with
  | nil => exact absurd rfl hd
  | cons m d ih =>
    cases d with
    | nil =>
      intro hnil
      have hm : m ∈ t.names q := mem_names.mpr h
      rw [hnil] at hm
      cases hm
    | cons k d =>
      refine ih ?_ nofun
      rw [node_parent (n := m) (q := k :: d ++ q) h]
      nofun

theorem emptied_of_names (h : t.names q = []) : t.emptied q = t := by
  refine keep_self fun e he => ?_
  rw [Bool.or_eq_true, decide_eq_true_eq, Bool.not_eq_true', decide_eq_false_iff_not]
  by_cases hs : q <:+ e.1
  · obtain ⟨d, hd⟩ := hs
    cases d with
    | nil => exact .inl hd.symm
    | cons m d =>
      have hsome := lookup_isSome_of_mem he
      rw [← hd] at hsome
      refine absurd h (names_of_below (d := m :: d) (fun hn => ?_) nofun)
      have hn : t.entries.lookup (m :: d ++ q) = none := hn
      rw [hn] at hsome
      cases hsome
  · exact .inr hs

/-- How far from the root the entries are. -/
def depth (t : Tree N C) : Nat := (t.entries.map fun e => e.1.length).foldr max 0

theorem length_le_depth (h : t.node q ≠ none) : q.length ≤ t.depth := by
  obtain ⟨v, hv⟩ := Option.ne_none_iff_exists'.mp h
  exact List.le_max_of_le' 0 (List.mem_map.mpr ⟨_, mem_of_lookup hv, rfl⟩) (le_refl _)

/-! ## Paths -/

/-- What a step along a path does at a directory. -/
theorem steps_name {onLink : Place N → Path N → Except Errno (Place N)} {cs : Path N}
    (hq : t.node q = some .dir) : t.steps follow onLink q (.name n :: cs) =
      match t.node (n :: q) with
      | none => .error .ENOENT
      | some (.link target) =>
        if cs.isEmpty && !follow then .ok (n :: q)
        else onLink (if target.absolute then [] else q) (target.path ++ cs)
      | some _ => t.steps follow onLink (n :: q) cs := by
  rw [steps, hq]

theorem steps_up {onLink : Place N → Path N → Except Errno (Place N)} {cs : Path N}
    (hq : t.node q = some .dir) :
    t.steps follow onLink q (.up :: cs) = t.steps follow onLink q.tail cs := by
  rw [steps, hq]

/-- Only a directory can be gone on from. -/
theorem dir_of_steps {onLink : Place N → Path N → Except Errno (Place N)} {c : Component N}
    {cs : Path N} (h : t.steps follow onLink q (c :: cs) = .ok r) : t.node q = some .dir := by
  unfold steps at h
  split at h
  · cases h
  · assumption
  · cases h

/-- One step along a path that leads to a place. -/
inductive Step (t : Tree N C) (follow : Bool)
    (onLink : Place N → Path N → Except Errno (Place N)) (q r : Place N) (cs : Path N) :
    Component N → Prop
  | up (rest : t.steps follow onLink q.tail cs = .ok r) : Step t follow onLink q r cs .up
  | enter (n : N) (v : Node N C) (node : t.node (n :: q) = some v) (isLink : v.isLink = false)
      (rest : t.steps follow onLink (n :: q) cs = .ok r) : Step t follow onLink q r cs (.name n)
  | stay (n : N) (target : Target N) (node : t.node (n :: q) = some (.link target))
      (last : cs = []) (stays : follow = false) (eq : r = n :: q) :
      Step t follow onLink q r cs (.name n)
  | link (n : N) (target : Target N) (node : t.node (n :: q) = some (.link target))
      (goOn : (cs.isEmpty && !follow) = false)
      (rest : onLink (if target.absolute then [] else q) (target.path ++ cs) = .ok r) :
      Step t follow onLink q r cs (.name n)

theorem step_cases {onLink : Place N → Path N → Except Errno (Place N)} {c : Component N}
    {cs : Path N} (h : t.steps follow onLink q (c :: cs) = .ok r) :
    t.node q = some .dir ∧ Step t follow onLink q r cs c := by
  have hq := dir_of_steps h
  refine ⟨hq, ?_⟩
  cases c with
  | up => exact .up (steps_up hq ▸ h)
  | name n =>
    rw [steps_name hq] at h
    split at h
    · cases h
    · rename_i target hn
      cases hlast : cs.isEmpty && !follow with
      | true =>
        rw [hlast] at h
        rw [Bool.and_eq_true, List.isEmpty_iff, Bool.not_eq_true'] at hlast
        exact .stay n target hn hlast.1 hlast.2 (Except.ok.inj h).symm
      | false =>
        rw [hlast] at h
        exact .link n target hn hlast h
    · rename_i v hv hn
      refine .enter n v hn ?_ h
      cases v with
      | link target => exact absurd rfl (hv target)
      | _ => rfl

/-- And back. -/
theorem Step.steps {onLink : Place N → Path N → Except Errno (Place N)} {c : Component N}
    {cs : Path N} (h : Step t follow onLink q r cs c) (hq : t.node q = some .dir) :
    t.steps follow onLink q (c :: cs) = .ok r := by
  cases h with
  | up hrest => rw [steps_up hq, hrest]
  | enter n v hn hv hrest =>
    rw [steps_name hq, hn]
    cases v with
    | link target => cases hv
    | _ => exact hrest
  | stay n target hn hlast hf he =>
    rw [steps_name hq, hn, hlast, hf, he]
    rfl
  | link n target hn hgo hrest =>
    rw [steps_name hq, hn]
    dsimp only
    rw [hgo]
    exact hrest

theorem steps_none {onLink : Place N → Path N → Except Errno (Place N)} {c : Component N}
    {cs : Path N} (hq : t.node q = none) :
    t.steps follow onLink q (c :: cs) = .error .ENOENT := by
  unfold steps
  rw [hq]

theorem steps_notDir {onLink : Place N → Path N → Except Errno (Place N)} {c : Component N}
    {cs : Path N} {v : Node N C} (hq : t.node q = some v) (hv : v.isDir = false) :
    t.steps follow onLink q (c :: cs) = .error .ENOTDIR := by
  unfold steps
  rw [hq]
  cases v with
  | dir => cases hv
  | _ => rfl

theorem steps_shrink {onLink onLink' : Place N → Path N → Except Errno (Place N)} (h : t ≤ u)
    (hlink : ∀ q cs, onLink q cs = onLink' q cs ∨ onLink q cs = .error .ENOENT) (cs : Path N) :
    t.steps follow onLink q cs = u.steps follow onLink' q cs ∨
      t.steps follow onLink q cs = .error .ENOENT := by
  induction cs generalizing q with
  | nil => exact .inl rfl
  | cons c cs ih =>
    cases hq : t.node q with
    | none => exact .inr (steps_none hq)
    | some v =>
      cases hv : v.isDir with
      | false => exact .inl ((steps_notDir hq hv).trans (steps_notDir (h _ _ hq) hv).symm)
      | true =>
        obtain rfl : v = .dir := by
          cases v with
          | dir => rfl
          | _ => cases hv
        cases c with
        | up =>
          rw [steps_up hq, steps_up (h _ _ hq)]
          exact ih
        | name n =>
          rw [steps_name hq, steps_name (h _ _ hq)]
          cases hn : t.node (n :: q) with
          | none => exact .inr rfl
          | some w =>
            rw [h _ _ hn]
            cases w with
            | link target =>
              dsimp only
              split
              · exact .inl rfl
              · exact hlink _ _
            | _ => exact ih

/-- In a smaller tree a path leads to the same place, or nowhere. -/
theorem walk_shrink (h : t ≤ u) (cs : Path N) :
    t.walk follow limit q cs = u.walk follow limit q cs ∨
      t.walk follow limit q cs = .error .ENOENT := by
  induction limit generalizing q cs with
  | zero => exact steps_shrink h (fun _ _ => .inl rfl) cs
  | succ limit ih => exact steps_shrink h (fun _ cs => ih cs) cs

/-- A path that leads to a place leads to it in a larger tree. -/
theorem walk_mono (h : t ≤ u) {cs : Path N} (hr : t.walk follow limit q cs = .ok r) :
    u.walk follow limit q cs = .ok r := by
  rcases walk_shrink h cs with he | he
  · exact he.symm.trans hr
  · exact absurd (hr.symm.trans he) nofun

/-- A path to a directory can be gone on from it, with the links that are left. -/
theorem steps_append {follow' : Bool}
    {onLink onLink' : Place N → Path N → Except Errno (Place N)} {cs : Path N}
    (hr : t.node r = some .dir)
    (hlink : ∀ q cs, onLink q cs = .ok r →
      ∃ limit, ∀ ds, ds ≠ [] → onLink' q (cs ++ ds) = t.walk follow limit r ds)
    (hself : ∃ limit, ∀ ds, t.steps follow onLink' r ds = t.walk follow limit r ds)
    (h : t.steps follow' onLink q cs = .ok r) :
    ∃ limit, ∀ ds, ds ≠ [] → t.steps follow onLink' q (cs ++ ds) = t.walk follow limit r ds := by
  induction cs generalizing q with
  | nil =>
    cases h
    obtain ⟨limit, hself⟩ := hself
    exact ⟨limit, fun ds _ => hself ds⟩
  | cons c cs ih =>
    obtain ⟨hq, hstep⟩ := step_cases h
    cases hstep with
    | up hrest =>
      obtain ⟨limit, hgo⟩ := ih hrest
      refine ⟨limit, fun ds hds => ?_⟩
      rw [List.cons_append, steps_up hq]
      exact hgo ds hds
    | enter n v hn hv hrest =>
      obtain ⟨limit, hgo⟩ := ih hrest
      refine ⟨limit, fun ds hds => ?_⟩
      rw [List.cons_append, steps_name hq, hn]
      cases v with
      | link target => cases hv
      | _ => exact hgo ds hds
    | stay n target hn _ _ he =>
      rw [he, hn] at hr
      cases hr
    | link n target hn _ hrest =>
      obtain ⟨limit, hgo⟩ := hlink _ _ hrest
      refine ⟨limit, fun ds hds => ?_⟩
      rw [List.cons_append, steps_name hq, hn]
      dsimp only
      have hne : (cs ++ ds).isEmpty = false := by
        rw [List.isEmpty_eq_false_iff]
        exact List.append_ne_nil_of_right_ne_nil _ hds
      rw [hne, Bool.false_and, if_neg nofun, ← List.append_assoc]
      exact hgo ds hds

theorem walk_append (follow : Bool) {follow' : Bool} {cs : Path N} (hr : t.node r = some .dir)
    (h : t.walk follow' limit q cs = .ok r) : ∃ limit', ∀ ds, ds ≠ [] →
      t.walk follow limit q (cs ++ ds) = t.walk follow limit' r ds := by
  induction limit generalizing q cs with
  | zero =>
    have hnone : ∀ (q : Place N) (cs : Path N), (.error .ELOOP : Except Errno (Place N)) = .ok r →
        ∃ limit', ∀ ds, ds ≠ [] → .error .ELOOP = t.walk follow limit' r ds := fun _ _ he => nomatch he
    exact steps_append hr hnone ⟨0, fun _ => rfl⟩ h
  | succ limit ih => exact steps_append hr (fun _ _ he => ih he) ⟨limit + 1, fun _ => rfl⟩ h

theorem walk_name {v : Node N C} (hq : t.node q = some .dir) (hv : t.node (n :: q) = some v)
    (hf : follow = false ∨ v.isLink = false) :
    t.walk follow limit q [.name n] = .ok (n :: q) := by
  have hsteps : ∀ onLink, t.steps follow onLink q [.name n] = .ok (n :: q) := by
    intro onLink
    rw [steps_name hq, hv]
    cases v with
    | link target =>
      rcases hf with rfl | hf
      · rfl
      · cases hf
    | _ => rfl
  cases limit <;> exact hsteps _

theorem walk_name_none (hq : t.node q = some .dir) (hv : t.node (n :: q) = none) :
    t.walk follow limit q [.name n] = .error .ENOENT := by
  cases limit <;> exact (steps_name hq).trans (by rw [hv])

/-- What is looked at by the path of its directory and its name. -/
theorem look_child {v : Node N C} (hp : t.resolve limit false path = .ok q)
    (hv : t.node (n :: q) = some v) (hf : follow = false ∨ v.isLink = false) :
    t.look limit follow (path ++ [.name n]) = .ok (n :: q, v) := by
  have hq : t.node q = some .dir := node_parent (by rw [hv]; nofun)
  obtain ⟨limit', hgo⟩ := walk_append follow hq hp
  have hres : t.resolve limit follow (path ++ [.name n]) = .ok (n :: q) :=
    (hgo [.name n] nofun).trans (walk_name hq hv hf)
  unfold look
  rw [hres]
  dsimp only
  rw [hv]

theorem look_child_none (hp : t.resolve limit false path = .ok q) (hq : t.node q = some .dir)
    (hv : t.node (n :: q) = none) :
    t.look limit follow (path ++ [.name n]) = .error .ENOENT := by
  obtain ⟨limit', hgo⟩ := walk_append follow hq hp
  have hres : t.resolve limit follow (path ++ [.name n]) = .error .ENOENT :=
    (hgo [.name n] nofun).trans (walk_name_none hq hv)
  unfold look
  rw [hres]

theorem look_eq {v : Node N C} : t.look limit follow path = .ok (q, v) ↔
    t.resolve limit follow path = .ok q ∧ t.node q = some v := by
  unfold look
  constructor
  · intro h
    split at h
    · cases h
    · rename_i r hr
      split at h
      · cases h
      · rename_i w hw
        cases h
        exact ⟨hr, hw⟩
  · rintro ⟨hr, hv⟩
    rw [hr]
    dsimp only
    rw [hv]

theorem steps_follow {onLink onLink' : Place N → Path N → Except Errno (Place N)} {cs : Path N}
    {v : Node N C} (hr : t.node r = some v) (hv : v.isLink = false) (hlink : ∀ q cs, onLink q cs = .ok r → onLink' q cs = .ok r)
    (h : t.steps false onLink q cs = .ok r) :
    t.steps true onLink' q cs = .ok r := by
  induction cs generalizing q with
  | nil => exact h
  | cons c cs ih =>
    obtain ⟨hq, hstep⟩ := step_cases h
    refine Step.steps ?_ hq
    cases hstep with
    | up hrest => exact .up (ih hrest)
    | enter n w hn hw hrest => exact .enter n w hn hw (ih hrest)
    | stay n target hn _ _ he =>
      rw [he, hn] at hr
      cases hr
      cases hv
    | link n target hn _ hrest => exact .link n target hn (by simp) (hlink _ _ hrest)

/-- A path that leads to something else than a link leads to it also when a link
at its end is followed. -/
theorem look_follow {v : Node N C} (h : t.look limit false path = .ok (q, v))
    (hv : v.isLink = false) : t.look limit true path = .ok (q, v) := by
  obtain ⟨hres, hq⟩ := look_eq.mp h
  have hwalk : ∀ limit r cs, t.walk false limit r cs = .ok q → t.walk true limit r cs = .ok q := by
    intro limit
    induction limit with
    | zero => exact fun r cs => steps_follow hq hv fun _ _ he => nomatch he
    | succ limit ih => exact fun r cs => steps_follow hq hv ih
  exact look_eq.mpr ⟨hwalk _ _ _ hres, hq⟩

/-- In a smaller tree a path leads to the same, or nowhere. -/
theorem look_shrink (h : t ≤ u) : t.look limit follow path = u.look limit follow path ∨
    t.look limit follow path = .error .ENOENT := by
  have hres : t.resolve limit follow path = u.resolve limit follow path ∨
      t.resolve limit follow path = .error .ENOENT := walk_shrink h path
  unfold look
  rcases hres with he | he
  · rw [he]
    cases u.resolve limit follow path with
    | error e => exact .inl rfl
    | ok q =>
      dsimp only
      cases hq : t.node q with
      | none => exact .inr rfl
      | some v =>
        rw [h _ _ hq]
        exact .inl rfl
  · rw [he]
    exact .inr rfl

/-- A path that ends with a name does not lead to the root. -/
theorem steps_ne_root {onLink : Place N → Path N → Except Errno (Place N)} {cs : Path N}
    (hlink : ∀ q cs n, cs.getLast? = some (.name n) → onLink q cs = .ok r → r ≠ [])
    (hlast : cs.getLast? = some (.name n)) (h : t.steps false onLink q cs = .ok r) : r ≠ [] := by
  induction cs generalizing q with
  | nil => cases hlast
  | cons c cs ih =>
    obtain ⟨hq, hstep⟩ := step_cases h
    cases cs with
    | nil =>
      cases hlast
      cases hstep with
      | enter m v _ _ hrest =>
        cases hrest
        nofun
      | stay m target _ _ _ he =>
        rw [he]
        nofun
      | link m target _ hgo => cases hgo
    | cons d ds =>
      rw [List.getLast?_cons_cons] at hlast
      cases hstep with
      | up hrest => exact ih hlast hrest
      | enter m v _ _ hrest => exact ih hlast hrest
      | stay m target _ hnil => cases hnil
      | link m target _ _ hrest =>
        refine hlink _ _ n ?_ hrest
        rw [List.getLast?_append, hlast]
        rfl

theorem resolve_ne_root (hlast : path.getLast? = some (.name n))
    (h : t.resolve limit false path = .ok r) : r ≠ [] := by
  have hwalk : ∀ limit q cs n, cs.getLast? = some (Component.name n) →
      t.walk false limit q cs = .ok r → r ≠ [] := by
    intro limit
    induction limit with
    | zero => exact fun q cs n => steps_ne_root fun _ _ _ _ he => nomatch he
    | succ limit ih => exact fun q cs n => steps_ne_root ih
  exact hwalk _ _ _ _ hlast h

end Tree

end FileTree
