import LuvCoro.Fs.RemoveAll

/-! # What `fs::remove_all` removes

`fs::exists` and `fs::is_directory` follow links, `unlink` and `rmdir` do not. So
a link below the path is no obstacle when it is dangling, and the second try
takes it away, or when it leads to something that is not a directory. -/
namespace LuvCoro.RemoveAll

open Stateful FileTree

variable {N C : Type} [DecidableEq N] (limit : Nat)

/-- The path leads to the place also when all that is below the place is gone. -/
def Reaches (t : Tree N C) (path : Path N) (q : Place N) : Prop :=
  (t.emptied q).resolve limit false path = .ok q

/-- Each entry in turn is dangling, and left, or settles, and is taken away. -/
def AllSettle (settles : Tree N C → Path N → Place N → Prop) :
    Tree N C → Path N → Place N → List N → Prop
  | _, _, _, [] => True
  | t, path, q, n :: ns =>
    t.look limit true (joinPath path n) = .error .ENOENT ∧ AllSettle settles t path q ns ∨
      settles t (joinPath path n) (n :: q) ∧ AllSettle settles (t.without (n :: q)) path q ns

/-- To a depth of `d`: what is not a directory does not lead to one, and the
entries of a directory settle. -/
def Settles : Nat → Tree N C → Path N → Place N → Prop
  | 0, _, _, _ => False
  | d + 1, t, path, q =>
    match t.node q with
    | some .dir => AllSettle limit (Settles d) t path q (t.names q)
    | _ => ∃ r v, t.look limit true path = .ok (r, v) ∧ v.isDir = false

variable {limit : Nat} {t u w : Tree N C} {path : Path N} {q : Place N} {v : Node N C} {n : N}
  {ns : List N} {d : Nat}

/-! ## What is below a directory -/

/-- Two trees that differ only below `q`. -/
structure Agree (q : Place N) (t u : Tree N C) : Prop where
  emptied : u.emptied q = t.emptied q
  without : u.without q = t.without q

theorem Agree.refl (q : Place N) (t : Tree N C) : Agree q t t := ⟨rfl, rfl⟩

theorem Agree.trans (h : Agree q t u) (h' : Agree q u w) : Agree q t w :=
  ⟨h'.emptied.trans h.emptied, h'.without.trans h.without⟩

theorem agree_without (q : Place N) (t : Tree N C) (n : N) : Agree q t (t.without (n :: q)) :=
  ⟨Tree.emptied_without t n q, Tree.without_without t n q⟩

theorem Agree.node (h : Agree q t u) : u.node q = t.node q := by
  have hu : (u.emptied q).node q = u.node q := Tree.node_emptied (.inl rfl)
  have ht : (t.emptied q).node q = t.node q := Tree.node_emptied (.inl rfl)
  rw [← hu, ← ht, h.emptied]

theorem Agree.reaches (h : Agree q t u) (hr : Reaches limit t path q) :
    Reaches limit u path q := by
  unfold Reaches
  rw [h.emptied]
  exact hr

theorem Reaches.resolve (h : Reaches limit t path q) : t.resolve limit false path = .ok q :=
  Tree.walk_mono Tree.emptied_le h

omit [DecidableEq N] in
theorem named_joinPath (path : Path N) (n : N) : Named (joinPath path n) :=
  ⟨n, by unfold joinPath; rw [List.getLast?_append]; rfl⟩

/-- An entry of a directory that is reached is reached. -/
theorem Reaches.child (h : Reaches limit t path q) (hv : t.node (n :: q) = some v) :
    Reaches limit t (joinPath path n) (n :: q) := by
  have hp : (t.emptied (n :: q)).resolve limit false path = .ok q :=
    Tree.walk_mono Tree.emptied_mono h
  have hn : (t.emptied (n :: q)).node (n :: q) = some v := by
    rw [Tree.node_emptied (.inl rfl), hv]
  exact (Tree.look_eq.mp (Tree.look_child hp hn (.inl rfl))).1

/-- The place of an entry that a path leads to through its directory. -/
theorem look_child_place (hp : t.resolve limit false path = .ok q) (hq : t.node q = some .dir)
    {r : Place N} (h : t.look limit false (joinPath path n) = .ok (r, v)) :
    r = n :: q ∧ t.node (n :: q) = some v := by
  cases hn : t.node (n :: q) with
  | none =>
    have hnone : t.look limit false (joinPath path n) = .error .ENOENT :=
      Tree.look_child_none hp hq hn
    exact absurd (h.symm.trans hnone) nofun
  | some w =>
    have hlook : t.look limit false (joinPath path n) = .ok (n :: q, w) :=
      Tree.look_child hp hn (.inl rfl)
    have he := Except.ok.inj (h.symm.trans hlook)
    exact ⟨congrArg Prod.fst he, congrArg some (congrArg Prod.snd he).symm⟩

/-- What is dangling is a link. -/
theorem link_of_dangling (hp : t.resolve limit false path = .ok q)
    (h : t.look limit true (joinPath path n) = .error .ENOENT)
    (hv : t.node (n :: q) = some v) : v.isLink = true := by
  by_contra hl
  have hlook : t.look limit true (joinPath path n) = .ok (n :: q, v) :=
    Tree.look_child hp hv (.inr (Bool.eq_false_iff.mpr hl))
  exact absurd (h.symm.trans hlook) nofun

/-! ## A call that returns -/

theorem keeps_change {f : Tree N C → Except Error (Tree N C)}
    (hf : ∀ t u, f t = .ok u → u ≤ t) (w : Tree N C) : Keeps (· ≤ w) (change f) := by
  intro t r u ht h
  cases r with
  | ok a => exact (hf t u (leads_change.mp h)).trans ht
  | error e =>
    obtain ⟨-, rfl⟩ := leads_change_error.mp h
    exact ht

theorem keeps_ask {α : Type} {f : Tree N C → Except Error α} (w : Tree N C) :
    Keeps (· ≤ w) (ask f) := by
  intro t r u ht h
  obtain ⟨-, rfl⟩ := leads_ask.mp h
  exact ht

theorem keeps_removeDirectory (w : Tree N C) :
    Keeps (· ≤ w) (removeDirectory limit path) := by
  refine keeps_change (fun t u h => ?_) w
  obtain ⟨q, -, -, -, rfl⟩ := rmdir_ok.mp (mapError_ok.mp h)
  exact Tree.without_le

theorem keeps_filesystemRemove (w : Tree N C) :
    Keeps (· ≤ w) (filesystemRemove limit path) := by
  refine keeps_change (fun t u h => ?_) w
  rcases leads_filesystemRemove (leads_change.mpr h) with rfl | ⟨q, v, -, rfl⟩
  · exact le_refl _
  · exact Tree.without_le

theorem keeps_removeFile (w : Tree N C) : Keeps (· ≤ w) (removeFile limit path) := by
  refine keeps_change (fun t u h => ?_) w
  obtain ⟨q, v, -, -, rfl⟩ := leads_removeFile.mp (leads_change.mpr h)
  exact Tree.without_le

theorem keeps_removeLeftover {remove : Path N → CoroTask N C Unit} (w : Tree N C)
    (h : ∀ path, Keeps (· ≤ w) (remove path)) :
    Keeps (· ≤ w) (removeLeftover limit remove path n) := by
  refine keeps_bind (keeps_ask w) fun status => ?_
  split
  · exact keeps_filesystemRemove w
  · exact h _

/-- `remove_all` adds nothing to the tree, whether it returns or throws. -/
theorem keeps_removeAll (w : Tree N C) (d : Nat) :
    ∀ path, Keeps (· ≤ w) (removeAll limit d path) := by
  induction d with
  | zero => exact fun path t r u _ h => nomatch h
  | succ d ih =>
    intro path
    refine keeps_bind (keeps_tryCatch (keeps_bind (keeps_ask w) fun _ => keeps_pure true)
      fun e => ?_) fun found => ?_
    · split
      · exact keeps_pure false
      · exact keeps_throw e
    · split
      · exact keeps_pure ()
      · refine keeps_bind (keeps_bind (keeps_ask w) fun v => keeps_pure v.isDir) fun directory => ?_
        split
        · refine keeps_bind (keeps_ask w) fun entries => ?_
          refine keeps_bind (keeps_each (fun n => ih (joinPath path n)) entries) fun _ => ?_
          refine keeps_bind (keeps_tryCatch (keeps_bind (keeps_removeDirectory w) fun _ =>
            keeps_pure false) fun e => ?_) fun retry => ?_
          · split
            · exact keeps_pure true
            · exact keeps_throw e
          · split
            · refine keeps_bind (keeps_ask w) fun leftovers => ?_
              refine keeps_bind (keeps_each (fun n => ?_) leftovers) fun _ =>
                keeps_removeDirectory w
              exact keeps_removeLeftover w ih
            · exact keeps_pure ()
        · exact keeps_removeFile w

/-- What a call has done that has returned. -/
inductive Returns (limit d : Nat) (t : Tree N C) (path : Path N) : Tree N C → Prop
  | absent (h : t.look limit true path = .error .ENOENT) : Returns limit d t path t
  | removed (q : Place N) (v : Node N C) (place : t.look limit false path = .ok (q, v))
      (settles : Settles limit d t path q)
      (reaches : v.isDir = true → Named path ∧ Reaches limit t path q) :
      Returns limit d t path (t.without q)

/-- The induction hypothesis, for the entries of a directory. -/
def EntriesReturn (C : Type) (limit d : Nat) (path : Path N) : Prop :=
  ∀ (t u : Tree N C) (n : N), Leads (removeAll limit d (joinPath path n)) t (.ok ()) u →
    Returns limit d t (joinPath path n) u

/-- A call for an entry of a directory touches nothing but the entry. -/
theorem Returns.child (hp : t.resolve limit false path = .ok q) (hq : t.node q = some .dir)
    (h : Returns limit d t (joinPath path n) u) :
    t.look limit true (joinPath path n) = .error .ENOENT ∧ u = t ∨
      Settles limit d t (joinPath path n) (n :: q) ∧ u = t.without (n :: q) := by
  cases h with
  | absent h => exact .inl ⟨h, rfl⟩
  | removed r v hplace hsettles =>
    obtain ⟨rfl, -⟩ := look_child_place hp hq hplace
    exact .inr ⟨hsettles, rfl⟩

/-- A directory that is there at the end was there all along. -/
structure Stays (limit : Nat) (path : Path N) (q : Place N) (t : Tree N C) : Prop where
  resolve : t.resolve limit false path = .ok q
  node : t.node q = some .dir

theorem Stays.mono (h : Stays limit path q t) (hle : t ≤ u) : Stays limit path q u :=
  ⟨Tree.walk_mono hle h.resolve, hle _ _ h.node⟩

theorem Stays.look (h : Stays limit path q t) : t.look limit false path = .ok (q, .dir) :=
  Tree.look_eq.mpr ⟨h.resolve, h.node⟩

/-- The entries have been gone through once. -/
theorem allSettle_of_each
    (hcall : EntriesReturn C limit d path)
    (h : Leads (each (fun n => removeAll limit d (joinPath path n)) ns) t (.ok ()) u)
    (hstays : Stays limit path q u) :
    AllSettle limit (Settles limit d) t path q ns ∧ Agree q t u := by
  induction ns generalizing t with
  | nil =>
    obtain rfl := leads_each_nil.mp h
    exact ⟨trivial, .refl q u⟩
  | cons n ns ih =>
    obtain ⟨w, hn, hns⟩ := leads_each_cons.mp h
    have huw : u ≤ w := keeps_each (fun n => keeps_removeAll w d (joinPath path n)) ns _ _ _
      (le_refl w) hns
    have hwt : w ≤ t := keeps_removeAll t d _ _ _ _ (le_refl t) hn
    obtain ⟨hall, hagree⟩ := ih hns
    have ht := hstays.mono (huw.trans hwt)
    rcases (hcall _ _ _ hn).child ht.resolve ht.node with ⟨hnone, rfl⟩ | ⟨hsettles, rfl⟩
    · exact ⟨.inl ⟨hnone, hall⟩, hagree⟩
    · exact ⟨.inr ⟨hsettles, hall⟩, (agree_without q t n).trans hagree⟩

/-- So have the ones that were left. -/
theorem agree_of_leftovers
    (hcall : EntriesReturn C limit d path)
    (h : Leads (each (removeLeftover limit (removeAll limit d) path) ns) t (.ok ()) u)
    (hstays : Stays limit path q u) : Agree q t u := by
  induction ns generalizing t with
  | nil =>
    obtain rfl := leads_each_nil.mp h
    exact .refl q u
  | cons n ns ih =>
    obtain ⟨w, hn, hns⟩ := leads_each_cons.mp h
    have huw : u ≤ w := keeps_each (fun n => keeps_removeLeftover w (keeps_removeAll w d)) ns _ _ _
      (le_refl w) hns
    have hwt : w ≤ t := keeps_removeLeftover t (keeps_removeAll t d) _ _ _ (le_refl t) hn
    have ht := hstays.mono (huw.trans hwt)
    have hagree : Agree q t w := by
      obtain ⟨status, x, hstatus, hrest⟩ := leads_bind_ok.mp hn
      obtain ⟨-, rfl⟩ := leads_symlinkStatus.mp hstatus
      split at hrest
      · rcases leads_filesystemRemove hrest with rfl | ⟨r, v, hr, rfl⟩
        · exact .refl q w
        · obtain ⟨rfl, -⟩ := look_child_place ht.resolve ht.node hr
          exact agree_without q x n
      · rcases (hcall _ _ _ hrest).child ht.resolve ht.node with ⟨-, rfl⟩ | ⟨-, rfl⟩
        · exact .refl q w
        · exact agree_without q x n
    exact hagree.trans (ih hns)

/-- The step of the induction for a directory: it ends with a `remove_directory`
that succeeds. -/
theorem returns_dir
    (hcall : EntriesReturn C limit d path) {r : Place N}
    (hr : t.look limit true path = .ok (r, .dir))
    (hfirst : Leads (each (fun n => removeAll limit d (joinPath path n)) (t.names r)) t (.ok ()) u)
    (hle : w ≤ u) (hsecond : ∀ q, Stays limit path q w → Agree q u w)
    {z : Tree N C} (hlast : Leads (removeDirectory limit path) w (.ok ()) z) :
    Returns limit (d + 1) t path z := by
  obtain ⟨q, hq, hnamed, hnil, rfl⟩ := leads_removeDirectory.mp hlast
  obtain ⟨hres, hnode⟩ := Tree.look_eq.mp hq
  have hw : Stays limit path q w := ⟨hres, hnode⟩
  have hu := hw.mono hle
  have hut : u ≤ t := keeps_each (fun n => keeps_removeAll t d (joinPath path n)) _ _ _ _
    (le_refl t) hfirst
  have ht := hu.mono hut
  have hrq : r = q := congrArg Prod.fst (Except.ok.inj (hr.symm.trans (Tree.look_follow ht.look rfl)))
  subst hrq
  obtain ⟨hall, hagree⟩ := allSettle_of_each hcall hfirst hu
  have htw := hagree.trans (hsecond r hw)
  rw [htw.without]
  refine .removed r .dir ht.look ?_ fun _ => ⟨hnamed, ?_⟩
  · unfold Settles
    rw [ht.node]
    exact hall
  · unfold Reaches
    rw [← htw.emptied, Tree.emptied_of_names hnil]
    exact hres

/-- A call of `remove_all` that returns has found nothing, or has removed a place
where everything settles. -/
theorem returns_removeAll (d : Nat) : ∀ (path : Path N) (t u : Tree N C),
    Leads (removeAll limit d path) t (.ok ()) u → Returns limit d t path u := by
  induction d with
  | zero => exact fun path t u h => nomatch h
  | succ d ih =>
    intro path t u h
    obtain ⟨found, x, hfound, h⟩ := leads_bind_ok.mp h
    obtain ⟨rfl, ⟨rfl, -⟩ | ⟨rfl, hnone⟩⟩ := leads_pathExists.mp hfound
    · obtain ⟨directory, y, hdir, h⟩ := leads_bind_ok.mp h
      obtain ⟨rfl, r, v, hr, rfl⟩ := leads_isDirectory.mp hdir
      cases v with
      | dir =>
        obtain ⟨entries, y, hentries, h⟩ := leads_bind_ok.mp h
        obtain ⟨⟨r', hr', rfl⟩, rfl⟩ := leads_scandirSync.mp hentries
        obtain ⟨⟨⟩, w, hfirst, hrest⟩ := leads_bind_ok.mp h
        obtain ⟨retry, z, hretry, hend⟩ := leads_bind_ok.mp hrest
        have hcall : EntriesReturn C limit d path := fun t u n => ih (joinPath path n) t u
        rcases leads_tryRemoveDirectory.mp hretry with ⟨rfl, hlast⟩ | ⟨rfl, -, hzw⟩
        · obtain ⟨-, rfl⟩ := leads_pure.mp hend
          exact returns_dir hcall hr' hfirst (le_refl w) (fun q _ => .refl q w) hlast
        · have hend : Leads (removeLeftovers limit (removeAll limit d) path) z (.ok ()) u := hend
          unfold removeLeftovers at hend
          obtain ⟨leftovers, x, hleft, hagain⟩ := leads_bind_ok.mp hend
          obtain ⟨-, hxz⟩ := leads_directoryIterator.mp hleft
          obtain ⟨⟨⟩, y, hsecond, hlast⟩ := leads_bind_ok.mp hagain
          rw [hxz, hzw] at hsecond
          have hle : y ≤ w := keeps_each (fun n => keeps_removeLeftover w (keeps_removeAll w d))
            leftovers _ _ _ (le_refl w) hsecond
          exact returns_dir hcall hr' hfirst hle (fun q => agree_of_leftovers hcall hsecond) hlast
      | _ =>
        obtain ⟨q, v, hq, hv, rfl⟩ := leads_removeFile.mp h
        refine .removed q v hq ?_ fun hd => absurd (hv.symm.trans hd) nofun
        unfold Settles
        rw [(Tree.look_eq.mp hq).2]
        cases v with
        | dir => cases hv
        | _ => exact ⟨r, _, hr, rfl⟩
    · obtain ⟨-, rfl⟩ := leads_pure.mp h
      exact .absent hnone

/-! ## A place where everything settles -/

theorem Agree.stays (h : Agree q t u) (hr : Reaches limit t path q)
    (hq : t.node q = some .dir) : Stays limit path q u :=
  ⟨(h.reaches hr).resolve, h.node.trans hq⟩

/-- What settles is there. -/
theorem Settles.present (h : Settles limit d t (joinPath path n) (n :: q))
    (hs : Stays limit path q t) : ∃ v, t.node (n :: q) = some v := by
  cases hn : t.node (n :: q) with
  | some v => exact ⟨v, rfl⟩
  | none =>
    have hnone : t.look limit true (joinPath path n) = .error .ENOENT :=
      Tree.look_child_none hs.resolve hs.node hn
    cases d with
    | zero => exact h.elim
    | succ d =>
      unfold Settles at h
      rw [hn] at h
      obtain ⟨r, v, hr, -⟩ := h
      exact absurd (hnone.symm.trans hr) nofun

theorem removeAll_absent (h : t.look limit true path = .error .ENOENT) :
    Leads (removeAll limit (d + 1) path) t (.ok ()) t := by
  refine leads_bind_ok.mpr ⟨false, t, leads_pathExists.mpr ⟨rfl, .inr ⟨rfl, h⟩⟩, ?_⟩
  exact leads_pure.mpr ⟨rfl, rfl⟩

/-- The induction hypothesis, for the entries of a directory. -/
def EntriesSettle (C : Type) (limit d : Nat) (path : Path N) : Prop :=
  ∀ (t : Tree N C) (q : Place N) (n : N) (v : Node N C), t.node (n :: q) = some v →
    Reaches limit t (joinPath path n) (n :: q) → Settles limit d t (joinPath path n) (n :: q) →
      Leads (removeAll limit (d + 1) (joinPath path n)) t (.ok ()) (t.without (n :: q))

/-- Nothing but dangling links is left when the entries have been gone through. -/
theorem each_leads (hcall : EntriesSettle C limit d path)
    (hall : AllSettle limit (Settles limit d) t path q ns) (hr : Reaches limit t path q)
    (hq : t.node q = some .dir) :
    ∃ u, Leads (each (fun n => removeAll limit (d + 1) (joinPath path n)) ns) t (.ok ()) u ∧
      Agree q t u ∧ u ≤ t ∧ ∀ n ∈ ns, ∀ v, u.node (n :: q) = some v → v.isLink = true := by
  induction ns generalizing t with
  | nil => exact ⟨t, leads_each_nil.mpr rfl, .refl q t, le_refl t, nofun⟩
  | cons n ns ih =>
    rcases hall with ⟨hnone, hall⟩ | ⟨hsettles, hall⟩
    · obtain ⟨u, hu, hagree, hle, hlinks⟩ := ih hall hr hq
      refine ⟨u, leads_each_cons.mpr ⟨t, removeAll_absent hnone, hu⟩, hagree, hle, ?_⟩
      intro m hm v hv
      rcases List.mem_cons.mp hm with rfl | hm
      · exact link_of_dangling hr.resolve hnone (hle _ _ hv)
      · exact hlinks m hm v hv
    · obtain ⟨v, hv⟩ := hsettles.present ⟨hr.resolve, hq⟩
      have hhead := hcall t q n v hv (hr.child hv) hsettles
      have hagree := agree_without q t n
      obtain ⟨u, hu, hagree', hle, hlinks⟩ := ih hall (hagree.reaches hr) (hagree.node.trans hq)
      refine ⟨u, leads_each_cons.mpr ⟨_, hhead, hu⟩, hagree.trans hagree',
        hle.trans Tree.without_le, ?_⟩
      intro m hm w hw
      rcases List.mem_cons.mp hm with rfl | hm
      · have hgone := hle _ _ hw
        rw [Tree.node_without_self] at hgone
        cases hgone
      · exact hlinks m hm w hw

/-- The second try takes away the links that are left. -/
theorem leftovers_lead (remove : Path N → CoroTask N C Unit) (hnd : ns.Nodup)
    (hlinks : ∀ n ∈ ns, ∃ v, t.node (n :: q) = some v ∧ v.isLink = true)
    (hr : Reaches limit t path q) :
    ∃ u, Leads (each (removeLeftover limit remove path) ns) t (.ok ()) u ∧ Agree q t u ∧ u ≤ t ∧
      ∀ n ∈ ns, u.node (n :: q) = none := by
  induction ns generalizing t with
  | nil => exact ⟨t, leads_each_nil.mpr rfl, .refl q t, le_refl t, nofun⟩
  | cons n ns ih =>
    obtain ⟨hnotin, hnd⟩ := List.nodup_cons.mp hnd
    obtain ⟨v, hv, hlink⟩ := hlinks n List.mem_cons_self
    have hlook : t.look limit false (joinPath path n) = .ok (n :: q, v) :=
      Tree.look_child hr.resolve hv (.inl rfl)
    have hdir : v.isDir = false := by
      cases v with
      | dir => cases hlink
      | _ => rfl
    have hhead : Leads (removeLeftover limit remove path n) t (.ok ()) (t.without (n :: q)) := by
      refine leads_bind_ok.mpr ⟨v, t, leads_symlinkStatus.mpr ⟨⟨_, hlook⟩, rfl⟩, ?_⟩
      rw [if_pos (by rw [hlink]; rfl)]
      exact filesystemRemove_leads hlook hdir
    have hagree := agree_without q t n
    have hrest : ∀ m ∈ ns, ∃ v, (t.without (n :: q)).node (m :: q) = some v ∧ v.isLink = true := by
      intro m hm
      obtain ⟨w, hw, hl⟩ := hlinks m (List.mem_cons_of_mem _ hm)
      refine ⟨w, ?_, hl⟩
      rw [Tree.node_without_of_not fun hs => ?_]
      · exact hw
      · have he := (List.cons.inj (hs.eq_of_length rfl)).1
        exact hnotin (he ▸ hm)
    obtain ⟨u, hu, hagree', hle, hgone⟩ := ih hnd hrest (hagree.reaches hr)
    refine ⟨u, leads_each_cons.mpr ⟨_, hhead, hu⟩, hagree.trans hagree',
      hle.trans Tree.without_le, ?_⟩
    intro m hm
    rcases List.mem_cons.mp hm with rfl | hm
    · cases hm : u.node (m :: q) with
      | none => rfl
      | some w =>
        have hw := hle _ _ hm
        rw [Tree.node_without_self] at hw
        cases hw
    · exact hgone m hm

/-- A directory that is empty is removed. -/
theorem removeDirectory_leads (hs : Stays limit path q t) (hnamed : Named path)
    (hnil : t.names q = []) :
    Leads (removeDirectory limit path) t (.ok ()) (t.without q) :=
  leads_removeDirectory.mpr ⟨q, hs.look, hnamed, hnil, rfl⟩

theorem rmdir_notEmpty (hs : Stays limit path q t) (hnamed : Named path)
    (hne : t.names q ≠ []) : t.rmdir limit path = .error .ENOTEMPTY := by
  obtain ⟨n, hn⟩ := hnamed
  unfold Tree.rmdir
  rw [hs.look]
  dsimp only
  rw [hn]
  exact if_neg fun he => hne (List.isEmpty_iff.mp he)

/-- Everything settles at a place: the call returns, and the place is gone. -/
theorem removeAll_leads (d : Nat) : ∀ (path : Path N) (t : Tree N C) (q : Place N)
    (v : Node N C), t.look limit false path = .ok (q, v) →
      (v.isDir = true → Named path ∧ Reaches limit t path q) → Settles limit d t path q →
        Leads (removeAll limit (d + 1) path) t (.ok ()) (t.without q) := by
  induction d with
  | zero => exact fun path t q v _ _ hs => hs.elim
  | succ d ih =>
    intro path t q v hlook hdir hs
    have hnode : t.node q = some v := (Tree.look_eq.mp hlook).2
    unfold Settles at hs
    rw [hnode] at hs
    cases v with
    | dir =>
      obtain ⟨hnamed, hr⟩ := hdir rfl
      have htrue := Tree.look_follow hlook rfl
      have hcall : EntriesSettle C limit d path := fun t q n v hv hr hs =>
        ih (joinPath path n) t (n :: q) v (Tree.look_eq.mpr ⟨hr.resolve, hv⟩)
          (fun _ => ⟨named_joinPath path n, hr⟩) hs
      obtain ⟨u, hu, hagree, hle, hlinks⟩ := each_leads hcall hs hr hnode
      have hstays := hagree.stays hr hnode
      refine leads_bind_ok.mpr ⟨true, t, leads_pathExists.mpr ⟨rfl, .inl ⟨rfl, q, _, htrue⟩⟩, ?_⟩
      refine leads_bind_ok.mpr ⟨true, t, leads_isDirectory.mpr ⟨rfl, q, _, htrue, rfl⟩, ?_⟩
      refine leads_bind_ok.mpr ⟨_, t, leads_scandirSync.mpr ⟨⟨q, htrue, rfl⟩, rfl⟩, ?_⟩
      refine leads_bind_ok.mpr ⟨(), u, hu, ?_⟩
      by_cases hnil : u.names q = []
      · have hremove := removeDirectory_leads hstays hnamed hnil
        rw [hagree.without] at hremove
        refine leads_bind_ok.mpr ⟨false, _, leads_tryRemoveDirectory.mpr (.inl ⟨rfl, hremove⟩), ?_⟩
        exact leads_pure.mpr ⟨rfl, rfl⟩
      · have hleft : ∀ n ∈ u.names q, ∃ v, u.node (n :: q) = some v ∧ v.isLink = true := by
          intro n hn
          obtain ⟨v, hv⟩ := Option.ne_none_iff_exists'.mp (Tree.mem_names.mp hn)
          have hmem : n ∈ t.names q := Tree.mem_names.mpr (by rw [hle _ _ hv]; nofun)
          exact ⟨v, hv, hlinks n hmem v hv⟩
        obtain ⟨w, hw, hagree', hle', hgone⟩ :=
          leftovers_lead (removeAll limit (d + 1)) (u.names_nodup q) hleft
            (hagree.reaches hr)
        have hempty : w.names q = [] := by
          refine List.eq_nil_iff_forall_not_mem.mpr fun m hm => Tree.mem_names.mp hm ?_
          refine hgone m (Tree.mem_names.mpr fun hnone => Tree.mem_names.mp hm ?_)
          cases hwm : w.node (m :: q) with
          | none => rfl
          | some x => exact absurd (hnone.symm.trans (hle' _ _ hwm)) nofun
        have hlast := removeDirectory_leads ((hagree.trans hagree').stays hr hnode) hnamed hempty
        rw [(hagree.trans hagree').without] at hlast
        refine leads_bind_ok.mpr ⟨true, u, leads_tryRemoveDirectory.mpr
          (.inr ⟨rfl, rmdir_notEmpty hstays hnamed hnil, rfl⟩), ?_⟩
        refine leads_bind_ok.mpr ⟨_, u, leads_directoryIterator.mpr
          ⟨⟨q, Tree.look_follow hstays.look rfl, rfl⟩, rfl⟩, ?_⟩
        exact leads_bind_ok.mpr ⟨(), w, hw, hlast⟩
    | _ =>
      obtain ⟨r, x, hr, hx⟩ := hs
      refine leads_bind_ok.mpr ⟨true, t, leads_pathExists.mpr ⟨rfl, .inl ⟨rfl, r, x, hr⟩⟩, ?_⟩
      refine leads_bind_ok.mpr ⟨false, t, leads_isDirectory.mpr ⟨rfl, r, x, hr, hx.symm⟩, ?_⟩
      exact leads_removeFile.mpr ⟨q, _, hlook, rfl, rfl⟩

/-! ## The contract -/

/-- `remove_all` returns, what is at the place or below it is gone, and the rest
is as it was. -/
def RemovesExactly (limit : Nat) (t : Tree N C) (path : Path N) (q : Place N) : Prop :=
  ∃ d u, Leads (removeAll limit d path) t (.ok ()) u ∧ (∀ r, q <:+ r → u.node r = none) ∧
    ∀ r, ¬ q <:+ r → u.node r = t.node r

/-- Everything settles at a place; a directory is named by its last component,
and the path does not go through what is below it. -/
structure Removable (limit : Nat) (t : Tree N C) (path : Path N) (q : Place N) : Prop where
  settles : ∃ d, Settles limit d t path q
  reaches : t.node q = some .dir → Named path ∧ Reaches limit t path q

theorem removesExactly_of_removable (h : t.look limit false path = .ok (q, v))
    (hr : Removable limit t path q) : RemovesExactly limit t path q := by
  obtain ⟨hres, hnode⟩ := Tree.look_eq.mp h
  obtain ⟨d, hsettles⟩ := hr.settles
  have hroot : q ≠ [] := by
    rintro rfl
    obtain ⟨⟨n, hn⟩, -⟩ := hr.reaches t.root
    exact Tree.resolve_ne_root hn hres rfl
  have hdir : v.isDir = true → Named path ∧ Reaches limit t path q := by
    intro hv
    refine hr.reaches ?_
    cases v with
    | dir => exact hnode
    | _ => cases hv
  refine ⟨d + 1, _, removeAll_leads d path t q v h hdir hsettles, fun r hr => ?_, fun r hr => ?_⟩
  · have hne : r ≠ [] := fun he => hroot (List.suffix_nil.mp (he ▸ hr))
    rw [Tree.node_without hne, if_pos hr]
  · exact Tree.node_without_of_not hr

theorem removable_of_removesExactly (h : t.look limit false path = .ok (q, v))
    (hr : RemovesExactly limit t path q) : Removable limit t path q := by
  obtain ⟨d, u, hu, hgone, -⟩ := hr
  have hnode := (Tree.look_eq.mp h).2
  have hreturns := returns_removeAll d path t u hu
  cases hreturns with
  | absent => exact absurd (hnode.symm.trans (hgone q (List.suffix_refl q))) nofun
  | removed r w hplace hsettles hreaches =>
    have he := Except.ok.inj (h.symm.trans hplace)
    obtain rfl : q = r := congrArg Prod.fst he
    refine ⟨⟨d, hsettles⟩, fun hdir => hreaches ?_⟩
    rw [(Tree.look_eq.mp hplace).2] at hdir
    cases hdir
    rfl

/-- When exactly `remove_all` removes the subtree at an existing path and nothing
else. -/
theorem removesExactly_iff (h : t.look limit false path = .ok (q, v)) :
    RemovesExactly limit t path q ↔ Removable limit t path q :=
  ⟨removable_of_removesExactly h, removesExactly_of_removable h⟩

/-! ## Links that are harmless as they are -/

/-- No link at the place or below it leads to a directory or in circles. -/
def LinksHarmless (limit : Nat) (t : Tree N C) (path : Path N) (q : Place N) : Prop :=
  ∀ (ns : List N) (target : Target N), t.node (ns.reverse ++ q) = some (.link target) →
    t.look limit true (path ++ ns.map .name) = .error .ENOENT ∨
      ∃ r v, t.look limit true (path ++ ns.map .name) = .ok (r, v) ∧ v.isDir = false

theorem LinksHarmless.mono (h : LinksHarmless limit t path q) (hle : u ≤ t) :
    LinksHarmless limit u path q := by
  intro ns target hn
  rcases h ns target (hle _ _ hn) with hnone | ⟨r, v, hr, hv⟩
  · rcases Tree.look_shrink hle with he | he
    · exact .inl (he.trans hnone)
    · exact .inl he
  · rcases Tree.look_shrink hle with he | he
    · exact .inr ⟨r, v, he.trans hr, hv⟩
    · exact .inl he

theorem LinksHarmless.child (h : LinksHarmless limit t path q) (n : N) :
    LinksHarmless limit t (joinPath path n) (n :: q) := by
  intro ns target hn
  have hplace : (n :: ns).reverse ++ q = ns.reverse ++ n :: q := by simp
  have hpath : path ++ (n :: ns).map .name = joinPath path n ++ ns.map .name := by
    simp [joinPath]
  have hlink := h (n :: ns) target (hplace ▸ hn)
  rwa [hpath] at hlink

/-- The entries settle one after the other. -/
theorem allSettle_of_harmless
    (hcall : ∀ (t : Tree N C) n v, t.node (n :: q) = some v →
      Reaches limit t (joinPath path n) (n :: q) →
        LinksHarmless limit t (joinPath path n) (n :: q) →
          (∀ r, t.node (r ++ n :: q) ≠ none → r.length < d) →
            Settles limit d t (joinPath path n) (n :: q) ∨
              t.look limit true (joinPath path n) = .error .ENOENT)
    (hr : Reaches limit t path q) (hq : t.node q = some .dir)
    (hlinks : LinksHarmless limit t path q)
    (hdepth : ∀ r, t.node (r ++ q) ≠ none → r.length < d + 1) (ns : List N) :
    AllSettle limit (Settles limit d) t path q ns := by
  induction ns generalizing t with
  | nil => trivial
  | cons n ns ih =>
    cases hn : t.node (n :: q) with
    | none =>
      exact .inl ⟨Tree.look_child_none hr.resolve hq hn, ih hr hq hlinks hdepth⟩
    | some v =>
      have hbelow : ∀ r, t.node (r ++ n :: q) ≠ none → r.length < d := by
        intro r hne
        have hlen := hdepth (r ++ [n]) (by simpa using hne)
        rw [List.length_append] at hlen
        exact Nat.lt_of_succ_lt_succ hlen
      rcases hcall t n v hn (hr.child hn) (hlinks.child n) hbelow with hs | hnone
      · have hagree := agree_without q t n
        refine .inr ⟨hs, ih (hagree.reaches hr) (hagree.node.trans hq)
          (hlinks.mono Tree.without_le) fun r hne => hdepth r fun hnone => hne ?_⟩
        cases hw : (t.without (n :: q)).node (r ++ q) with
        | none => rfl
        | some w => exact absurd (hnone.symm.trans (Tree.without_le _ _ hw)) nofun
      · exact .inl ⟨hnone, ih hr hq hlinks hdepth⟩

theorem settles_of_harmless (d : Nat) : ∀ (t : Tree N C) (path : Path N) (q : Place N)
    (v : Node N C), t.node q = some v → Reaches limit t path q → LinksHarmless limit t path q →
      (∀ r, t.node (r ++ q) ≠ none → r.length < d) →
        Settles limit d t path q ∨ t.look limit true path = .error .ENOENT := by
  induction d with
  | zero =>
    intro t path q v hq _ _ hdepth
    exact absurd (hdepth [] (by rw [List.nil_append, hq]; nofun)) (Nat.not_lt_zero _)
  | succ d ih =>
    intro t path q v hq hr hlinks hdepth
    unfold Settles
    rw [hq]
    cases v with
    | dir =>
      refine .inl (allSettle_of_harmless (fun t n v hv hr hl hd => ?_) hr hq hlinks hdepth _)
      exact ih t (joinPath path n) (n :: q) v hv hr hl hd
    | file content =>
      have hlook : t.look limit true path = .ok (q, .file content) :=
        Tree.look_follow (Tree.look_eq.mpr ⟨hr.resolve, hq⟩) rfl
      exact .inl ⟨q, _, hlook, rfl⟩
    | link target =>
      have hlink := hlinks [] target hq
      rw [List.map_nil, List.append_nil] at hlink
      exact hlink.symm

/-- `remove_all` removes the subtree at a path and nothing else when, in the tree
as it is, no link in the subtree leads to a directory or in circles, and the path
itself is not dangling. -/
theorem removesExactly_of_links (h : t.look limit false path = .ok (q, v))
    (hfound : t.look limit true path ≠ .error .ENOENT) (hlinks : LinksHarmless limit t path q)
    (hnamed : Named path) (hreaches : Reaches limit t path q) :
    RemovesExactly limit t path q := by
  have hq := (Tree.look_eq.mp h).2
  have hdepth : ∀ r, t.node (r ++ q) ≠ none → r.length < t.depth + 1 := by
    intro r hne
    have hlen := Tree.length_le_depth hne
    rw [List.length_append] at hlen
    omega
  have hsettles := (settles_of_harmless _ t path q v hq hreaches hlinks hdepth).resolve_right hfound
  exact removesExactly_of_removable h ⟨⟨_, hsettles⟩, fun _ => ⟨hnamed, hreaches⟩⟩

/-- A directory with a file, a link to a file outside, a dangling link and a
directory with a link that is dangling when it is met. -/
def plain : Tree Nat Unit where
  entries := [([], .dir), ([1], .dir), ([10, 1], .file ()), ([11, 1], .link ⟨true, [.name 2]⟩),
    ([12, 1], .link ⟨true, [.name 9]⟩), ([13, 1], .dir),
    ([14, 13, 1], .link ⟨false, [.up, .name 10]⟩), ([2], .file ())]
  nodup := by decide
  root := rfl
  closed := by decide

theorem removesExactly_iff_plain : RemovesExactly 40 plain [.name 1] [1] := by
  have hlook : plain.look 40 false [.name 1] = .ok ([1], .dir) := rfl
  refine (removesExactly_iff hlook).mpr ⟨⟨3, ?_⟩, fun _ => ⟨⟨1, rfl⟩, rfl⟩⟩
  exact .inr ⟨⟨_, _, rfl, rfl⟩, .inr ⟨⟨_, _, rfl, rfl⟩, .inl ⟨rfl, .inr
    ⟨.inl ⟨rfl, trivial⟩, trivial⟩⟩⟩⟩

/-- A directory with a link to a directory outside, which has a file. -/
def linked : Tree Nat Unit where
  entries := [([], .dir), ([1], .dir), ([5, 1], .link ⟨true, [.name 2]⟩), ([2], .dir),
    ([6, 2], .file ())]
  nodup := by decide
  root := rfl
  closed := by decide

/-- The file outside is removed, and the call throws. -/
theorem removeAll_outside : (∃ u, Leads (removeAll 40 4 [.name 1]) linked
      (.error (.uvError .ENOTDIR)) u ∧ u.node [6, 2] = none) ∧
    ¬ RemovesExactly 40 linked [.name 1] [1] := by
  refine ⟨⟨_, rfl, rfl⟩, fun h => ?_⟩
  obtain ⟨d, hsettles⟩ := (removable_of_removesExactly (v := .dir) rfl h).settles
  cases d with
  | zero => exact hsettles
  | succ d =>
    rcases hsettles with ⟨hnone, -⟩ | ⟨hlink, -⟩
    · cases hnone
    · cases d with
      | zero => exact hlink
      | succ d =>
        obtain ⟨r, v, hr, hv⟩ := hlink
        cases hr
        cases hv

end LuvCoro.RemoveAll
