import LuvCoro.Fs.Content

/-! # What is read back after a write

`read_file` returns the content of the file, however its reads are split. What
`write_file` and `append_file` leave is what their one write has transferred. -/
namespace LuvCoro.Content

open Coroutine

variable {s t u : FileSystem} {path : String} {data d : Bytes} {trace : List (Query × Answer)}
  {q : Query} {a : Answer} {f : File} {op : String} {fd : Int} {n mode offset : Nat}
  {flags : Flags}

/-- The request has not failed. -/
def Granted (x : Query × Answer) : Prop := 0 ≤ x.2.result

@[simp] theorem serve_granted (h : 0 ≤ a.result) : s.serve q a = s.grants a q :=
  if_neg (not_lt.mpr h)

@[simp] theorem store_content : (s.store path data).content path = some data :=
  Function.update_self ..

@[simp] theorem store_path? : (s.store path data).path? fd = s.path? fd := rfl

theorem exists_fresh (s : FileSystem) : ∃ fd : Int, 0 ≤ fd ∧ s.path? fd = none := by
  obtain ⟨n, hn⟩ := Infinite.exists_notMem_finset (s.opened.map fun x => x.1.toNat).toFinset
  refine ⟨n, Int.natCast_nonneg n, List.lookup_eq_none_iff.mpr ?_⟩
  intro x hx
  have hne : x.1.toNat ≠ n := by
    intro he
    exact hn (List.mem_toFinset.mpr (List.mem_map.mpr ⟨x, hx, he⟩))
  rw [bne_iff_ne]
  intro he
  apply hne
  rw [← he, Int.toNat_natCast]

theorem runFsRequest_eq : runFsRequest op q =
    .asks q fun a => if a.result < 0 then .fails (.uvError a.result op) else .done a := rfl

/-! ## Reading -/

variable {P : Answer → FileSystem → Prop}

theorem returns_request (ha : ∃ a u, 0 ≤ a.result ∧ s.grants a q = some u)
    (h : ∀ a u, 0 ≤ a.result → s.grants a q = some u → P a u) :
    Returns Granted FileSystem.serve (runFsRequest op q) s P := by
  rw [runFsRequest_eq, returns_asks]
  constructor
  · obtain ⟨a, u, h0, hu⟩ := ha
    exact ⟨a, u, h0, (serve_granted h0).trans hu⟩
  · intro a u (h0 : 0 ≤ a.result) hs
    rw [serve_granted h0] at hs
    rw [if_neg (not_lt.mpr h0)]
    exact h a u h0 hs

theorem returns_read (ho : 0 ≤ f.fd) (hp : s.path? f.fd = some path)
    (hd : s.content path = some data) (hn : 0 < n) (hmax : n < 4294967296) :
    Returns Granted FileSystem.serve (f.read n) s fun x t =>
      t = s ∧ x.2 = { f with offset := f.offset + x.1.length } ∧
        x.1 = (data.drop f.offset).take x.1.length ∧ (x.1 = [] → data.drop f.offset = []) := by
  have hbuf : uvBufInit n = n := Nat.mod_eq_of_lt hmax
  have hopen : f.isOpen = true := decide_eq_true ho
  unfold File.read File.readAt readFileAsync
  rw [if_pos hopen, if_neg hn.ne', hbuf]
  refine returns_bind (returns_bind (returns_request ?_ ?_))
  · let chunk := (data.drop f.offset).take 1
    refine ⟨{ result := chunk.length, bytes := chunk }, s, Int.natCast_nonneg _, ?_⟩
    have hlen : chunk.length ≤ n := (List.length_take_le 1 _).trans hn
    have hchunk : chunk = (data.drop f.offset).take chunk.length := by simp [chunk]
    have hempty : chunk = [] → data.drop f.offset = [] ∨ n = 0 := by
      intro h
      exact .inl (by simpa [chunk] using h)
    simp only [FileSystem.grants, hp, hd, Option.bind_eq_bind, Option.bind_some, Option.getD_some]
    exact if_pos ⟨trivial, hchunk, hlen, hempty⟩
  · intro a u h0 hu
    simp only [FileSystem.grants, hp, hd, Option.bind_eq_bind, Option.bind_some,
      Option.getD_some] at hu
    split at hu
    · rename_i hc
      cases hu
      refine ⟨rfl, rfl, hc.2.1, ?_⟩
      intro he
      rcases hc.2.2.2 he with h | h
      · exact h
      · exact absurd h hn.ne'
    · cases hu

/-- However the reads are split, the loop comes to the end of the file. -/
theorem returns_readLoop (n : Nat) (f : File) (out : Bytes) (ho : 0 ≤ f.fd)
    (hp : s.path? f.fd = some path) (hd : s.content path = some data)
    (hn : (data.drop f.offset).length < n) :
    Returns Granted FileSystem.serve (f.readLoop n out) s fun x t =>
      t = s ∧ x.1 = out ++ data.drop f.offset := by
  induction n generalizing f out with
  | zero => cases hn
  | succ n ih =>
    have hread := returns_read (n := 64 * 1024) ho hp hd (by decide) (by decide)
    refine returns_bind (hread.imp ?_)
    rintro ⟨chunk, g⟩ u ⟨rfl, hg, hchunk, hend⟩
    dsimp only at hg hchunk hend ⊢
    by_cases hc : chunk = []
    · rw [if_pos hc, pure_eq, returns_done, hend hc, List.append_nil]
      exact ⟨rfl, rfl⟩
    · rw [if_neg hc, hg]
      have hrest : data.drop (f.offset + chunk.length) = (data.drop f.offset).drop chunk.length :=
        List.drop_drop.symm
      have hpos : 0 < chunk.length := List.length_pos_of_ne_nil hc
      have hle : chunk.length ≤ (data.drop f.offset).length := by
        rw [hchunk]
        exact List.length_take_le' ..
      refine (ih { f with offset := f.offset + chunk.length } (out ++ chunk) ho hp ?_).imp ?_
      · simp only [hrest, List.length_drop] at hle hn ⊢
        omega
      · rintro x t ⟨rfl, hx⟩
        refine ⟨rfl, ?_⟩
        rw [hx, hrest, List.append_assoc]
        nth_rewrite 1 [hchunk]
        rw [List.take_append_drop]

theorem returns_openPath (hd : s.content path = some data) :
    Returns Granted FileSystem.serve (File.openPath {} path {} mode) s fun f t =>
      f.offset = 0 ∧ 0 ≤ f.fd ∧ t.path? f.fd = some path ∧ t.content path = some data := by
  obtain ⟨fd, h0, hfd⟩ := exists_fresh s
  refine returns_bind (returns_bind (returns_bind (returns_request ?_ ?_)))
  · refine ⟨{ result := fd }, _, h0, if_pos ⟨hfd, .inr ?_⟩⟩
    rw [hd]
    simp
  · intro a u ha hu
    simp only [FileSystem.grants] at hu
    split at hu
    · cases hu
      refine ⟨rfl, ha, ?_, ?_⟩
      · simp [FileSystem.path?]
      · simp [hd, FileSystem.store]
    · cases hu

theorem returns_close : Returns Granted FileSystem.serve f.close s fun _ t =>
    t.content = s.content := by
  unfold File.close
  split
  · refine returns_bind (returns_bind (returns_request ?_ ?_))
    · exact ⟨{}, _, le_refl 0, rfl⟩
    · intro a u _ hu
      cases hu
      rfl
  · rfl

theorem returns_readFile (hd : s.content path = some data) (hn : data.length < n) :
    Returns Granted FileSystem.serve (readFile n path) s fun x _ => x = data := by
  refine returns_bind ((returns_openPath hd).imp ?_)
  rintro f t ⟨hf, ho, hp, hd⟩
  have hloop := returns_readLoop n f [] ho hp hd (by rwa [hf])
  refine returns_bind (returns_unwinding (hloop.imp ?_))
  rintro ⟨x, g⟩ u ⟨rfl, hx⟩
  refine returns_bind (returns_close.imp ?_)
  intro g v _
  simpa [hf] using hx

/-! ## What is read back -/

/-- `read_file` returns `content` however its reads are split, if it is given
more rounds than there are bytes. -/
def ReadsBack (s : FileSystem) (path : String) (content : Bytes) : Prop :=
  ∀ n, content.length < n →
    (∃ trace t, (∀ x ∈ trace, Granted x) ∧
      Leads FileSystem.serve (readFile n path) s trace (.ok content) t) ∧
    ∀ trace r t, (∀ x ∈ trace, Granted x) →
      Leads FileSystem.serve (readFile n path) s trace r t → r = .ok content

theorem readsBack_iff (hd : s.content path = some d) : ReadsBack s path data ↔ data = d := by
  constructor
  · intro h
    let n := data.length + d.length + 1
    obtain ⟨trace, x, t, hall, hl, rfl⟩ := (returns_readFile (n := n) hd (by omega)).run
    have hr := (h n (by omega)).2 trace (.ok x) t hall hl
    exact (Except.ok.inj hr).symm
  · rintro rfl n hn
    have hr := returns_readFile hd hn
    refine ⟨?_, ?_⟩
    · obtain ⟨trace, x, t, hall, hl, rfl⟩ := hr.run
      exact ⟨trace, t, hall, hl⟩
    · intro trace r t hall hl
      obtain ⟨x, rfl, rfl⟩ := hr.every hall hl
      rfl

/-! ## What one write leaves -/

/-- A write has transferred all the bytes of `data`. -/
def Full (data : Bytes) (x : Query × Answer) : Prop :=
  ∀ fd buf offset, x.1 = .write fd buf offset → x.2.result = data.length

theorem leads_request_ok : Leads FileSystem.serve (runFsRequest op q) s trace (.ok a) t ↔
    trace = [(q, a)] ∧ 0 ≤ a.result ∧ s.grants a q = some t := by
  rw [runFsRequest_eq, leads_asks]
  constructor
  · rintro ⟨b, u, rest, hs, hl, rfl⟩
    split at hl
    · cases hl
    · rename_i h0
      cases hl
      rw [serve_granted (not_lt.mp h0)] at hs
      exact ⟨rfl, not_lt.mp h0, hs⟩
  · rintro ⟨rfl, h0, hs⟩
    refine ⟨a, t, [], (serve_granted h0).trans hs, ?_, rfl⟩
    rw [if_neg (not_lt.mpr h0)]
    exact .done

theorem overlay_at_end (data bytes : Bytes) : overlay data data.length bytes = data ++ bytes := by
  simp [overlay]

theorem close_ok (data : Bytes) {g : File} (h : Leads FileSystem.serve f.close s trace (.ok g) t) :
    t.content = s.content ∧ ∀ x ∈ trace, Full data x := by
  unfold File.close at h
  split at h
  · obtain ⟨x, u, before, after, hc, hp, rfl⟩ := leads_bind_ok.mp h
    obtain ⟨a, v, b, c, hr, hd, rfl⟩ := leads_bind_ok.mp hc
    obtain ⟨rfl, _, hs⟩ := leads_request_ok.mp hr
    cases hs
    cases hd
    cases hp
    simp [Full]
  · cases h
    simp

/-- What a write at the end of the file leaves. -/
theorem writeAt_ok (ho : 0 ≤ f.fd) (hp : s.path? f.fd = some path)
    (hd : s.content path = some d)
    (h : Leads FileSystem.serve (f.writeAt data d.length) s trace (.ok n) t) :
    t.content path = some (d ++ data.take n) ∧ n ≤ data.length ∧
      ((∀ x ∈ trace, Full data x) ↔ n = data.length) := by
  have hopen : f.isOpen = true := decide_eq_true ho
  unfold File.writeAt writeFileAsync at h
  rw [if_pos hopen] at h
  split at h
  · rename_i he
    cases h
    simp [he, hd]
  · obtain ⟨a, u, before, after, hr, hn, rfl⟩ := leads_bind_ok.mp h
    obtain ⟨rfl, h0, hs⟩ := leads_request_ok.mp hr
    cases hn
    simp only [FileSystem.grants, hp, hd, Option.bind_eq_bind, Option.bind_some,
      Option.getD_some] at hs
    split at hs
    · rename_i hc
      cases hs
      obtain ⟨k, hk⟩ := Int.eq_ofNat_of_zero_le h0
      have hlen : k ≤ uvBufInit data.length ∧ k ≤ data.length := by
        simpa [hk] using hc.1
      rw [store_content, overlay_at_end, hk, Int.toNat_natCast, List.take_take,
        Nat.min_eq_left hlen.1]
      refine ⟨rfl, hlen.2, ?_⟩
      constructor
      · intro hall
        have hw := hall _ List.mem_cons_self _ _ _ rfl
        dsimp only at hw
        omega
      · rintro rfl
        simp [Full, hk]
    · cases hs

theorem openPath_ok (data : Bytes)
    (h : Leads FileSystem.serve (File.openPath {} path flags mode) s trace (.ok f) t) :
    0 ≤ f.fd ∧ f.offset = 0 ∧ t.path? f.fd = some path ∧
      t.content path = some (if flags.trunc then [] else (s.content path).getD []) ∧
      ∀ x ∈ trace, Full data x := by
  obtain ⟨g, u, before, after, hg, hl, rfl⟩ := leads_bind_ok.mp h
  obtain ⟨fd, v, b, c, ho, hf, rfl⟩ := leads_bind_ok.mp hl
  obtain ⟨a, w, x, y, hr, he, rfl⟩ := leads_bind_ok.mp ho
  obtain ⟨rfl, h0, hs⟩ := leads_request_ok.mp hr
  cases hg
  cases he
  cases hf
  simp only [FileSystem.grants] at hs
  split at hs
  · cases hs
    simp [Full, FileSystem.path?, FileSystem.store, h0]
  · cases hs

theorem leads_request_error {e : Error}
    (h : Leads FileSystem.serve (runFsRequest op q) s trace (.error e) t) :
    ∃ a, trace = [(q, a)] ∧ a.result < 0 ∧ e = .uvError a.result op ∧ s.serve q a = some t := by
  rw [runFsRequest_eq, leads_asks] at h
  obtain ⟨a, u, rest, hs, hl, rfl⟩ := h
  split at hl
  · cases hl
    exact ⟨a, rfl, ‹_›, rfl, hs⟩
  · cases hl

theorem statPath_ok (data : Bytes) (h : Leads FileSystem.serve (statPath path) s trace (.ok n) t) :
    t = s ∧ (s.content path).map List.length = some n ∧ ∀ x ∈ trace, Full data x := by
  obtain ⟨a, u, before, after, hr, hn, rfl⟩ := leads_bind_ok.mp h
  obtain ⟨rfl, _, hs⟩ := leads_request_ok.mp hr
  cases hn
  simp only [FileSystem.grants] at hs
  split at hs
  · rename_i hsize
    cases hs
    exact ⟨rfl, hsize, by simp [Full]⟩
  · cases hs

/-- `uv_fs_stat` reports a file missing only where there is none. -/
theorem statPath_error (data : Bytes) {e : Error}
    (h : Leads FileSystem.serve (statPath path) s trace (.error e) t) :
    t = s ∧ (e = .uvError UV_ENOENT "uv_fs_stat" → s.content path = none) ∧
      (∃ code, e = .uvError code "uv_fs_stat") ∧ ∀ x ∈ trace, Full data x := by
  rcases leads_bind.mp h with ⟨a, u, before, after, _, hn, _⟩ | ⟨e', he, hr⟩
  · cases hn
  · cases he
    obtain ⟨a, rfl, hneg, rfl, hs⟩ := leads_request_error hr
    simp only [FileSystem.serve, if_pos hneg] at hs
    split at hs
    · cases hs
    · rename_i hmiss
      cases hs
      refine ⟨rfl, ?_, ⟨_, rfl⟩, by simp [Full]⟩
      intro he
      cases hd : s.content path with
      | none => rfl
      | some d =>
        rw [Error.uvError.injEq] at he
        exact absurd ⟨he.1, by simp [hd]⟩ hmiss

/-- `fs::exists` returns whether there is a file. -/
theorem pathExists_ok (data : Bytes) {present : Bool}
    (h : Leads FileSystem.serve (pathExists path) s trace (.ok present) t) :
    t = s ∧ (s.content path).isSome = present ∧ ∀ x ∈ trace, Full data x := by
  rcases leads_tryCatch.mp h with ⟨b, hb, hstat⟩ | ⟨e, v, b, c, hstat, hh, rfl⟩
  · cases hb
    obtain ⟨n, u, x, y, hs, hp, rfl⟩ := leads_bind_ok.mp hstat
    obtain ⟨rfl, hsize, hfull⟩ := statPath_ok data hs
    cases hp
    refine ⟨rfl, ?_, by simpa using hfull⟩
    have hsome := congrArg Option.isSome hsize
    rwa [Option.isSome_map] at hsome
  · rcases leads_bind.mp hstat with ⟨n, u, x, y, _, hp, _⟩ | ⟨e', he, hs⟩
    · cases hp
    · cases he
      obtain ⟨rfl, hmiss, ⟨code, rfl⟩, hfull⟩ := statPath_error data hs
      dsimp only at hh
      by_cases hc : code = UV_ENOENT
      · rw [if_pos hc] at hh
        cases hh
        exact ⟨rfl, by simp [hmiss (by rw [hc])], by simpa using hfull⟩
      · rw [if_neg hc] at hh
        cases hh

/-- The offset that `fs::append_file` writes at is the size of the file. -/
theorem appendOffset_ok (data : Bytes)
    (h : Leads FileSystem.serve (appendOffset path) s trace (.ok n) t) :
    t = s ∧ n = ((s.content path).getD []).length ∧ ∀ x ∈ trace, Full data x := by
  obtain ⟨present, u, before, after, hp, hl, rfl⟩ := leads_bind_ok.mp h
  obtain ⟨rfl, hpresent, hfull⟩ := pathExists_ok data hp
  cases present with
  | true =>
    obtain ⟨rfl, hsize, hfull'⟩ := statPath_ok data hl
    refine ⟨rfl, ?_, ?_⟩
    · obtain ⟨d, hd, hlen⟩ := Option.map_eq_some_iff.mp hsize
      rw [hd]
      exact hlen.symm
    · intro x hx
      exact (List.mem_append.mp hx).elim (hfull x) (hfull' x)
  | false =>
    cases hl
    simp only [Option.isSome_eq_false_iff, Option.isNone_iff_eq_none] at hpresent
    simpa [hpresent] using hfull

/-- Both ways to put `data` into a file. -/
inductive Update
  | write
  | append

def Update.call : Update → String → Bytes → Nat → Task Unit
  | write => writeFile
  | append => appendFile

/-- What a call that has put `data` into the file finds there. -/
def Update.kept : Update → FileSystem → String → Bytes
  | write, _, _ => []
  | append, s, path => (s.content path).getD []

/-- From the opened file to the end of the call. -/
theorem written_ok {g g' : File} {before after : List (Query × Answer)} (ho : 0 ≤ f.fd)
    (hp : s.path? f.fd = some path) (hd : s.content path = some d)
    (hw : Leads FileSystem.serve (f.writeAt data d.length) s before (.ok n) u)
    (hc : Leads FileSystem.serve g.close u after (.ok g') t) :
    t.content path = some (d ++ data.take n) ∧
      ((∀ x ∈ before ++ after, Full data x) ↔ data.take n = data) := by
  obtain ⟨hcontent, hle, hiff⟩ := writeAt_ok ho hp hd hw
  obtain ⟨hkeep, hfull⟩ := close_ok data hc
  refine ⟨by rw [hkeep, hcontent], ?_⟩
  rw [List.take_eq_self_iff]
  constructor
  · intro hall
    have hb := hiff.mp fun x hx => hall x (List.mem_append_left _ hx)
    exact hb.ge
  · intro hge x hx
    rcases List.mem_append.mp hx with hx | hx
    · exact hiff.mpr (le_antisymm hle hge) x hx
    · exact hfull x hx

theorem writeFile_ok (h : Leads FileSystem.serve (writeFile path data mode) s trace (.ok ()) t) :
    ∃ n, t.content path = some (data.take n) ∧
      ((∀ x ∈ trace, Full data x) ↔ data.take n = data) := by
  obtain ⟨f, u, opening, rest, hopen, hrest, rfl⟩ := leads_bind_ok.mp h
  obtain ⟨ho, hzero, hp, hd, hfull⟩ := openPath_ok data hopen
  obtain ⟨x, v, writing, rest, hw, hclosing, rfl⟩ := leads_bind_ok.mp hrest
  obtain ⟨n, w, b, e, hwrite, hx, rfl⟩ := leads_bind_ok.mp (leads_unwinding_ok.mp hw)
  cases hx
  obtain ⟨g, x, closing, e, hclose, hpure, rfl⟩ := leads_bind_ok.mp hclosing
  cases hpure
  rw [hzero] at hwrite
  obtain ⟨hcontent, hiff⟩ := written_ok (d := []) ho hp hd hwrite hclose
  refine ⟨n, hcontent, ?_⟩
  rw [← hiff]
  simp only [List.append_nil, List.forall_mem_append]
  exact and_iff_right hfull

theorem appendFile_ok (h : Leads FileSystem.serve (appendFile path data mode) s trace (.ok ()) t) :
    ∃ n, t.content path = some ((s.content path).getD [] ++ data.take n) ∧
      ((∀ x ∈ trace, Full data x) ↔ data.take n = data) := by
  obtain ⟨offset, u, sizing, rest, hoffset, hrest, rfl⟩ := leads_bind_ok.mp h
  obtain ⟨rfl, rfl, hsizing⟩ := appendOffset_ok data hoffset
  obtain ⟨f, u, opening, rest, hopen, htail, rfl⟩ := leads_bind_ok.mp hrest
  obtain ⟨ho, hzero, hp, hd, hfull⟩ := openPath_ok data hopen
  obtain ⟨n, v, writing, rest, hw, hclosing, rfl⟩ := leads_bind_ok.mp htail
  obtain ⟨g, x, closing, e, hclose, hpure, rfl⟩ := leads_bind_ok.mp hclosing
  cases hpure
  obtain ⟨hcontent, hiff⟩ := written_ok ho hp hd (leads_unwinding_ok.mp hw) hclose
  refine ⟨n, hcontent, ?_⟩
  rw [← hiff]
  simp only [List.append_nil, List.forall_mem_append]
  exact ⟨fun hall => hall.2.2, fun hall => ⟨hsizing, hfull, hall⟩⟩

/-! ## The round trip -/

theorem update_ok {w : Update}
    (h : Leads FileSystem.serve (w.call path data mode) s trace (.ok ()) t) :
    ∃ n, t.content path = some (w.kept s path ++ data.take n) ∧
      ((∀ x ∈ trace, Full data x) ↔ data.take n = data) := by
  cases w with
  | write => exact writeFile_ok h
  | append => exact appendFile_ok h

/-- What `write_file` or `append_file` has put into the file is read back if and
only if its write has transferred all of it. -/
theorem update_reads_back (w : Update) (s : FileSystem) (path : String) (data : Bytes) (mode : Nat)
    (trace : List (Query × Answer)) (t : FileSystem)
    (h : Leads FileSystem.serve (w.call path data mode) s trace (.ok ()) t) :
    ReadsBack t path (w.kept s path ++ data) ↔ ∀ x ∈ trace, Full data x := by
  obtain ⟨n, hcontent, hiff⟩ := update_ok h
  rw [readsBack_iff hcontent, hiff, List.append_cancel_left_eq, eq_comm]

/-- `append_file` of two bytes to a file of one, where the write transfers `n`. -/
def appendTrace (n : Nat) : List (Query × Answer) :=
  [(.stat "log", { size := 1 }), (.stat "log", { size := 1 }),
    (.openPath "log" { creat := true, wronly := true } 420, { result := 3 }),
    (.write 3 [2, 3] 1, { result := n }), (.close 3, {})]

def oneByte : FileSystem := { content := fun path => if path = "log" then some [1] else none }

theorem append_whole_reads_back : ∃ t,
    Leads FileSystem.serve (appendFile "log" [2, 3] 420) oneByte (appendTrace 2) (.ok ()) t ∧
      ReadsBack t "log" [1, 2, 3] := by
  have hrun := leads_of_replay FileSystem.serve (appendFile "log" [2, 3] 420) oneByte
    ((appendTrace 2).map Prod.snd) rfl
  refine ⟨_, hrun, ?_⟩
  refine (update_reads_back .append oneByte "log" [2, 3] 420 (appendTrace 2) _ hrun).mpr ?_
  simp [appendTrace, Full]

/-- A write that transfers one byte of two is not seen to be short. -/
theorem append_part_is_lost : ¬ ∀ (w : Update) (s : FileSystem) (path : String) (data : Bytes)
    (mode : Nat) (trace : List (Query × Answer)) (t : FileSystem),
    Leads FileSystem.serve (w.call path data mode) s trace (.ok ()) t →
      ReadsBack t path (w.kept s path ++ data) := by
  intro h
  have hrun := leads_of_replay FileSystem.serve (appendFile "log" [2, 3] 420) oneByte
    ((appendTrace 1).map Prod.snd) rfl
  have hback := h .append oneByte "log" [2, 3] 420 _ _ hrun
  rw [readsBack_iff (d := [1, 2]) rfl] at hback
  cases hback

end LuvCoro.Content
