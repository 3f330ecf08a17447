import LuvCoro.Lib.FileTree

/-! # Paths as `std::filesystem::path` has them

A path as it is written, with its dots and its last separator, its lexically
normal form and its parent. A normal form is a number of `..` and then names. -/
namespace FileTree

inductive Element (N : Type)
  | name (n : N)
  | dot
  | dotDot
  deriving DecidableEq

/-- On POSIX, where there is no root name and slashes are not counted. -/
@[ext] structure FilePath (N : Type) where
  absolute : Bool := false
  elements : List (Element N) := []
  /-- There is a separator after the last filename. -/
  trailing : Bool := false
  ends : elements = [] → trailing = false := by simp
  deriving DecidableEq

variable {N : Type} {absolute removed : Bool} {stack elements : List (Element N)}
  {p : FilePath N}

namespace FilePath

def isEmpty (p : FilePath N) : Bool := !p.absolute && p.elements.isEmpty

/-- One filename, after those that are kept, the last of them first. It takes away
itself or the last one as well, and then a separator is left behind. -/
def reduce (absolute : Bool) (kept : List (Element N) × Bool) (e : Element N) :
    List (Element N) × Bool :=
  match e, kept.1 with
  | .name n, stack => (.name n :: stack, false)
  | .dot, stack => (stack, true)
  | .dotDot, .name _ :: stack => (stack, true)
  | .dotDot, stack => if absolute then (stack, true) else (.dotDot :: stack, false)

/-- The path of the filenames that are kept. -/
def assemble (absolute : Bool) (stack : List (Element N)) (trailing : Bool) : FilePath N :=
  match stack with
  | [] => if absolute then { absolute := true } else { elements := [.dot] }
  | .dotDot :: stack => { absolute := absolute, elements := (.dotDot :: stack).reverse }
  | e :: stack => { absolute := absolute, elements := (e :: stack).reverse, trailing := trailing }

/-- `lexically_normal` -/
def lexicallyNormal (p : FilePath N) : FilePath N :=
  if p.isEmpty then p
  else
    let kept := p.elements.foldl (reduce p.absolute) ([], false)
    assemble p.absolute kept.1 (kept.2 || p.trailing)

/-- `parent_path` -/
def parentPath (p : FilePath N) : FilePath N :=
  if p.elements.isEmpty then p
  else if p.trailing then { p with trailing := false, ends := fun _ => rfl }
  else { absolute := p.absolute, elements := p.elements.dropLast }

/-- The path up to its first `k` filenames. -/
def upTo (p : FilePath N) (k : Nat) : FilePath N :=
  { absolute := p.absolute, elements := p.elements.take k }

def size (p : FilePath N) : Nat := 2 * p.elements.length + p.trailing.toNat

/-! ## Normal forms -/

/-- The filenames of a normal form: as many `..` as `ups`, then names. -/
def plain (ups : Nat) (names : List N) : List (Element N) :=
  List.replicate ups .dotDot ++ names.map .name

/-- What is kept of a path, the last filename first. -/
def Kept (absolute : Bool) (stack : List (Element N)) : Prop :=
  ∃ ups names, stack = (plain ups names).reverse ∧ (absolute = true → ups = 0)

inductive IsNormal (p : FilePath N) : Prop
  | here : p = { elements := [.dot] } → IsNormal p
  | plain (ups : Nat) (names : List N) : p.elements = plain ups names →
      (p.absolute = true → ups = 0) → (names = [] → p.trailing = false) → p.isEmpty = false →
      IsNormal p

theorem plain_concat (ups : Nat) (names : List N) (n : N) :
    (plain ups (names ++ [n])).reverse = .name n :: (plain ups names).reverse := by
  simp [plain]

theorem plain_up (ups : Nat) :
    (plain (ups + 1) ([] : List N)).reverse = .dotDot :: (plain ups []).reverse := by
  simp only [plain, List.map_nil, List.append_nil, List.reverse_replicate]
  exact List.replicate_succ

/-- The last name on top, or only `..`. -/
theorem kept_cases (h : Kept absolute stack) :
    (∃ n rest, stack = .name n :: rest ∧ Kept absolute rest) ∨
      (absolute = true ∧ stack = [] ∨
        absolute = false ∧ ∃ ups, stack = (plain ups ([] : List N)).reverse) := by
  obtain ⟨ups, names, rfl, hups⟩ := h
  rcases List.eq_nil_or_concat names with rfl | ⟨init, n, rfl⟩
  · refine .inr ?_
    cases absolute with
    | true =>
      rw [hups rfl]
      exact .inl ⟨rfl, rfl⟩
    | false => exact .inr ⟨rfl, ups, rfl⟩
  · rw [List.concat_eq_append, plain_concat]
    exact .inl ⟨n, _, rfl, ups, init, rfl, hups⟩

theorem kept_reduce (h : Kept absolute stack) (e : Element N) :
    Kept absolute (reduce absolute (stack, removed) e).1 := by
  cases e with
  | name n =>
    obtain ⟨ups, names, rfl, hups⟩ := h
    exact ⟨ups, names ++ [n], (plain_concat ups names n).symm, hups⟩
  | dot => exact h
  | dotDot =>
    rcases kept_cases h with ⟨n, rest, rfl, hrest⟩ | ⟨rfl, rfl⟩ | ⟨rfl, ups, rfl⟩
    · exact hrest
    · exact h
    · cases ups with
      | zero => exact ⟨1, [], rfl, by simp⟩
      | succ ups =>
        rw [plain_up]
        exact ⟨ups + 2, [], by rw [plain_up, plain_up]; rfl, by simp⟩

theorem kept_foldl (elements : List (Element N)) {kept : List (Element N) × Bool}
    (h : Kept absolute kept.1) : Kept absolute (elements.foldl (reduce absolute) kept).1 := by
  induction elements generalizing kept with
  | nil => exact h
  | cons e elements ih => exact ih (kept_reduce h e)

/-- What is assembled of what is kept. -/
theorem isNormal_assemble (h : Kept absolute stack) (trailing : Bool) :
    IsNormal (assemble absolute stack trailing) := by
  have hshape := h
  obtain ⟨ups, names, hstack, hups⟩ := hshape
  rcases kept_cases h with ⟨n, rest, rfl, hrest⟩ | ⟨rfl, rfl⟩ | ⟨rfl, ups', rfl⟩
  · obtain ⟨ups', names', rfl, hups'⟩ := hrest
    refine .plain ups' (names' ++ [n]) ?_ hups' (by simp) ?_
    · show (Element.name n :: _).reverse = _
      rw [← plain_concat, List.reverse_reverse]
    · show (!absolute && (Element.name n :: _).reverse.isEmpty) = false
      simp
  · exact .plain 0 [] rfl (fun _ => rfl) (fun _ => rfl) rfl
  · cases ups' with
    | zero => exact .here rfl
    | succ ups' =>
      rw [plain_up]
      refine .plain (ups' + 1) [] ?_ (by simp [assemble]) (fun _ => rfl) ?_
      · show (Element.dotDot :: _).reverse = _
        rw [← plain_up, List.reverse_reverse]
      · show (!false && (Element.dotDot :: _).reverse.isEmpty) = false
        simp

theorem isNormal_lexicallyNormal (hp : p.isEmpty = false) : IsNormal p.lexicallyNormal := by
  unfold lexicallyNormal
  rw [if_neg (by simp [hp])]
  refine isNormal_assemble (kept_foldl _ ?_) _
  exact ⟨0, [], rfl, fun _ => rfl⟩

theorem foldl_names (names : List N) (stack : List (Element N)) :
    (names.map Element.name).foldl (reduce absolute) (stack, false) =
      ((names.map Element.name).reverse ++ stack, false) := by
  induction names generalizing stack with
  | nil => rfl
  | cons n names ih =>
    rw [List.map_cons, List.foldl_cons]
    refine (ih (.name n :: stack)).trans ?_
    simp

theorem foldl_ups (ups k : Nat) :
    (List.replicate ups Element.dotDot).foldl (reduce false)
        (List.replicate k (Element.dotDot : Element N), false) =
      (List.replicate (k + ups) .dotDot, false) := by
  induction ups generalizing k with
  | zero => rfl
  | succ ups ih =>
    rw [List.replicate_succ, List.foldl_cons]
    have hstep : reduce false (List.replicate k (Element.dotDot : Element N), false) .dotDot =
        (List.replicate (k + 1) .dotDot, false) := by
      cases k <;> rfl
    rw [hstep, ih, Nat.add_right_comm, Nat.add_assoc]

/-- All of a normal form is kept. -/
theorem foldl_plain (ups : Nat) (names : List N) (hups : absolute = true → ups = 0) :
    (plain ups names).foldl (reduce absolute) ([], false) = ((plain ups names).reverse, false) := by
  unfold plain
  rw [List.foldl_append]
  have hfirst : (List.replicate ups Element.dotDot).foldl (reduce absolute)
      (([] : List (Element N)), false) = (List.replicate ups .dotDot, false) := by
    cases absolute with
    | true =>
      rw [hups rfl]
      rfl
    | false =>
      have := foldl_ups (N := N) ups 0
      rwa [Nat.zero_add] at this
  rw [hfirst, foldl_names]
  simp

theorem assemble_plain {trailing : Bool} (ups : Nat) (names : List N)
    (hups : absolute = true → ups = 0) (hnames : names = [] → trailing = false)
    (hne : (!absolute && (plain ups names).isEmpty) = false) :
    (assemble absolute (plain ups names).reverse trailing).absolute = absolute ∧
      (assemble absolute (plain ups names).reverse trailing).elements = plain ups names ∧
      (assemble absolute (plain ups names).reverse trailing).trailing = trailing := by
  rcases List.eq_nil_or_concat names with rfl | ⟨init, n, rfl⟩
  · cases ups with
    | zero =>
      cases absolute with
      | true => exact ⟨rfl, rfl, (hnames rfl).symm⟩
      | false => cases hne
    | succ ups =>
      refine ⟨?_, ?_, ?_⟩
      · rw [plain_up]
        rfl
      · rw [plain_up]
        show (Element.dotDot :: _).reverse = _
        rw [← plain_up, List.reverse_reverse]
      · rw [plain_up]
        exact (hnames rfl).symm
  · rw [List.concat_eq_append, plain_concat]
    refine ⟨rfl, ?_, rfl⟩
    show (Element.name n :: _).reverse = _
    rw [← plain_concat, List.reverse_reverse]

theorem lexicallyNormal_of_isNormal (h : IsNormal p) : p.lexicallyNormal = p := by
  cases h with
  | here hp =>
    rw [hp]
    rfl
  | plain ups names he hups hnames hne =>
    have hkept : p.lexicallyNormal = assemble p.absolute (plain ups names).reverse p.trailing := by
      unfold lexicallyNormal
      rw [if_neg (by simp [hne]), he, foldl_plain ups names hups]
      rfl
    unfold isEmpty at hne
    rw [he] at hne
    obtain ⟨habs, hels, htr⟩ := assemble_plain ups names hups hnames hne
    rw [hkept]
    exact FilePath.ext habs (hels.trans he.symm) htr

/-- The parent of a normal form is one, where there is a parent. -/
theorem isNormal_parentPath (h : IsNormal p) (hne : p.parentPath.isEmpty = false) :
    IsNormal p.parentPath := by
  cases h with
  | here hp =>
    rw [hp] at hne
    cases hne
  | plain ups names he hups hnames hp =>
    unfold parentPath at hne ⊢
    split
    · exact .plain ups names he hups hnames hp
    · split
      · exact .plain ups names he hups (fun _ => rfl) hp
      · rename_i hels htr
        rw [if_neg hels, if_neg htr] at hne
        rcases List.eq_nil_or_concat names with rfl | ⟨init, n, rfl⟩
        · cases ups with
          | zero =>
            rw [he] at hels
            exact absurd rfl hels
          | succ ups =>
            refine .plain ups [] ?_ (fun ha => absurd (hups ha) (Nat.succ_ne_zero ups))
              (fun _ => rfl) hne
            show p.elements.dropLast = _
            rw [he]
            simp [plain]
        · refine .plain ups init ?_ hups (fun _ => rfl) hne
          show p.elements.dropLast = _
          rw [he, List.concat_eq_append]
          unfold plain
          rw [List.map_append, ← List.append_assoc]
          exact List.dropLast_concat

/-- If there is a name in a normal form, it ends with one. -/
theorem IsNormal.last (h : IsNormal p) {n : N} (hmem : .name n ∈ p.elements) :
    ∃ m, p.elements.getLast? = some (.name m) := by
  cases h with
  | here hp =>
    rw [hp] at hmem
    cases List.mem_singleton.mp hmem
  | plain ups names he =>
    rw [he] at hmem ⊢
    rcases List.eq_nil_or_concat names with rfl | ⟨init, m, rfl⟩
    · simp [FilePath.plain] at hmem
    · refine ⟨m, ?_⟩
      rw [List.concat_eq_append]
      unfold FilePath.plain
      rw [List.map_append, ← List.append_assoc]
      exact List.getLast?_concat

theorem elements_parentPath (h : p.elements ≠ []) (ht : p.trailing = false) :
    p.parentPath.elements = p.elements.dropLast := by
  unfold parentPath
  rw [if_neg (by simpa using h), if_neg (by simp [ht])]

theorem parentPath_subset {e : Element N} (h : e ∈ p.parentPath.elements) : e ∈ p.elements := by
  unfold parentPath at h
  split at h
  · exact h
  · split at h
    · exact h
    · exact List.mem_of_mem_dropLast h

/-! ## Sizes -/

/-- What a filename adds, with the separator that is left behind. -/
theorem size_reduce (kept : List (Element N) × Bool) (e : Element N) :
    2 * (reduce absolute kept e).1.length + (reduce absolute kept e).2.toNat ≤
      2 * kept.1.length + kept.2.toNat + 2 := by
  obtain ⟨stack, removed⟩ := kept
  have hone : (true).toNat = 1 := rfl
  have hzero : (false).toNat = 0 := rfl
  cases e with
  | name n =>
    simp only [reduce, List.length_cons]
    omega
  | dot =>
    simp only [reduce]
    omega
  | dotDot =>
    have hup : 2 * (if absolute then (stack, true) else (.dotDot :: stack, false)).1.length +
        (if absolute then (stack, true) else (.dotDot :: stack, false)).2.toNat ≤
        2 * stack.length + removed.toNat + 2 := by
      cases absolute with
      | true =>
        rw [if_pos rfl]
        dsimp only
        omega
      | false =>
        rw [if_neg (by simp)]
        dsimp only
        rw [List.length_cons]
        omega
    cases stack with
    | nil => exact hup
    | cons top stack =>
      cases top with
      | name n =>
        simp only [reduce, List.length_cons]
        omega
      | dot => exact hup
      | dotDot => exact hup

theorem size_foldl (elements : List (Element N)) (kept : List (Element N) × Bool) :
    2 * (elements.foldl (reduce absolute) kept).1.length +
        (elements.foldl (reduce absolute) kept).2.toNat ≤
      2 * kept.1.length + kept.2.toNat + 2 * elements.length := by
  induction elements generalizing kept with
  | nil => exact Nat.le_refl _
  | cons e elements ih =>
    have hstep := @size_reduce _ absolute kept e
    have hrest := ih (reduce absolute kept e)
    rw [List.foldl_cons, List.length_cons]
    omega

theorem size_assemble {trailing : Bool} (hne : absolute = true ∨ stack ≠ []) :
    (assemble absolute stack trailing).size ≤ 2 * stack.length + trailing.toNat := by
  cases stack with
  | nil =>
    rcases hne with rfl | hne
    · exact Nat.zero_le _
    · exact absurd rfl hne
  | cons top stack =>
    have hlen : ((top :: stack).reverse).length = (top :: stack).length := List.length_reverse
    cases top with
    | dotDot =>
      show 2 * (Element.dotDot :: stack).reverse.length + 0 ≤ _
      omega
    | name n =>
      show 2 * (Element.name n :: stack).reverse.length + trailing.toNat ≤ _
      omega
    | dot =>
      show 2 * (Element.dot :: stack).reverse.length + trailing.toNat ≤ _
      omega

theorem size_lexicallyNormal (p : FilePath N) : p.lexicallyNormal.size ≤ p.size := by
  unfold lexicallyNormal
  by_cases hp : p.isEmpty = true
  · rw [if_pos hp]
  · rw [if_neg hp]
    have hfold := @size_foldl _ p.absolute p.elements ([], false)
    generalize p.elements.foldl (reduce p.absolute) ([], false) = kept at hfold
    obtain ⟨stack, removed⟩ := kept
    have hor : (removed || p.trailing).toNat ≤ removed.toNat + p.trailing.toNat := by
      cases removed <;> cases p.trailing <;> decide
    have hzero : (false).toNat = 0 := rfl
    rw [List.length_nil] at hfold
    dsimp only at hfold ⊢
    show _ ≤ 2 * p.elements.length + p.trailing.toNat
    by_cases hne : p.absolute = true ∨ stack ≠ []
    · have := @size_assemble _ p.absolute stack (removed || p.trailing) hne
      omega
    · -- what is reduced to nothing becomes a dot
      rw [not_or, not_not] at hne
      obtain ⟨habs, rfl⟩ := hne
      have hels : 0 < p.elements.length := by
        rw [List.length_pos_iff]
        intro h
        unfold isEmpty at hp
        rw [h] at hp
        simp [habs] at hp
      rw [Bool.not_eq_true] at habs
      rw [habs]
      show 2 * 1 + 0 ≤ _
      omega

theorem size_parentPath (hne : p.parentPath ≠ p) : p.parentPath.size < p.size := by
  unfold parentPath at hne ⊢
  split
  · rename_i h
    rw [if_pos h] at hne
    exact absurd rfl hne
  · rename_i h
    split
    · rename_i htr
      show 2 * p.elements.length + 0 < 2 * p.elements.length + p.trailing.toNat
      rw [htr]
      exact Nat.lt_add_one _
    · show 2 * p.elements.dropLast.length + 0 < 2 * p.elements.length + p.trailing.toNat
      have hpos : 0 < p.elements.length := by
        rw [List.length_pos_iff]
        intro he
        rw [he] at h
        exact h rfl
      rw [List.length_dropLast]
      omega

end FilePath
end FileTree
