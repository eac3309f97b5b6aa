import CodeHealth.Project.Discovery
import CodeHealth.Proofs.Project.Path
import Mathlib.Order.Monotone.Basic

/-!
# The order of ignore rules

Ignore files are read in the order of their paths, and of two rules about a path the later one
counts.  So the rules of a directory count against those of a directory above it only if its path
does not go on with a name before the one of ignore files.
-/

namespace CodeHealth.Project

/-- A line of an ignore file, moved to the root of the project. -/
structure RuleLine where
  /-- The components of the ignore file. -/
  file : List Text
  line : Text
  deriving DecidableEq, Repr

/-- The lines of ignore files, one file after the other. -/
def linesOf (root : Path) : List (List Text × FileTree) → Except ReadFault (List RuleLine)
  | [] => .ok []
  | (parts, f) :: files => do
    let lines ← ignoreLines root parts f
    let more ← linesOf root files
    return lines.map (RuleLine.mk parts) ++ more

/-- The lines of the ignore files of a project. -/
def ruleLines (root : Path) (t : FileTree) : Except ReadFault (List RuleLine) :=
  linesOf root (ignoreFiles t)

theorem linesOf_map_line (root : Path) (files : List (List Text × FileTree)) :
    List.map RuleLine.line <$> linesOf root files =
      List.flatten <$> files.mapM fun (parts, f) ↦ ignoreLines root parts f := by
  induction files with
  | nil => rfl
  | cons e files ih =>
    simp only [List.mapM_cons, linesOf, map_bind, map_pure, List.map_append, List.flatten_cons,
      List.map_map, Function.comp_def, List.map_id']
    refine bind_congr fun lines ↦ ?_
    simpa only [bind_pure_comp, Functor.map_map] using congrArg ((lines ++ ·) <$> ·) ih

/-- The patterns of a project are those of its rule lines, in their order. -/
theorem ignorePatterns_eq (root : Path) (t : FileTree) :
    ignorePatterns root t = (do
      let ls ← (ruleLines root t).mapError DiscoveryFault.unreadable
      (Ignore.patterns (ls.map RuleLine.line)).mapError .pattern) := by
  -- Both sides read the patterns of one list of lines.
  let read (lines : Except ReadFault (List Text)) : Except DiscoveryFault (List Ignore.Pattern) :=
    lines.mapError .unreadable >>= fun lines ↦ (Ignore.patterns lines).mapError .pattern
  calc ignorePatterns root t
    _ = read (List.flatten <$> (ignoreFiles t).mapM fun (parts, f) ↦ ignoreLines root parts f) := by
      rw [ignorePatterns]
      cases (ignoreFiles t).mapM fun (parts, f) ↦ ignoreLines root parts f <;> rfl
    _ = read (List.map RuleLine.line <$> ruleLines root t) := by
      rw [ruleLines, linesOf_map_line]
    _ = _ := by cases ruleLines root t <;> rfl

variable {root : Path} {t : FileTree} {ls : List RuleLine}

/-! ## The lines stand in the order of their files -/

theorem linesOf_cons_eq_ok {e : List Text × FileTree} {files : List (List Text × FileTree)}
    (h : linesOf root (e :: files) = .ok ls) :
    ∃ lines more, linesOf root files = .ok more ∧
      ls = List.map (RuleLine.mk e.1) lines ++ more := by
  obtain ⟨parts, f⟩ := e
  rw [linesOf] at h
  cases hlines : ignoreLines root parts f with
  | error e => cases hlines ▸ h
  | ok lines =>
    cases hmore : linesOf root files with
    | error e => cases hlines ▸ hmore ▸ h
    | ok more =>
      rw [hlines, hmore] at h
      cases h
      exact ⟨lines, more, rfl, rfl⟩

theorem mem_linesOf {files : List (List Text × FileTree)} (h : linesOf root files = .ok ls)
    {x : RuleLine} (hx : x ∈ ls) : ∃ e ∈ files, e.1 = x.file := by
  induction files generalizing ls with
  | nil =>
    cases h
    exact absurd hx List.not_mem_nil
  | cons e files ih =>
    obtain ⟨lines, more, hmore, rfl⟩ := linesOf_cons_eq_ok h
    rcases List.mem_append.mp hx with hx | hx
    · obtain ⟨line, -, rfl⟩ := List.mem_map.mp hx
      exact ⟨e, List.mem_cons_self, rfl⟩
    · obtain ⟨e', he', heq⟩ := ih hmore hx
      exact ⟨e', List.mem_cons_of_mem e he', heq⟩

theorem pairwise_linesOf {files : List (List Text × FileTree)}
    (hfiles : files.Pairwise fun a b ↦ a.1 ≤ b.1) (h : linesOf root files = .ok ls) :
    ls.Pairwise fun x y ↦ x.file ≤ y.file := by
  induction files generalizing ls with
  | nil =>
    cases h
    exact List.Pairwise.nil
  | cons e files ih =>
    obtain ⟨lines, more, hmore, rfl⟩ := linesOf_cons_eq_ok h
    obtain ⟨hfirst, hfiles⟩ := List.pairwise_cons.mp hfiles
    refine List.pairwise_append.mpr ⟨?_, ih hfiles hmore, ?_⟩
    · exact List.pairwise_map.mpr (List.pairwise_of_forall fun _ _ ↦ le_rfl)
    · intro x hx y hy
      obtain ⟨line, -, rfl⟩ := List.mem_map.mp hx
      obtain ⟨e', he', heq⟩ := mem_linesOf hmore hy
      exact heq ▸ hfirst e' he'

theorem pairwise_ruleLines (h : ruleLines root t = .ok ls) :
    ls.Pairwise fun x y ↦ x.file ≤ y.file :=
  pairwise_linesOf (pairwise_mergeSort_on Prod.fst _) h

/-! ## Files in nested directories -/

/-- Every line of the file `a` stands before every line of the file `b`. -/
def Precedes (ls : List RuleLine) (a b : List Text) : Prop :=
  ls.Pairwise fun x y ↦ ¬ (x.file = b ∧ y.file = a)

instance (ls : List RuleLine) (a b : List Text) : Decidable (Precedes ls a b) :=
  inferInstanceAs (Decidable (List.Pairwise _ _))

/-- Among lines in the order of their files, those of one file stand before those of another exactly
if its path comes first. -/
theorem precedes_iff_lt {a b : List Text} (hsorted : ls.Pairwise fun x y ↦ x.file ≤ y.file)
    (hne : a ≠ b) (ha : ∃ x ∈ ls, x.file = a) (hb : ∃ y ∈ ls, y.file = b) :
    Precedes ls a b ↔ a < b := by
  constructor
  · intro hprecedes
    obtain ⟨x, hx, rfl⟩ := ha
    obtain ⟨y, hy, rfl⟩ := hb
    obtain ⟨i, hi, rfl⟩ := List.mem_iff_getElem.mp hx
    obtain ⟨j, hj, rfl⟩ := List.mem_iff_getElem.mp hy
    -- A line of each file is enough: where they stand tells how the files compare.
    rcases lt_trichotomy i j with hij | rfl | hji
    · exact lt_of_le_of_ne (List.pairwise_iff_getElem.mp hsorted i j hi hj hij) hne
    · exact absurd rfl hne
    · exact absurd ⟨rfl, rfl⟩ (List.pairwise_iff_getElem.mp hprecedes j i hj hi hji)
  · intro hlt
    refine hsorted.imp fun {x y} hle h ↦ ?_
    rw [h.1, h.2] at hle
    exact absurd hlt hle.not_gt

theorem ignoreFile_lt_iff (above rest : List Text) (name : Text) :
    above ++ [ignoreFileName] < above ++ name :: (rest ++ [ignoreFileName]) ↔
      ignoreFileName ≤ name := by
  have hmono : StrictMono (above ++ ·) := fun _ _ hlt ↦ List.append_left_lt hlt
  have hnil : [] < rest ++ [ignoreFileName] := by cases rest <;> exact List.nil_lt_cons _ _
  rw [hmono.lt_iff_lt, List.cons_lt_cons_iff, le_iff_lt_or_eq]
  simp only [hnil, and_true]

/-- Among the lines that the patterns of a project are read from, those of an ignore file stand
before those of one further down exactly if the first name on the way down does not come before the
name of ignore files. -/
theorem precedes_ruleLines_iff {above rest : List Text} {name : Text}
    (hread : ruleLines root t = .ok ls)
    (hupper : ∃ x ∈ ls, x.file = above ++ [ignoreFileName])
    (hlower : ∃ y ∈ ls, y.file = above ++ name :: (rest ++ [ignoreFileName])) :
    ignorePatterns root t = (Ignore.patterns (ls.map RuleLine.line)).mapError .pattern ∧
    (Precedes ls (above ++ [ignoreFileName]) (above ++ name :: (rest ++ [ignoreFileName])) ↔
      ignoreFileName ≤ name) := by
  constructor
  · rw [ignorePatterns_eq, hread]
    rfl
  · have hne : above ++ [ignoreFileName] ≠ above ++ name :: (rest ++ [ignoreFileName]) := by
      simp
    rw [precedes_iff_lt (pairwise_ruleLines hread) hne hupper hlower, ignoreFile_lt_iff]

/-- A project with the ignore rule `*.t` at its root and the rule `!a.t` in the directory `name`. -/
def layered (name : Text) : FileTree :=
  .directory [(ignoreFileName, .file [42, 46, 116, 10]),
    (name, .directory [(ignoreFileName, .file [33, 97, 46, 116, 10])])]

/-- The line `*.t` of the root. -/
def rootRule : RuleLine := ⟨[ignoreFileName], ['*', '.', 't']⟩

/-- The line `!a.t` of the directory `name`, moved to the root. -/
def nestedRule (name : Text) : RuleLine :=
  ⟨[name, ignoreFileName], '!' :: name ++ ['/', 'a', '.', 't']⟩

theorem mergeSort_pair {α : Type*} {le : α → α → Bool} (a b : α) :
    [a, b].mergeSort le = if le a b then [a, b] else [b, a] := by
  rw [List.mergeSort]
  simp [List.MergeSort.Internal.splitInTwo, List.cons_merge_cons]

theorem ruleLines_layered_letter :
    ruleLines ⟨[], []⟩ (layered ['s']) = .ok [rootRule, nestedRule ['s']] := by
  have hfiles : ignoreFiles (layered ['s']) =
      [([ignoreFileName], .file [42, 46, 116, 10]),
        ([['s'], ignoreFileName], .file [33, 97, 46, 116, 10])] :=
    (mergeSort_pair _ _).trans (if_pos (by decide))
  rw [ruleLines, hfiles]
  rfl

/-- The rules of `s` count against those of the root. -/
theorem precedes_ruleLines_iff_layered :
    ruleLines ⟨[], []⟩ (layered ['s']) = .ok [rootRule, nestedRule ['s']] ∧
    Precedes [rootRule, nestedRule ['s']] [ignoreFileName] [['s'], ignoreFileName] := by
  refine ⟨ruleLines_layered_letter, ?_⟩
  have hiff : _ ∧ (Precedes [rootRule, nestedRule ['s']] ([] ++ [ignoreFileName])
      ([] ++ ['s'] :: ([] ++ [ignoreFileName])) ↔ ignoreFileName ≤ ['s']) :=
    precedes_ruleLines_iff ruleLines_layered_letter ⟨rootRule, by simp, rfl⟩
      ⟨nestedRule ['s'], by simp, rfl⟩
  exact hiff.2.mpr (by decide)

/-- The rules of `(g)` come first, so that those of the root count against them. -/
theorem ruleLines_layered_bracket :
    ruleLines ⟨[], []⟩ (layered ['(', 'g', ')']) = .ok [nestedRule ['(', 'g', ')'], rootRule] ∧
    ¬ Precedes [nestedRule ['(', 'g', ')'], rootRule] [ignoreFileName]
      [['(', 'g', ')'], ignoreFileName] := by
  have hfiles : ignoreFiles (layered ['(', 'g', ')']) =
      [([['(', 'g', ')'], ignoreFileName], .file [33, 97, 46, 116, 10]),
        ([ignoreFileName], .file [42, 46, 116, 10])] :=
    (mergeSort_pair _ _).trans (if_neg (by decide))
  refine ⟨?_, by decide⟩
  rw [ruleLines, hfiles]
  rfl

end CodeHealth.Project
