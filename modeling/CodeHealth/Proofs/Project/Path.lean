import CodeHealth.Project.Path
import CodeHealth.Proofs.Text.Basic
import Mathlib.Data.Char
import Mathlib.Data.List.Lex

/-!
# The order of paths

Both comparisons are lexicographic orders: texts by their code points, and paths by their
components.  So sorting by them is sorting in a linear order.
-/

namespace CodeHealth

theorem Text.le_iff {s t : Text} : Text.le s t = true ↔ s ≤ t := by
  rw [le_iff_lt_or_eq]
  induction s generalizing t with
  | nil => cases t <;> simp [Text.le]
  | cons a s ih =>
    cases t with
    | nil => simp [Text.le]
    | cons b t =>
      simp only [Text.le, Bool.or_eq_true, Bool.and_eq_true, decide_eq_true_eq, beq_iff_eq, ih,
        List.cons_lt_cons_iff, List.cons.injEq]
      tauto

theorem partsLe_iff {p q : List Text} : partsLe p q = true ↔ p ≤ q := by
  rw [le_iff_lt_or_eq]
  induction p generalizing q with
  | nil => cases q <;> simp [partsLe]
  | cons a p ih =>
    cases q with
    | nil => simp [partsLe]
    | cons b q =>
      rw [partsLe, List.cons_lt_cons_iff, List.cons.injEq]
      by_cases hab : a = b
      · simp [hab, ih]
      · simp [hab, Text.le_iff, le_iff_lt_or_eq]

/-- Sorting by a path puts the paths in increasing order. -/
theorem pairwise_mergeSort_on {α : Type*} (path : α → List Text) (xs : List α) :
    (xs.mergeSort fun a b ↦ partsLe (path a) (path b)).Pairwise fun a b ↦ path a ≤ path b := by
  have hsorted : (xs.mergeSort fun a b ↦ partsLe (path a) (path b)).Pairwise
      fun a b ↦ partsLe (path a) (path b) = true := by
    refine List.pairwise_mergeSort (fun a b c hab hbc ↦ ?_) (fun a b ↦ ?_) xs
    · exact partsLe_iff.mpr (le_trans (partsLe_iff.mp hab) (partsLe_iff.mp hbc))
    · simpa [partsLe_iff] using le_total (path a) (path b)
  exact hsorted.imp partsLe_iff.mp

/-- Sorting paths without repetition puts them in strictly increasing order. -/
theorem pairwise_lt_mergeSort_partsLe {ps : List (List Text)} (hps : ps.Nodup) :
    (ps.mergeSort partsLe).Pairwise (· < ·) := by
  have hnodup : (ps.mergeSort partsLe).Nodup := (List.mergeSort_perm ps partsLe).nodup_iff.mpr hps
  exact (pairwise_mergeSort_on id ps).imp₂ (fun _ _ hle hne ↦ lt_of_le_of_ne hle hne) hnodup

@[simp] theorem Path.append_parts (p : Path) (parts : List Text) :
    (p.append parts).parts = p.parts ++ parts := rfl

@[simp] theorem Path.append_root (p : Path) (parts : List Text) :
    (p.append parts).root = p.root := rfl

theorem Path.name_append (p : Path) {parts : List Text} (hparts : parts ≠ []) :
    (p.append parts).name = parts.getLastD [] := by
  simp [Path.name, List.getLastD_eq_getLast?, List.getLast?_append,
    List.getLast?_eq_some_getLast hparts]

theorem Path.joinParts_cons {parts : List Text} (name : Text) (hparts : parts ≠ []) :
    joinParts (name :: parts) = name ++ '/' :: joinParts parts := by
  obtain ⟨next, more, rfl⟩ := List.exists_cons_of_ne_nil hparts
  rw [joinParts, List.intercalate_cons_cons, List.append_assoc]
  rfl

/-- Components without slashes can be read back from their path. -/
theorem Path.cutAt_joinParts {parts : List Text} (hparts : parts ≠ [])
    (hslash : ∀ name ∈ parts, '/' ∉ name) : (joinParts parts).cutAt '/' = parts := by
  rw [Text.cutAt_eq_splitOn]
  exact List.splitOn_intercalate '/' hslash hparts

/-- So they are told apart by their path. -/
theorem Path.eq_of_joinParts_eq {p q : List Text} (hp : p ≠ []) (hq : q ≠ [])
    (hpslash : ∀ name ∈ p, '/' ∉ name) (hqslash : ∀ name ∈ q, '/' ∉ name)
    (h : joinParts p = joinParts q) : p = q := by
  rw [← cutAt_joinParts hp hpslash, h, cutAt_joinParts hq hqslash]

end CodeHealth
