import Mathlib.Data.List.Perm.Subperm

/-! # The different elements of a list -/

namespace CodeHealth

open scoped List

variable {β : Type} [BEq β] [LawfulBEq β]

theorem nodup_eraseDups (l : List β) : l.eraseDups.Nodup := by
  cases l with
  | nil => exact .nil
  | cons a l =>
    rw [List.eraseDups_cons, List.nodup_cons, List.mem_eraseDups]
    exact ⟨by simp, nodup_eraseDups _⟩
termination_by l.length
decreasing_by exact Nat.lt_succ_of_le (List.length_filter_le _ _)

theorem eraseDups_perm {l m : List β} (h : l ~ m) : l.eraseDups ~ m.eraseDups := by
  refine (List.perm_ext_iff_of_nodup (nodup_eraseDups l) (nodup_eraseDups m)).mpr fun a ↦ ?_
  rw [List.mem_eraseDups, List.mem_eraseDups, h.mem_iff]

theorem length_eraseDups_lt_iff {l : List β} : l.eraseDups.length < l.length ↔ ¬ l.Nodup := by
  have hsub : l.eraseDups <+~ l :=
    (nodup_eraseDups l).subperm fun _ ha ↦ List.mem_eraseDups.mp ha
  constructor
  · intro hlt hnodup
    have hperm : l.eraseDups ~ l :=
      (List.perm_ext_iff_of_nodup (nodup_eraseDups l) hnodup).mpr fun _ ↦ List.mem_eraseDups
    exact Nat.ne_of_lt hlt hperm.length_eq
  · intro hnot
    refine Nat.lt_of_le_of_ne hsub.length_le fun heq ↦ hnot ?_
    exact (hsub.perm_of_length_le (Nat.le_of_eq heq.symm)).nodup_iff.mp (nodup_eraseDups l)

end CodeHealth
