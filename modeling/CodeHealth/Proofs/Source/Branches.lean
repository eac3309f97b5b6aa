import CodeHealth.Source.Tree
import Mathlib.Data.Set.Card

/-!
# Branches below a tree

A part of a tree is told by its address: the places of the children to go down to.  The loop that
counts branches takes trees off a stack and puts their children on it; what it adds is the number of
branches in the trees that are still on the stack, so it counts each address of a branch once.
-/

namespace CodeHealth.Source.Tree

/-- To prove something of all trees, prove it of a tree if it holds of its children. -/
@[elab_as_elim]
theorem induction {motive : Tree → Prop}
    (step : ∀ t : Tree, (∀ u ∈ t.children, motive u) → motive t) (t : Tree) : motive t := by
  refine @Tree.rec motive (fun ts ↦ ∀ u ∈ ts, motive u) (fun gap x ↦ step _ ?_)
    (fun k ts hts ↦ step _ hts) ?_ ?_ t
  · exact fun u hu ↦ absurd hu List.not_mem_nil
  · exact fun u hu ↦ absurd hu List.not_mem_nil
  · exact fun u us hu hus ↦ List.forall_mem_cons.mpr ⟨hu, hus⟩

/-! ## Addresses -/

/-- The children to go down to one after the other, each by its place. -/
abbrev Address := List Nat

/-- The part of a tree at an address. -/
def at? (t : Tree) : Address → Option Tree
  | [] => some t
  | i :: a => t.children[i]?.bind fun u ↦ u.at? a

theorem at?_cons_eq_some_iff {t v : Tree} {i : Nat} {a : Address} :
    t.at? (i :: a) = some v ↔ ∃ u, t.children[i]? = some u ∧ u.at? a = some v :=
  Option.bind_eq_some_iff

/-- The addresses of the branches in a tree. -/
def branchesIn (t : Tree) : Set Address :=
  {a | ∃ u, t.at? a = some u ∧ u.isBranch = true}

/-- The addresses of the branches below a tree, at any depth. -/
def branchesBelow (t : Tree) : Set Address :=
  {a | a ≠ [] ∧ a ∈ t.branchesIn}

/-- For each tree of a list, the addresses that `S` gives for it, seen from above the list. -/
def among (S : Tree → Set Address) (ts : List Tree) : Set Address :=
  {x | ∃ i u a, ts[i]? = some u ∧ a ∈ S u ∧ x = i :: a}

theorem branchesBelow_eq_among (t : Tree) : t.branchesBelow = among branchesIn t.children := by
  ext x
  constructor
  · rintro ⟨hne, v, hv, hbranch⟩
    obtain ⟨i, a, rfl⟩ := List.exists_cons_of_ne_nil hne
    obtain ⟨u, hu, hv⟩ := at?_cons_eq_some_iff.mp hv
    exact ⟨i, u, a, hu, ⟨v, hv, hbranch⟩, rfl⟩
  · rintro ⟨i, u, a, hu, ⟨v, hv, hbranch⟩, rfl⟩
    exact ⟨List.cons_ne_nil i a, v, at?_cons_eq_some_iff.mpr ⟨u, hu, hv⟩, hbranch⟩

theorem branchesIn_eq (t : Tree) :
    t.branchesIn = if t.isBranch then insert [] t.branchesBelow else t.branchesBelow := by
  have hroot : [] ∈ t.branchesIn ↔ t.isBranch = true := by simp [branchesIn, at?]
  ext x
  by_cases hx : x = []
  · subst hx
    split <;> simp_all [branchesBelow]
  · split <;> simp [branchesBelow, hx]

/-! ## How many -/

/-- The sum of what `f` gives for the trees of a list. -/
def total (f : Tree → Nat) : List Tree → Nat
  | [] => 0
  | t :: ts => f t + total f ts

theorem total_append (f : Tree → Nat) (ts us : List Tree) :
    total f (ts ++ us) = total f ts + total f us := by
  induction ts with
  | nil => simp [total]
  | cons t ts ih => rw [List.cons_append, total, ih, total, Nat.add_assoc]

theorem total_reverse (f : Tree → Nat) (ts : List Tree) : total f ts.reverse = total f ts := by
  induction ts with
  | nil => rfl
  | cons t ts ih =>
    rw [List.reverse_cons, total_append, ih, total, total, total, Nat.add_zero, Nat.add_comm]

section Among

variable {S : Tree → Set Address} {ts : List Tree}

theorem among_concat (S : Tree → Set Address) (ts : List Tree) (u : Tree) :
    among S (ts ++ [u]) = among S ts ∪ (ts.length :: ·) '' S u := by
  ext x
  constructor
  · rintro ⟨i, v, a, hv, ha, rfl⟩
    rcases Nat.lt_or_ge i ts.length with hi | hi
    · rw [List.getElem?_append_left hi] at hv
      exact .inl ⟨i, v, a, hv, ha, rfl⟩
    · rw [List.getElem?_append_right hi, List.getElem?_singleton] at hv
      obtain ⟨hi', hv⟩ := Option.ite_none_right_eq_some.mp hv
      obtain rfl := Option.some.inj hv
      exact .inr ⟨a, ha, by rw [Nat.le_antisymm hi (Nat.sub_eq_zero_iff_le.mp hi')]⟩
  · rintro (⟨i, v, a, hv, ha, rfl⟩ | ⟨a, ha, rfl⟩)
    · have hi := (List.getElem?_eq_some_iff.mp hv).1
      exact ⟨i, v, a, by rw [List.getElem?_append_left hi, hv], ha, rfl⟩
    · exact ⟨ts.length, u, a, by simp, ha, rfl⟩

/-- Addresses behind different trees of a list are different, so their numbers add up. -/
theorem ncard_among (hS : ∀ u ∈ ts, (S u).Finite) :
    (among S ts).Finite ∧ (among S ts).ncard = total (fun u ↦ (S u).ncard) ts := by
  induction ts using List.reverseRecOn with
  | nil =>
    have hnone : among S [] = ∅ := by
      ext x
      simp [among]
    simp [hnone, total]
  | append_singleton ts u ih =>
    obtain ⟨hfinite, hcard⟩ := ih fun v hv ↦ hS v (List.mem_append_left _ hv)
    have hu : (S u).Finite := hS u (List.mem_append_right _ List.mem_cons_self)
    have hinj : Function.Injective (ts.length :: · : Address → Address) :=
      fun a b hab ↦ (List.cons.inj hab).2
    have hdisjoint : Disjoint (among S ts) ((ts.length :: ·) '' S u) := by
      rw [Set.disjoint_left]
      rintro x ⟨i, v, a, hv, -, rfl⟩ ⟨b, -, hb⟩
      have hi := (List.getElem?_eq_some_iff.mp hv).1
      exact absurd (List.cons.inj hb).1.symm hi.ne
    rw [among_concat, total_append, ← hcard]
    refine ⟨hfinite.union (hu.image _), ?_⟩
    rw [Set.ncard_union_eq hdisjoint hfinite (hu.image _), Set.ncard_image_of_injective _ hinj]
    rfl

end Among

theorem finite_branchesIn (t : Tree) : t.branchesIn.Finite := by
  induction t using Tree.induction with
  | step t ih =>
    have hbelow : t.branchesBelow.Finite := t.branchesBelow_eq_among ▸ (ncard_among ih).1
    rw [branchesIn_eq]
    split
    · exact hbelow.insert []
    · exact hbelow

theorem finite_branchesBelow (t : Tree) : t.branchesBelow.Finite :=
  t.finite_branchesIn.subset fun _ ha ↦ ha.2

theorem ncard_branchesBelow (t : Tree) :
    t.branchesBelow.ncard = total (fun u ↦ u.branchesIn.ncard) t.children := by
  rw [branchesBelow_eq_among]
  exact (ncard_among fun u _ ↦ u.finite_branchesIn).2

theorem ncard_branchesIn (t : Tree) :
    t.branchesIn.ncard =
      (if t.isBranch then 1 else 0) + total (fun u ↦ u.branchesIn.ncard) t.children := by
  rw [← ncard_branchesBelow, branchesIn_eq]
  split
  · have hroot : [] ∉ t.branchesBelow := fun h ↦ h.1 rfl
    rw [Set.ncard_insert_of_notMem hroot t.finite_branchesBelow, Nat.add_comm]
  · rw [Nat.zero_add]

/-- What the loop has counted and what is left on the stack make up the number of branches. -/
theorem addBranches_eq (n : Nat) (stack : List Tree) :
    addBranches n stack = n + total (fun t ↦ t.branchesIn.ncard) stack := by
  fun_induction addBranches n stack with
  | case1 n => rfl
  | case2 n t stack ih =>
    simp only [dite_eq_ite] at ih
    rw [ih, total_append, total_reverse, total, ncard_branchesIn]
    split <;> omega

theorem branchCount_eq (t : Tree) : t.branchCount = t.branchesBelow.ncard := by
  rw [branchCount, addBranches_eq, total_reverse, ← ncard_branchesBelow, Nat.zero_add]

end CodeHealth.Source.Tree
