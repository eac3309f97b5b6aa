import CodeHealth.Digraph
import Mathlib.Data.List.Chain

/-!
# Closed walks

What a loop is, said without a search.  A closed walk is a non-empty list in which every element
leads to the next one and the last one back to the first; that last edge *closes* it.  A node of a
graph is *grounded* if no endless walk leaves it, so a graph whose nodes are all grounded has no
closed walk.
-/

namespace CodeHealth

variable {α β : Type}

structure IsClosedWalk (R : α → α → Prop) (w : List α) : Prop where
  ne_nil : w ≠ []
  chain : w.IsChain R
  closes : ∀ a ∈ w.getLast?, ∀ b ∈ w.head?, R a b

/-- The edge from the last element of a list back to the first one. -/
def closingEdge? (w : List α) : Option (α × α) :=
  match w.getLast?, w.head? with
  | some a, some b => some (a, b)
  | _, _ => none

def closingEdges (ws : List (List α)) : List (α × α) :=
  ws.filterMap closingEdge?

/-- A closed walk along `w` uses the edge from `a` to `b`. -/
def Traverses (w : List α) (a b : α) : Prop :=
  [a, b] <:+: w ∨ closingEdge? w = some (a, b)

/-! ## Lists and their edges -/

theorem closingEdge?_eq_some_iff {w : List α} {a b : α} :
    closingEdge? w = some (a, b) ↔ w.getLast? = some a ∧ w.head? = some b := by
  unfold closingEdge?
  split
  · next x y hx hy => simp [hx, hy]
  · next h =>
    simp only [reduceCtorEq, false_iff]
    rintro ⟨ha, hb⟩
    exact h a b ha hb

theorem mem_closingEdges {ws : List (List α)} {a b : α} :
    (a, b) ∈ closingEdges ws ↔ ∃ c ∈ ws, closingEdge? c = some (a, b) := by
  simp [closingEdges]

theorem closingEdges_subset {ws vs : List (List α)} (hsub : ws ⊆ vs) :
    closingEdges ws ⊆ closingEdges vs := by
  rintro ⟨a, b⟩ hab
  obtain ⟨c, hc, hab⟩ := mem_closingEdges.mp hab
  exact mem_closingEdges.mpr ⟨c, hsub hc, hab⟩

theorem isChain_iff_forall_consecutive {R : α → α → Prop} {w : List α} :
    w.IsChain R ↔ ∀ a b, [a, b] <:+: w → R a b := by
  constructor
  · intro h a b hab
    exact List.isChain_pair.mp <| List.IsChain.infix h hab
  · intro h
    exact (List.isChain_isInfix w).imp h

/-- In a closed walk every element has a successor. -/
theorem exists_traverses_of_mem {w : List α} {a : α} (ha : a ∈ w) : ∃ b ∈ w, Traverses w a b := by
  obtain ⟨l, r, rfl⟩ := List.append_of_mem ha
  cases r with
  | nil =>
    obtain ⟨b, hb⟩ : ∃ b, (l ++ [a]).head? = some b := by
      cases l with
      | nil => exact ⟨a, rfl⟩
      | cons b l => exact ⟨b, rfl⟩
    exact ⟨b, List.mem_of_head? hb, .inr (closingEdge?_eq_some_iff.mpr ⟨by simp, hb⟩)⟩
  | cons b r => exact ⟨b, by simp, .inl ⟨l, r, by simp⟩⟩

/-! ## Closed walks along a relation -/

section Walks

variable {R : α → α → Prop} {S : β → β → Prop}

/-- A closed walk is a non-empty list that traverses edges only. -/
theorem isClosedWalk_iff {w : List α} :
    IsClosedWalk R w ↔ w ≠ [] ∧ ∀ a b, Traverses w a b → R a b := by
  constructor
  · rintro ⟨hne, hc, hl⟩
    refine ⟨hne, ?_⟩
    rintro a b (hab | hab)
    · exact isChain_iff_forall_consecutive.mp hc a b hab
    · obtain ⟨ha, hb⟩ := closingEdge?_eq_some_iff.mp hab
      exact hl a ha b hb
  · rintro ⟨hne, hw⟩
    refine ⟨hne, isChain_iff_forall_consecutive.mpr fun a b hab ↦ hw a b (.inl hab), ?_⟩
    intro a ha b hb
    exact hw a b (.inr (closingEdge?_eq_some_iff.mpr ⟨ha, hb⟩))

theorem IsClosedWalk.map {w : List α} (f : α → β)
    (hf : ∀ a ∈ w, ∀ b ∈ w, R a b → S (f a) (f b)) (hw : IsClosedWalk R w) :
    IsClosedWalk S (w.map f) where
  ne_nil := by simpa using hw.ne_nil
  chain := by
    refine (List.isChain_map f).mpr (isChain_iff_forall_consecutive.mpr fun a b hab ↦ ?_)
    have hR : R a b := isChain_iff_forall_consecutive.mp hw.chain a b hab
    exact hf a (hab.subset (by simp)) b (hab.subset (by simp)) hR
  closes := by
    intro x hx y hy
    rw [List.getLast?_map] at hx
    rw [List.head?_map] at hy
    obtain ⟨a, ha, rfl⟩ := Option.map_eq_some_iff.mp hx
    obtain ⟨b, hb, rfl⟩ := Option.map_eq_some_iff.mp hy
    exact hf a (List.mem_of_getLast? ha) b (List.mem_of_head? hb) (hw.closes a ha b hb)

/-- If nothing leads to itself, a closed walk has at least two elements. -/
theorem IsClosedWalk.two_le_length {w : List α} (hR : ∀ a, ¬ R a a) (hw : IsClosedWalk R w) :
    2 ≤ w.length := by
  match w with
  | [] => exact absurd rfl hw.ne_nil
  | [a] => exact absurd (hw.closes a rfl a rfl) (hR a)
  | _ :: _ :: _ => simp

instance [DecidableRel R] (w : List α) : Decidable (IsClosedWalk R w) :=
  decidable_of_iff (w ≠ [] ∧ w.IsChain R ∧ ∀ a ∈ w.getLast?, ∀ b ∈ w.head?, R a b)
    ⟨fun ⟨hne, hc, hl⟩ ↦ ⟨hne, hc, hl⟩, fun ⟨hne, hc, hl⟩ ↦ ⟨hne, hc, hl⟩⟩

end Walks

namespace Digraph

/-! ## Closed walks of a graph -/

section Adjacency

variable [BEq α]

/-- `b` is among the neighbours of `a`. -/
def Adj (g : Digraph α) (a b : α) : Prop :=
  b ∈ g.neighbours a

def Acyclic (g : Digraph α) : Prop :=
  ∀ w, ¬ IsClosedWalk g.Adj w

/-- No endless walk leaves `a`. -/
def Grounded (g : Digraph α) (a : α) : Prop :=
  Acc (fun b a ↦ g.Adj a b) a

variable {g h : Digraph α}

instance [LawfulBEq α] : DecidableRel g.Adj :=
  fun a b ↦ inferInstanceAs (Decidable (b ∈ g.neighbours a))

theorem adj_iff {a b : α} : g.Adj a b ↔ ∃ ns, Assoc.get? a g = some ns ∧ b ∈ ns := by
  unfold Adj neighbours
  cases Assoc.get? a g with
  | none => simp
  | some ns => simp

theorem Grounded.mono {a : α} (hgh : ∀ a b, h.Adj a b → g.Adj a b) (ha : g.Grounded a) :
    h.Grounded a :=
  Subrelation.accessible (fun {b a} hab ↦ hgh a b hab) ha

/-- Nothing on a closed walk is grounded: its successor on the walk is not either. -/
theorem Grounded.notMem_closedWalk {a : α} {w : List α} (hw : IsClosedWalk g.Adj w)
    (ha : g.Grounded a) : a ∉ w := by
  induction ha with
  | intro a _ ih =>
    intro hmem
    obtain ⟨b, hb, hab⟩ := exists_traverses_of_mem hmem
    exact ih b ((isClosedWalk_iff.mp hw).2 a b hab) hb

theorem Acyclic.of_grounded (hg : ∀ a, g.Grounded a) : g.Acyclic := by
  intro w hw
  obtain ⟨a, ha⟩ := List.exists_mem_of_ne_nil w hw.ne_nil
  exact (hg a).notMem_closedWalk hw ha

end Adjacency

/-! ## Nodes and neighbours -/

section Lawful

variable [BEq α] [LawfulBEq α]

@[simp] theorem neighbours_cons_self (g : Digraph α) (a : α) (ns : List α) :
    neighbours ((a, ns) :: g) a = ns := by
  simp [neighbours, Assoc.get?]

@[simp] theorem neighbours_cons_of_ne {k a : α} (hka : k ≠ a) (g : Digraph α) (ns : List α) :
    neighbours ((k, ns) :: g) a = g.neighbours a := by
  simp [neighbours, Assoc.get?, hka]

theorem mem_keys_of_adj {g : Digraph α} {a b : α} (hab : g.Adj a b) : a ∈ Assoc.keys g := by
  induction g with
  | nil => exact absurd hab (by simp [Adj, neighbours, Assoc.get?])
  | cons e g ih =>
    obtain ⟨k, ns⟩ := e
    by_cases hka : k = a
    · simp [Assoc.keys, hka]
    · rw [Adj, neighbours_cons_of_ne hka] at hab
      exact List.mem_cons_of_mem k (ih hab)

end Lawful

/-! ## Deleting edges -/

section Delete

variable [BEq α]

/-- The graph without some edges. -/
def deleteEdges (g : Digraph α) (es : List (α × α)) : Digraph α :=
  g.map fun (a, ns) ↦ (a, ns.filter fun b ↦ !es.contains (a, b))

variable [LawfulBEq α]

theorem neighbours_deleteEdges (g : Digraph α) (es : List (α × α)) (a : α) :
    (g.deleteEdges es).neighbours a =
      (g.neighbours a).filter fun b ↦ !es.contains (a, b) := by
  induction g with
  | nil => simp [deleteEdges, neighbours, Assoc.get?]
  | cons e g ih =>
    obtain ⟨k, ns⟩ := e
    have hcons : deleteEdges ((k, ns) :: g) es =
        (k, ns.filter fun b ↦ !es.contains (k, b)) :: deleteEdges g es := rfl
    rw [hcons]
    by_cases hka : k = a
    · subst hka
      simp
    · rw [neighbours_cons_of_ne hka, neighbours_cons_of_ne hka, ih]

theorem adj_deleteEdges {g : Digraph α} {es : List (α × α)} {a b : α} :
    (g.deleteEdges es).Adj a b ↔ g.Adj a b ∧ (a, b) ∉ es := by
  simp [Adj, neighbours_deleteEdges]

theorem Grounded.deleteEdges_mono {g : Digraph α} {es fs : List (α × α)} {a : α} (hsub : es ⊆ fs)
    (ha : (g.deleteEdges es).Grounded a) : (g.deleteEdges fs).Grounded a := by
  refine ha.mono fun a b hab ↦ ?_
  obtain ⟨hadj, hnot⟩ := adj_deleteEdges.mp hab
  exact adj_deleteEdges.mpr ⟨hadj, fun hes ↦ hnot (hsub hes)⟩

end Delete

end Digraph

end CodeHealth
