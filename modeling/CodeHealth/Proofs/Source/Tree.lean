import CodeHealth.Proofs.Text.ByteIndex
import Mathlib.Logic.Relation

/-!
# Places of trees

The children of a placed tree lie side by side, in order.  If no part of the tree is hollow, they
also lie inside it, behind its gap; and if its text stands in a document, it begins and ends between
characters of the document.
-/

namespace CodeHealth.Source

namespace Tree

@[simp] theorem textAll_append (ts us : List Tree) :
    textAll (ts ++ us) = textAll ts ++ textAll us := by
  induction ts with
  | nil => simp [textAll]
  | cons t ts ih => rw [List.cons_append, textAll, ih, textAll, List.append_assoc]

/-- A tree without hollow parts: tokens have characters and nodes have children. -/
inductive Solid : Tree → Prop
  | token {gap text : Text} (hne : text ≠ []) : Solid (.token gap text)
  | node {k : Kind} {ts : List Tree} (hne : ts ≠ []) (hall : ∀ t ∈ ts, Solid t) : Solid (.node k ts)

theorem Solid.of_mem_children {t u : Tree} (h : t.Solid) (hu : u ∈ t.children) : u.Solid := by
  cases h with
  | token _ => exact absurd hu List.not_mem_nil
  | node _ hall => exact hall u hu

/-- A solid tree begins with its first token and the gap before it. -/
theorem Solid.exists_first? {t : Tree} (h : t.Solid) :
    ∃ gap token rest, t.first? = some (gap, token) ∧ token ≠ [] ∧ t.text = gap ++ token ++ rest := by
  induction h with
  | @token gap text hne => exact ⟨gap, text, [], rfl, hne, (List.append_nil _).symm⟩
  | @node k ts hne hall ih =>
    obtain ⟨t, ts, rfl⟩ := List.exists_cons_of_ne_nil hne
    obtain ⟨gap, token, rest, hfirst, htoken, htext⟩ := ih t List.mem_cons_self
    refine ⟨gap, token, rest ++ textAll ts, ?_, htoken, ?_⟩
    · rw [first?, firstAll?, hfirst, Option.some_or]
    · rw [text, textAll, htext, List.append_assoc _ rest]

end Tree

namespace Placed

open CodeHealth.Source.Tree

variable {t : Text} {p q : Placed}

/-! ## Rows -/

section Row

variable {b : Nat} {ts : List Tree}

theorem row_append (b : Nat) (ts us : List Tree) :
    row b (ts ++ us) = row b ts ++ row (b + byteSize (textAll ts)) us := by
  induction ts generalizing b with
  | nil => simp [row, textAll, byteSize]
  | cons t ts ih =>
    rw [List.cons_append, row, ih, row, textAll, byteSize_append, Nat.add_assoc]
    rfl

theorem base_le_of_mem_row (h : q ∈ row b ts) : b ≤ q.base := by
  induction ts generalizing b with
  | nil => exact absurd h List.not_mem_nil
  | cons u ts ih =>
    rcases List.mem_cons.mp h with rfl | h
    · exact Nat.le_refl _
    · exact Nat.le_trans (Nat.le_add_right _ _) (ih h)

theorem stop_le_of_mem_row (h : q ∈ row b ts) : q.stop ≤ b + byteSize (textAll ts) := by
  induction ts generalizing b with
  | nil => exact absurd h List.not_mem_nil
  | cons u ts ih =>
    rw [textAll, byteSize_append, ← Nat.add_assoc]
    rcases List.mem_cons.mp h with rfl | h
    · exact Nat.le_add_right _ _
    · exact ih h

theorem base_le_start (p : Placed) : p.base ≤ p.start :=
  Nat.le_add_right _ _

theorem pairwise_row (b : Nat) (ts : List Tree) :
    (row b ts).Pairwise fun p q ↦ p.stop ≤ q.start := by
  induction ts generalizing b with
  | nil => exact .nil
  | cons u ts ih =>
    refine .cons (fun q hq ↦ ?_) (ih _)
    exact Nat.le_trans (base_le_of_mem_row hq) q.base_le_start

end Row

/-! ## Trees in a document -/

/-- A solid tree whose text stands in `t` where it is placed. -/
structure Fits (t : Text) (p : Placed) : Prop where
  solid : p.tree.Solid
  stands : ∃ before, p.base = byteSize before ∧ before ++ p.tree.text <+: t

theorem fits_of_mem_row {ts : List Tree} (before : Text) (hall : ∀ u ∈ ts, u.Solid)
    (h : before ++ textAll ts <+: t) (hq : q ∈ row (byteSize before) ts) : q.Fits t := by
  induction ts generalizing before with
  | nil => exact absurd hq List.not_mem_nil
  | cons u ts ih =>
    rw [textAll, ← List.append_assoc] at h
    rcases List.mem_cons.mp hq with rfl | hq
    · exact ⟨hall u List.mem_cons_self, before, rfl, (List.prefix_append _ _).trans h⟩
    · rw [← byteSize_append] at hq
      exact ih (before ++ u.text) (fun v hv ↦ hall v (List.mem_cons_of_mem u hv)) h hq

namespace Fits

theorem start_lt_stop (h : p.Fits t) : p.start < p.stop := by
  obtain ⟨gap, token, rest, hfirst, htoken, htext⟩ := h.solid.exists_first?
  have := byteSize_pos htoken
  simp only [start, stop, hfirst, htext, byteSize_append, Option.map_some, Option.getD_some]
  omega

theorem isBoundary_start (h : p.Fits t) : t.IsBoundary p.start := by
  obtain ⟨gap, token, rest, hfirst, -, htext⟩ := h.solid.exists_first?
  obtain ⟨before, hbase, hstands⟩ := h.stands
  refine ⟨before ++ gap, ?_, ?_⟩
  · rw [htext, List.append_assoc, ← List.append_assoc before] at hstands
    exact (List.prefix_append _ _).trans hstands
  · rw [start, hfirst, hbase, byteSize_append]
    rfl

theorem isBoundary_stop (h : p.Fits t) : t.IsBoundary p.stop := by
  obtain ⟨before, hbase, hstands⟩ := h.stands
  exact ⟨_, hstands, by rw [stop, hbase, byteSize_append]⟩

theorem of_mem_children (h : p.Fits t) (hq : q ∈ p.children) : q.Fits t := by
  obtain ⟨before, hbase, hstands⟩ := h.stands
  rw [children, hbase] at hq
  refine fits_of_mem_row before (fun u hu ↦ h.solid.of_mem_children hu) ?_ hq
  cases htree : p.tree with
  | token gap text =>
    rw [htree] at hq
    exact absurd hq List.not_mem_nil
  | node k ts =>
    rw [htree] at hstands
    exact hstands

/-- A child does not begin before its parent: it is the first one, or behind all of it. -/
theorem start_le (h : p.Fits t) (hq : q ∈ p.children) : p.start ≤ q.start := by
  obtain ⟨b, tree⟩ := p
  cases h.solid with
  | token _ => exact absurd hq List.not_mem_nil
  | @node k ts hne hall =>
    obtain ⟨u, ts, rfl⟩ := List.exists_cons_of_ne_nil hne
    obtain ⟨gap, token, rest, hfirst, -, htext⟩ := (hall u List.mem_cons_self).exists_first?
    have hstart : (⟨b, .node k (u :: ts)⟩ : Placed).start = b + byteSize gap := by
      rw [start, first?, firstAll?, hfirst]
      rfl
    rw [hstart]
    rcases List.mem_cons.mp hq with rfl | hq
    · rw [start, hfirst]
      exact Nat.le_refl _
    · have hbase : b + byteSize u.text ≤ q.base := base_le_of_mem_row hq
      have := q.base_le_start
      rw [htext, byteSize_append, byteSize_append] at hbase
      omega

theorem stop_le (h : p.Fits t) (hq : q ∈ p.children) : q.stop ≤ p.stop := by
  obtain ⟨b, tree⟩ := p
  cases h.solid with
  | token _ => exact absurd hq List.not_mem_nil
  | node _ _ => exact stop_le_of_mem_row hq

end Fits

theorem pairwise_children (p : Placed) : p.children.Pairwise fun q q' ↦ q.stop ≤ q'.start :=
  pairwise_row _ _

theorem mem_children_of_child? {k : Kind} (h : p.child? k = some q) : q ∈ p.children :=
  List.mem_of_find?_eq_some h

/-- The second tree is the first, or lies below it at any depth. -/
def Below : Placed → Placed → Prop :=
  Relation.ReflTransGen fun p q ↦ q ∈ p.children

/-- What lies below a tree that fits into a document does so too, inside of it. -/
theorem Fits.of_below (h : p.Fits t) (hq : p.Below q) :
    q.Fits t ∧ p.start ≤ q.start ∧ q.stop ≤ p.stop := by
  induction hq with
  | refl => exact ⟨h, Nat.le_refl _, Nat.le_refl _⟩
  | tail _ hchild ih =>
    obtain ⟨hfits, hstart, hstop⟩ := ih
    exact ⟨hfits.of_mem_children hchild, Nat.le_trans hstart (hfits.start_le hchild),
      Nat.le_trans (hfits.stop_le hchild) hstop⟩

end Placed

end CodeHealth.Source
