import CodeHealth.Duplication
import CodeHealth.Proofs.EditDistance
import Mathlib.Data.List.Perm.Basic
import Mathlib.Order.Basic

/-!
# Couples of functions

Similar pairs are found by going through the couples of a list, each once.  Since similarity is
symmetric, the couples that count do not depend on the order of the list.
-/

namespace CodeHealth

open scoped List

section Similarity

variable {α : Type} [Scalar α]

theorem similarity_comm (cap : Int) (s t : Text) :
    (similarity cap s t : α) = similarity cap t s := by
  simp only [similarity]
  rw [Bool.or_comm, Bool.and_comm, editDistance_comm, Nat.max_comm]

/-- Whether both normal forms have at most `cap` characters. -/
def WithinCap (cap : Int) (s t : Text) : Prop :=
  (normalForm s).length ≤ cap ∧ (normalForm t).length ≤ cap

instance (cap : Int) (s t : Text) : Decidable (WithinCap cap s t) :=
  inferInstanceAs (Decidable (_ ∧ _))

theorem WithinCap.mono {cap cap' : Int} {s t : Text} (h : WithinCap cap' s t) (hcap : cap' ≤ cap) :
    WithinCap cap s t :=
  ⟨Int.le_trans h.1 hcap, Int.le_trans h.2 hcap⟩

theorem similarity_of_not_withinCap {cap : Int} {s t : Text} (h : ¬ WithinCap cap s t) :
    (similarity cap s t : α) = Scalar.ofNat 0 := by
  rw [WithinCap, not_and_or, Int.not_le, Int.not_le] at h
  rw [similarity, if_pos (by simpa using h)]

theorem similarity_of_withinCap {cap : Int} {s t : Text} (h : WithinCap cap s t) :
    (similarity cap s t : α) =
      if normalForm s = [] ∧ normalForm t = [] then Scalar.ofNat 1
      else Scalar.sub (Scalar.ofNat 1) (Scalar.div
        (Scalar.ofNat (editDistance (normalForm s) (normalForm t)))
        (Scalar.ofNat (max (normalForm s).length (normalForm t).length))) := by
  have hshort : ¬ (cap < (normalForm s).length || cap < (normalForm t).length) := by
    simpa [WithinCap] using h
  rw [similarity, if_neg hshort]
  simp only [Bool.and_eq_true, List.isEmpty_iff]

/-- A lower cap leaves a similarity as it is, or takes it away. -/
theorem similarity_eq_or_of_cap_le {cap cap' : Int} (hcap : cap' ≤ cap) (s t : Text) :
    (similarity cap' s t : α) = similarity cap s t ∨
      (similarity cap' s t : α) = Scalar.ofNat 0 := by
  by_cases h : WithinCap cap' s t
  · left
    rw [similarity_of_withinCap h, similarity_of_withinCap (h.mono hcap)]
  · right
    exact similarity_of_not_withinCap h

end Similarity

/-! ## Couples -/

section Couples

variable {β γ : Type}

/-- The couples of a list, each once, in the order of the first and then the second. -/
def couples : List β → List (β × β)
  | [] => []
  | u :: rest => rest.map (Prod.mk u) ++ couples rest

theorem mem_of_mem_couples {us : List β} {p : β × β} (hp : p ∈ couples us) :
    p.1 ∈ us ∧ p.2 ∈ us := by
  induction us with
  | nil => exact absurd hp List.not_mem_nil
  | cons u us ih =>
    rcases List.mem_append.mp hp with hp | hp
    · obtain ⟨v, hv, rfl⟩ := List.mem_map.mp hp
      exact ⟨List.mem_cons_self, List.mem_cons_of_mem u hv⟩
    · exact ⟨List.mem_cons_of_mem u (ih hp).1, List.mem_cons_of_mem u (ih hp).2⟩

theorem couples_map (f : γ → β) (us : List γ) :
    couples (us.map f) = (couples us).map (Prod.map f f) := by
  induction us with
  | nil => rfl
  | cons u us ih =>
    rw [List.map_cons, couples, couples, ih, List.map_append, List.map_map, List.map_map]
    rfl

theorem pairwise_couples {r : β → β → Prop} {us : List β} (h : us.Pairwise r) :
    (couples us).Pairwise (Prod.Lex r r) := by
  induction h with
  | nil => exact .nil
  | cons hfirst hrest ih =>
    rw [couples, List.pairwise_append, List.pairwise_map]
    refine ⟨hrest.imp fun hv ↦ .right _ hv, ih, ?_⟩
    intro p hp q hq
    obtain ⟨v, -, rfl⟩ := List.mem_map.mp hp
    exact .left _ _ (hfirst q.1 (mem_of_mem_couples hq).1)

/-- The couples of an increasing list go from the lesser to the greater. -/
theorem mem_couples_iff [Preorder β] {us : List β} (h : us.Pairwise (· < ·)) {u v : β} :
    (u, v) ∈ couples us ↔ u ∈ us ∧ v ∈ us ∧ u < v := by
  induction h with
  | nil => simp [couples]
  | @cons w us hfirst _ ih =>
    rw [couples, List.mem_append, ih, List.mem_map, List.mem_cons, List.mem_cons]
    constructor
    · rintro (⟨v', hv, heq⟩ | ⟨hu, hv, hlt⟩)
      · obtain ⟨rfl, rfl⟩ := Prod.mk.inj heq
        exact ⟨.inl rfl, .inr hv, hfirst v' hv⟩
      · exact ⟨.inr hu, .inr hv, hlt⟩
    · rintro ⟨rfl | hu, rfl | hv, hlt⟩
      · exact absurd hlt (lt_irrefl _)
      · exact .inl ⟨v, hv, rfl⟩
      · exact absurd hlt (lt_asymm (hfirst u hu))
      · exact .inr ⟨hu, hv, hlt⟩

/-- If both orders of a couple give the same, all couples give the same in any order of the list. -/
theorem flatMap_couples_perm {us vs : List β} (h : us ~ vs) {f : β × β → List γ}
    (hf : ∀ p, f p ~ f p.swap) : (couples us).flatMap f ~ (couples vs).flatMap f := by
  induction h with
  | nil => exact .nil
  | cons u h ih =>
    rw [couples, couples, List.flatMap_append, List.flatMap_append]
    exact ((h.map _).flatMap_right f).append ih
  | swap u v us =>
    -- The couple of `u` and `v` turns round; the couples of either with the rest change places.
    simp only [couples, List.map_cons, List.cons_append, List.flatMap_cons, List.flatMap_append]
    refine (hf (v, u)).append ?_
    exact List.perm_append_comm_assoc _ _ _
  | trans _ _ ih ih' => exact ih.trans ih'

end Couples

namespace Comparison

variable {α : Type} [Scalar α] (c : Comparison α)

theorem validate_eq_ok (hratio : Scalar.outsideUnit c.threshold = false) (hcap : 0 ≤ c.cap) :
    c.validate = .ok c := by
  rw [validate, hratio, if_neg Bool.false_ne_true, if_neg (Int.not_lt.mpr hcap)]

/-- Whether two functions make a similar pair. -/
def isSimilar (c : Comparison α) (left right : CodeUnit) : Bool :=
  !Scalar.le (similarity c.cap left.text right.text) c.threshold

theorem isSimilar_comm (u v : CodeUnit) : c.isSimilar u v = c.isSimilar v u := by
  rw [isSimilar, isSimilar, similarity_comm]

theorem pair?_eq (u v : CodeUnit) :
    c.pair? u v =
      if c.isSimilar u v then some ⟨u, v, similarity c.cap u.text v.text⟩ else none := by
  unfold isSimilar pair?
  cases hle : Scalar.le (similarity c.cap u.text v.text) c.threshold with
  | false => simp [hle]
  | true => simp [hle]

/-- The similar pairs are the couples that are similar. -/
theorem pairs_eq_filterMap_couples (us : List CodeUnit) :
    c.pairs us = (couples us).filterMap fun p ↦ c.pair? p.1 p.2 := by
  induction us with
  | nil => rfl
  | cons u us ih =>
    rw [pairs, couples, List.filterMap_append, ih, List.filterMap_map]
    rfl

end Comparison

end CodeHealth
