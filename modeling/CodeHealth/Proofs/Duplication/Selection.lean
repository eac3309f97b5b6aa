import CodeHealth.Proofs.Duplication.Similarity
import CodeHealth.Proofs.Scalar
import Mathlib.Data.List.FinRange

/-!
# The pairs that are found

A comparison goes through the couples of positions of a list, and keeps those whose functions are
more similar than the threshold.  No couple is lost, met twice or turned round, whichever functions
occur more than once.  Since what is beyond the cap has no similarity and no threshold is negative,
no function beyond the cap is in a pair.
-/

namespace CodeHealth.Comparison

section Positions

variable {α : Type} [Scalar α] (c : Comparison α) (us : List CodeUnit)

/-- The functions at two positions, with their own similarity. -/
def pairAt (p : Fin us.length × Fin us.length) : SimilarPair α :=
  ⟨us.get p.1, us.get p.2, similarity c.cap (us.get p.1).text (us.get p.2).text⟩

/-- The pairs stand at the couples of positions whose functions are more similar than the threshold,
each at one, in the order of the first position and then the second. -/
def SelectsExactly (found : List (SimilarPair α)) : Prop :=
  ∃ ps : List (Fin us.length × Fin us.length),
    ps.Pairwise (Prod.Lex (· < ·) (· < ·)) ∧
    (∀ i j, (i, j) ∈ ps ↔ i < j ∧
      Scalar.lt c.threshold (similarity c.cap (us.get i).text (us.get j).text) = true) ∧
    found = ps.map (c.pairAt us)

theorem pairs_eq_map_pairAt :
    c.pairs us = ((couples (List.finRange us.length)).filter fun p ↦
      c.isSimilar (us.get p.1) (us.get p.2)).map (c.pairAt us) := by
  have hus : (List.finRange us.length).map us.get = us := List.map_get_finRange us
  rw [pairs_eq_filterMap_couples]
  nth_rewrite 1 [← hus]
  rw [couples_map, List.filterMap_map, ← List.filterMap_eq_map, List.filterMap_filter]
  congr 1
  funext p
  exact c.pair?_eq (us.get p.1) (us.get p.2)

variable {c us}

/-- If similarities compare with the threshold, what is not at most the threshold is above it. -/
theorem selectsExactly_pairs
    (hcompare : ∀ u ∈ us, ∀ v ∈ us, Scalar.le (similarity c.cap u.text v.text) c.threshold =
      !Scalar.lt c.threshold (similarity c.cap u.text v.text)) :
    c.SelectsExactly us (c.pairs us) := by
  refine ⟨_, ?_, fun i j ↦ ?_, c.pairs_eq_map_pairAt us⟩
  · exact (pairwise_couples (List.pairwise_lt_finRange us.length)).filter _
  · rw [List.mem_filter, mem_couples_iff (List.pairwise_lt_finRange us.length), isSimilar,
      hcompare _ (List.get_mem us i) _ (List.get_mem us j), Bool.not_not]
    simp only [List.mem_finRange, true_and]

/-- If zero is at most the threshold, no pair is beyond the cap. -/
theorem withinCap_of_mem_pairs (hzero : Scalar.le (Scalar.ofNat 0) c.threshold = true)
    {p : SimilarPair α} (hp : p ∈ c.pairs us) : WithinCap c.cap p.left.text p.right.text := by
  rw [pairs_eq_map_pairAt] at hp
  obtain ⟨q, hq, rfl⟩ := List.mem_map.mp hp
  have hsimilar : c.isSimilar (us.get q.1) (us.get q.2) = true := (List.mem_filter.mp hq).2
  show WithinCap c.cap (us.get q.1).text (us.get q.2).text
  by_contra hbeyond
  rw [isSimilar, similarity_of_not_withinCap hbeyond, hzero] at hsimilar
  cases hsimilar

end Positions

/-! ## Exact arithmetic -/

theorem le_similarity_eq (c : Comparison Rat) (s t : Text) :
    Scalar.le (similarity c.cap s t) c.threshold =
      !Scalar.lt c.threshold (similarity c.cap s t) := by
  show decide (_ ≤ _) = !decide (_ < _)
  rw [← decide_not, decide_eq_decide, not_lt]

theorem outsideUnit_threshold {c : Comparison Rat} (hzero : 0 ≤ c.threshold)
    (hone : c.threshold ≤ 1) : Scalar.outsideUnit c.threshold = false := by
  rw [Scalar.outsideUnit, Bool.or_eq_false_iff]
  exact ⟨decide_eq_false (not_lt.mpr hzero), decide_eq_false (not_lt.mpr hone)⟩

/-! ## Floats -/

/-- As long as floats count the characters, similarity is a number. -/
theorem isNaN_similarity (cap : Int) {s t : Text} (hs : (normalForm s).length < 2 ^ 53)
    (ht : (normalForm t).length < 2 ^ 53) : (similarity cap s t : Float).isNaN = false := by
  by_cases h : WithinCap cap s t
  · rw [similarity_of_withinCap h]
    split
    · exact Scalar.isNaN_ofNat (by decide)
    · next hne =>
      exact Scalar.isNaN_one_sub_div (editDistance_le_max _ _) (max_length_pos hne)
        (max_lt hs ht)
  · rw [similarity_of_not_withinCap h]
    exact Scalar.isNaN_ofNat (by decide)

/-- A comparison with a threshold in the unit interval passes its checks and finds exactly the pairs
above the threshold, none of them beyond the cap; on floats as well as in exact arithmetic, as long
as floats count the characters of the functions. -/
theorem pairs_exact (us : List CodeUnit) :
    (∀ c : Comparison Rat, 0 ≤ c.threshold → c.threshold ≤ 1 → 0 ≤ c.cap →
      c.validate = .ok c ∧ c.SelectsExactly us (c.pairs us) ∧
      ∀ p ∈ c.pairs us, WithinCap c.cap p.left.text p.right.text) ∧
    (∀ c : Comparison Float, 0 ≤ c.threshold → c.threshold ≤ 1 → 0 ≤ c.cap →
      (∀ u ∈ us, (normalForm u.text).length < 2 ^ 53) →
      c.validate = .ok c ∧ c.SelectsExactly us (c.pairs us) ∧
      ∀ p ∈ c.pairs us, WithinCap c.cap p.left.text p.right.text) := by
  constructor
  · intro c hzero hone hcap
    refine ⟨c.validate_eq_ok (outsideUnit_threshold hzero hone) hcap,
      selectsExactly_pairs fun u _ v _ ↦ c.le_similarity_eq u.text v.text, fun p hp ↦ ?_⟩
    exact withinCap_of_mem_pairs (decide_eq_true hzero) hp
  · intro c hzero hone hcap hcount
    have hzero' : Scalar.le (Scalar.ofNat 0) c.threshold = true := decide_eq_true hzero
    refine ⟨c.validate_eq_ok (Scalar.outsideUnit_eq_false hzero' (decide_eq_true hone)) hcap,
      selectsExactly_pairs fun u hu v hv ↦ ?_, fun p hp ↦ withinCap_of_mem_pairs hzero' hp⟩
    have hnumber := isNaN_similarity c.cap (hcount u hu) (hcount v hv)
    exact Scalar.le_eq_not_lt hnumber (Scalar.isNaN_of_le hzero')

/-- The two calls, with the first of them once more. -/
def repeatedCalls : List CodeUnit :=
  [⟨none, 0, 4, shortCall, .function 0⟩, ⟨none, 5, 12, longCall, .function 0⟩,
   ⟨none, 0, 4, shortCall, .function 0⟩]

/-- Calls that are exactly as similar as the threshold are not found; with a lower threshold, all
three couples are. -/
theorem pairs_exact_repeatedCalls :
    (∃ c : Comparison Rat, c = ⟨2 / 3, 9⟩ ∧ c.validate = .ok c ∧
      c.SelectsExactly repeatedCalls (c.pairs repeatedCalls) ∧
      (c.pairs repeatedCalls).map (·.similarity) = [1]) ∧
    ∃ c : Comparison Float, c = ⟨0.5, 9⟩ ∧ c.validate = .ok c ∧
      c.SelectsExactly repeatedCalls (c.pairs repeatedCalls) ∧
      (c.pairs repeatedCalls).length = 3 := by
  obtain ⟨hexact, hfloat⟩ := pairs_exact repeatedCalls
  obtain ⟨hvalid, hselects, -⟩ :=
    hexact ⟨2 / 3, 9⟩ (by decide +kernel) (by decide +kernel) (by decide)
  have hcount : ∀ u ∈ repeatedCalls, (normalForm u.text).length < 2 ^ 53 := by decide +kernel
  obtain ⟨hvalid', hselects', -⟩ :=
    hfloat ⟨0.5, 9⟩ (by decide +kernel) (by decide +kernel) (by decide) hcount
  exact ⟨⟨_, rfl, hvalid, hselects, by decide +kernel⟩,
    ⟨_, rfl, hvalid', hselects', by decide +kernel⟩⟩

end CodeHealth.Comparison
