import CodeHealth.Proofs.EditDistance
import Mathlib.Order.Bounds.Defs
import Mathlib.Order.MinMax

/-!
# Edits

A single edit inserts a character anywhere in a text, deletes one, or puts one in the place of
another.  One edit changes the distance to a third text by at most one, so no fewer edits than the
distance lead from a text to another; and the recursion for the distance says which edits to make.
Hence the distance is the least number of edits, however they follow one another.
-/

namespace CodeHealth.EditDistance

/-- A single edit. -/
inductive Edit : Text → Text → Prop
  | insert (s : Text) (c : Char) (t : Text) : Edit (s ++ t) (s ++ c :: t)
  | delete (s : Text) (c : Char) (t : Text) : Edit (s ++ c :: t) (s ++ t)
  | replace (s : Text) (c d : Char) (t : Text) : Edit (s ++ c :: t) (s ++ d :: t)

/-- So many edits, one after the other, turn the first text into the second. -/
inductive Edits : Nat → Text → Text → Prop
  | refl (a : Text) : Edits 0 a a
  | head {n : Nat} {a b c : Text} (hedit : Edit a b) (hrest : Edits n b c) : Edits (n + 1) a c

variable {a b : Text} {n : Nat}

theorem Edit.cons (c : Char) (h : Edit a b) : Edit (c :: a) (c :: b) := by
  cases h with
  | insert s d t => exact .insert (c :: s) d t
  | delete s d t => exact .delete (c :: s) d t
  | replace s d e t => exact .replace (c :: s) d e t

theorem Edit.reverse (h : Edit a b) : Edit a.reverse b.reverse := by
  cases h with
  | insert s c t => simpa using Edit.insert t.reverse c s.reverse
  | delete s c t => simpa using Edit.delete t.reverse c s.reverse
  | replace s c d t => simpa using Edit.replace t.reverse c d s.reverse

namespace Edits

/-- What carries an edit over to other texts carries over any number of them. -/
theorem map {f : Text → Text} (hf : ∀ {a b}, Edit a b → Edit (f a) (f b)) (h : Edits n a b) :
    Edits n (f a) (f b) := by
  induction h with
  | refl a => exact .refl (f a)
  | head hedit _ ih => exact .head (hf hedit) ih

theorem cons (c : Char) (h : Edits n a b) : Edits n (c :: a) (c :: b) :=
  h.map (Edit.cons c)

theorem reverse (h : Edits n a b) : Edits n a.reverse b.reverse :=
  h.map Edit.reverse

/-- What one edit lowers by at most one, `n` edits lower by at most `n`. -/
theorem le_add {f : Text → Nat} (hf : ∀ {a b}, Edit a b → f a ≤ f b + 1) (h : Edits n a b) :
    f a ≤ f b + n := by
  induction h with
  | refl a => exact Nat.le_refl _
  | head hedit _ ih =>
    have hstep := hf hedit
    omega

theorem eq_of_zero (h : Edits 0 a b) : a = b := by
  cases h
  rfl

end Edits

/-! ## No fewer edits than the distance -/

theorem distance_cons_le (c : Char) (a b : Text) : distance (c :: a) b ≤ distance a b + 1 := by
  cases b with
  | nil => simp
  | cons d b =>
    rw [distance_cons_cons]
    omega

theorem distance_cons_right_le (a : Text) (d : Char) (b : Text) :
    distance a (d :: b) ≤ distance a b + 1 := by
  rw [distance_comm a, distance_comm a]
  exact distance_cons_le d b a

theorem distance_cons_cons_le (c d : Char) (a b : Text) :
    distance (c :: a) (d :: b) ≤ distance a b + 1 := by
  have hcost : (if c = d then 0 else 1) ≤ 1 := by
    split <;> omega
  rw [distance_cons_cons]
  omega

theorem distance_le_cons (c : Char) (a b : Text) : distance a b ≤ distance (c :: a) b + 1 := by
  induction b with
  | nil =>
    rw [distance_nil, distance_nil, List.length_cons]
    omega
  | cons d b ih =>
    have hinsert := distance_cons_right_le a d b
    rw [distance_cons_cons]
    omega

theorem distance_replace_le (c d : Char) (a b : Text) :
    distance (c :: a) b ≤ distance (d :: a) b + 1 := by
  induction b with
  | nil => simp
  | cons e b ih =>
    have hdelete := distance_cons_le c a (e :: b)
    have hinsert := distance_cons_right_le (c :: a) e b
    have hreplace := distance_cons_cons_le c e a b
    rw [distance_cons_cons d e]
    omega

/-- Texts that are at most one further from any text stay so behind the same characters. -/
theorem distance_append_le {a a' : Text} (h : ∀ b, distance a b ≤ distance a' b + 1) (s b : Text) :
    distance (s ++ a) b ≤ distance (s ++ a') b + 1 := by
  induction s generalizing b with
  | nil => exact h b
  | cons c s ihs =>
    rw [List.cons_append, List.cons_append]
    induction b with
    | nil =>
      have hnil := ihs []
      simp only [distance_nil, List.length_cons] at hnil ⊢
      omega
    | cons d b ihb =>
      have hdelete := ihs (d :: b)
      have hreplace := ihs b
      rw [distance_cons_cons, distance_cons_cons]
      omega

theorem Edit.distance_le (h : Edit a b) (c : Text) : distance a c ≤ distance b c + 1 := by
  cases h with
  | insert s d t => exact distance_append_le (distance_le_cons d t) s c
  | delete s d t => exact distance_append_le (distance_cons_le d t) s c
  | replace s d e t => exact distance_append_le (distance_replace_le d e t) s c

theorem distance_self (a : Text) : distance a a = 0 := by
  induction a with
  | nil => exact nil_distance []
  | cons c a ih =>
    rw [distance_cons_cons, ih, if_pos rfl]
    exact Nat.min_zero _

theorem Edits.distance_le (h : Edits n a b) : distance a b ≤ n := by
  have hle := h.le_add (f := (distance · b)) fun hedit ↦ hedit.distance_le b
  rw [distance_self, Nat.zero_add] at hle
  exact hle

/-! ## As many edits as the distance -/

theorem edits_length_nil (a : Text) : Edits a.length a [] := by
  induction a with
  | nil => exact .refl []
  | cons c a ih => exact .head (.delete [] c a) ih

theorem edits_nil_length (b : Text) : Edits b.length [] b := by
  induction b with
  | nil => exact .refl []
  | cons d b ih => exact .head (.insert [] d []) (ih.cons d)

theorem edits_distance (a b : Text) : Edits (distance a b) a b := by
  fun_induction distance a b with
  | case1 b => exact edits_nil_length b
  | case2 c a => exact edits_length_nil (c :: a)
  | case3 c a d b ihdelete ihinsert ihreplace =>
    -- The edits begin with the choice that costs least.
    rcases min_choice (min (distance a (d :: b) + 1) (distance (c :: a) b + 1))
      (distance a b + if c = d then 0 else 1) with hmin | hmin
    · rw [hmin]
      rcases min_choice (distance a (d :: b) + 1) (distance (c :: a) b + 1) with hmin | hmin
      · rw [hmin]
        exact .head (.delete [] c a) ihdelete
      · rw [hmin]
        exact .head (.insert [] d (c :: a)) (ihinsert.cons d)
    · rw [hmin]
      split
      · next hcd => exact hcd ▸ ihreplace.cons c
      · exact .head (.replace [] c d a) (ihreplace.cons d)

/-! ## Lengths -/

theorem Edit.length_le (h : Edit a b) : a.length ≤ b.length + 1 := by
  cases h <;> simp only [List.length_append, List.length_cons] <;> omega

theorem distance_le_max (a b : Text) : distance a b ≤ max a.length b.length := by
  fun_induction distance a b with
  | case1 b => exact Nat.le_max_right _ _
  | case2 c a => exact Nat.le_max_left _ _
  | case3 c a d b _ _ ihreplace =>
    have hreplace := distance_cons_cons_le c d a b
    rw [← distance_cons_cons, List.length_cons, List.length_cons]
    omega

end CodeHealth.EditDistance

namespace CodeHealth

open EditDistance (Edits)

/-- The edit distance is the least number of edits from one text to the other. -/
theorem isLeast_editDistance (a b : Text) : IsLeast {n | Edits n a b} (editDistance a b) := by
  rw [editDistance_eq_distance]
  constructor
  · have hedits := (EditDistance.edits_distance a.reverse b.reverse).reverse
    rwa [List.reverse_reverse, List.reverse_reverse] at hedits
  · intro n hn
    exact (Edits.reverse hn).distance_le

theorem editDistance_eq_zero_iff {a b : Text} : editDistance a b = 0 ↔ a = b := by
  constructor
  · intro h
    have hedits := (isLeast_editDistance a b).1
    rw [h] at hedits
    exact Edits.eq_of_zero hedits
  · rintro rfl
    exact Nat.le_zero.mp ((isLeast_editDistance a a).2 (Edits.refl a))

theorem editDistance_le_max (a b : Text) : editDistance a b ≤ max a.length b.length := by
  rw [editDistance_eq_distance, ← a.length_reverse, ← b.length_reverse]
  exact EditDistance.distance_le_max a.reverse b.reverse

/-- What one text is longer by is at least inserted or deleted. -/
theorem max_le_min_add_editDistance (a b : Text) :
    max a.length b.length ≤ min a.length b.length + editDistance a b := by
  have hleft : a.length ≤ b.length + editDistance a b :=
    (isLeast_editDistance a b).1.le_add EditDistance.Edit.length_le
  have hright : b.length ≤ a.length + editDistance b a :=
    (isLeast_editDistance b a).1.le_add EditDistance.Edit.length_le
  rw [editDistance_comm b a] at hright
  omega

end CodeHealth
