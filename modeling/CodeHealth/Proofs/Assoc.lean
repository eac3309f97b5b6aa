import CodeHealth.Assoc
import Mathlib.Data.List.Induction
import Mathlib.Data.List.Nodup

/-!
# Laws of ordered dictionaries

The last value written to a key is the one that is found under it.
-/

namespace CodeHealth.Assoc

variable {κ ν : Type} [BEq κ] [LawfulBEq κ]

@[simp] theorem get?_put_self (k : κ) (v : ν) (d : List (κ × ν)) : get? k (put k v d) = some v := by
  induction d with
  | nil => simp [put, get?]
  | cons e d ih =>
    obtain ⟨k', v'⟩ := e
    by_cases hk : k' = k
    · simp [put, get?, hk]
    · simp [put, get?, hk, ih]

theorem get?_put_of_ne {k a : κ} (hka : k ≠ a) (v : ν) (d : List (κ × ν)) :
    get? a (put k v d) = get? a d := by
  induction d with
  | nil => simp [put, get?, hka]
  | cons e d ih =>
    obtain ⟨k', v'⟩ := e
    by_cases hk : k' = k
    · simp [put, get?, hk, hka]
    · by_cases ha : k' = a
      · simp [put, get?, ha, Ne.symm hka]
      · simp [put, get?, hk, ha, ih]

theorem mem_of_get?_eq_some {d : List (κ × ν)} {k : κ} {v : ν} (h : get? k d = some v) :
    (k, v) ∈ d := by
  induction d with
  | nil => cases h
  | cons e d ih =>
    obtain ⟨k', v'⟩ := e
    by_cases hk : k' = k
    · subst hk
      simp only [get?, beq_self_eq_true, if_true, Option.some_inj] at h
      exact h ▸ List.mem_cons_self
    · simp only [get?, beq_iff_eq, hk, if_false] at h
      exact List.mem_cons_of_mem _ (ih h)

/-- If no key occurs twice, what is found under a key is what stands there. -/
theorem get?_eq_some_iff {d : List (κ × ν)} (hd : (keys d).Nodup) {a : κ} {v : ν} :
    get? a d = some v ↔ (a, v) ∈ d := by
  induction d with
  | nil => simp [get?]
  | cons e d ih =>
    obtain ⟨k, u⟩ := e
    obtain ⟨hk, hd⟩ := List.nodup_cons.mp hd
    by_cases hka : k = a
    · subst hka
      have hnot : (k, v) ∉ d := fun hmem ↦ hk (List.mem_map.mpr ⟨(k, v), hmem, rfl⟩)
      simp [get?, hnot, eq_comm]
    · have hne : (a, v) ≠ (k, u) := fun h ↦ hka (congrArg Prod.fst h).symm
      simp [get?, hka, ih hd, hne]

omit [LawfulBEq κ] in
theorem ofList_concat (ps : List (κ × ν)) (k : κ) (v : ν) :
    ofList (ps ++ [(k, v)]) = put k v (ofList ps) := by
  simp [ofList]

/-- If no key is written twice, a dictionary holds exactly the pairs written. -/
theorem get?_ofList_eq_some_iff {ps : List (κ × ν)} (hps : (ps.map Prod.fst).Nodup) {a : κ}
    {v : ν} : get? a (ofList ps) = some v ↔ (a, v) ∈ ps := by
  -- The pairs are written from the left, so the last one is taken off.
  induction ps using List.reverseRecOn with
  | nil => simp [ofList, get?]
  | append_singleton ps p ih =>
    obtain ⟨k, u⟩ := p
    rw [List.map_append, List.map_singleton, List.nodup_append] at hps
    obtain ⟨hps, -, hk⟩ := hps
    rw [ofList_concat, List.mem_append, List.mem_singleton]
    by_cases hka : k = a
    · subst hka
      have hnot : (k, v) ∉ ps := fun hmem ↦
        hk k (List.mem_map_of_mem hmem) k List.mem_cons_self rfl
      simp [hnot, eq_comm]
    · have hne : (a, v) ≠ (k, u) := fun h ↦ hka (congrArg Prod.fst h).symm
      rw [get?_put_of_ne hka, ih hps]
      simp [hne]

/-! ## Keys -/

/-- A new key comes last; one that is there keeps its place. -/
theorem keys_put (k : κ) (v : ν) (d : List (κ × ν)) :
    keys (put k v d) = if (keys d).contains k then keys d else keys d ++ [k] := by
  induction d with
  | nil => rfl
  | cons e d ih =>
    obtain ⟨k', v'⟩ := e
    by_cases hk : k' = k
    · simp [put, keys, hk]
    · have hkeys : keys ((k', v') :: d) = k' :: keys d := rfl
      have hput : keys (put k v ((k', v') :: d)) = k' :: keys (put k v d) := by
        simp [put, keys, hk]
      rw [hput, hkeys, ih, List.contains_cons, beq_false_of_ne (Ne.symm hk), Bool.false_or]
      split
      · rfl
      · rfl

theorem nodup_keys_put {d : List (κ × ν)} (hd : (keys d).Nodup) (k : κ) (v : ν) :
    (keys (put k v d)).Nodup := by
  rw [keys_put]
  split
  · exact hd
  · next hk =>
    rw [List.contains_iff_mem] at hk
    rw [← List.concat_eq_append]
    exact hd.concat hk

theorem nodup_keys_ofList (ps : List (κ × ν)) : (keys (ofList ps)).Nodup := by
  induction ps using List.reverseRecOn with
  | nil => exact .nil
  | append_singleton ps p ih =>
    obtain ⟨k, v⟩ := p
    rw [ofList_concat]
    exact nodup_keys_put ih k v

/-- The keys come in the order in which they were first written. -/
theorem keys_ofList (ps : List (κ × ν)) : keys (ofList ps) = (ps.map Prod.fst).eraseDups := by
  induction ps using List.reverseRecOn with
  | nil => rfl
  | append_singleton ps p ih =>
    obtain ⟨k, v⟩ := p
    rw [ofList_concat, keys_put, ih, List.map_append, List.map_singleton, List.eraseDups_append]
    by_cases hk : k ∈ ps.map Prod.fst
    · simp [List.removeAll, hk]
    · simp [List.removeAll, List.eraseDups_cons, hk]

/-! ## The last pair of a key -/

/-- A list with one more element is split at that element, or where it was split before. -/
theorem exists_split_concat_iff {α : Type} {l : List α} {a b : α} {P : List α → Prop} :
    (∃ before after, l ++ [a] = before ++ b :: after ∧ P after) ↔
      a = b ∧ P [] ∨ ∃ before after, l = before ++ b :: after ∧ P (after ++ [a]) := by
  constructor
  · rintro ⟨before, after, hl, hP⟩
    rcases List.eq_nil_or_concat' after with rfl | ⟨after, c, rfl⟩
    · obtain ⟨-, hlast⟩ := List.append_inj' hl rfl
      exact .inl ⟨List.head_eq_of_cons_eq hlast, hP⟩
    · rw [← List.cons_append, ← List.append_assoc] at hl
      obtain ⟨hinit, hlast⟩ := List.append_inj' hl rfl
      obtain rfl := List.head_eq_of_cons_eq hlast
      exact .inr ⟨before, after, hinit, hP⟩
  · rintro (⟨rfl, hP⟩ | ⟨before, after, rfl, hP⟩)
    · exact ⟨l, [], rfl, hP⟩
    · exact ⟨before, after ++ [a], by rw [List.append_assoc, List.cons_append], hP⟩

/-- Under a key stands the value of the last pair with that key. -/
theorem mem_ofList_iff {ps : List (κ × ν)} {k : κ} {v : ν} :
    (k, v) ∈ ofList ps ↔
      ∃ before after, ps = before ++ (k, v) :: after ∧ k ∉ after.map Prod.fst := by
  rw [← get?_eq_some_iff (nodup_keys_ofList ps)]
  induction ps using List.reverseRecOn with
  | nil => simp [ofList, get?]
  | append_singleton ps p ih =>
    obtain ⟨k', u⟩ := p
    rw [ofList_concat, exists_split_concat_iff]
    by_cases hk : k' = k
    · subst hk
      simp
    · rw [get?_put_of_ne hk, ih]
      simp [hk, Ne.symm hk]

end CodeHealth.Assoc
