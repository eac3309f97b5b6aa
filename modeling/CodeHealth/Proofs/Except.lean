import Mathlib.Data.List.Forall2
import Mathlib.Logic.Basic

/-! # Results that may be faults -/

namespace Except

variable {ε α β γ : Type*} {x : Except ε α} {f : α → β}

theorem map_eq_ok_iff {b : β} : x.map f = .ok b ↔ ∃ a, x = .ok a ∧ f a = b := by
  cases x <;> simp [Except.map]

theorem map_eq_error_iff {e : ε} : x.map f = .error e ↔ x = .error e := by
  cases x <;> simp [Except.map]

theorem mapError_eq_error_iff {δ : Type*} {f : ε → δ} (hf : f.Injective) {e : ε} :
    x.mapError f = .error (f e) ↔ x = .error e := by
  cases x with
  | error e' =>
    show Except.error (f e') = .error (f e) ↔ _
    rw [Except.error.injEq, Except.error.injEq, hf.eq_iff]
  | ok a => exact iff_of_false nofun nofun

theorem map_map (x : Except ε α) (f : α → β) (g : β → γ) :
    (x.map f).map g = x.map fun a ↦ g (f a) := by
  cases x <;> rfl

theorem map_bind (x : Except ε α) (f : α → β) (g : β → Except ε γ) :
    (x.map f).bind g = x.bind fun a ↦ g (f a) := by
  cases x <;> rfl

theorem bind_congr {f g : α → Except ε β} (h : ∀ a, x = .ok a → f a = g a) :
    x.bind f = x.bind g := by
  cases x with
  | error e => rfl
  | ok a => exact h a rfl

theorem mapM_eq_ok_iff {f : α → Except ε β} {xs : List α} {ys : List β} :
    xs.mapM f = .ok ys ↔ List.Forall₂ (fun a b ↦ f a = .ok b) xs ys := by
  induction xs generalizing ys with
  | nil =>
    rw [List.mapM_nil, List.forall₂_nil_left_iff]
    exact ⟨fun h ↦ (Except.ok.inj h).symm, fun h ↦ h ▸ rfl⟩
  | cons a xs ih =>
    rw [List.mapM_cons, List.forall₂_cons_left_iff]
    simp only [← ih]
    cases f a with
    | error e => exact iff_of_false (by rintro ⟨⟩) (by rintro ⟨b, zs, ⟨⟩, -⟩)
    | ok b =>
      cases xs.mapM f with
      | error e => exact iff_of_false (by rintro ⟨⟩) (by rintro ⟨b, zs, -, ⟨⟩, -⟩)
      | ok zs =>
        constructor
        · rintro ⟨⟩
          exact ⟨b, zs, rfl, rfl, rfl⟩
        · rintro ⟨_, _, ⟨⟩, ⟨⟩, rfl⟩
          rfl

theorem exists_mapM_eq_error_iff {f : α → Except ε β} {xs : List α} :
    (∃ e, xs.mapM f = .error e) ↔ ∃ a ∈ xs, ∃ e, f a = .error e := by
  induction xs with
  | nil => exact iff_of_false (by rintro ⟨e, ⟨⟩⟩) (by simp)
  | cons a xs ih =>
    rw [List.mapM_cons, List.exists_mem_cons_iff, ← ih]
    cases f a with
    | error e => exact iff_of_true ⟨e, rfl⟩ (.inl ⟨e, rfl⟩)
    | ok b =>
      cases xs.mapM f with
      | error e => exact iff_of_true ⟨e, rfl⟩ (.inr ⟨e, rfl⟩)
      | ok bs => exact iff_of_false (by rintro ⟨e, ⟨⟩⟩) (by rintro (⟨e, ⟨⟩⟩ | ⟨e, ⟨⟩⟩))

end Except
