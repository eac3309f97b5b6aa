import CodeHealth.Ignore.Glob
import Mathlib.Data.List.Basic

/-!
# What a glob matches

The pieces of a glob take one stretch of the path after the other.  `Begins` says so without an
order in which the stretches are tried; the search finds a match exactly if there is one.
-/

namespace CodeHealth.Ignore

/-- The path begins with a match of the pieces. -/
def Begins : List Piece → Text → Prop
  | [], _ => True
  | .char x :: ps, t => ∃ rest, t = x :: rest ∧ Begins ps rest
  | .one :: ps, t => ∃ c rest, t = c :: rest ∧ c ≠ '/' ∧ Begins ps rest
  | .many :: ps, t => ∃ s rest, t = s ++ rest ∧ '/' ∉ s ∧ Begins ps rest
  | .oneOf k :: ps, t => ∃ c rest, t = c :: rest ∧ k.holds c = true ∧ Begins ps rest
  | .leading :: ps, t =>
    (∃ s rest, t = s ++ '/' :: rest ∧ s ≠ [] ∧ '\n' ∉ s ∧ Begins ps rest) ∨ Begins ps t
  | .inner :: ps, t =>
    (∃ s rest, t = '/' :: (s ++ rest) ∧ s ≠ [] ∧ '\n' ∉ s ∧ Begins ps rest) ∨ Begins ps t
  | .slash _ :: ps, t => ∃ rest, t = '/' :: rest ∧ Begins ps rest
  | .finish :: ps, t =>
    (∃ rest, t = '/' :: rest ∧ Begins ps rest) ∨ (atEnd t = true ∧ Begins ps t)

/-! ## The search finds a match if there is one -/

/-- A text is cut in two before its first character or behind it. -/
theorem exists_cut_cons_iff {P : Text → Text → Prop} {c : Char} {t : Text} :
    (∃ s rest, c :: t = s ++ rest ∧ P s rest) ↔
      P [] (c :: t) ∨ ∃ s rest, t = s ++ rest ∧ P (c :: s) rest := by
  constructor
  · rintro ⟨s, rest, heq, h⟩
    rcases List.cons_eq_append_iff.mp heq with ⟨rfl, rfl⟩ | ⟨s, rfl, rfl⟩
    · exact .inl h
    · exact .inr ⟨s, rest, rfl, h⟩
  · rintro (h | ⟨s, rest, rfl, h⟩)
    · exact ⟨[], _, rfl, h⟩
    · exact ⟨c :: s, rest, rfl, h⟩

variable {k : Text → Option Bool} {t : Text}

theorem isSome_skipMany_iff :
    (skipMany k t).isSome = true ↔
      ∃ s rest, t = s ++ rest ∧ '/' ∉ s ∧ (k rest).isSome = true := by
  induction t with
  | nil => simp [skipMany]
  | cons c t ih =>
    rw [skipMany, exists_cut_cons_iff]
    by_cases hc : c = '/'
    · simp [hc]
    · simp [hc, Ne.symm hc, ih, or_comm]

theorem isSome_skipSome_iff :
    (skipSome k t).isSome = true ↔
      ∃ s rest, t = s ++ rest ∧ s ≠ [] ∧ '\n' ∉ s ∧ (k rest).isSome = true := by
  induction t with
  | nil => simp [skipSome]
  | cons c t ih =>
    rw [skipSome, exists_cut_cons_iff]
    by_cases hc : c = '\n'
    · simp [hc]
    · simp only [beq_iff_eq, hc, if_false, Option.isSome_or, Bool.or_eq_true, ih]
      constructor
      · rintro (⟨s, rest, rfl, -, hs, h⟩ | h)
        · exact .inr ⟨s, rest, rfl, by simp, by simp [hs, Ne.symm hc], h⟩
        · exact .inr ⟨[], t, rfl, by simp, by simp [Ne.symm hc], h⟩
      · rintro (⟨hne, -⟩ | ⟨s, rest, rfl, -, hs, h⟩)
        · exact absurd rfl hne
        · -- The search goes on behind `c` even if nothing more is skipped.
          by_cases hnil : s = []
          · exact .inr (by simpa [hnil] using h)
          · exact .inl ⟨s, rest, rfl, hnil, mt (List.mem_cons_of_mem c) hs, h⟩

theorem isSome_skipDirectories_iff {nonempty : Bool} :
    (skipDirectories k nonempty t).isSome = true ↔
      ∃ s rest, t = s ++ rest ∧ (nonempty = true ∨ s ≠ []) ∧ '\n' ∉ s ∧
        ∃ u, rest = '/' :: u ∧ (k u).isSome = true := by
  induction t generalizing nonempty with
  | nil => simp [skipDirectories]
  | cons c t ih =>
    rw [skipDirectories, exists_cut_cons_iff]
    by_cases hc : c = '\n'
    · simp [hc]
    · by_cases hslash : nonempty = true ∧ c = '/'
      · simp [hslash, ih, or_comm]
      · have hskip : ¬(nonempty = true ∧ c = '/' ∧ (k t).isSome = true) :=
          fun h ↦ hslash ⟨h.1, h.2.1⟩
        simp [hc, Ne.symm hc, ih, hslash, hskip]

/-- The search finds a match at the start of a path exactly if the path begins with one. -/
theorem isSome_matchPieces_iff {ps : List Piece} {marked : Bool} :
    (matchPieces ps marked t).isSome = true ↔ Begins ps t := by
  induction ps generalizing marked t with
  | nil => simp [matchPieces, Begins]
  | cons p ps ih =>
    cases p with
    | char x =>
      cases t with
      | nil => simp [matchPieces, Begins]
      | cons c t => by_cases hc : c = x <;> simp [matchPieces, Begins, hc, ih]
    | one =>
      cases t with
      | nil => simp [matchPieces, Begins]
      | cons c t => by_cases hc : c = '/' <;> simp [matchPieces, Begins, hc, ih]
    | many => simp [matchPieces, Begins, isSome_skipMany_iff, ih]
    | oneOf k =>
      cases t with
      | nil => simp [matchPieces, Begins]
      | cons c t => by_cases hc : k.holds c = true <;> simp [matchPieces, Begins, hc, ih]
    | leading => simp [matchPieces, Begins, isSome_skipDirectories_iff, ih]
    | inner =>
      cases t with
      | nil => simp [matchPieces, Begins, ih]
      | cons c t =>
        by_cases hc : c = '/'
        · simp [matchPieces, Begins, hc, isSome_skipSome_iff, ih]
        · simp [matchPieces, Begins, hc, ih]
    | slash m =>
      cases t with
      | nil => simp [matchPieces, Begins]
      | cons c t => by_cases hc : c = '/' <;> simp [matchPieces, Begins, hc, ih]
    | finish =>
      cases t with
      | nil => simp [matchPieces, Begins, ih, atEnd]
      | cons c t =>
        by_cases hc : c = '/'
        · simp [matchPieces, Begins, hc, ih, atEnd]
        · by_cases hend : atEnd (c :: t) = true <;> simp [matchPieces, Begins, hc, hend, ih]

/-! ## Texts and directories -/

/-- The pieces that match a text and nothing else. -/
def literal (t : Text) : List Piece :=
  t.map fun c ↦ if c = '/' then .slash false else .char c

variable {ps : List Piece}

theorem begins_literal_append_iff {s : Text} :
    Begins (literal s ++ ps) t ↔ ∃ rest, t = s ++ rest ∧ Begins ps rest := by
  induction s generalizing t with
  | nil => simp [literal]
  | cons c s ih =>
    have hcons : Begins (literal (c :: s) ++ ps) t ↔
        ∃ u, t = c :: u ∧ Begins (literal s ++ ps) u := by
      by_cases hc : c = '/' <;> simp [literal, Begins, hc]
    rw [hcons]
    constructor
    · rintro ⟨u, rfl, hu⟩
      obtain ⟨rest, rfl, h⟩ := ih.mp hu
      exact ⟨rest, rfl, h⟩
    · rintro ⟨rest, rfl, h⟩
      exact ⟨s ++ rest, rfl, ih.mpr ⟨rest, rfl, h⟩⟩

/-- Directories between two slashes can be taken with the first of them or with the second. -/
theorem begins_inner_slash_iff {m : Bool} :
    Begins (.inner :: .slash m :: ps) t ↔ Begins (.slash m :: .leading :: ps) t := by
  simp only [Begins]
  constructor
  · rintro (⟨s, rest, rfl, hs, hline, u, rfl, h⟩ | ⟨u, rfl, h⟩)
    · exact ⟨_, rfl, .inl ⟨s, u, rfl, hs, hline, h⟩⟩
    · exact ⟨u, rfl, .inr h⟩
  · rintro ⟨_, rfl, ⟨s, u, rfl, hs, hline, h⟩ | h⟩
    · exact .inl ⟨s, _, rfl, hs, hline, u, rfl, h⟩
    · exact .inr ⟨_, rfl, h⟩

@[simp] theorem begins_slash_cons {m : Bool} :
    Begins (.slash m :: ps) ('/' :: t) ↔ Begins ps t := by
  simp [Begins]

/-! ## A lone asterisk -/

theorem begins_one_many_finish (hne : t ≠ []) (hhead : t.head? ≠ some '/') :
    Begins [.one, .many, .finish] t := by
  obtain ⟨c, t, rfl⟩ := List.exists_cons_of_ne_nil hne
  have hc : c ≠ '/' := by simpa using hhead
  by_cases hslash : '/' ∈ t
  · obtain ⟨s, rest, rfl, hs⟩ := List.eq_append_cons_of_mem hslash
    exact ⟨c, _, rfl, hc, s, _, rfl, hs, .inl ⟨rest, rfl, trivial⟩⟩
  · exact ⟨c, t, rfl, hc, t, [], by simp, hslash, .inr ⟨rfl, trivial⟩⟩

theorem begins_one_many_slash_iff {m : Bool} (hhead : t.head? ≠ some '/') :
    Begins [.one, .many, .slash m] t ↔ '/' ∈ t := by
  constructor
  · rintro ⟨c, _, rfl, -, s, _, rfl, -, rest, rfl, -⟩
    simp
  · intro hslash
    obtain ⟨c, t, rfl⟩ := List.exists_cons_of_ne_nil (List.ne_nil_of_mem hslash)
    have hc : c ≠ '/' := by simpa using hhead
    obtain ⟨s, rest, rfl, hs⟩ := List.eq_append_cons_of_mem
      ((List.mem_cons.mp hslash).resolve_left (Ne.symm hc))
    exact ⟨c, _, rfl, hc, s, _, rfl, hs, rest, rfl, trivial⟩

/-! ## Within one component -/

/-- The piece is one of those that the text of a segment is read as. -/
def Piece.InComponent : Piece → Prop
  | .char _ | .one | .many | .oneOf _ => True
  | .leading | .inner | .slash _ | .finish => False

variable {qs : List Piece}

/-- Only asterisks match nothing. -/
theorem eq_many_of_begins_nil (hps : ∀ p ∈ ps, p.InComponent) (h : Begins (ps ++ qs) []) :
    ∀ p ∈ ps, p = .many := by
  induction ps with
  | nil => simp
  | cons p ps ih =>
    obtain ⟨hp, hrest⟩ := List.forall_mem_cons.mp hps
    cases p with
    | many =>
      obtain ⟨s, rest, heq, -, h⟩ := h
      obtain ⟨-, rfl⟩ := List.nil_eq_append_iff.mp heq
      exact List.forall_mem_cons.mpr ⟨rfl, ih hrest h⟩
    | char c => simp [Begins] at h
    | one => simp [Begins] at h
    | oneOf k => simp [Begins] at h
    | leading | inner | slash | finish => exact absurd hp id

theorem begins_manys_append (hps : ∀ p ∈ ps, p = .many) (h : Begins qs t) :
    Begins (ps ++ qs) t := by
  induction ps with
  | nil => exact h
  | cons p ps ih =>
    obtain ⟨rfl, hrest⟩ := List.forall_mem_cons.mp hps
    exact ⟨[], t, rfl, List.not_mem_nil, ih hrest⟩

/-- In a directory itself, it makes no difference that a component may lie deeper. -/
theorem begins_leading_component_iff (hps : ∀ p ∈ ps, p.InComponent) (hne : ps ≠ [])
    (hqs : Begins qs ['/']) (ht : '/' ∉ t.dropLast) :
    Begins (.leading :: (ps ++ qs)) t ↔ Begins (ps ++ qs) t := by
  rw [Begins, or_iff_right_iff_imp]
  rintro ⟨s, rest, rfl, -, -, h⟩
  rw [List.dropLast_append_cons, List.mem_append, not_or] at ht
  obtain ⟨hs, hrest⟩ := ht
  have hnil : rest = [] := by
    by_contra hrest'
    exact hrest (by simp [List.dropLast_cons_of_ne_nil hrest'])
  subst hnil
  -- The component takes nothing behind the last slash, so it can take what stands before it.
  have hmany := eq_many_of_begins_nil hps h
  obtain ⟨p, ps, rfl⟩ := List.exists_cons_of_ne_nil hne
  obtain ⟨rfl, hmore⟩ := List.forall_mem_cons.mp hmany
  exact ⟨s, ['/'], rfl, hs, begins_manys_append hmore hqs⟩

theorem begins_of_manys_append_nil (hps : ∀ p ∈ ps, p = .many) (h : Begins (ps ++ qs) []) :
    Begins qs [] := by
  induction ps with
  | nil => exact h
  | cons p ps ih =>
    obtain ⟨rfl, hrest⟩ := List.forall_mem_cons.mp hps
    obtain ⟨s, rest, heq, -, h⟩ := h
    obtain ⟨-, rfl⟩ := List.nil_eq_append_iff.mp heq
    exact ih hrest h

/-- A component that matches nothing matches any single character as well. -/
theorem begins_component_singleton (hps : ∀ p ∈ ps, p.InComponent) (hne : ps ≠ []) {c : Char}
    (hc : c ≠ '/') (h : Begins (ps ++ qs) []) : Begins (ps ++ qs) [c] := by
  have hmany := eq_many_of_begins_nil hps h
  have hend := begins_of_manys_append_nil hmany h
  obtain ⟨p, ps, rfl⟩ := List.exists_cons_of_ne_nil hne
  obtain ⟨rfl, hmore⟩ := List.forall_mem_cons.mp hmany
  exact ⟨[c], [], rfl, by simpa using Ne.symm hc, begins_manys_append hmore hend⟩

end CodeHealth.Ignore
