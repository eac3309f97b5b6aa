import CodeHealth.Report.Markup
import Mathlib.Data.List.Infix
import Mathlib.Data.List.TakeWhile

/-!
# Markup

Markup shows itself exactly if it is plain: no part of it reads as a style tag, and no backslash
stands before an opening bracket.  A tag behind anything but a backslash is left out.
-/

namespace CodeHealth.Report

/-! ## Tags -/

/-- A style tag: a text without brackets that begins like a tag, between brackets. -/
def IsTag (tag : Text) : Prop :=
  ∃ c body, tag = '[' :: (c :: body ++ [']']) ∧ opensTag c = true ∧ '[' ∉ body ∧ ']' ∉ body

theorem ne_of_opensTag {c : Char} (h : opensTag c = true) : c ≠ '[' ∧ c ≠ ']' := by
  constructor <;> rintro rfl <;> revert h <;> decide

theorem IsTag.notMem {tag : Text} (h : IsTag ('[' :: tag)) : '[' ∉ tag := by
  obtain ⟨c, body, htag, hopens, hbody, -⟩ := h
  obtain rfl : tag = c :: body ++ [']'] := (List.cons.inj htag).2
  simp [(ne_of_opensTag hopens).1.symm, hbody]

theorem getElem?_length_takeWhile (p : Char → Bool) (t : Text) :
    t[(t.takeWhile p).length]? = (t.dropWhile p).head? := by
  induction t with
  | nil => rfl
  | cons c t ih => by_cases hc : p c = true <;> simp [hc, ih]

theorem tagLength?_eq_some_iff {t : Text} {n : Nat} :
    tagLength? t = some n ↔ ∃ tag rest, IsTag ('[' :: tag) ∧ t = tag ++ rest ∧ tag.length = n := by
  constructor
  · intro h
    cases t with
    | nil => simp [tagLength?] at h
    | cons c t =>
      simp only [tagLength?, getElem?_length_takeWhile] at h
      split_ifs at h with hopens hclose
      have hopens : opensTag c = true := by simpa using hopens
      obtain ⟨hc, hc'⟩ := ne_of_opensTag hopens
      obtain rfl := Option.some.inj h
      obtain ⟨rest, hrest⟩ := List.head?_eq_some_iff.mp (beq_iff_eq.mp hclose)
      have hbody {x : Char} (hx : x ∈ t.takeWhile fun c ↦ c != '[' && c != ']') :
          x ≠ '[' ∧ x ≠ ']' := by simpa using List.mem_takeWhile_imp hx
      refine ⟨c :: t.takeWhile (fun c ↦ c != '[' && c != ']') ++ [']'], rest,
        ⟨c, _, rfl, hopens, fun hx ↦ (hbody hx).1 rfl, fun hx ↦ (hbody hx).2 rfl⟩, ?_, ?_⟩
      · rw [List.dropWhile_cons_of_pos (by simp [hc, hc'])] at hrest
        rw [List.append_assoc, List.singleton_append, ← hrest, List.cons_append,
          List.takeWhile_append_dropWhile]
      · rw [List.takeWhile_cons_of_pos (by simp [hc, hc'])]
        simp
  · rintro ⟨tag, rest, ⟨c, body, htag, hopens, hopen, hclose⟩, rfl, rfl⟩
    obtain rfl : tag = c :: body ++ [']'] := (List.cons.inj htag).2
    obtain ⟨hc, hc'⟩ := ne_of_opensTag hopens
    have hbody : ∀ x ∈ body, (x != '[' && x != ']') = true := by
      intro x hx
      have hx₁ : x ≠ '[' := fun h ↦ hopen (h ▸ hx)
      have hx₂ : x ≠ ']' := fun h ↦ hclose (h ▸ hx)
      simp [hx₁, hx₂]
    simp [tagLength?, hopens, hc, hc', List.takeWhile_append_of_pos hbody]

theorem tagLength?_append (s t : Text) : tagLength? (s ++ '[' :: t) = tagLength? s := by
  ext n
  rw [tagLength?_eq_some_iff, tagLength?_eq_some_iff]
  constructor
  · rintro ⟨tag, rest, htag, hsplit, rfl⟩
    -- the tag ends before the bracket, since it has none itself
    obtain ⟨more, rfl, hmore⟩ | ⟨more, rfl, -⟩ := List.append_eq_append_iff.mp hsplit
    · cases more with
      | nil => exact ⟨s, [], by simpa using htag, by simp, by simp⟩
      | cons c more =>
        obtain rfl : '[' = c := (List.cons.inj hmore).1
        exact absurd (by simp) htag.notMem
    · exact ⟨tag, more, htag, rfl, rfl⟩
  · rintro ⟨tag, rest, htag, rfl, rfl⟩
    exact ⟨tag, rest ++ '[' :: t, htag, by simp, rfl⟩

/-! ## Plain texts -/

/-- A text that shows itself as markup. -/
def IsPlain (t : Text) : Prop :=
  (∀ tag, IsTag tag → ¬ tag <:+: t) ∧ ¬ ['\\', '['] <:+: t

theorem isPlain_nil : IsPlain [] := by
  refine ⟨?_, by simp⟩
  rintro tag ⟨c, body, rfl, -⟩
  simp

theorem tagLength?_eq_none_iff {t : Text} :
    tagLength? t = none ↔ ∀ tag, IsTag tag → ¬ tag <+: '[' :: t := by
  rw [Option.eq_none_iff_forall_ne_some]
  constructor
  · rintro h tag htag ⟨rest, hrest⟩
    obtain ⟨c, body, rfl, hopens⟩ := htag
    exact h _ (tagLength?_eq_some_iff.mpr
      ⟨_, rest, ⟨c, body, rfl, hopens⟩, ((List.cons.inj hrest).2).symm, rfl⟩)
  · intro h n hn
    obtain ⟨tag, rest, htag, rfl, -⟩ := tagLength?_eq_some_iff.mp hn
    exact h _ htag ⟨rest, rfl⟩

theorem isPlain_cons_iff {c : Char} {t : Text} : IsPlain (c :: t) ↔
    (c = '[' → tagLength? t = none) ∧ (c = '\\' → t.head? ≠ some '[') ∧ IsPlain t := by
  have htag : (∀ tag, IsTag tag → ¬ tag <+: c :: t) ↔ (c = '[' → tagLength? t = none) := by
    constructor
    · rintro h rfl
      exact tagLength?_eq_none_iff.mpr h
    · intro h tag htag hpre
      obtain ⟨d, body, rfl, -⟩ := id htag
      obtain rfl : '[' = c := (List.cons_prefix_cons.mp hpre).1
      exact tagLength?_eq_none_iff.mp (h rfl) _ htag hpre
  have hescape : ¬ ['\\', '['] <+: c :: t ↔ (c = '\\' → t.head? ≠ some '[') := by
    cases t <;> simp [List.cons_prefix_cons, eq_comm]
  simp only [IsPlain, List.infix_cons_iff, not_or, hescape, ← htag]
  grind

instance decidableIsPlain : DecidablePred IsPlain
  | [] => .isTrue isPlain_nil
  | _ :: t => have := decidableIsPlain t; decidable_of_iff _ isPlain_cons_iff.symm

theorem isPlain_backslashes_append_iff {n : Nat} {t : Text} :
    IsPlain (backslashes n ++ t) ↔ (0 < n → t.head? ≠ some '[') ∧ IsPlain t := by
  induction n with
  | zero => simp [backslashes]
  | succ n ih =>
    have hsucc : backslashes (n + 1) ++ t = '\\' :: (backslashes n ++ t) := rfl
    rw [hsucc, isPlain_cons_iff, ih]
    cases n <;> simp [backslashes, List.replicate_succ]

/-! ## Markup as it is shown -/

section Pieces

variable (c : Char) (body : Text) (ps qs : List Piece)

@[simp] theorem shown_nil : shown [] = [] := rfl

@[simp] theorem shown_char : shown (.char c :: ps) = c :: shown ps := rfl

@[simp] theorem shown_tag : shown (.tag body :: ps) = shown ps := rfl

@[simp] theorem shown_append : shown (ps ++ qs) = shown ps ++ shown qs :=
  List.flatMap_append

@[simp] theorem shown_map_char (t : Text) : shown (t.map .char) = t := by
  induction t with
  | nil => rfl
  | cons c t ih => rw [List.map_cons, shown_char, ih]

@[simp] theorem tags_nil : tags [] = [] := rfl

@[simp] theorem tags_char : tags (.char c :: ps) = tags ps := rfl

@[simp] theorem tags_append : tags (ps ++ qs) = tags ps ++ tags qs :=
  List.filterMap_append

@[simp] theorem tags_map_char (t : Text) : tags (t.map .char) = [] := by
  induction t with
  | nil => rfl
  | cons c t ih => rw [List.map_cons, tags_char, ih]

end Pieces

section Shown

variable {held n : Nat} {c : Char} {t : Text}

theorem pieces_nil : pieces n held [] = (backslashes held).map .char := rfl

theorem pieces_succ : pieces (n + 1) held (c :: t) = pieces n 0 t := rfl

theorem pieces_backslash : pieces 0 held ('\\' :: t) = pieces 0 (held + 1) t := rfl

theorem pieces_bracket :
    pieces 0 held ('[' :: t) = bracketPieces held t fun n ↦ pieces n 0 t := rfl

theorem pieces_other (hslash : c ≠ '\\') (hbracket : c ≠ '[') :
    pieces 0 held (c :: t) = (backslashes held).map .char ++ .char c :: pieces 0 0 t := by
  change (if c == '\\' then _ else if c == '[' then _ else _) = _
  rw [if_neg (by simpa using hslash), if_neg (by simpa using hbracket)]

theorem shown_pieces_tag (h : tagLength? t = some n) : shown (pieces 0 held ('[' :: t)) =
    backslashes (held / 2) ++
      if held % 2 = 0 then shown (pieces n 0 t) else '[' :: shown (pieces 0 0 t) := by
  by_cases heven : held % 2 = 0 <;> simp [pieces_bracket, bracketPieces, h, heven]

theorem shown_pieces_bracket (h : tagLength? t = none) : shown (pieces 0 held ('[' :: t)) =
    backslashes (held - 1) ++ '[' :: shown (pieces 0 0 t) := by
  simp [pieces_bracket, bracketPieces, h]

theorem shown_pieces_other (hslash : c ≠ '\\') (hbracket : c ≠ '[') :
    shown (pieces 0 held (c :: t)) = backslashes held ++ c :: shown (pieces 0 0 t) := by
  rw [pieces_other hslash hbracket, shown_append, shown_map_char, shown_char]

theorem length_backslashes (n : Nat) : (backslashes n).length = n :=
  List.length_replicate

theorem length_shown_pieces_le (skip held : Nat) (t : Text) :
    (shown (pieces skip held t)).length ≤ held + t.length := by
  induction t generalizing skip held with
  | nil => rw [pieces_nil, shown_map_char, length_backslashes, List.length_nil, Nat.add_zero]
  | cons c t ih =>
    rw [List.length_cons]
    cases skip with
    | succ n =>
      have hskip := ih n 0
      rw [pieces_succ]
      omega
    | zero =>
      have hkept := ih 0 0
      by_cases hslash : c = '\\'
      · subst hslash
        have hheld := ih 0 (held + 1)
        rw [pieces_backslash]
        omega
      by_cases hbracket : c = '['
      · subst hbracket
        cases htag : tagLength? t with
        | some n =>
          have hskip := ih n 0
          rw [shown_pieces_tag htag, List.length_append, length_backslashes]
          split
          · omega
          · rw [List.length_cons]
            omega
        | none =>
          rw [shown_pieces_bracket htag, List.length_append, length_backslashes, List.length_cons]
          omega
      · rw [shown_pieces_other hslash hbracket, List.length_append, length_backslashes,
          List.length_cons]
        omega

/-- Apart from the backslashes that are held back, what is shown is taken from the text. -/
theorem mem_of_mem_shown {skip : Nat} {d : Char} (h : d ∈ shown (pieces skip held t)) :
    d = '\\' ∨ d ∈ t := by
  have hheld {n : Nat} (hd : d ∈ backslashes n) : d = '\\' := List.eq_of_mem_replicate hd
  induction t generalizing skip held with
  | nil =>
    rw [pieces_nil, shown_map_char] at h
    exact .inl (hheld h)
  | cons c t ih =>
    have hrest {skip held : Nat} (h : d ∈ shown (pieces skip held t)) : d = '\\' ∨ d ∈ c :: t :=
      (ih h).imp_right (List.mem_cons_of_mem c)
    have hstep {n : Nat} (h : d ∈ backslashes n ++ c :: shown (pieces 0 0 t)) :
        d = '\\' ∨ d ∈ c :: t := by
      rw [List.mem_append, List.mem_cons] at h
      rcases h with h | rfl | h
      · exact .inl (hheld h)
      · exact .inr List.mem_cons_self
      · exact hrest h
    cases skip with
    | succ n => exact hrest h
    | zero =>
      by_cases hslash : c = '\\'
      · subst hslash
        exact hrest h
      by_cases hbracket : c = '['
      · subst hbracket
        cases htag : tagLength? t with
        | some n =>
          rw [shown_pieces_tag htag] at h
          split at h
          · exact (List.mem_append.mp h).elim (fun h ↦ .inl (hheld h)) hrest
          · exact hstep h
        | none =>
          rw [shown_pieces_bracket htag] at h
          exact hstep h
      · rw [shown_pieces_other hslash hbracket] at h
        exact hstep h

theorem tags_pieces_eq_nil (h : ∀ tag, IsTag tag → ¬ tag <:+: t) : tags (pieces 0 held t) = [] := by
  induction t generalizing held with
  | nil => exact tags_map_char _
  | cons c t ih =>
    have ih (n : Nat) : tags (pieces 0 n t) = [] :=
      ih fun tag htag hpart ↦ h tag htag (List.infix_cons hpart)
    by_cases hslash : c = '\\'
    · subst hslash
      rw [pieces_backslash, ih]
    by_cases hbracket : c = '['
    · subst hbracket
      have hnone : tagLength? t = none :=
        tagLength?_eq_none_iff.mpr fun tag htag hpre ↦ h tag htag hpre.isInfix
      simp [pieces_bracket, bracketPieces, hnone, ih]
    · simp [pieces_other hslash hbracket, ih]

/-- Markup shows itself exactly if it is plain.  In the induction the backslashes that are held back
are part of the text. -/
theorem shown_pieces_eq_append_iff : shown (pieces 0 held t) = backslashes held ++ t ↔
    IsPlain (backslashes held ++ t) := by
  induction t generalizing held with
  | nil =>
    rw [isPlain_backslashes_append_iff]
    simp [pieces_nil, isPlain_nil]
  | cons c t ih =>
    by_cases hslash : c = '\\'
    · subst hslash
      have hheld : backslashes held ++ '\\' :: t = backslashes (held + 1) ++ t := by
        simp [backslashes, List.replicate_succ']
      rw [hheld, ← ih, pieces_backslash]
    have ih₀ : shown (pieces 0 0 t) = t ↔ IsPlain t := ih
    rw [isPlain_backslashes_append_iff, isPlain_cons_iff, List.head?_cons]
    by_cases hbracket : c = '['
    · subst hbracket
      cases htag : tagLength? t with
      | some n =>
        -- what is shown is too short: the tag or a backslash before it is left out
        have hskip := length_shown_pieces_le n 0 t
        have hkept := length_shown_pieces_le 0 0 t
        have hne : shown (pieces 0 held ('[' :: t)) ≠ backslashes held ++ '[' :: t := by
          intro heq
          have hlen := congrArg List.length heq
          rw [shown_pieces_tag htag] at hlen
          simp only [List.length_append, length_backslashes, List.length_cons] at hlen
          split at hlen
          · omega
          · rw [List.length_cons] at hlen
            omega
        exact iff_of_false hne (by simp)
      | none =>
        rw [shown_pieces_bracket htag]
        cases held with
        | zero => simp [backslashes, ih₀]
        | succ held =>
          have hkept := length_shown_pieces_le 0 0 t
          have hne : backslashes (held + 1 - 1) ++ '[' :: shown (pieces 0 0 t) ≠
              backslashes (held + 1) ++ '[' :: t := by
            intro heq
            have hlen := congrArg List.length heq
            simp only [List.length_append, length_backslashes, List.length_cons] at hlen
            omega
          exact iff_of_false hne (by simp)
    · rw [shown_pieces_other hslash hbracket]
      simp [hslash, hbracket, ih₀]

theorem shown_pieces_eq_self_iff : shown (pieces 0 0 t) = t ↔ IsPlain t :=
  shown_pieces_eq_append_iff

theorem pieces_skip (u t : Text) : pieces u.length 0 (u ++ t) = pieces 0 0 t := by
  induction u with
  | nil => rfl
  | cons c u ih => exact ih

/-- What stands before an opening bracket is shown by itself, unless a backslash escapes the
bracket. -/
theorem shown_pieces_append {s : Text} {skip : Nat} (hskip : skip ≤ s.length)
    (hheld : s = [] → held = 0) (hs : s.getLast? ≠ some '\\') (t : Text) :
    shown (pieces skip held (s ++ '[' :: t)) =
      shown (pieces skip held s) ++ shown (pieces 0 0 ('[' :: t)) := by
  induction s generalizing skip held with
  | nil =>
    obtain rfl : skip = 0 := by simpa using hskip
    obtain rfl : held = 0 := hheld rfl
    rfl
  | cons c s ih =>
    have hs' : s.getLast? ≠ some '\\' := by
      cases s with
      | nil => simp
      | cons d s => simpa using hs
    rw [List.cons_append]
    cases skip with
    | succ n => exact ih (by simpa using hskip) (fun _ ↦ rfl) hs'
    | zero =>
      have ih₀ := ih (Nat.zero_le _) (fun _ ↦ rfl) hs'
      by_cases hslash : c = '\\'
      · subst hslash
        have hne : s ≠ [] := by
          rintro rfl
          simp at hs
        rw [pieces_backslash, pieces_backslash]
        exact ih (Nat.zero_le _) (fun h ↦ absurd h hne) hs'
      by_cases hbracket : c = '['
      · subst hbracket
        cases htag : tagLength? s with
        | some n =>
          obtain ⟨tag, rest, -, hsplit, hn⟩ := tagLength?_eq_some_iff.mp htag
          have hn : n ≤ s.length := by simp [hsplit, ← hn]
          rw [shown_pieces_tag htag, shown_pieces_tag (by rw [tagLength?_append, htag]), ih₀,
            ih hn (fun _ ↦ rfl) hs']
          split <;> simp
        | none =>
          rw [shown_pieces_bracket htag, shown_pieces_bracket (by rw [tagLength?_append, htag]), ih₀]
          simp
      · rw [shown_pieces_other hslash hbracket, shown_pieces_other hslash hbracket, ih₀]
        simp

/-- A tag is left out. -/
theorem shown_pieces_append_tag {s tag : Text} (hs : s.getLast? ≠ some '\\') (htag : IsTag tag)
    (t : Text) : shown (pieces 0 0 (s ++ tag ++ t)) = shown (pieces 0 0 s) ++ shown (pieces 0 0 t) := by
  obtain ⟨c, body, rfl, hopens⟩ := id htag
  have hlength : tagLength? (c :: body ++ [']'] ++ t) = some (c :: body ++ [']']).length :=
    tagLength?_eq_some_iff.mpr ⟨_, t, htag, rfl, rfl⟩
  rw [List.append_assoc, List.cons_append, shown_pieces_append (Nat.zero_le _) (fun _ ↦ rfl) hs,
    shown_pieces_tag hlength, pieces_skip]
  rfl

end Shown

end CodeHealth.Report
