import CodeHealth.Proofs.Text.Basic
import CodeHealth.Text.Regex

/-!
# What expressions match

What an expression matches is told here by splits of a text: it reads `s` behind the character `b`
and before `after`.  The attempts at a match end exactly where it has read something, and an
expression is found in a text exactly if it starts somewhere.  What is put in the place of a match
depends on the first attempt alone.
-/

namespace CodeHealth.Regex

/-- The expression can match `s` between `b` and `after`. -/
def Reads (r : Regex) (b : Option Char) (s after : Text) : Prop :=
  ⟨s.getLast?.or b, after⟩ ∈ r.ends ⟨b, s ++ after⟩

/-- The expression can match the front of `t` behind `b`. -/
def Starts (r : Regex) (b : Option Char) (t : Text) : Prop :=
  ∃ s after, t = s ++ after ∧ r.Reads b s after

variable {p : Char → Bool} {r r' : Regex} {b : Option Char} {s t after : Text} {c : Char}

theorem reads_iff : r.Reads b s after ↔ ⟨s.getLast?.or b, after⟩ ∈ r.ends ⟨b, s ++ after⟩ := Iff.rfl

theorem starts_iff : r.Starts b t ↔ ∃ s after, t = s ++ after ∧ r.Reads b s after := Iff.rfl

/-! ## Steps -/

theorem manyEnds_nil : manyEnds p b [] = [⟨b, []⟩] := rfl

theorem manyEnds_cons : manyEnds p b (c :: t) =
    if p c then manyEnds p (some c) t ++ [⟨b, c :: t⟩] else [⟨b, c :: t⟩] := rfl

theorem ends_empty : empty.ends ⟨b, t⟩ = [⟨b, t⟩] := rfl

theorem ends_one_nil : (one p).ends ⟨b, []⟩ = [] := rfl

theorem ends_one_cons : (one p).ends ⟨b, c :: t⟩ = if p c then [⟨some c, t⟩] else [] := rfl

theorem ends_many : (many p).ends ⟨b, t⟩ = manyEnds p b t := rfl

theorem ends_seq : (seq r r').ends ⟨b, t⟩ = (r.ends ⟨b, t⟩).flatMap r'.ends := rfl

theorem ends_lineStart : lineStart.ends ⟨b, t⟩ =
    if Cursor.atLineStart ⟨b, t⟩ then [⟨b, t⟩] else [] := rfl

theorem ends_wordBoundary : wordBoundary.ends ⟨b, t⟩ =
    if Cursor.atWordBoundary ⟨b, t⟩ then [⟨b, t⟩] else [] := rfl

theorem ends_notAhead : (notAhead r).ends ⟨b, t⟩ =
    if (r.ends ⟨b, t⟩).isEmpty then [⟨b, t⟩] else [] := rfl

theorem places_nil : places b [] = [⟨b, []⟩] := rfl

theorem places_cons : places b (c :: t) = ⟨b, c :: t⟩ :: places (some c) t := rfl

/-! ## Attempts -/

theorem getLast?_cons_or (c : Char) (s : Text) (b : Option Char) :
    (c :: s).getLast?.or b = s.getLast?.or (some c) := by
  rw [List.getLast?_cons]
  cases s.getLast? with
  | none => rfl
  | some d => rfl

theorem getLast?_append_or (s s' : Text) (b : Option Char) :
    (s ++ s').getLast?.or b = s'.getLast?.or (s.getLast?.or b) := by
  rw [List.getLast?_append, Option.or_assoc]

theorem mem_manyEnds_iff {e : Cursor} : e ∈ manyEnds p b t ↔
    ∃ s after, t = s ++ after ∧ (∀ c ∈ s, p c = true) ∧ e = ⟨s.getLast?.or b, after⟩ := by
  induction t generalizing b with
  | nil =>
    rw [manyEnds_nil, List.mem_singleton]
    constructor
    · rintro rfl
      exact ⟨[], [], rfl, by simp, rfl⟩
    · rintro ⟨s, after, hnil, -, rfl⟩
      obtain ⟨rfl, rfl⟩ := List.append_eq_nil_iff.mp hnil.symm
      rfl
  | cons c t ih =>
    have hnone : e = ⟨b, c :: t⟩ → ∃ s after, c :: t = s ++ after ∧ (∀ d ∈ s, p d = true) ∧
        e = ⟨s.getLast?.or b, after⟩ := fun he ↦ ⟨[], c :: t, rfl, by simp, he⟩
    rw [manyEnds_cons]
    split
    · next hc =>
      rw [List.mem_append, List.mem_singleton, ih]
      constructor
      · rintro (⟨s, after, rfl, hs, rfl⟩ | he)
        · refine ⟨c :: s, after, rfl, List.forall_mem_cons.mpr ⟨hc, hs⟩, ?_⟩
          rw [getLast?_cons_or]
        · exact hnone he
      · rintro ⟨s, after, hsplit, hs, rfl⟩
        cases s with
        | nil => exact .inr (by simpa using hsplit.symm)
        | cons d s =>
          obtain ⟨rfl, rfl⟩ := List.cons.inj hsplit
          refine .inl ⟨s, after, rfl, (List.forall_mem_cons.mp hs).2, ?_⟩
          rw [getLast?_cons_or]
    · next hc =>
      rw [List.mem_singleton]
      refine ⟨hnone, ?_⟩
      rintro ⟨s, after, hsplit, hs, rfl⟩
      cases s with
      | nil => simpa using hsplit.symm
      | cons d s =>
        obtain ⟨rfl, rfl⟩ := List.cons.inj hsplit
        exact absurd (hs c List.mem_cons_self) hc

/-- A match takes its characters off the front of the text. -/
theorem exists_of_mem_ends {e : Cursor} (h : e ∈ r.ends ⟨b, t⟩) :
    ∃ s after, t = s ++ after ∧ e = ⟨s.getLast?.or b, after⟩ := by
  have hstay {holds : Bool} {b : Option Char} {t : Text} {e : Cursor}
      (h : e ∈ if holds then [(⟨b, t⟩ : Cursor)] else []) :
      ∃ s after, t = s ++ after ∧ e = ⟨s.getLast?.or b, after⟩ := by
    cases holds with
    | false => cases h
    | true => exact ⟨[], t, rfl, List.mem_singleton.mp h⟩
  induction r generalizing b t e with
  | empty => exact ⟨[], t, rfl, List.mem_singleton.mp h⟩
  | one p =>
    cases t with
    | nil => cases h
    | cons d t =>
      rw [ends_one_cons] at h
      split at h
      · obtain rfl := List.mem_singleton.mp h
        exact ⟨[d], t, rfl, rfl⟩
      · cases h
  | many p =>
    obtain ⟨s, after, hsplit, -, rfl⟩ := mem_manyEnds_iff.mp h
    exact ⟨s, after, hsplit, rfl⟩
  | seq r r' ih ih' =>
    obtain ⟨m, hm, he⟩ := List.mem_flatMap.mp h
    obtain ⟨s, rest, hsplit, rfl⟩ := ih hm
    obtain ⟨s', after, rfl, rfl⟩ := ih' he
    refine ⟨s ++ s', after, ?_, ?_⟩
    · rw [hsplit, List.append_assoc]
    · rw [getLast?_append_or]
  | alt r r' ih ih' => exact (List.mem_append.mp h).elim ih ih'
  | lineStart | wordBoundary | notAhead => exact hstay h

theorem ends_ne_nil_iff : r.ends ⟨b, t⟩ ≠ [] ↔ r.Starts b t := by
  constructor
  · intro hne
    obtain ⟨e, he⟩ := List.exists_mem_of_ne_nil _ hne
    obtain ⟨s, after, rfl, rfl⟩ := exists_of_mem_ends he
    exact ⟨s, after, rfl, he⟩
  · rintro ⟨s, after, rfl, he⟩
    exact List.ne_nil_of_mem he

/-! ## Reading -/

@[simp] theorem reads_one : (one p).Reads b s after ↔ ∃ c, s = [c] ∧ p c = true := by
  constructor
  · intro h
    rw [reads_iff] at h
    cases hrest : s ++ after with
    | nil => simp [hrest, ends_one_nil] at h
    | cons c rest =>
      rw [hrest, ends_one_cons] at h
      split at h
      · next hc =>
        obtain ⟨-, rfl⟩ := Cursor.mk.inj (List.mem_singleton.mp h)
        exact ⟨c, List.append_cancel_right hrest, hc⟩
      · cases h
  · rintro ⟨c, rfl, hc⟩
    simp [reads_iff, ends_one_cons, hc]

@[simp] theorem reads_many : (many p).Reads b s after ↔ ∀ c ∈ s, p c = true := by
  rw [reads_iff, ends_many, mem_manyEnds_iff]
  constructor
  · rintro ⟨s', after', hsplit, hs', he⟩
    obtain rfl := (Cursor.mk.inj he).2
    rwa [List.append_cancel_right hsplit]
  · intro hs
    exact ⟨s, after, rfl, hs, rfl⟩

theorem reads_seq : (seq r r').Reads b s after ↔
    ∃ s₁ s₂, s = s₁ ++ s₂ ∧ r.Reads b s₁ (s₂ ++ after) ∧ r'.Reads (s₁.getLast?.or b) s₂ after := by
  rw [reads_iff, ends_seq, List.mem_flatMap]
  constructor
  · rintro ⟨m, hm, he⟩
    obtain ⟨s₁, rest, hsplit, rfl⟩ := exists_of_mem_ends hm
    obtain ⟨s₂, after', rfl, hend⟩ := exists_of_mem_ends he
    obtain rfl := (Cursor.mk.inj hend).2
    obtain rfl : s = s₁ ++ s₂ := by
      rw [← List.append_assoc] at hsplit
      exact List.append_cancel_right hsplit
    rw [List.append_assoc] at hm
    rw [getLast?_append_or] at he
    exact ⟨s₁, s₂, rfl, hm, he⟩
  · rintro ⟨s₁, s₂, rfl, hm, he⟩
    rw [List.append_assoc, getLast?_append_or]
    exact ⟨_, hm, he⟩

@[simp] theorem reads_alt :
    (alt r r').Reads b s after ↔ r.Reads b s after ∨ r'.Reads b s after :=
  List.mem_append

/-- A condition on the place takes no characters. -/
theorem mem_ite_iff {holds : Bool} :
    (⟨s.getLast?.or b, after⟩ : Cursor) ∈ (if holds then [⟨b, s ++ after⟩] else []) ↔
      s = [] ∧ holds = true := by
  cases holds with
  | false => simp
  | true =>
    simp only [if_true, List.mem_singleton, Cursor.mk.injEq, and_true]
    constructor
    · rintro ⟨-, hrest⟩
      simpa using hrest
    · rintro rfl
      exact ⟨rfl, rfl⟩

@[simp] theorem reads_empty : empty.Reads b s after ↔ s = [] := by
  have hend : (⟨s.getLast?.or b, after⟩ : Cursor) ∈ (if true then [⟨b, s ++ after⟩] else []) ↔
      s = [] ∧ true = true := mem_ite_iff
  simpa [reads_iff, ends_empty] using hend

@[simp] theorem reads_lineStart :
    lineStart.Reads b s after ↔ s = [] ∧ ∀ c ∈ b, c = '\n' := by
  rw [reads_iff, ends_lineStart, mem_ite_iff]
  cases b <;> simp [Cursor.atLineStart]

@[simp] theorem reads_wordBoundary : wordBoundary.Reads b s after ↔
    s = [] ∧ (⟨b, after⟩ : Cursor).atWordBoundary = true := by
  rw [reads_iff, ends_wordBoundary, mem_ite_iff]
  refine and_congr_right ?_
  rintro rfl
  rfl

theorem atWordBoundary_of_head? {c : Char} (hhead : t.head? = some c)
    (hc : Text.isWordChar c = true) :
    (⟨b, t⟩ : Cursor).atWordBoundary = true ↔ ∀ d ∈ b, Text.isWordChar d = false := by
  cases b <;> simp [Cursor.atWordBoundary, hhead, hc]

theorem atWordBoundary_of_before {c : Char} (hc : Text.isWordChar c = true) :
    (⟨some c, t⟩ : Cursor).atWordBoundary = true ↔
      ∀ d ∈ t.head?, Text.isWordChar d = false := by
  cases t <;> simp [Cursor.atWordBoundary, hc]

@[simp] theorem reads_notAhead :
    (notAhead r).Reads b s after ↔ s = [] ∧ ¬ r.Starts b after := by
  rw [reads_iff, ends_notAhead, mem_ite_iff, ← ends_ne_nil_iff, not_not, List.isEmpty_iff]
  refine and_congr_right ?_
  rintro rfl
  rfl

@[simp] theorem reads_plus : (plus p).Reads b s after ↔ s ≠ [] ∧ ∀ c ∈ s, p c = true := by
  simp only [plus, reads_seq, reads_one, reads_many]
  constructor
  · rintro ⟨s₁, s₂, rfl, ⟨c, rfl, hc⟩, hs₂⟩
    exact ⟨List.cons_ne_nil _ _, List.forall_mem_cons.mpr ⟨hc, hs₂⟩⟩
  · rintro ⟨hne, hs⟩
    obtain ⟨c, s, rfl⟩ := List.exists_cons_of_ne_nil hne
    obtain ⟨hc, hs⟩ := List.forall_mem_cons.mp hs
    exact ⟨[c], s, rfl, ⟨c, rfl, hc⟩, hs⟩

@[simp] theorem reads_text {w : String} : (text w).Reads b s after ↔ s = w.toList := by
  rw [text]
  induction w.toList generalizing b s with
  | nil => exact reads_empty
  | cons c w ih =>
    change (seq (one (· == c)) (inOrder (w.map fun c ↦ one (· == c)))).Reads b s after ↔ _
    simp only [reads_seq, reads_one, ih]
    constructor
    · rintro ⟨s₁, s₂, rfl, ⟨d, rfl, hd⟩, rfl⟩
      rw [beq_iff_eq.mp hd]
      rfl
    · rintro rfl
      exact ⟨[c], w, rfl, ⟨c, rfl, beq_self_eq_true c⟩, rfl⟩

/-! ## Starting -/

@[simp] theorem starts_inOrder_nil : (inOrder []).Starts b t :=
  ⟨[], t, rfl, reads_empty.mpr rfl⟩

theorem starts_inOrder_cons {l : List Regex} : (inOrder (r :: l)).Starts b t ↔
    ∃ s after, t = s ++ after ∧ r.Reads b s after ∧ (inOrder l).Starts (s.getLast?.or b) after := by
  change (seq r (inOrder l)).Starts b t ↔ _
  simp only [starts_iff, reads_seq]
  constructor
  · rintro ⟨s, after, rfl, s₁, s₂, rfl, hr, hrs⟩
    exact ⟨s₁, s₂ ++ after, List.append_assoc .., hr, s₂, after, rfl, hrs⟩
  · rintro ⟨s₁, -, rfl, hr, s₂, after, rfl, hrs⟩
    exact ⟨s₁ ++ s₂, after, (List.append_assoc ..).symm, s₁, s₂, rfl, hr, hrs⟩

theorem starts_inOrder_singleton : (inOrder [r]).Starts b t ↔ r.Starts b t := by
  rw [starts_inOrder_cons]
  simp only [starts_inOrder_nil, and_true]
  rfl

theorem starts_one : (one p).Starts b t ↔ ∃ c ∈ t.head?, p c = true := by
  simp only [starts_iff, reads_one]
  constructor
  · rintro ⟨-, after, rfl, c, rfl, hc⟩
    exact ⟨c, rfl, hc⟩
  · rintro ⟨c, hhead, hc⟩
    obtain ⟨rest, rfl⟩ := List.head?_eq_some_iff.mp hhead
    exact ⟨[c], rest, rfl, c, rfl, hc⟩

theorem starts_wordBoundary :
    wordBoundary.Starts b t ↔ (⟨b, t⟩ : Cursor).atWordBoundary = true := by
  simp only [starts_iff, reads_wordBoundary]
  constructor
  · rintro ⟨-, after, rfl, rfl, h⟩
    exact h
  · intro h
    exact ⟨[], t, rfl, rfl, h⟩

@[simp] theorem starts_alt : (alt r r').Starts b t ↔ r.Starts b t ∨ r'.Starts b t := by
  simp only [starts_iff, reads_alt, and_or_left, exists_or]

theorem mem_places_iff {e : Cursor} :
    e ∈ places b t ↔ ∃ s, t = s ++ e.rest ∧ e.before = s.getLast?.or b := by
  induction t generalizing b with
  | nil =>
    obtain ⟨b', rest⟩ := e
    rw [places_nil, List.mem_singleton]
    constructor
    · rintro ⟨⟩
      exact ⟨[], rfl, rfl⟩
    · rintro ⟨s, hnil, hb⟩
      obtain ⟨rfl, rfl⟩ := List.append_eq_nil_iff.mp hnil.symm
      simpa using hb
  | cons d t ih =>
    rw [places_cons, List.mem_cons, ih]
    constructor
    · rintro (rfl | ⟨s, rfl, hb⟩)
      · exact ⟨[], rfl, rfl⟩
      · exact ⟨d :: s, rfl, by rw [getLast?_cons_or, hb]⟩
    · rintro ⟨s, hsplit, hb⟩
      cases s with
      | nil =>
        obtain ⟨b', rest⟩ := e
        exact .inl (by simp_all)
      | cons d' s =>
        obtain ⟨rfl, rfl⟩ := List.cons.inj hsplit
        exact .inr ⟨s, rfl, by rw [hb, getLast?_cons_or]⟩

theorem isFoundIn_iff :
    r.isFoundIn t = true ↔ ∃ before rest, t = before ++ rest ∧ r.Starts before.getLast? rest := by
  simp only [isFoundIn, List.any_eq_true, Bool.not_eq_true', List.isEmpty_eq_false_iff,
    mem_places_iff, Option.or_none]
  constructor
  · rintro ⟨⟨b, rest⟩, ⟨before, rfl, rfl⟩, hne⟩
    exact ⟨before, rest, rfl, ends_ne_nil_iff.mp hne⟩
  · rintro ⟨before, rest, rfl, hstarts⟩
    exact ⟨⟨before.getLast?, rest⟩, ⟨before, rfl, rfl⟩, ends_ne_nil_iff.mpr hstarts⟩

theorem isFoundIn_alt :
    (alt r r').isFoundIn t = true ↔ r.isFoundIn t = true ∨ r'.isFoundIn t = true := by
  simp only [isFoundIn_iff, starts_alt, and_or_left, exists_or]

/-! ## Replacing -/

variable {new w rest : Text}

theorem head?_ends_seq {m e : Cursor} (hr : (r.ends ⟨b, t⟩).head? = some m)
    (hr' : (r'.ends m).head? = some e) : ((seq r r').ends ⟨b, t⟩).head? = some e := by
  obtain ⟨ms, hms⟩ := List.head?_eq_some_iff.mp hr
  rw [ends_seq, hms, List.flatMap_cons, List.head?_append, hr', Option.some_or]

/-- The first attempt at a repetition takes the whole run. -/
theorem head?_manyEnds (hw : ∀ c ∈ w, p c = true) (hrest : ∀ c ∈ rest.head?, p c = false) :
    (manyEnds p b (w ++ rest)).head? = some ⟨w.getLast?.or b, rest⟩ := by
  induction w generalizing b with
  | nil =>
    cases rest with
    | nil => rfl
    | cons c rest => simp [manyEnds_cons, hrest c rfl]
  | cons c w ih =>
    obtain ⟨hc, hw⟩ := List.forall_mem_cons.mp hw
    rw [List.cons_append, manyEnds_cons, if_pos hc, List.head?_append, ih hw, Option.some_or,
      getLast?_cons_or]

theorem replaceFrom_skip (r : Regex) (new w rest : Text) (b : Option Char) :
    r.replaceFrom new w.length b (w ++ rest) = r.replaceFrom new 0 (w.getLast?.or b) rest := by
  induction w generalizing b with
  | nil => rfl
  | cons c w ih =>
    rw [List.length_cons, List.cons_append, replaceFrom, ih, getLast?_cons_or]

theorem replaceFrom_append_of_head? (hne : w ≠ [])
    (h : (r.ends ⟨b, w ++ rest⟩).head? = some ⟨w.getLast?.or b, rest⟩) :
    r.replaceFrom new 0 b (w ++ rest) = new ++ r.replaceFrom new 0 w.getLast? rest := by
  obtain ⟨c, w, rfl⟩ := List.exists_cons_of_ne_nil hne
  have hlen : (c :: (w ++ rest)).length - rest.length = w.length + 1 := by
    simp
    omega
  rw [List.cons_append] at h ⊢
  rw [replaceFrom, h]
  simp only [hlen]
  rw [replaceFrom_skip, ← getLast?_cons_or c w none, Option.or_none]

theorem replaceFrom_nil (h : ¬ r.Starts b []) : r.replaceFrom new 0 b [] = [] := by
  rw [← ends_ne_nil_iff, not_not] at h
  rw [replaceFrom, h]
  rfl

theorem replaceFrom_cons {c : Char} (h : ¬ r.Starts b (c :: rest)) :
    r.replaceFrom new 0 b (c :: rest) = c :: r.replaceFrom new 0 (some c) rest := by
  rw [← ends_ne_nil_iff, not_not] at h
  rw [replaceFrom, h]
  rfl

/-- Where no match starts, the text is copied. -/
theorem replaceFrom_append
    (h : ∀ w₁ c w₂, w = w₁ ++ c :: w₂ → ¬ r.Starts (w₁.getLast?.or b) (c :: (w₂ ++ rest))) :
    r.replaceFrom new 0 b (w ++ rest) = w ++ r.replaceFrom new 0 (w.getLast?.or b) rest := by
  induction w generalizing b with
  | nil => rfl
  | cons c w ih =>
    have hfirst : ¬ r.Starts b (c :: (w ++ rest)) := h [] c w rfl
    rw [List.cons_append, replaceFrom_cons hfirst, ih, getLast?_cons_or, List.cons_append]
    intro w₁ d w₂ hw
    rw [← getLast?_cons_or c w₁ b]
    exact h (c :: w₁) d w₂ (by rw [hw]; rfl)

end CodeHealth.Regex
