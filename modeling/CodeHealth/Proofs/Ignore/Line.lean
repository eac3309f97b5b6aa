import CodeHealth.Ignore.Rules
import CodeHealth.Proofs.Ignore.Pattern
import Mathlib.Data.List.TakeWhile

/-!
# What one line says

The verdict of a line by itself depends on its mark, and on whether the segments of its pattern,
trimmed, hit the path.
-/

namespace CodeHealth.Ignore

/-- The verdict of a line by itself. -/
def lineVerdict (line path : Text) : Except PatternFault (Option Bool) :=
  (patterns [line]).map fun ps ↦ verdict ps path

/-- The path is read as it stands: neither a slash nor a dot for a directory comes first. -/
def IsRelative (path : Text) : Prop :=
  path.head? ≠ some '/' ∧ ¬ ['.', '/'] <+: path

theorem normalPath_eq_self {path : Text} (h : IsRelative path) : normalPath path = path := by
  obtain ⟨hslash, hdot⟩ := h
  unfold normalPath
  split
  · exact absurd rfl hslash
  · exact absurd (by simp) hdot
  · rfl

theorem verdict_singleton (p : Pattern) (path : Text) :
    verdict [p] path =
      if p.matcher.hits (normalPath path) then some p.ignores else none := by
  rw [verdict, List.reverse_singleton, Matcher.hits]
  unfold verdictFrom
  cases p.matcher.run (normalPath path) with
  | none => rfl
  | some marked => cases marked <;> rfl

/-! ## Trimming -/

/-- What stands before a character that is neither white space nor an escape stays. -/
theorem trimLine_append_cons (s : Text) {c : Char} (hc : Text.isBlank c = false) (hesc : c ≠ '\\')
    (t : Text) : trimLine (s ++ c :: t) = s ++ c :: trimLine t := by
  have hspace : c ≠ ' ' := by
    rintro rfl
    exact absurd hc (by decide)
  have hkeep : [' ', '\\'].isPrefixOf (s ++ c :: t).reverse =
      [' ', '\\'].isPrefixOf t.reverse := by
    rw [List.reverse_append, List.reverse_cons, List.append_assoc, List.singleton_append]
    match t.reverse with
    | [] => simp [List.isPrefixOf, Ne.symm hspace]
    | [x] => simp [List.isPrefixOf, Ne.symm hesc]
    | x :: y :: more => simp [List.isPrefixOf]
  rw [trimLine, trimLine, hkeep, Text.trimRight_append_cons s hc t]
  split <;> rfl

theorem trimLine_prefix (t : Text) : trimLine t <+: t := by
  rw [trimLine]
  split
  · exact List.prefix_rfl
  · exact Text.trimRight_prefix t

theorem head?_trimLine {t : Text} (h : trimLine t ≠ []) : (trimLine t).head? = t.head? := by
  obtain ⟨more, hmore⟩ := trimLine_prefix t
  rw [← List.head?_append_of_ne_nil _ h, hmore]

theorem trimLine_ne_nil {t : Text} {c : Char} (hc : Text.isBlank c = false) (hmem : c ∈ t) :
    trimLine t ≠ [] := by
  obtain ⟨s, more, rfl⟩ := List.append_of_mem hmem
  rw [trimLine]
  split
  · simp
  · simp [Text.trimRight_append_cons s hc]

/-- A text that does not end in white space stays as it is. -/
theorem trimLine_concat (s : Text) {c : Char} (hc : Text.isBlank c = false) :
    trimLine (s ++ [c]) = s ++ [c] := by
  rw [trimLine, Text.trimRight_append_cons s hc]
  split <;> rfl

theorem trimLine_of_forall_isBlank {t : Text} (h : ∀ c ∈ t, Text.isBlank c = true) :
    trimLine t = [] := by
  rw [trimLine, if_neg, Text.trimRight, List.reverse_eq_nil_iff, List.dropWhile_eq_nil_iff]
  · simpa using h
  · intro hkeep
    have hesc : '\\' ∈ t := by
      rw [← List.mem_reverse]
      exact (List.isPrefixOf_iff_prefix.mp hkeep).subset (by simp)
    exact absurd (h _ hesc) (by decide)

/-! ## Reading -/

/-- The mark in front of a pattern. -/
def mark (negated : Bool) : Text :=
  if negated then ['!'] else []

/-- Whether a line includes paths again. -/
def isNegated (line : Text) : Bool :=
  line.head? == some '!'

/-- What stands behind the mark of a line. -/
def patternOf (line : Text) : Text :=
  if isNegated line then line.drop 1 else line

theorem mark_append_patternOf (line : Text) : mark (isNegated line) ++ patternOf line = line := by
  cases line with
  | nil => rfl
  | cons c line =>
    by_cases hc : c = '!'
    · simp [mark, patternOf, isNegated, hc]
    · simp [mark, patternOf, isNegated, hc]

/-- Whether the pattern of a line begins with a slash. -/
def isLed (line : Text) : Bool :=
  (patternOf line).head? == some '/'

/-- What stands behind the mark and the slash of a line. -/
def coreOf (line : Text) : Text :=
  if isLed line then (patternOf line).drop 1 else patternOf line

/-- The slash in front of a pattern. -/
def lead (led : Bool) : Text :=
  if led then ['/'] else []

theorem lead_append_coreOf (line : Text) : lead (isLed line) ++ coreOf line = patternOf line := by
  cases h : patternOf line with
  | nil => simp [lead, coreOf, isLed, h]
  | cons c t =>
    by_cases hc : c = '/'
    · simp [lead, coreOf, isLed, h, hc]
    · simp [lead, coreOf, isLed, h, hc]

theorem trimLine_mark_append (negated : Bool) (t : Text) :
    trimLine (mark negated ++ t) = mark negated ++ trimLine t := by
  cases negated with
  | false => rfl
  | true => exact trimLine_append_cons [] (by decide) (by decide) t

theorem trimLine_patternOf (line : Text) :
    trimLine (patternOf line) = lead (isLed line) ++ trimLine (coreOf line) := by
  rw [← lead_append_coreOf line]
  cases isLed line with
  | false => rfl
  | true => exact trimLine_append_cons [] (by decide) (by decide) (coreOf line)

/-- The verdict of a line whose pattern hits a path or not. A line with an open bracket has none,
and one that ends in an escape or has a range in the wrong order is not understood. -/
def judge (line : Text) (ignores : Bool) :
    Except SegmentFault Bool → Except PatternFault (Option Bool)
  | .ok hit => .ok (if hit then some ignores else none)
  | .error .bracket => .ok none
  | .error .escape => .error (.invalid line)
  | .error (.range lo hi) => .error (.range lo hi)

theorem judge_eq_ok_iff {line line' : Text} {ignores : Bool} {hit : Except SegmentFault Bool}
    {v : Option Bool} : judge line ignores hit = .ok v ↔ judge line' ignores hit = .ok v := by
  rcases hit with (_ | _ | _) | _ <;> simp [judge]

theorem judge_eq_some_iff {line : Text} {ignores v : Bool} {hit : Except SegmentFault Bool} :
    judge line ignores hit = .ok (some v) ↔ hit = .ok true ∧ ignores = v := by
  rcases hit with (_ | _ | _) | (_ | _) <;> simp [judge]

/-- Whether the segments of a trimmed pattern hit a path. -/
def patternHits (t path : Text) : Except SegmentFault Bool :=
  (Matcher.ofSegments (t.getLast? == some '/') (segments t)).bind (·.outcome path)

theorem lineVerdict_mark_append {negated : Bool} {t : Text} (ht : trimLine t ≠ [])
    (hplain : negated = false →
      t.head? ≠ some '!' ∧ t.head? ≠ some '#' ∧ trimLine t ≠ ['/']) (path : Text) :
    lineVerdict (mark negated ++ t) path =
      judge (mark negated ++ t) (!negated) (patternHits (trimLine t) (normalPath path)) := by
  have hread : ((mark negated ++ trimLine t).isEmpty ||
      (mark negated ++ trimLine t).head? == some '#' || mark negated ++ trimLine t == ['/']) =
        false := by
    cases negated with
    | true => simp [mark]
    | false =>
      obtain ⟨-, hcomment, hslash⟩ := hplain rfl
      simp [mark, ht, head?_trimLine ht, hcomment, hslash]
  have hignores : ((mark negated ++ trimLine t).head? != some '!') = !negated := by
    cases negated with
    | true => simp [mark]
    | false => simpa [mark, head?_trimLine ht] using (hplain rfl).1
  have hbody : (if (!negated) = true then mark negated ++ trimLine t
      else (mark negated ++ trimLine t).drop 1) = trimLine t := by
    cases negated <;> simp [mark]
  rw [lineVerdict, patterns, Pattern.parse, trimLine_mark_append, patternHits]
  simp only [hread, hignores, hbody, Bool.false_eq_true, if_false, List.isEmpty_iff, ht]
  have houtcome : (Matcher.ofSegments ((trimLine t).getLast? == some '/')
      (segments (trimLine t))).bind (·.outcome (normalPath path)) =
      ((Matcher.ofSegments ((trimLine t).getLast? == some '/')
        (segments (trimLine t))).bind Matcher.checked).map (·.hits (normalPath path)) := by
    cases Matcher.ofSegments ((trimLine t).getLast? == some '/') (segments (trimLine t)) <;> rfl
  rw [houtcome]
  rcases (Matcher.ofSegments ((trimLine t).getLast? == some '/')
    (segments (trimLine t))).bind Matcher.checked with (_ | _ | _) | m
  · rfl
  · rfl
  · rfl
  · exact congrArg Except.ok (verdict_singleton ⟨!negated, m⟩ path)

theorem lineVerdict_comment (t path : Text) : lineVerdict ('#' :: t) path = .ok none := by
  have htrim : trimLine ('#' :: t) = '#' :: trimLine t :=
    trimLine_append_cons [] (by decide) (by decide) t
  have hparse : Pattern.parse ('#' :: t) = .ok none := by simp [Pattern.parse, htrim]
  rw [lineVerdict, patterns, hparse]
  rfl

/-- The verdict of a line whose pattern is neither blank nor a lone slash. -/
theorem lineVerdict_eq {line : Text} (hcomment : line.head? ≠ some '#')
    (hne : trimLine (patternOf line) ≠ []) (hslash : trimLine (patternOf line) ≠ ['/'])
    (path : Text) :
    lineVerdict line path =
      judge line (!isNegated line) (patternHits (trimLine (patternOf line)) (normalPath path)) := by
  have hread : isNegated line = false → (patternOf line).head? ≠ some '!' ∧
      (patternOf line).head? ≠ some '#' ∧ trimLine (patternOf line) ≠ ['/'] := by
    intro hmark
    have hself : patternOf line = line := by simp [patternOf, hmark]
    rw [hself]
    exact ⟨by simpa [isNegated] using hmark, hcomment, hself ▸ hslash⟩
  have hverdict := lineVerdict_mark_append hne hread path
  rwa [mark_append_patternOf] at hverdict

end CodeHealth.Ignore
